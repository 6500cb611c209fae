import Pubsuber.Executor.Sleep
import Pubsuber.Executor.Transitions
import Pubsuber.Executor.WakeUp

/-!
# How long the ack thread waits

On a clock that does not run backwards no deadline lies further ahead than the
largest ack deadline, also after rounds that have failed halfway. So the half of an
interval that the thread sleeps for is at most five minutes; it is no shorter than
half of the grace period, since what is due within that is extended at once. And
`kSoManyMilliseconds` never gets as far as the wait.
-/

namespace Pubsuber

open HashContainer StateMachine

/-! ## The deadlines after a round -/

theorem modified_lookup (order : HashOrder) (subscriptionName : String) (dl gracePeriod : ℤ)
    (pseudoNow : TimePoint) (keepAlive : WatchDescrContainer) (results : List CallResult)
    (ackID : AckID) :
    let kept := (modified order subscriptionName dl gracePeriod pseudoNow keepAlive
      results).keepAlive
    kept.lookup ackID = keepAlive.lookup ackID ∨
      ∃ status now, .ok (status, now) ∈ results ∧
        kept.lookup ackID = some ⟨now + dl * 1000000000⟩ := by
  intro kept
  by_cases hsent : ∃ c ∈ (modified order subscriptionName dl gracePeriod pseudoNow keepAlive
      results).calls, c.succeeded = true ∧ ackID ∈ c.request.ackIDs
  · obtain ⟨c, hc, hok, hmem⟩ := hsent
    obtain ⟨i, hi⟩ := List.getElem?_of_mem hc
    obtain ⟨status, now, hresult, -, hlookup⟩ := modified_sent order subscriptionName dl
      gracePeriod pseudoNow keepAlive results hi hok hmem
    exact .inr ⟨status, now, List.mem_of_getElem? hresult, hlookup⟩
  · refine .inl (modified_unsent order subscriptionName dl gracePeriod pseudoNow keepAlive
      results fun c hc hok hmem => hsent ⟨c, hc, hok, hmem⟩)

/-- However a round ends, each deadline it leaves is an old one or counts from a good
answer. -/
theorem ModAckIterator.finishRound_nextAck (order : HashOrder) (it : ModAckIterator)
    (acks nacks : AckIDSet) (pseudoNow : TimePoint) (results : List CallResult)
    {entry : AckID × AckWatchDescriptior}
    (h : entry ∈ (it.finishRound order acks nacks pseudoNow
      results).iterator.keepAliveAckIDs.toList) :
    entry ∈ it.keepAliveAckIDs.toList ∨ ∃ status now dl, .ok (status, now) ∈ results ∧
      dl ≤ kMaxAckDeadline ∧ entry.2.nextAck = now + dl * 1000000000 := by
  have herase : ∀ {c : WatchDescrContainer} {what : AckIDSet}, entry ∈ (eraseKeys c what).toList →
      entry ∈ c.toList := fun hmem => (mem_eraseKeys.mp hmem).1
  have hkeep : entry ∈ ((it.sendPending order acks nacks pseudoNow).run it.keepAliveAckIDs
    results).keepAlive.toList := h
  rcases it.sendPending_cases order acks nacks pseudoNow it.keepAliveAckIDs results with
    ⟨-, hp⟩ | ⟨-, -, hp⟩ | ⟨-, -, -, hp⟩ | ⟨dl, -, -, hdl, hp⟩
  · rw [hp] at hkeep
    exact .inl (herase hkeep)
  · rw [hp] at hkeep
    exact .inl (herase (herase hkeep))
  · rw [hp] at hkeep
    exact .inl (herase (herase hkeep))
  · rw [hp] at hkeep
    have hlookup := Unordered.lookup_eq_some.mpr hkeep
    rcases modified_lookup order it.subscriptionName dl it.gracePeriod pseudoNow
      (eraseKeys (eraseKeys it.keepAliveAckIDs acks) nacks) _ entry.1 with
      hold | ⟨status, now, hmem, hnew⟩
    · exact .inl (herase (herase (Unordered.lookup_eq_some.mp (hold.symm.trans hlookup))))
    · refine .inr ⟨status, now, dl, ?_, (ackDeadline_bounds hdl).2, ?_⟩
      · exact (sendBatches_results_suffix order _ _ _ _ _).subset
          ((sendBatches_results_suffix order _ _ _ _ _).subset hmem)
      · rw [Option.some.inj (hlookup.symm.trans hnew)]

def NoLaterThan (limit : TimePoint) (c : WatchDescrContainer) : Prop :=
  ∀ entry ∈ c.toList, entry.2.nextAck ≤ limit

theorem NoLaterThan.mono {limit limit' : TimePoint} {c : WatchDescrContainer}
    (h : NoLaterThan limit c) (hle : limit ≤ limit') : NoLaterThan limit' c :=
  fun entry hentry => (h entry hentry).trans hle

/-- An iterator with its grace period whose deadlines lie no later than the limit. -/
structure Bounded (limit : TimePoint) (it : ModAckIterator) : Prop where
  grace : it.gracePeriod = 5
  input : NoLaterThan limit it.inputAckIDs
  keepAlive : NoLaterThan limit it.keepAliveAckIDs

namespace Bounded

variable {limit : TimePoint} {it : ModAckIterator} (order : HashOrder)

theorem mono {limit' : TimePoint} (h : Bounded limit it) (hle : limit ≤ limit') :
    Bounded limit' it :=
  ⟨h.grace, h.input.mono hle, h.keepAlive.mono hle⟩

theorem addDeadlineWatcher (h : Bounded limit it) (ackID : AckID) {nextAck : TimePoint}
    (hnext : nextAck ≤ limit) : Bounded limit (it.addDeadlineWatcher order ackID nextAck) := by
  refine ⟨h.grace, fun entry hentry => ?_, h.keepAlive⟩
  rcases (Unordered.mem_insertOrAssign order).mp hentry with rfl | ⟨hold, -⟩
  · exact hnext
  · exact h.input entry hold

theorem done (h : Bounded limit it) (ackID : AckID) (sec : ℤ) (action : DoneAction) :
    Bounded limit (it.done order ackID sec action) := by
  cases action <;> exact ⟨h.grace, h.input, h.keepAlive⟩

theorem mergeInput (h : Bounded limit it) : Bounded limit (it.mergeInput order) := by
  refine ⟨h.grace, by simp [NoLaterThan, ModAckIterator.mergeInput], fun entry hentry => ?_⟩
  have hlookup := Unordered.lookup_eq_some.mpr hentry
  rw [ModAckIterator.mergeInput, Unordered.lookup_merge, Option.or_eq_some_iff] at hlookup
  rcases hlookup with hkept | ⟨-, hnew⟩
  · exact h.keepAlive entry (Unordered.lookup_eq_some.mp hkept)
  · exact h.input entry (Unordered.lookup_eq_some.mp hnew)

theorem finishRound (h : Bounded limit it) (acks nacks : AckIDSet) (pseudoNow : TimePoint)
    (results : List CallResult) (hresults : ∀ status now, .ok (status, now) ∈ results →
      now + kMaxAckDeadline * 1000000000 ≤ limit) :
    Bounded limit (it.finishRound order acks nacks pseudoNow results).iterator := by
  refine ⟨h.grace, h.input, fun entry hentry => ?_⟩
  rcases it.finishRound_nextAck order acks nacks pseudoNow results hentry with
    hold | ⟨status, now, dl, hmem, hdl, hnext⟩
  · exact h.keepAlive entry hold
  · have := hresults status now hmem
    linarith

end Bounded

def SleepInRange (ms : ℤ) : Prop := 2500 ≤ ms ∧ ms ≤ 300000

theorem SleepInRange.ne {ms : ℤ} (h : SleepInRange ms) : ms ≠ kSoManyMilliseconds := by
  unfold SleepInRange at h
  unfold kSoManyMilliseconds
  omega

/-- A round that returns asks for nothing or for a sleep in range. -/
theorem ModAckIterator.finishRound_sleep (order : HashOrder) {it : ModAckIterator}
    (acks nacks : AckIDSet) {pseudoNow : TimePoint} (results : List CallResult) {ms : ℤ}
    (hgrace : it.gracePeriod = 5)
    (hkeep : NoLaterThan (pseudoNow + kMaxAckDeadline * 1000000000) it.keepAliveAckIDs)
    (h : (it.finishRound order acks nacks pseudoNow results).ending = .returned ms) :
    ms = kSoManyMilliseconds ∨ SleepInRange ms := by
  obtain ⟨dl, -, -, -, hm, -, -⟩ := it.finishRound_loops order acks nacks pseudoNow results h
  rcases (modifyAckDeadlines_sleep order _ it.gracePeriod pseudoNow it.subscriptionName dl _
    hm).1 with hms | ⟨hnone, entry, hentry, rfl⟩
  · exact .inl hms
  · right
    have hfar : 5 * 1000 < entry.2.extendIn pseudoNow := by
      by_contra hle
      exact hnone entry.1 ⟨entry.2, hentry, hgrace ▸ not_lt.mp hle⟩
    have hnear : entry.2.extendIn pseudoNow ≤ 600000 := by
      have hle := hkeep entry (mem_eraseKeys.mp (mem_eraseKeys.mp hentry).1).1
      by_contra hlate
      have hlate : kMaxAckDeadline * 1000 < entry.2.extendIn pseudoNow := not_le.mp hlate
      exact absurd (AckWatchDescriptior.lt_nextAck hlate) (not_lt.mpr hle)
    unfold SleepInRange AckWatchDescriptior.wait kSoManyMilliseconds
    omega

namespace AckThread

@[simp] theorem sleep_merge (s : AckThread) (order : HashOrder) :
    (s.merge order).sleep = s.sleep := by
  obtain ⟨heap, hheap⟩ := mergeInputs_heap
    { s with block := s.block.mergeInputToActive order, pc := .merged } order
    { s with block := s.block.mergeInputToActive order, pc := .merged }.active
  rw [merge, hheap]

theorem bounded_mergeInputs {limit : TimePoint} {s : AckThread}
    (h : ∀ it, Bounded limit (s.heap it).iterator) (order : HashOrder)
    (its : List ModAckIteratorPtr) (it : ModAckIteratorPtr) :
    Bounded limit ((s.mergeInputs order its).heap it).iterator := by
  induction its generalizing s with
  | nil => exact h it
  | cons head its ih =>
    refine ih fun it' => ?_
    by_cases hit : it' = head
    · subst hit
      simpa [update] using (h it').mergeInput order
    · simpa [update, Function.update_of_ne hit] using h it'

theorem bounded_merge {limit : TimePoint} {s : AckThread}
    (h : ∀ it, Bounded limit (s.heap it).iterator) (order : HashOrder)
    (it : ModAckIteratorPtr) : Bounded limit ((s.merge order).heap it).iterator := by
  apply bounded_mergeInputs
  exact h

theorem bounded_finishRound {limit : TimePoint} {s : AckThread}
    (h : ∀ it, Bounded limit (s.heap it).iterator) {order : HashOrder} {it : ModAckIteratorPtr}
    {acks nacks : AckIDSet} {pseudoNow : TimePoint} {results : List CallResult} {r : Round}
    (hr : (s.heap it).iterator.finishRound order acks nacks pseudoNow results = r)
    (hresults : ∀ status now, .ok (status, now) ∈ results →
      now + kMaxAckDeadline * 1000000000 ≤ limit) (it' : ModAckIteratorPtr) :
    Bounded limit (Function.update s.heap it
      ⟨r.iterator, (s.heap it).calls ++ r.calls⟩ it').iterator := by
  by_cases hit : it' = it
  · subst hit hr
    simpa using (h it').finishRound order acks nacks pseudoNow results hresults
  · simpa [Function.update_of_ne hit] using h it'

end AckThread

/-! ## The thread on a clock -/

/-- The ack thread with the time of its last step and of its last swap. -/
structure TimedAckThread where
  thread : AckThread
  now : TimePoint
  swapTime : TimePoint

namespace TimedAckThread

def start (object : ModAckIteratorPtr → String × AckDistribution) (now : TimePoint) :
    TimedAckThread := ⟨.start object, now, now⟩

/-- Every event comes with the time it happens at. -/
def step (s : TimedAckThread) : TimePoint × HashOrder × AckThreadEvent → Option TimedAckThread
  | (time, order, e) =>
    (s.thread.step (order, e)).map fun thread =>
      { thread
        now := time
        swapTime := match e with
          | .swapPending => time
          | _ => s.swapTime }

/-- The clock does not run backwards: `Pull` has read it before it registers its ids, and a
round reads it after its swap and before it is over. -/
def Timely (s : TimedAckThread) : TimePoint × HashOrder × AckThreadEvent → Prop
  | (time, _, .addDeadlineWatcher _ _ nextAck) => s.now ≤ time ∧
    nextAck ≤ time + kMinAckDeadline * 1000000000 - 1000000000
  | (time, _, .finishRound pseudoNow results) => s.now ≤ time ∧ s.swapTime ≤ pseudoNow ∧
    ∀ result ∈ results, ∀ answer ∈ result.toOption, answer.2 ≤ time
  | (time, _, _) => s.now ≤ time

/-- What the thread has been asked to sleep for, by where it is. -/
def Asked (s : AckThread) : Prop :=
  match s.pc with
  | .processing _ sleep | .inRound _ _ _ _ sleep => sleep = kSoManyMilliseconds ∨ SleepInRange sleep
  | .loopHead | .stuck _ | .stopped => True
  | _ => s.sleep ≠ kSoManyMilliseconds

structure Paced (s : TimedAckThread) : Prop where
  bounded : ∀ it, Bounded (s.now + kMaxAckDeadline * 1000000000) (s.thread.heap it).iterator
  swapped : s.swapTime ≤ s.now
  round : ∀ it acks nacks rest sleep, s.thread.pc = .inRound it acks nacks rest sleep →
    NoLaterThan (s.swapTime + kMaxAckDeadline * 1000000000)
      (s.thread.heap it).iterator.keepAliveAckIDs
  slept : if s.thread.needSleep then SleepInRange s.thread.sleep
    else s.thread.sleep = kSoManyMilliseconds ∨ s.thread.sleep = 500
  asked : Asked s.thread

namespace Paced

variable {s t : TimedAckThread} {time : TimePoint} {order : HashOrder}

theorem update (h : Paced s) (htime : s.now ≤ time) (it : ModAckIteratorPtr)
    {f : ModAckIterator → ModAckIterator}
    (hbounded : Bounded (time + kMaxAckDeadline * 1000000000)
      (s.thread.heap it).iterator → Bounded (time + kMaxAckDeadline * 1000000000)
      (f (s.thread.heap it).iterator))
    (hkeep : (f (s.thread.heap it).iterator).keepAliveAckIDs =
      (s.thread.heap it).iterator.keepAliveAckIDs) :
    Paced { s with thread := s.thread.update it f, now := time } := by
  have hlimit : s.now + kMaxAckDeadline * 1000000000 ≤ time + kMaxAckDeadline * 1000000000 := by
    linarith
  refine ⟨fun it' => ?_, h.swapped.trans htime, ?_, h.slept, h.asked⟩
  · by_cases hit : it' = it
    · subst hit
      simpa [AckThread.update] using hbounded ((h.bounded it').mono hlimit)
    · simpa [AckThread.update, Function.update_of_ne hit] using (h.bounded it').mono hlimit
  · intro it' acks nacks rest sleep hpc
    have hround := h.round it' acks nacks rest sleep hpc
    by_cases hit : it' = it
    · subst hit
      simpa [AckThread.update, hkeep] using hround
    · simpa [AckThread.update, Function.update_of_ne hit] using hround

theorem move (h : Paced s) (htime : s.now ≤ time) {thread : AckThread}
    (hbounded : (∀ it, Bounded (time + kMaxAckDeadline * 1000000000)
      (s.thread.heap it).iterator) →
      ∀ it, Bounded (time + kMaxAckDeadline * 1000000000) (thread.heap it).iterator)
    (hpc : ∀ it acks nacks rest sleep, thread.pc ≠ .inRound it acks nacks rest sleep)
    (hslept : if thread.needSleep then SleepInRange thread.sleep
      else thread.sleep = kSoManyMilliseconds ∨ thread.sleep = 500)
    (hasked : Asked thread) : Paced { s with thread, now := time } where
  bounded := hbounded fun it => (h.bounded it).mono (by linarith)
  swapped := h.swapped.trans htime
  round it acks nacks rest sleep hround := absurd hround (hpc it acks nacks rest sleep)
  slept := hslept
  asked := hasked

theorem stay (h : Paced s) (htime : s.now ≤ time) {thread : AckThread}
    (hheap : thread.heap = s.thread.heap) (hpc : thread.pc = s.thread.pc)
    (hneed : thread.needSleep = s.thread.needSleep) (hsleep : thread.sleep = s.thread.sleep) :
    Paced { s with thread, now := time } where
  bounded it := by
    rw [hheap]
    exact (h.bounded it).mono (by linarith)
  swapped := h.swapped.trans htime
  round := by
    rw [hheap, hpc]
    exact h.round
  slept := by
    rw [hneed, hsleep]
    exact h.slept
  asked := by
    unfold Asked
    rw [hpc, hsleep]
    exact h.asked

theorem answered_of_timely {results : List CallResult}
    (hresults : ∀ result ∈ results, ∀ answer ∈ result.toOption, answer.2 ≤ time)
    (status : Status) (now : TimePoint) (hmem : .ok (status, now) ∈ results) :
    now + kMaxAckDeadline * 1000000000 ≤ time + kMaxAckDeadline * 1000000000 := by
  have hle := hresults _ hmem (status, now) rfl
  linarith

theorem enter (h : Paced s) (htime : s.now ≤ time) :
    Paced { s with
      thread := { s.thread with
        sleep := if s.thread.sleep = kSoManyMilliseconds then 500 else s.thread.sleep
        pc := .removing }
      now := time } := by
  have hslept := h.slept
  by_cases hmany : s.thread.sleep = kSoManyMilliseconds
  · have hneed : s.thread.needSleep = false := by
      by_contra hneed
      rw [if_pos (by simpa using hneed)] at hslept
      exact hslept.ne hmany
    refine h.move htime (fun hb => hb) (by simp) ?_ ?_
    · simp [hneed, hmany]
    · simp [Asked, hmany, kSoManyMilliseconds]
  · refine h.move htime (fun hb => hb) (by simp) ?_ ?_
    · simpa [hmany] using hslept
    · simp [Asked, hmany]

theorem swapPending (h : Paced s) (htime : s.now ≤ time) {it : ModAckIteratorPtr}
    {rest : List ModAckIteratorPtr} {sleep : ℤ}
    (hpc : s.thread.pc = .processing (it :: rest) sleep) :
    Paced
      { thread := { s.thread.update it fun _ => (s.thread.heap it).iterator.swapPending.1 with
          pc := .inRound it (s.thread.heap it).iterator.swapPending.2.1
            (s.thread.heap it).iterator.swapPending.2.2 rest sleep }
        now := time
        swapTime := time } := by
  have hasked := h.asked
  unfold Asked at hasked
  rw [hpc] at hasked
  have hswapped : Paced { s with
      thread := s.thread.update it fun _ => (s.thread.heap it).iterator.swapPending.1
      now := time } :=
    h.update htime it (fun hb => ⟨hb.grace, hb.input, hb.keepAlive⟩) rfl
  exact {
    bounded := hswapped.bounded
    swapped := le_rfl
    round := fun it' _ _ _ _ _ => (hswapped.bounded it').keepAlive
    slept := h.slept
    asked := hasked }

theorem finishRound (h : Paced s) {pseudoNow : TimePoint} {results : List CallResult}
    (htimely : s.Timely (time, order, .finishRound pseudoNow results)) {it : ModAckIteratorPtr}
    {acks nacks : AckIDSet} {rest : List ModAckIteratorPtr} {sleep ms : ℤ}
    (hpc : s.thread.pc = .inRound it acks nacks rest sleep) {r : Round}
    (hr : (s.thread.heap it).iterator.finishRound order acks nacks pseudoNow results = r)
    (hending : r.ending = .returned ms) :
    Paced { s with
      thread := { s.thread with
        heap := Function.update s.thread.heap it
          ⟨r.iterator, (s.thread.heap it).calls ++ r.calls⟩
        pc := .processing rest (min ms sleep) }
      now := time } := by
  obtain ⟨htime, hswap, hresults⟩ := htimely
  have hasked := h.asked
  unfold Asked at hasked
  rw [hpc] at hasked
  have hround := ModAckIterator.finishRound_sleep order acks nacks results (h.bounded it).grace
    ((h.round it acks nacks rest sleep hpc).mono (by linarith)) (hr ▸ hending)
  refine h.move htime (fun hb => AckThread.bounded_finishRound hb hr
    (answered_of_timely hresults)) (by simp) h.slept ?_
  rcases min_choice ms sleep with hmin | hmin
  · simpa [Asked, hmin] using hround
  · simpa [Asked, hmin] using hasked

theorem step (h : Paced s) {e : AckThreadEvent} (htimely : s.Timely (time, order, e))
    (hst : s.step (time, order, e) = some t) : Paced t := by
  obtain ⟨thread, hthread, rfl⟩ := Option.map_eq_some_iff.mp hst
  have hasked := h.asked
  have hslept := h.slept
  unfold Asked at hasked
  cases AckThread.transition_of_step hthread with
  | addDeadlineWatcher it ackID nextAck =>
    obtain ⟨htime, hnext⟩ := htimely
    refine h.update htime it (fun hb => hb.addDeadlineWatcher order ackID ?_) rfl
    unfold kMinAckDeadline at hnext
    unfold kMaxAckDeadline
    linarith
  | done it ackID sec action =>
    exact h.update htimely it (fun hb => hb.done order ackID sec action) (by cases action <;> rfl)
  | addIterator | removeIterator | setNeedStop | notifyUnheard =>
    exact h.stay htimely rfl rfl rfl rfl
  | notifyWaiting hpc | removeFromActive hpc | wait _ hpc | wake _ hpc =>
    rw [hpc] at hasked
    exact h.move htimely (fun hb => hb) (by simp) hslept hasked
  | stop | startOver => exact h.move htimely (fun hb => hb) (by simp) hslept trivial
  | enter => exact h.enter htimely
  | merge _ hpc | mergeAwake _ hpc =>
    rw [hpc] at hasked
    refine h.move htimely (fun hb => AckThread.bounded_merge hb order) (by simp) ?_ ?_
    · simpa using hslept
    · simpa [Asked] using hasked
  | connect => exact h.move htimely (fun hb => hb) (by simp) (.inl rfl) (.inl rfl)
  | swapPending it rest sleep hpc => exact h.swapPending htimely hpc
  | finishRound pseudoNow results it acks nacks rest sleep ms hpc r hr hending =>
    exact h.finishRound htimely hpc hr hending
  | throwRound _ _ _ _ _ _ _ _ _ _ hr | hangInRound _ _ _ _ _ _ _ _ _ hr =>
    obtain ⟨htime, -, hresults⟩ := htimely
    exact h.move htime (fun hb => AckThread.bounded_finishRound hb hr
      (answered_of_timely hresults)) (by simp) hslept trivial
  | endLoop sleep hpc =>
    rw [hpc] at hasked
    refine h.move htimely (fun hb => hb) (by simp) ?_ trivial
    rcases hasked with rfl | hrange
    · simp
    · simpa [hrange.ne] using hrange

end Paced

theorem paced_start (object : ModAckIteratorPtr → String × AckDistribution) (now : TimePoint) :
    Paced (start object now) where
  bounded it := by
    refine ⟨rfl, ?_, ?_⟩ <;>
      simp [NoLaterThan, start, AckThread.start, ModAckIterator.create]
  swapped := le_rfl
  round := by simp [start, AckThread.start]
  slept := .inl rfl
  asked := trivial

/-- When the thread waits, it waits for half a second or for a sleep that a round has asked
for, which is between two and a half seconds and five minutes. -/
theorem sleep_of_waiting {object : ModAckIteratorPtr → String × AckDistribution}
    {now : TimePoint} {events : List (TimePoint × HashOrder × AckThreadEvent)}
    {s : TimedAckThread} (h : run step (start object now) events = some s)
    (htimely : Along step Timely (start object now) events) (hwaiting : s.thread.pc = .waiting) :
    if s.thread.needSleep then SleepInRange s.thread.sleep else s.thread.sleep = 500 := by
  have hpaced : Paced s := by
    refine run_invariant_along Paced ?_ h htimely (paced_start object now)
    rintro s ⟨time, order, e⟩ t hs hallowed hst
    exact hs.step hallowed hst
  have hslept := hpaced.slept
  have hasked := hpaced.asked
  unfold Asked at hasked
  rw [hwaiting] at hasked
  split_ifs at hslept ⊢
  · exact hslept
  · exact hslept.resolve_left hasked

instance (s : TimedAckThread) :
    (e : TimePoint × HashOrder × AckThreadEvent) → Decidable (s.Timely e)
  | (_, _, .addDeadlineWatcher _ _ _) => inferInstanceAs (Decidable (_ ∧ _))
  | (_, _, .finishRound _ _) => inferInstanceAs (Decidable (_ ∧ _ ∧ _))
  | (_, _, .done _ _ _ _) | (_, _, .addIterator _ _) | (_, _, .removeIterator _)
  | (_, _, .setNeedStop) | (_, _, .notify) | (_, _, .test) | (_, _, .removeFromActive)
  | (_, _, .check) | (_, _, .wake _) | (_, _, .lockAgain) | (_, _, .connect)
  | (_, _, .swapPending) | (_, _, .endLoop) => inferInstanceAs (Decidable (_ ≤ _))

/-- An id that is watched from second one on has to be extended by second ten. -/
def watchedOnce : List (TimePoint × HashOrder × AckThreadEvent) :=
  [(0, .newestFirst, .addIterator "s" 0), (0, .newestFirst, .test),
    (0, .newestFirst, .removeFromActive), (0, .newestFirst, .check),
    (1000000000, .newestFirst, .addDeadlineWatcher 0 "a" 10000000000),
    (1000000000, .newestFirst, .notify), (1000000000, .newestFirst, .lockAgain),
    (1000000000, .newestFirst, .connect), (1000000000, .newestFirst, .swapPending),
    (2000000000, .newestFirst, .finishRound 2000000000 []), (2000000000, .newestFirst, .endLoop),
    (2000000000, .newestFirst, .test), (2000000000, .newestFirst, .removeFromActive),
    (2000000000, .newestFirst, .check)]

theorem sleep_of_waiting_watchedOnce :
    ∃ s, run step (start (fun _ => ("s", emptyDistribution)) 0) watchedOnce = some s ∧
      s.thread.sleep = 4000 ∧
      if s.thread.needSleep then SleepInRange s.thread.sleep else s.thread.sleep = 500 := by
  have heval : (run step (start (fun _ => ("s", emptyDistribution)) 0) watchedOnce).map
      (fun s => AckThread.AckPc.isWaiting s.thread.pc && s.thread.sleep == 4000) = some true := by
    decide +kernel
  obtain ⟨s, hrun, hs⟩ := Option.map_eq_some_iff.mp heval
  rw [Bool.and_eq_true, beq_iff_eq] at hs
  exact ⟨s, hrun, hs.2, sleep_of_waiting hrun (by decide +kernel)
    (AckThread.AckPc.isWaiting_iff.mp hs.1)⟩

end TimedAckThread

end Pubsuber
