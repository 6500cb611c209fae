import Pubsuber.Executor.Steady

/-!
# Work that comes in time

The thread collects what it finds: pending sets at the swaps of a round, inputs at a
merge, `_needStop` at the head of its loop. What comes after that and before a wait is
slept on, unless the counts keep the thread from waiting. So it depends on where in the
loop an event falls whether the thread learns of it.
-/

namespace Pubsuber

open HashContainer StateMachine

/-- The iterators whose swaps of the iteration are still to come. -/
def AckPc.swapsLeft : AckPc → List ModAckIteratorPtr
  | .processing rest _ => rest
  | .inRound _ _ _ rest _ => rest
  | _ => []

/-- The rounds so far ask for a sleep. -/
def AckPc.asksForSleep : AckPc → Bool
  | .processing _ sleep => sleep != kSoManyMilliseconds
  | _ => false

/-- Between the test of `_needStop` and the wait. -/
def AckPc.beforeWait : AckPc → Bool
  | .removing => true
  | .checking _ => true
  | _ => false

/-- Between the end of an iteration and the wait of the next one. -/
def AckPc.betweenRounds : AckPc → Bool
  | .loopHead => true
  | pc => pc.beforeWait

namespace AckThread

variable {s t : AckThread} {order : HashOrder} {e : AckThreadEvent}

/-- Some id of the iterator shows in the counts before the wait. -/
def Counted (s : AckThread) (it : ModAckIteratorPtr) : Prop :=
  (s.heap it).iterator.inputAckIDs.keys ≠ [] ∨ (s.heap it).iterator.keepAliveAckIDs.keys ≠ []

def Pending (s : AckThread) (it : ModAckIteratorPtr) : Prop :=
  (s.heap it).iterator.pendingAckIDs.keys ≠ [] ∨ (s.heap it).iterator.pendingNackIDs.keys ≠ []

instance (s : AckThread) (it : ModAckIteratorPtr) : Decidable (s.Counted it) :=
  inferInstanceAs (Decidable (_ ∨ _))

instance (s : AckThread) (it : ModAckIteratorPtr) : Decidable (s.Pending it) :=
  inferInstanceAs (Decidable (_ ∨ _))

/-- At this place the iterator has its swap ahead, before the thread waits again. -/
def CollectsAt (s : AckThread) (it : ModAckIteratorPtr) : AckPc → Prop
  | .loopHead => s.needSleep = false ∧ s.Counted it
  | .removing => s.needSleep = false ∧ s.Counted it
  | .checking _ => s.needSleep = false ∧ s.Counted it
  | .woken timeout => timeout = false ∨ s.needSleep = true ∨ s.Counted it
  | .processing rest _ => it ∈ rest
  | .inRound _ _ _ rest _ => it ∈ rest
  | .waiting => True
  | .merged => True
  | .stuck _ => True
  | .stopped => True

def Collects (s : AckThread) (it : ModAckIteratorPtr) : Prop := s.CollectsAt it s.pc

def thrower (s : AckThread) (order : HashOrder) (pseudoNow : TimePoint)
    (results : List CallResult) : Option ModAckIteratorPtr :=
  match s.pc with
  | .inRound it acks nacks _ _ =>
    match ((s.heap it).iterator.finishRound order acks nacks pseudoNow results).ending with
    | .threw _ => some it
    | _ => none
  | _ => none

/-- An event falls where the thread still learns of it. -/
def InTime (s : AckThread) : HashOrder × AckThreadEvent → Prop
  | (_, .setNeedStop) => s.pc.beforeWait = false
  | (_, .addDeadlineWatcher it _ _) =>
    it ∈ s.active → s.pc.betweenRounds = true → s.needSleep = false
  | (_, .done it _ _ _) => it ∈ s.active → s.Collects it
  -- a default sleep that is over before the notification comes starts the loop over
  | (_, .wake timeout) =>
    timeout = true → s.needSleep = false → ∀ it ∈ s.active, s.Pending it → s.Counted it
  -- an exception drops the swaps that are left
  | (order, .finishRound pseudoNow results) =>
    ∀ it ∈ s.thrower order pseudoNow results, ∀ it' ∈ s.pc.swapsLeft,
      s.Pending it' → it' ≠ it ∧ s.Counted it'
  -- what was watched after the merge waits for the next one
  | (_, .endLoop) =>
    s.pc.asksForSleep = true → ∀ it ∈ s.active, (s.heap it).iterator.inputAckIDs.keys = []
  | (_, .check) => s.inputTotal < 2 ^ 32 ∧ s.keepAliveTotal < 2 ^ 64
  | _ => True

instance (s : AckThread) (it : ModAckIteratorPtr) : (pc : AckPc) → Decidable (s.CollectsAt it pc)
  | .loopHead => inferInstanceAs (Decidable (_ ∧ _))
  | .removing => inferInstanceAs (Decidable (_ ∧ _))
  | .checking _ => inferInstanceAs (Decidable (_ ∧ _))
  | .woken _ => inferInstanceAs (Decidable (_ ∨ _))
  | .processing _ _ => inferInstanceAs (Decidable (_ ∈ _))
  | .inRound _ _ _ _ _ => inferInstanceAs (Decidable (_ ∈ _))
  | .waiting => .isTrue trivial
  | .merged => .isTrue trivial
  | .stuck _ => .isTrue trivial
  | .stopped => .isTrue trivial

instance (s : AckThread) (it : ModAckIteratorPtr) : Decidable (s.Collects it) :=
  inferInstanceAs (Decidable (s.CollectsAt it s.pc))

instance (s : AckThread) : (e : HashOrder × AckThreadEvent) → Decidable (s.InTime e)
  | (_, .addDeadlineWatcher _ _ _) => inferInstanceAs (Decidable (_ → _ → _))
  | (_, .done _ _ _ _) => inferInstanceAs (Decidable (_ → _))
  | (_, .setNeedStop) => inferInstanceAs (Decidable (_ = _))
  | (_, .wake _) => inferInstanceAs (Decidable (_ → _ → ∀ it ∈ s.active, _ → _))
  | (_, .finishRound _ _) =>
    inferInstanceAs (Decidable (∀ it ∈ s.thrower _ _ _, ∀ it' ∈ s.pc.swapsLeft, _ → _))
  | (_, .endLoop) => inferInstanceAs (Decidable (_ → ∀ it ∈ s.active, _))
  | (_, .check) => inferInstanceAs (Decidable (_ ∧ _))
  | (_, .addIterator _ _) => .isTrue trivial
  | (_, .removeIterator _) => .isTrue trivial
  | (_, .notify) => .isTrue trivial
  | (_, .test) => .isTrue trivial
  | (_, .removeFromActive) => .isTrue trivial
  | (_, .lockAgain) => .isTrue trivial
  | (_, .connect) => .isTrue trivial
  | (_, .swapPending) => .isTrue trivial

/-- What is left to learn of, by the place of the thread. -/
structure Alert (s : AckThread) : Prop where
  steady : s.Steady
  flag : s.pc.beforeWait = true → s.needStop = false
  collected : s.needStop = false → ∀ it ∈ s.active, s.Pending it → s.Collects it
  merged : s.needStop = false → s.pc.betweenRounds = true → s.needSleep = true →
    ∀ it ∈ s.active, (s.heap it).iterator.inputAckIDs.keys = []

theorem needStop_before (hst : s.step (order, e) = some t) (hrunning : t.needStop = false) :
    s.needStop = false := by
  rw [← Bool.not_eq_true] at hrunning ⊢
  exact fun hstop => hrunning ((needStop_step hst).mpr (.inl hstop))

theorem active_removeFromActive_subset :
    { s with block := s.block.removeFromActive }.active ⊆ s.active :=
  List.map_subset Prod.snd (Unordered.foldl_erase_subset _ _)

theorem Collects.mono {it : ModAckIteratorPtr} (h : s.Collects it) (hpc : t.pc = s.pc)
    (hneed : t.needSleep = s.needSleep) (hcounted : s.Counted it → t.Counted it) :
    t.Collects it := by
  unfold Collects CollectsAt at h ⊢
  rw [hpc, hneed]
  cases hs : s.pc with
  | loopHead | removing | checking =>
    rw [hs] at h
    exact ⟨h.1, hcounted h.2⟩
  | woken timeout =>
    rw [hs] at h
    exact h.imp_right (Or.imp_right hcounted)
  | processing | inRound =>
    rw [hs] at h
    exact h
  | waiting | merged | stuck | stopped => trivial

theorem pending_update_of_ne {it it' : ModAckIteratorPtr} (hne : it' ≠ it)
    (f : ModAckIterator → ModAckIterator) : (s.update it f).Pending it' ↔ s.Pending it' := by
  simp [Pending, update, Function.update_of_ne hne]

theorem counted_update_of_ne {it it' : ModAckIteratorPtr} (hne : it' ≠ it)
    (f : ModAckIterator → ModAckIterator) : (s.update it f).Counted it' ↔ s.Counted it' := by
  simp [Counted, update, Function.update_of_ne hne]

theorem counted_addDeadlineWatcher {it it' : ModAckIteratorPtr} (ackID : AckID)
    (nextAck : TimePoint) (h : s.Counted it') :
    (s.update it (·.addDeadlineWatcher order ackID nextAck)).Counted it' := by
  by_cases hit : it' = it
  · subst hit
    have hmem : ackID ∈ ((s.heap it').iterator.addDeadlineWatcher order ackID
        nextAck).inputAckIDs.keys :=
      (Unordered.mem_keys_insertOrAssign order).mpr (.inl rfl)
    left
    simpa [update] using List.ne_nil_of_mem hmem
  · exact (counted_update_of_ne hit _).mpr h

theorem counted_done {it it' : ModAckIteratorPtr} (ackID : AckID) (sec : ℤ)
    (action : DoneAction) :
    (s.update it (·.done order ackID sec action)).Counted it' ↔ s.Counted it' := by
  by_cases hit : it' = it
  · subst hit
    cases action <;> simp [Counted, update, ModAckIterator.done]
  · exact counted_update_of_ne hit _

theorem not_pending_swapPending (it : ModAckIteratorPtr) :
    ¬ (s.update it fun _ => (s.heap it).iterator.swapPending.1).Pending it := by
  simp [Pending, update, ModAckIterator.swapPending]

theorem pending_finishRound (it it' : ModAckIteratorPtr) (acks nacks : AckIDSet)
    (pseudoNow : TimePoint) (results : List CallResult) (calls : List Call) (pc : AckPc) :
    { s with
      heap := Function.update s.heap it
        ⟨((s.heap it).iterator.finishRound order acks nacks pseudoNow results).iterator, calls⟩
      pc := pc }.Pending it' ↔ s.Pending it' := by
  by_cases hit : it' = it
  · subst hit
    simp [Pending, ModAckIterator.finishRound]
  · simp [Pending, Function.update_of_ne hit]

theorem collects_addDeadlineWatcher {it it' : ModAckIteratorPtr} (h : s.Pending it → s.Collects it)
    (ackID : AckID) (nextAck : TimePoint)
    (hpending : (s.update it' (·.addDeadlineWatcher order ackID nextAck)).Pending it) :
    (s.update it' (·.addDeadlineWatcher order ackID nextAck)).Collects it := by
  have hsame : s.Pending it := by
    by_cases hne : it = it'
    · subst hne
      simpa [Pending, update, ModAckIterator.addDeadlineWatcher] using hpending
    · exact (pending_update_of_ne hne _).mp hpending
  exact (h hsame).mono rfl rfl (counted_addDeadlineWatcher ackID nextAck)

theorem collects_done {it it' : ModAckIteratorPtr} (h : s.Pending it → s.Collects it)
    (hin : it = it' → s.Collects it) (ackID : AckID) (sec : ℤ) (action : DoneAction)
    (hpending : (s.update it' (·.done order ackID sec action)).Pending it) :
    (s.update it' (·.done order ackID sec action)).Collects it := by
  have hbefore : s.Collects it := by
    by_cases hne : it = it'
    · exact hin hne
    · exact h ((pending_update_of_ne hne _).mp hpending)
  exact hbefore.mono rfl rfl (counted_done ackID sec action).mpr

theorem collects_wake {it : ModAckIteratorPtr} {timeout : Bool}
    (hin : timeout = true → s.needSleep = false → s.Counted it) :
    { s with pc := .woken timeout }.Collects it := by
  cases timeout with
  | false => exact .inl rfl
  | true =>
    by_cases hneed : s.needSleep = true
    · exact .inr (.inl hneed)
    · exact .inr (.inr (hin rfl (by simpa using hneed)))

theorem collects_startOver {it : ModAckIteratorPtr} {timeout : Bool} (hs : s.needStop = false)
    (hpc : s.pc = .woken timeout) (hover : s.startsOver timeout = true) (h : s.Collects it) :
    { s with pc := .loopHead }.Collects it := by
  have hdefault : s.needSleep = false ∧ timeout = true := by
    simpa [startsOver, hs] using hover
  rw [Collects, hpc, CollectsAt, hdefault.1, hdefault.2] at h
  have hcounted : s.Counted it := by simpa using h
  exact ⟨hdefault.1, hcounted⟩

/-- The swap takes what is pending; the other iterators with something pending are still to
come. -/
theorem mem_of_collects_swapPending {it it' : ModAckIteratorPtr} {rest : List ModAckIteratorPtr}
    {sleep : ℤ} (hpc : s.pc = .processing (it' :: rest) sleep) (h : s.Pending it → s.Collects it)
    (hpending : (s.update it' fun _ => (s.heap it').iterator.swapPending.1).Pending it) :
    it ∈ rest := by
  have hne : it ≠ it' := by
    rintro rfl
    exact not_pending_swapPending it hpending
  have hbefore := h ((pending_update_of_ne hne _).mp hpending)
  rw [Collects, hpc] at hbefore
  exact (List.mem_cons.mp hbefore).resolve_left hne

theorem thrower_of_threw {it : ModAckIteratorPtr} {acks nacks : AckIDSet}
    {rest : List ModAckIteratorPtr} {sleep : ℤ} {exception : Exception} {pseudoNow : TimePoint}
    {results : List CallResult} (hpc : s.pc = .inRound it acks nacks rest sleep)
    (hending : ((s.heap it).iterator.finishRound order acks nacks pseudoNow results).ending =
      .threw exception) : s.thrower order pseudoNow results = some it := by
  simp [thrower, hpc, hending]

/-- What is resolved in time is collected: a step of the thread either leaves the swap ahead
or makes it, and the counts are there where it gives the swap up. -/
theorem collected_step (h : s.Alert) (hin : s.InTime (order, e))
    (hst : s.step (order, e) = some t) (hrunning : t.needStop = false) :
    ∀ it ∈ t.active, t.Pending it → t.Collects it := by
  have hs : s.needStop = false := needStop_before hst hrunning
  have hcollected := h.collected hs
  intro it hit hpending
  cases transition_of_step hst with
  | addDeadlineWatcher it' ackID nextAck =>
    exact collects_addDeadlineWatcher (hcollected it hit) ackID nextAck hpending
  | done it' ackID sec action =>
    refine collects_done (hcollected it hit) ?_ ackID sec action hpending
    rintro rfl
    exact hin hit
  | addIterator | removeIterator => exact (hcollected it hit hpending).mono rfl rfl id
  | setNeedStop => contradiction
  | notifyUnheard => exact hcollected it hit hpending
  | enter hpc =>
    have hbefore := hcollected it hit hpending
    rw [Collects, hpc] at hbefore
    exact hbefore
  | removeFromActive hpc =>
    have hbefore := hcollected it (active_removeFromActive_subset hit) hpending
    rw [Collects, hpc] at hbefore
    exact hbefore
  | wake timeout hpc =>
    exact collects_wake fun hexpired hneed => hin hexpired hneed it hit hpending
  | startOver timeout hpc hover =>
    exact collects_startOver hs hpc hover (hcollected it hit hpending)
  | merge | mergeAwake =>
    rw [Collects, pc_merge]
    trivial
  | connect => exact hit
  | swapPending it' rest sleep hpc =>
    exact mem_of_collects_swapPending hpc (hcollected it hit) hpending
  | finishRound pseudoNow results it' acks nacks rest sleep ms hpc r hr =>
    subst hr
    have hbefore := hcollected it hit ((pending_finishRound ..).mp hpending)
    rw [Collects, hpc] at hbefore
    exact hbefore
  | throwRound pseudoNow results it' acks nacks rest sleep exception hpc r hr hending =>
    subst hr
    have hsame : s.Pending it := (pending_finishRound ..).mp hpending
    have hbefore := hcollected it hit hsame
    rw [Collects, hpc] at hbefore
    obtain ⟨hne, hcounted⟩ := hin it' (thrower_of_threw hpc hending) it
      (by rw [hpc]; exact hbefore) hsame
    refine ⟨h.steady.awake (by rw [hpc]; rfl), ?_⟩
    simpa [Counted, Function.update_of_ne hne] using hcounted
  | endLoop sleep hpc =>
    have hbefore := hcollected it hit hpending
    rw [Collects, hpc] at hbefore
    contradiction
  | notifyWaiting => exact .inl rfl
  | stop | wait | hangInRound => trivial

theorem flag_step (h : s.Alert) (hin : s.InTime (order, e)) (hst : s.step (order, e) = some t)
    (hpc : t.pc.beforeWait = true) : t.needStop = false := by
  cases transition_of_step hst with
  | setNeedStop =>
    rw [show s.pc.beforeWait = false from hin] at hpc
    contradiction
  | addDeadlineWatcher | done | addIterator | removeIterator | notifyUnheard => exact h.flag hpc
  | enter _ hrunning => exact hrunning
  | removeFromActive hremoving => exact h.flag (by rw [hremoving]; rfl)
  | merge | mergeAwake =>
    rw [pc_merge] at hpc
    contradiction
  | _ => contradiction

/-- What is watched in time is merged: after the round that asks for a sleep no input is
left, and none comes before that sleep. -/
theorem merged_step (h : s.Alert) (hin : s.InTime (order, e))
    (hst : s.step (order, e) = some t) (hrunning : t.needStop = false)
    (hpc : t.pc.betweenRounds = true) (hneed : t.needSleep = true) :
    ∀ it ∈ t.active, (t.heap it).iterator.inputAckIDs.keys = [] := by
  have hs : s.needStop = false := needStop_before hst hrunning
  intro it hit
  cases transition_of_step hst with
  | addDeadlineWatcher it' ackID nextAck =>
    have hne : it ≠ it' := by
      rintro rfl
      exact absurd hneed (by simp [update, hin hit hpc])
    simpa [update, Function.update_of_ne hne] using h.merged hs hpc hneed it hit
  | done it' ackID sec action =>
    have hbefore := h.merged hs hpc hneed it hit
    by_cases hne : it = it'
    · subst hne
      cases action <;> simpa [update, ModAckIterator.done] using hbefore
    · simpa [update, Function.update_of_ne hne] using hbefore
  | addIterator | removeIterator | notifyUnheard => exact h.merged hs hpc hneed it hit
  | setNeedStop => contradiction
  | enter hhead => exact h.merged hs (by rw [hhead]; rfl) hneed it hit
  | removeFromActive hremoving =>
    exact h.merged hs (by rw [hremoving]; rfl) hneed it (active_removeFromActive_subset hit)
  | merge | mergeAwake =>
    rw [pc_merge] at hpc
    contradiction
  | startOver timeout _ hover =>
    have hdefault : s.needSleep = false ∧ timeout = true := by
      simpa [startsOver, hs] using hover
    rw [hdefault.1] at hneed
    contradiction
  | throwRound _ _ _ _ _ _ _ _ hround =>
    have hawake := h.steady.awake (by rw [hround]; rfl)
    rw [hawake] at hneed
    contradiction
  | endLoop sleep hprocessing =>
    exact hin (by rw [hprocessing]; exact hneed) it hit
  | _ => contradiction

theorem alert_step (h : s.Alert) (hin : s.InTime (order, e))
    (hst : s.step (order, e) = some t) : t.Alert where
  steady := steady_step h.steady hst
  flag := flag_step h hin hst
  collected := collected_step h hin hst
  merged := merged_step h hin hst

theorem alert_of_run {object : ModAckIteratorPtr → String × AckDistribution}
    {events : List (HashOrder × AckThreadEvent)} (h : run step (start object) events = some s)
    (hin : Along step InTime (start object) events) : s.Alert := by
  refine run_invariant_along Alert (fun _ _ _ hs hi hst => alert_step hs hi hst) h hin ?_
  refine ⟨steady_of_run (run_nil step (start object)), by simp [start], ?_, ?_⟩
  · simp [start, Pending, ModAckIterator.create]
  · simp [start]

/-- A message comes before the check, and is acknowledged after the merge. -/
def inTime : List (HashOrder × AckThreadEvent) :=
  registered ++ [.addDeadlineWatcher 1 "a" 9000000000, .notify, .test, .removeFromActive, .check,
    .done 1 "a" 1 .ack, .notify, .connect, .swapPending, .finishRound 0 [okAt 0], .endLoop, .test,
    .removeFromActive].map (HashOrder.newestFirst, ·)

end AckThread

end Pubsuber
