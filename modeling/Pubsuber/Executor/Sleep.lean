import Pubsuber.Ack.Deadlines
import Pubsuber.Executor.Isolation
import Pubsuber.Library.Earliest

/-!
# The sleep between two rounds

Each iterator with nothing to extend asks for half of the smallest interval it
needs to extend in, and the thread sleeps for the least of these. An iterator
that has extended something asks for nothing, like one without ids, so its
deadlines are safe only if they outlast what the others have asked for.
-/

namespace Pubsuber

open HashContainer

/-- Half of the interval an id needs to be extended in, which is looked at up to
`kSoManyMilliseconds`. -/
def AckWatchDescriptior.wait (descr : AckWatchDescriptior) (pseudoNow : TimePoint) : ℤ :=
  min kSoManyMilliseconds (descr.extendIn pseudoNow) / 2

/-- The waits of the watched ids, none if one of them is due. -/
def waits (keepAlive : WatchDescrContainer) (gracePeriod : ℤ) (pseudoNow : TimePoint) : Set ℤ :=
  {ms | (∀ ackID, ¬ Due keepAlive gracePeriod pseudoNow ackID) ∧
    ∃ entry ∈ keepAlive.toList, entry.2.wait pseudoNow = ms}

theorem AckWatchDescriptior.wait_lt (descr : AckWatchDescriptior) (pseudoNow : TimePoint) :
    descr.wait pseudoNow < kSoManyMilliseconds := by
  have := min_le_left kSoManyMilliseconds (descr.extendIn pseudoNow)
  unfold wait
  unfold kSoManyMilliseconds at *
  omega

section Modify

variable (order : HashOrder) (keepAlive : WatchDescrContainer) (gracePeriod : ℤ)
variable (pseudoNow : TimePoint)

theorem giveMeTheKeys_sleepTime
    (hnone : ∀ ackID, ¬ Due keepAlive gracePeriod pseudoNow ackID) :
    (giveMeTheKeys order keepAlive .empty (extendNow gracePeriod pseudoNow)
      kSoManyMilliseconds).2 =
        keepAlive.toList.foldl (fun sleepTime entry =>
          min sleepTime (entry.2.extendIn pseudoNow)) kSoManyMilliseconds := by
  have hloop : ∀ (entries : List (AckID × AckWatchDescriptior)) (acc : AckIDPackSet × ℤ),
      (∀ entry ∈ entries, ¬ entry.2.extendIn pseudoNow ≤ gracePeriod * 1000) →
      (entries.foldl (fun acc pair =>
        let taken := extendNow gracePeriod pseudoNow acc.2 pair.2
        (if taken.1 then acc.1.emplace order (pair.1, pair.1) else acc.1, taken.2)) acc).2 =
      entries.foldl (fun sleepTime entry => min sleepTime (entry.2.extendIn pseudoNow))
        acc.2 := by
    intro entries
    induction entries with
    | nil => exact fun _ _ => rfl
    | cons entry entries ih =>
      intro acc h
      have hlate := not_le.mp (h entry List.mem_cons_self)
      rw [List.foldl_cons, List.foldl_cons, ih _ fun e he => h e (List.mem_cons_of_mem _ he)]
      simp [extendNow, hlate]
  apply hloop
  intro entry hentry hle
  exact hnone entry.1 ⟨entry.2, hentry, hle⟩

/-- Half of the minimum is the least of the halves. -/
theorem isLeast_waits (hnone : ∀ ackID, ¬ Due keepAlive gracePeriod pseudoNow ackID)
    (hne : keepAlive.toList ≠ []) :
    IsLeast (waits keepAlive gracePeriod pseudoNow)
      (keepAlive.toList.foldl (fun sleepTime entry =>
        min sleepTime (entry.2.extendIn pseudoNow)) kSoManyMilliseconds / 2) := by
  obtain ⟨hmem, hle⟩ := Earliest.isLeast_foldl_min
    (fun entry : AckID × AckWatchDescriptior => entry.2.extendIn pseudoNow) keepAlive.toList
    kSoManyMilliseconds
  generalize keepAlive.toList.foldl (fun sleepTime entry =>
    min sleepTime (entry.2.extendIn pseudoNow)) kSoManyMilliseconds = s at hmem hle ⊢
  have hbound : s ≤ kSoManyMilliseconds := hle (Set.mem_insert _ _)
  have hentry : ∀ entry ∈ keepAlive.toList, s ≤ entry.2.extendIn pseudoNow :=
    fun entry he => hle (Set.mem_insert_of_mem _ ⟨entry, he, rfl⟩)
  constructor
  · refine ⟨hnone, ?_⟩
    rcases hmem with hs | ⟨entry, he, hs⟩
    · -- every id is at least so far away
      obtain ⟨entry, he⟩ := List.exists_mem_of_ne_nil keepAlive.toList hne
      have hfar := hentry entry he
      rw [hs] at hfar ⊢
      exact ⟨entry, he, by rw [AckWatchDescriptior.wait, min_eq_left hfar]⟩
    · exact ⟨entry, he, by rw [AckWatchDescriptior.wait, hs, min_eq_right hbound]⟩
  · rintro ms ⟨-, entry, he, rfl⟩
    exact Int.ediv_le_ediv (by decide) (le_min hbound (hentry entry he))

theorem modifyAckDeadlines_sleep (subscriptionName : String) (dl : ℤ)
    (results : List CallResult) {sleep : ℤ}
    (h : ((modifyAckDeadlines order subscriptionName dl gracePeriod pseudoNow).run keepAlive
      results).ending = .returned sleep) :
    IsLeast (insert kSoManyMilliseconds (waits keepAlive gracePeriod pseudoNow)) sleep := by
  have hdue := mem_keys_toModify order keepAlive gracePeriod pseudoNow kSoManyMilliseconds
  rcases modifyAckDeadlines_cases order subscriptionName dl gracePeriod pseudoNow keepAlive
    results with ⟨hempty, hp⟩ | ⟨hne, hnone, hp⟩ | ⟨hsome, hp⟩
  · rw [hp] at h
    have hnil : keepAlive.toList = [] := List.map_eq_nil_iff.mp hempty
    have hwaits : waits keepAlive gracePeriod pseudoNow = ∅ := by simp [waits, hnil]
    rw [hwaits, ← Ending.returned.inj h]
    simp
  · have hnotDue : ∀ ackID, ¬ Due keepAlive gracePeriod pseudoNow ackID := by
      intro ackID hackID
      rw [← hdue, hnone] at hackID
      exact absurd hackID List.not_mem_nil
    rw [hp, giveMeTheKeys_sleepTime order keepAlive gracePeriod pseudoNow hnotDue] at h
    have hleast := isLeast_waits keepAlive gracePeriod pseudoNow hnotDue
      fun hnil => hne (List.map_eq_nil_iff.mpr hnil)
    rw [← Ending.returned.inj h]
    refine ⟨.inr hleast.1, ?_⟩
    rintro ms (rfl | hms)
    · obtain ⟨-, entry, -, hentry⟩ := hleast.1
      rw [← hentry]
      exact (entry.2.wait_lt pseudoNow).le
    · exact hleast.2 hms
  · rw [hp] at h
    obtain ⟨_, -, hsleep⟩ := Ending.map_eq_returned.mp h
    obtain ⟨ackID, hackID⟩ := List.exists_mem_of_ne_nil _ hsome
    have hwaits : waits keepAlive gracePeriod pseudoNow = ∅ :=
      Set.eq_empty_iff_forall_notMem.mpr fun _ hms => hms.1 ackID ((hdue ackID).mp hackID)
    rw [hwaits, ← hsleep]
    simp

end Modify

theorem forEachActive_min {π : Type} (endingOf : SubscriptionName × π → Ending ℤ) (bound : ℤ)
    (pairs : List (SubscriptionName × π)) {d : ℤ}
    (h : (forEachActive (fun sleep pair => (endingOf pair).map (min · sleep)) bound
      pairs).ending = .returned d) :
    (∀ pair ∈ pairs, (endingOf pair).Returns) ∧
      IsLeast (insert bound {ms | ∃ pair ∈ pairs, endingOf pair = .returned ms}) d := by
  induction pairs generalizing bound with
  | nil =>
    rw [← Ending.returned.inj h]
    simp
  | cons pair pairs ih =>
    rw [forEachActive] at h
    cases hpair : endingOf pair with
    | returned ms =>
      rw [hpair] at h
      obtain ⟨hreturns, hleast⟩ := ih (min ms bound) h
      refine ⟨List.forall_mem_cons.mpr ⟨⟨ms, hpair⟩, hreturns⟩, ?_⟩
      have hset : {v | ∃ p ∈ pair :: pairs, endingOf p = .returned v} =
          insert ms {v | ∃ p ∈ pairs, endingOf p = .returned v} := by
        ext v
        simp [hpair, eq_comm]
      rw [hset]
      rw [min_comm] at hleast
      exact Earliest.isLeast_insert_of_min hleast
    | threw e => simp [hpair, Ending.map] at h
    | terminated => simp [hpair, Ending.map] at h
    | calling => simp [hpair, Ending.map] at h

theorem sendBatches_results_suffix {α : Type} {key : α → AckID} (order : HashOrder)
    (request : List AckID → Request)
    (callback : TimePoint → Unordered key → WatchDescrContainer → WatchDescrContainer)
    (ids : Unordered key) (keepAlive : WatchDescrContainer) (results : List CallResult) :
    (sendBatches order request callback ids keepAlive results).results <:+ results := by
  fun_induction sendBatches order request callback ids keepAlive results with
  | case4 ids keepAlive result results => exact List.suffix_cons result results
  | case5 ids keepAlive result results hne batch call now hok p ih =>
    exact ih.trans (List.suffix_cons result results)
  | _ => exact List.suffix_refl _

/-- The waits that the active iterators ask for. -/
def roundWaits (active : IteratorContainer ModAckIterator) (now : SubscriptionName → TimePoint) :
    Set ℤ :=
  {ms | ∃ pair ∈ active.toList, ms ∈ waits pair.2.keptAlive pair.2.gracePeriod (now pair.1)}

section Round

variable (order : HashOrder) (active : IteratorContainer ModAckIterator)
variable (now : SubscriptionName → TimePoint) (results : SubscriptionName → List CallResult)

theorem ModAckIterator.processModAcks_sleep (it : ModAckIterator) (pseudoNow : TimePoint)
    (results : List CallResult) {sleep : ℤ}
    (h : (it.processModAcks order pseudoNow results).ending = .returned sleep) :
    IsLeast (insert kSoManyMilliseconds (waits it.keptAlive it.gracePeriod pseudoNow)) sleep := by
  obtain ⟨dl, -, -, -, hm, -, -⟩ := it.processModAcks_returned order results pseudoNow h
  exact modifyAckDeadlines_sleep order it.keptAlive it.gracePeriod pseudoNow _ dl _ hm

theorem roundWaits_lt {ms : ℤ} (h : ms ∈ roundWaits active now) : ms < kSoManyMilliseconds := by
  obtain ⟨pair, -, -, entry, -, rfl⟩ := h
  exact entry.2.wait_lt (now pair.1)

/-- `ProcessModAcks` returns the least wait that an iterator asks for. -/
theorem ackRound_sleep {d : ℤ} (h : (ackRound order active now results).ending = .returned d) :
    (∀ pair ∈ active.toList, (ackRoundOf order now results pair).ending.Returns) ∧
      IsLeast (insert kSoManyMilliseconds (roundWaits active now)) d := by
  obtain ⟨hreturns, hmem, hle⟩ := forEachActive_min
    (fun pair => (ackRoundOf order now results pair).ending) kSoManyMilliseconds
    active.toList h
  have hown : ∀ (pair : SubscriptionName × ModAckIterator) (ms : ℤ),
      (ackRoundOf order now results pair).ending = .returned ms →
      IsLeast (insert kSoManyMilliseconds
        (waits pair.2.keptAlive pair.2.gracePeriod (now pair.1))) ms :=
    fun pair _ => pair.2.processModAcks_sleep order (now pair.1) (results pair.1)
  refine ⟨hreturns, ?_, ?_⟩
  · rcases hmem with hd | ⟨pair, hpair, hd⟩
    · exact .inl hd
    · rcases (hown pair d hd).1 with hd | hd
      · exact .inl hd
      · exact .inr ⟨pair, hpair, hd⟩
  · rintro ms (rfl | ⟨pair, hpair, hms⟩)
    · exact hle (Set.mem_insert _ _)
    · obtain ⟨own, hreturned⟩ := hreturns pair hpair
      calc d ≤ own := hle (Set.mem_insert_of_mem _ ⟨pair, hpair, hreturned⟩)
        _ ≤ ms := (hown pair own hreturned).2 (Set.mem_insert_of_mem _ hms)

/-- What a round that returns leaves of the deadlines: an id that was due counts from one of
the results, any other id has the deadline it had. -/
theorem ModAckIterator.processModAcks_deadlines (it : ModAckIterator) (pseudoNow : TimePoint)
    (results : List CallResult)
    (h : (it.processModAcks order pseudoNow results).ending.Returns) :
    let kept := (it.processModAcks order pseudoNow results).iterator.keepAliveAckIDs
    ∃ dl, ackDeadline it.ackDist = some dl ∧
      (∀ ackID, Due it.keptAlive it.gracePeriod pseudoNow ackID → ∃ status start,
        .ok (status, start) ∈ results ∧ kept.lookup ackID = some ⟨start + dl * 1000000000⟩) ∧
      ∀ ackID, ¬ Due it.keptAlive it.gracePeriod pseudoNow ackID →
        kept.lookup ackID = it.keptAlive.lookup ackID := by
  intro kept
  obtain ⟨sleep, hsleep⟩ := h
  obtain ⟨dl, hdl, -, -, hm, -, hkeep⟩ := it.processModAcks_returned order results pseudoNow hsleep
  have hkeep : kept = (modified order it.subscriptionName dl it.gracePeriod pseudoNow
      it.keptAlive (it.nackLoop order results).results).keepAlive := hkeep
  refine ⟨dl, hdl, fun ackID hdue => ?_, fun ackID hdue => ?_⟩
  · obtain ⟨status, start, hmem, -, hlookup⟩ := modified_due order it.subscriptionName dl
      it.gracePeriod pseudoNow it.keptAlive _ hm hdue
    refine ⟨status, start, ?_, hkeep ▸ hlookup⟩
    exact (sendBatches_results_suffix order _ _ _ _ _).subset
      ((sendBatches_results_suffix order _ _ _ _ _).subset hmem)
  · rw [hkeep]
    exact modified_not_due order it.subscriptionName dl it.gracePeriod pseudoNow it.keptAlive _
      hdue

/-- After a sleep of `d` milliseconds from `t` on, no deadline has passed. -/
def SleepsInTime (t : TimePoint) (d : ℤ) : Prop :=
  d ≠ kSoManyMilliseconds → ∀ pair ∈ active.toList, ∀ ackID descr,
    (ackRoundOf order now results pair).iterator.keepAliveAckIDs.lookup ackID = some descr →
      t + d * 1000000 < descr.nextAck

/-- An iterator has something to extend in its round. -/
def Extends (pair : SubscriptionName × ModAckIterator) : Prop :=
  ∃ ackID, Due pair.2.keptAlive pair.2.gracePeriod (now pair.1) ackID

/-- One of the waits that iterators with nothing to extend ask for, begun at `t`, is over
before the ack deadline of this iterator, begun when its round did, and before the deadlines
that it does not extend. -/
def OutlastsAWait (t began : TimePoint) (pair : SubscriptionName × ModAckIterator) : Prop :=
  ∃ ms ∈ roundWaits active now,
    (∀ dl, ackDeadline pair.2.ackDist = some dl →
      t + ms * 1000000 < began + dl * 1000000000) ∧
    ∀ entry ∈ pair.2.keptAlive.toList,
      pair.2.gracePeriod * 1000 < entry.2.extendIn (now pair.1) →
        t + ms * 1000000 < entry.2.nextAck

/-- If there are waits at all, every iterator with something to extend outlasts one. -/
def ExtendingOutlast (t : TimePoint) (began : SubscriptionName → TimePoint) : Prop :=
  (roundWaits active now).Nonempty → ∀ pair ∈ active.toList, Extends now pair →
    OutlastsAWait active now t (began pair.1) pair

/-- The readings of an iterator's round are not older than its beginning. -/
def ReadFrom (began : SubscriptionName → TimePoint) : Prop :=
  ∀ pair ∈ active.toList, began pair.1 ≤ now pair.1 ∧
    ∀ status start, .ok (status, start) ∈ results pair.1 → began pair.1 ≤ start

/-- No wait that an iterator asks for is over before the whole round is. -/
def RoundInTime (t : TimePoint) : Prop :=
  ∀ pair ∈ active.toList, ¬ Extends now pair → ∀ entry ∈ pair.2.keptAlive.toList,
    t < now pair.1 + entry.2.wait (now pair.1) * 1000000

def StandsStill (t : TimePoint) (began : SubscriptionName → TimePoint) : Prop :=
  ∀ pair ∈ active.toList, began pair.1 = t ∧ now pair.1 = t ∧
    ∀ status start, .ok (status, start) ∈ results pair.1 → start = t

variable {order active now results} {d : ℤ} {t : TimePoint} {began : SubscriptionName → TimePoint}

theorem mem_roundWaits {pair : SubscriptionName × ModAckIterator} (hpair : pair ∈ active.toList)
    (hnone : ¬ Extends now pair) {entry : AckID × AckWatchDescriptior}
    (hentry : entry ∈ pair.2.keptAlive.toList) :
    entry.2.wait (now pair.1) ∈ roundWaits active now :=
  ⟨pair, hpair, not_exists.mp hnone, entry, hentry, rfl⟩

theorem lt_extendIn_of_not_extends {pair : SubscriptionName × ModAckIterator}
    (hnone : ¬ Extends now pair) {entry : AckID × AckWatchDescriptior}
    (hentry : entry ∈ pair.2.keptAlive.toList) :
    pair.2.gracePeriod * 1000 < entry.2.extendIn (now pair.1) :=
  not_le.mp fun hle => hnone ⟨entry.1, entry.2, hentry, hle⟩

theorem AckWatchDescriptior.wait_le {descr : AckWatchDescriptior} {gracePeriod : ℤ}
    (hgrace : 0 ≤ gracePeriod) {pseudoNow : TimePoint}
    (hfar : gracePeriod * 1000 < descr.extendIn pseudoNow) :
    pseudoNow + 2 * (descr.wait pseudoNow * 1000000) ≤ descr.nextAck := by
  have hwait : descr.wait pseudoNow * 2 ≤ descr.extendIn pseudoNow := by
    have := min_le_right kSoManyMilliseconds (descr.extendIn pseudoNow)
    unfold wait
    omega
  have hlater := AckWatchDescriptior.lt_nextAck hfar
  have hpositive : 0 ≤ descr.nextAck - pseudoNow := by linarith
  have hle := Int.mul_tdiv_self_le (k := 1000000) hpositive
  unfold AckWatchDescriptior.extendIn at hwait
  linarith

/-- Whatever the clock does: the ids of the iterators with nothing to extend are waited for
as long as the round is quick, the others if they outlast a wait. -/
theorem sleepsInTime_of_outlast (h : (ackRound order active now results).ending = .returned d)
    (hgrace : ∀ pair ∈ active.toList, 0 ≤ pair.2.gracePeriod)
    (hbegan : ReadFrom active now results began) (hquick : RoundInTime active now t)
    (houtlast : ExtendingOutlast active now t began) :
    SleepsInTime order active now results t d := by
  intro hne pair hpair ackID descr hdescr
  obtain ⟨hreturns, hleast⟩ := ackRound_sleep order active now results h
  have hwaits := (Earliest.ne_bound_iff hleast fun _ => roundWaits_lt active now).mp hne
  have hearliest := Earliest.isLeast_of_ne_bound hleast hne
  obtain ⟨dl, hdl, hdue, hnotDue⟩ :=
    pair.2.processModAcks_deadlines order (now pair.1) (results pair.1) (hreturns pair hpair)
  by_cases hlate : Due pair.2.keptAlive pair.2.gracePeriod (now pair.1) ackID
  · obtain ⟨ms, hms, hdeadline, -⟩ := houtlast hwaits pair hpair ⟨ackID, hlate⟩
    have hle := hearliest.2 hms
    have hbefore := hdeadline dl hdl
    obtain ⟨status, start, hmem, hlookup⟩ := hdue ackID hlate
    have hstart := (hbegan pair hpair).2 status start hmem
    rw [Option.some.inj (hdescr.symm.trans hlookup)]
    dsimp only
    linarith
  · have hentry := Unordered.lookup_eq_some.mp ((hnotDue ackID hlate).symm.trans hdescr)
    by_cases hext : Extends now pair
    · obtain ⟨ms, hms, -, hkept⟩ := houtlast hwaits pair hpair hext
      have hle := hearliest.2 hms
      have hbefore := hkept _ hentry (not_le.mp fun hle => hlate ⟨descr, hentry, hle⟩)
      linarith
    · have hle := hearliest.2 (mem_roundWaits hpair hext hentry)
      have hover := hquick pair hpair hext _ hentry
      have hwait := AckWatchDescriptior.wait_le (hgrace pair hpair)
        (lt_extendIn_of_not_extends hext hentry)
      linarith

theorem outlast_of_sleepsInTime (h : (ackRound order active now results).ending = .returned d)
    (hstill : StandsStill active now results t began)
    (hsleeps : SleepsInTime order active now results t d) :
    ExtendingOutlast active now t began := by
  intro hwaits pair hpair hext
  obtain ⟨hreturns, hleast⟩ := ackRound_sleep order active now results h
  have hne := (Earliest.ne_bound_iff hleast fun _ => roundWaits_lt active now).mpr hwaits
  obtain ⟨hbegan, -, hstart⟩ := hstill pair hpair
  obtain ⟨dl, hdl, hdue, hnotDue⟩ :=
    pair.2.processModAcks_deadlines order (now pair.1) (results pair.1) (hreturns pair hpair)
  refine ⟨d, (Earliest.isLeast_of_ne_bound hleast hne).1, fun dl' hdl' => ?_, ?_⟩
  · obtain rfl : dl = dl' := Option.some.inj (hdl.symm.trans hdl')
    obtain ⟨ackID, hlate⟩ := hext
    obtain ⟨status, start, hmem, hlookup⟩ := hdue ackID hlate
    have hbefore := hsleeps hne pair hpair ackID _ hlookup
    rw [hbegan, ← hstart status start hmem]
    rw [← hstart status start hmem] at hbefore
    exact hbefore
  · intro entry hentry hfar
    have hkept := Unordered.lookup_eq_some.mpr hentry
    refine hsleeps hne pair hpair entry.1 entry.2 ((hnotDue _ ?_).trans hkept)
    rintro ⟨descr, hentry', hle⟩
    rw [Option.some.inj (hkept.symm.trans (Unordered.lookup_eq_some.mpr hentry'))] at hfar
    exact absurd hle (not_le.mpr hfar)

theorem roundInTime_of_standsStill
    (hgrace : ∀ pair ∈ active.toList, pair.2.gracePeriod = kMinAckDeadline / 2)
    (hstill : StandsStill active now results t began) : RoundInTime active now t := by
  intro pair hpair hext entry hentry
  have hfar := lt_extendIn_of_not_extends hext hentry
  obtain ⟨-, hnow, -⟩ := hstill pair hpair
  rw [hgrace pair hpair] at hfar
  rw [hnow] at hfar ⊢
  have hgracePeriod : kMinAckDeadline / 2 * 1000 = 5000 := rfl
  have hmin : 5000 < min kSoManyMilliseconds (entry.2.extendIn t) :=
    lt_min (by decide) (hgracePeriod ▸ hfar)
  have hwait : 2500 ≤ entry.2.wait t := by
    unfold AckWatchDescriptior.wait
    omega
  linarith

end Round

/-- One iterator extends an id, the other has an id to be extended in ten minutes. -/
def extendsAndWaits : IteratorContainer ModAckIterator :=
  ⟨[("extends", (ModAckIterator.create "extends" emptyDistribution).addDeadlineWatcher .newestFirst
      "a" 0 |>.mergeInput .newestFirst),
    ("waits", (ModAckIterator.create "waits" emptyDistribution).addDeadlineWatcher .newestFirst
      "b" 600000000000 |>.mergeInput .newestFirst)], by decide⟩

/-- One iterator extends an id to ten seconds, the other asks for a wait of 7.5s. -/
def extendsLonger : IteratorContainer ModAckIterator :=
  ⟨[("extends", (ModAckIterator.create "extends" emptyDistribution).addDeadlineWatcher .newestFirst
      "a" 0 |>.mergeInput .newestFirst),
    ("waits", (ModAckIterator.create "waits" emptyDistribution).addDeadlineWatcher .newestFirst
      "b" 15000000000 |>.mergeInput .newestFirst)], by decide⟩

end Pubsuber
