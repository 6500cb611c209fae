import Pubsuber.Executor.Removal
import Pubsuber.Executor.Steady

/-!
# The turns of a registered subscription

As long as a subscription is registered the pull thread begins no wait for one, so it
merges what is registered and comes to a round of pulls in every lap of its loop. The
subscription has its turn in the round, unless an iterator before it throws.
-/

namespace Pubsuber

open HashContainer StateMachine

variable {κ : Type}

/-- Nobody stops the thread or removes the subscription. -/
def PullThreadEvent.spares (subscription : SubscriptionName) : PullThreadEvent κ → Bool
  | .setNeedStop => false
  | .removeIterator name => name ≠ subscription
  | _ => true

namespace Slot

variable {π : Type} {s : Slot π}

/-- There is an iterator for the name, merged or not, and it is not to be removed. -/
structure Registered (s : Slot π) : Prop where
  known : s.input.isSome ∨ s.active.isSome
  kept : s.removed = false

theorem Registered.loop (h : s.Registered) (l : LoopStep) : (s.loop l).Registered := by
  obtain ⟨hknown, hkept⟩ := h
  cases l with
  | removeFromActive => exact ⟨by simpa [Slot.loop, remaining, hkept] using hknown, rfl⟩
  | mergeInputToActive => exact ⟨.inr (by simpa [Slot.loop, or_comm] using hknown), hkept⟩

end Slot

namespace PullThread

variable {s t : PullThread κ} {order : HashOrder} {e : PullThreadEvent κ}
  {subscription : SubscriptionName}

def throws (s : PullThread κ) : HashOrder × PullThreadEvent κ → ℕ
  | (_, .pull results _) =>
    match (pullRound s.block.activeIterators results).ending with
    | .returned () => 0
    | _ => 1
  | _ => 0

/-- The most steps the thread takes up to the next turn of a registered subscription, and the
round it has its turn in. -/
def stepsToTurn (subscription : SubscriptionName) (s : PullThread κ) : ℕ :=
  match s.pc with
  | .stopped => 0
  | .stuck => 0
  | .merged => if subscription ∈ s.block.activeIterators.keys then 1 else 6
  | .checking _ => 2
  | .removing => 3
  | .loopHead => 4
  | .woken _ => 5
  | .resting _ => 5
  | .waiting => 6

theorem stepsToTurn_le (subscription : SubscriptionName) (s : PullThread κ) :
    s.stepsToTurn subscription ≤ 6 := by
  unfold stepsToTurn
  split
  case h_3 => split_ifs <;> omega
  all_goals omega

structure Serves (subscription : SubscriptionName) (s : PullThread κ) : Prop where
  steady : s.Steady
  registered : (s.block.slot subscription).Registered
  running : s.needStop = false

theorem registered_step (h : (s.block.slot subscription).Registered)
    (hspares : e.spares subscription = true) (hst : s.step (order, e) = some t) :
    (t.block.slot subscription).Registered := by
  have hloop := fun l => s.block.slot_loop order subscription l
  cases transition_of_step hst with
  | addIterator name it =>
    have hslot := s.block.slot_call order subscription (.addIterator name it)
    split_ifs at hslot
    · exact hslot ▸ ⟨.inl rfl, h.kept⟩
    · exact hslot ▸ h
  | removeIterator name =>
    have hname : name ≠ subscription := by simpa [PullThreadEvent.spares] using hspares
    rw [ThreadDataBlock.slot_removeIterator_of_ne hname]
    exact h
  | removeFromActive =>
    have hslot : s.block.removeFromActive.slot subscription = _ := hloop .removeFromActive
    exact hslot ▸ h.loop .removeFromActive
  | merge | mergeAwake =>
    have hslot : (s.block.mergeInputToActive order).slot subscription = _ :=
      hloop .mergeInputToActive
    exact hslot ▸ h.loop .mergeInputToActive
  | _ => exact h

theorem serves_step (h : Serves subscription s) (hspares : e.spares subscription = true)
    (hst : s.step (order, e) = some t) : Serves subscription t where
  steady := steady_step h.steady hst
  registered := registered_step h.registered hspares hst
  running := by
    rw [needStop_step hst, h.running]
    rintro rfl
    contradiction

theorem mem_keys_mergeInputToActive {b : ThreadDataBlock (SubscriptionPullIterator κ)}
    (h : (b.slot subscription).Registered) :
    subscription ∈ (b.mergeInputToActive order).activeIterators.keys := by
  have hslot := b.slot_loop order subscription .mergeInputToActive
  unfold ThreadDataBlock.apply at hslot
  rw [mem_keys_iff_active, hslot]
  simpa [Slot.loop, or_comm] using h.known

theorem not_waits_of_serves (h : Serves subscription s) {noActive : Bool}
    (hpc : s.pc = .checking noActive) : ¬ (s.block.inputIterators.size = 0 ∧ noActive) := by
  rintro ⟨hinput, hactive⟩
  rw [h.steady.checked noActive hpc, beq_iff_eq] at hactive
  rcases h.registered.known with hknown | hknown
  · have hmem := Unordered.lookup_isSome.mp hknown
    rw [Unordered.size_eq_zero.mp hinput] at hmem
    contradiction
  · have hmem := Unordered.lookup_isSome.mp hknown
    rw [Unordered.size_eq_zero.mp hactive] at hmem
    contradiction

theorem forEachActive_called_of_returned {π σ : Type} (b : σ → SubscriptionName × π → Ending σ)
    (captured : σ) (pairs : List (SubscriptionName × π)) {value : σ}
    (h : (forEachActive b captured pairs).ending = .returned value) :
    (forEachActive b captured pairs).called = pairs := by
  induction pairs generalizing captured with
  | nil => rfl
  | cons pair pairs ih =>
    rw [forEachActive] at h ⊢
    cases hb : b captured pair with
    | returned captured' =>
      rw [hb] at h
      exact congrArg (List.cons pair) (ih captured' h)
    | threw | terminated | calling =>
      rw [hb] at h
      contradiction

theorem one_le_requests (h : subscription ∈ s.block.activeIterators.keys)
    (results : SubscriptionName → PullResult) (us : ℤ) :
    1 ≤ s.requests subscription (order, .pull results us) +
      s.throws (order, .pull results us) := by
  unfold requests throws
  dsimp only
  cases hending : (pullRound s.block.activeIterators results).ending with
  | returned =>
    have hcalled : (pullRound s.block.activeIterators results).called =
        s.block.activeIterators.toList :=
      forEachActive_called_of_returned _ () _ hending
    rw [hcalled]
    exact Nat.le_add_right_of_le (List.count_pos_iff.mpr h)
  | threw | terminated | calling => exact Nat.le_add_left 1 _

/-- Every step is paid for by the way to the next turn, and a round by the turns it gives. -/
theorem stepsToTurn_step (h : Serves subscription s) (hspares : e.spares subscription = true)
    (hst : s.step (order, e) = some t) :
    (if e.own then 1 else 0) + t.stepsToTurn subscription ≤ s.stepsToTurn subscription +
      5 * (s.requests subscription (order, e) + s.throws (order, e)) := by
  cases transition_of_step hst with
  | addIterator | removeIterator | notifyUnheard =>
    exact (Nat.zero_add _).trans_le (Nat.le_add_right _ _)
  | setNeedStop => contradiction
  | stop _ hstop => simp [h.running] at hstop
  | wait noActive hpc hwaits => exact absurd hwaits (not_waits_of_serves h hpc)
  | merge _ hpc | mergeAwake _ hpc =>
    simp only [PullThreadEvent.own, stepsToTurn, hpc, if_true,
      if_pos (mem_keys_mergeInputToActive h.registered)]
    omega
  | rest results us hpc | goOn results us hpc | throw results us _ hpc =>
    simp only [PullThreadEvent.own, stepsToTurn, hpc, if_true]
    split_ifs with hactive
    · have hturn : 1 ≤ s.requests subscription (order, .pull results us) +
          s.throws (order, .pull results us) := one_le_requests hactive results us
      omega
    · omega
  | notifyWaiting hpc | notifyResting _ hpc | enter hpc | removeFromActive hpc | wake _ hpc
  | startOver _ hpc | rested _ hpc =>
    simp only [PullThreadEvent.own, stepsToTurn, hpc, if_true, Bool.false_eq_true, if_false]
    omega

/-- As long as a subscription is registered, merged or not, the thread takes at most five steps
of its own for each request for its messages or round that throws, and six more, and can always
go on. -/
theorem own_le_of_registered {events more : List (HashOrder × PullThreadEvent κ)}
    (h : run step start events = some s)
    (hknown : subscription ∈ s.block.inputIterators.keys ∨
      subscription ∈ s.block.activeIterators.keys)
    (hkept : subscription ∉ s.block.removedIterators) (hrunning : s.needStop = false)
    (hmore : run step s more = some t)
    (hspares : ∀ e ∈ more, e.2.spares subscription = true) :
    more.countP (·.2.own) ≤
        6 + 5 * (total step (requests subscription) s more + total step throws s more) ∧
      ∃ e : PullThreadEvent κ, e.own = true ∧ (t.step (.newestFirst, e)).isSome := by
  have hregistered : (s.block.slot subscription).Registered :=
    ⟨hknown.imp Unordered.lookup_isSome.mpr Unordered.lookup_isSome.mpr,
      by simpa [ThreadDataBlock.slot]⟩
  have hserves : Serves subscription s := ⟨steady_of_run h, hregistered, hrunning⟩
  have hallowed : Along step (fun _ e => e.2.spares subscription = true) s more :=
    along_of_forall step (fun e he _ => hspares e he) s
  have hkeep : ∀ (s : PullThread κ) (i : HashOrder × PullThreadEvent κ) (t : PullThread κ),
      Serves subscription s → i.2.spares subscription = true → step s i = some t →
      Serves subscription t :=
    fun _ _ _ hs hi hst => serves_step hs hi hst
  constructor
  · have hrun := total_le_of_potential (Serves subscription) (stepsToTurn subscription)
      (fun _ e => if e.2.own then 1 else 0)
      (fun s e => 5 * (s.requests subscription e + s.throws e)) hkeep
      (fun _ _ _ hs hi hst => stepsToTurn_step hs hi hst) hmore hallowed hserves
    rw [total_eq_countP hmore fun e => e.2.own] at hrun
    have hleft := s.stepsToTurn_le subscription
    rw [total_mul 5 fun (s : PullThread κ) e => s.requests subscription e + s.throws e,
      total_add (requests subscription) throws] at hrun
    omega
  · have ht := run_invariant_along (Serves subscription) hkeep hmore hallowed hserves
    refine exists_own_step (fun hstopped => ?_) ht.steady.unstuck
    have hstop := ht.steady.stopped hstopped
    rw [ht.running] at hstop
    contradiction

def addedWhileWaiting : List (HashOrder × PullThreadEvent Unit) :=
  [.test, .removeFromActive, .check, .addIterator "s" ⟨"s", 4, (), 1⟩].map
    (HashOrder.newestFirst, ·)

/-- The notification wakes the thread up. Two rounds; the second one throws. -/
def secondThrows : List (HashOrder × PullThreadEvent Unit) :=
  [.notify, .lockAgain, .pull (fun _ => received) 0, .rested, .test, .removeFromActive, .check,
    .pull (fun _ => ⟨⟨.unavailable, ""⟩, none⟩) 0, .test].map (HashOrder.newestFirst, ·)

theorem own_le_of_registered_secondThrows :
    ∃ s t, run step (start : PullThread Unit) addedWhileWaiting = some s ∧
      run step s secondThrows = some t ∧
      total step (requests "s") s secondThrows = 2 ∧ total step throws s secondThrows = 1 ∧
      secondThrows.countP (·.2.own) ≤ 6 + 5 * (2 + 1) := by
  have heval : ((run step (start : PullThread Unit) addedWhileWaiting).bind fun s =>
      (run step s secondThrows).map fun _ =>
        decide ("s" ∈ s.block.inputIterators.keys) && s.block.removedIterators == [] &&
          !s.needStop && total step (requests "s") s secondThrows == 2 &&
          total step throws s secondThrows == 1) = some true := by
    decide +kernel
  obtain ⟨s, hs, hrest⟩ := Option.bind_eq_some_iff.mp heval
  obtain ⟨t, ht, hchecks⟩ := Option.map_eq_some_iff.mp hrest
  simp only [Bool.and_eq_true, beq_iff_eq, Bool.not_eq_true', decide_eq_true_eq] at hchecks
  obtain ⟨⟨⟨⟨hinput, hremoved⟩, hrunning⟩, hrequests⟩, hthrows⟩ := hchecks
  have hbound := (own_le_of_registered hs (.inl hinput) (by simp [hremoved]) hrunning ht
    (by simp [secondThrows, PullThreadEvent.spares])).1
  rw [hrequests, hthrows] at hbound
  exact ⟨s, t, hs, ht, hrequests, hthrows, hbound⟩

end PullThread

end Pubsuber
