import Pubsuber.Executor.Steady
import Pubsuber.Library.Amortized

/-!
# From `AddIterator` to the merge

The ack thread does not look at its input queue before it waits, and a wait that ends with
its timeout starts the loop over. So a registered iterator may be passed over as long as
waits time out that no round has asked for. Nothing else keeps it from being merged.
-/

namespace Pubsuber

open HashContainer StateMachine

/-- Nobody stops the thread or calls for the subscription. -/
def AckThreadEvent.leaves (subscription : SubscriptionName) : AckThreadEvent → Bool
  | .setNeedStop => false
  | .addIterator name _ => name ≠ subscription
  | .removeIterator name => name ≠ subscription
  | _ => true

namespace Slot

variable {π : Type} {s : Slot π} {it : π}

/-- The iterator is registered, and nothing is in its way. -/
structure Arriving (s : Slot π) (it : π) : Prop where
  input : s.input = some it
  vacant : s.active = none
  kept : s.removed = false

theorem Arriving.removeFromActive (h : s.Arriving it) :
    (s.loop .removeFromActive).Arriving it :=
  ⟨h.input, by simp [Slot.loop, remaining, h.vacant], rfl⟩

theorem Arriving.mergeInputToActive (h : s.Arriving it) :
    (s.loop .mergeInputToActive).Holds it :=
  ⟨by simp [Slot.loop, h.vacant, h.input], h.kept⟩

end Slot

namespace AckThread

variable {s t : AckThread} {order : HashOrder} {e : AckThreadEvent}
  {subscription : SubscriptionName} {it : ModAckIteratorPtr}

theorem ne_removeIterator_of_leaves (hleaves : e.leaves subscription = true) :
    e ≠ .removeIterator subscription := by
  rintro rfl
  simp [AckThreadEvent.leaves] at hleaves

theorem arriving_step (h : (s.block.slot subscription).Arriving it)
    (hleaves : e.leaves subscription = true) (hst : s.step (order, e) = some t) :
    (t.block.slot subscription).Arriving it ∨ (t.block.slot subscription).Holds it := by
  have hloop := fun l => s.block.slot_loop order subscription l
  cases transition_of_step hst with
  | addIterator name it' =>
    have hname : name ≠ subscription := by simpa [AckThreadEvent.leaves] using hleaves
    rw [ThreadDataBlock.slot_addIterator_of_ne order hname]
    exact .inl h
  | removeIterator name =>
    have hname : name ≠ subscription := by simpa [AckThreadEvent.leaves] using hleaves
    rw [ThreadDataBlock.slot_removeIterator_of_ne hname]
    exact .inl h
  | removeFromActive =>
    have hslot : s.block.removeFromActive.slot subscription = _ := hloop .removeFromActive
    exact .inl (hslot ▸ h.removeFromActive)
  | merge | mergeAwake =>
    have hslot : (s.block.mergeInputToActive order).slot subscription = _ :=
      hloop .mergeInputToActive
    rw [block_merge]
    exact .inr (hslot ▸ h.mergeInputToActive)
  | _ => exact .inl h

/-- What the thread is to merge. -/
structure Expects (subscription : SubscriptionName) (it : ModAckIteratorPtr) (s : AckThread) :
    Prop where
  running : s.needStop = false
  place : (s.block.slot subscription).Arriving it ∨ (s.block.slot subscription).Holds it

theorem expects_step (h : Expects subscription it s) (hleaves : e.leaves subscription = true)
    (hst : s.step (order, e) = some t) : Expects subscription it t where
  running := by
    refine running_step_of_ne h.running ?_ hst
    rintro rfl
    contradiction
  place := by
    rcases h.place with hplace | hplace
    · exact arriving_step hplace hleaves hst
    · exact .inr (holds_step hplace (ne_removeIterator_of_leaves hleaves) hst)

/-- The most steps the thread takes until it has merged, if no wait times out that no round
has asked for. -/
def stepsToMerge (s : AckThread) : ℕ :=
  match s.pc with
  | .stopped => 0
  | .stuck _ => 1
  | .woken timeout => if s.startsOver timeout then 6 else 1
  | .waiting => 2
  | .checking _ => 3
  | .removing => 4
  | .loopHead => 5
  | .processing rest _ => 6 + 2 * rest.length
  | .inRound _ _ _ rest _ => 7 + 2 * rest.length
  | .merged => 7 + 2 * s.block.activeIterators.size

theorem stepsToMerge_le (h : s.RoundFits) :
    s.stepsToMerge ≤ 7 + 2 * s.block.activeIterators.size := by
  unfold RoundFits at h
  unfold stepsToMerge
  cases hpc : s.pc with
  | processing | inRound =>
    rw [hpc] at h
    dsimp only at h ⊢
    omega
  | woken =>
    dsimp only
    split_ifs <;> omega
  | stopped | stuck | waiting | checking | removing | loopHead | merged =>
    dsimp only
    omega

theorem stepsToMerge_pos (h : s.pc ≠ .stopped) : 0 < s.stepsToMerge := by
  unfold stepsToMerge
  cases hpc : s.pc with
  | stopped => contradiction
  | woken =>
    dsimp only
    split_ifs <;> omega
  | stuck | waiting | checking | removing | loopHead | processing | inRound | merged =>
    dsimp only
    omega

/-- A wait that no round has asked for ends with its timeout. -/
def timeouts (s : AckThread) : HashOrder × AckThreadEvent → ℕ
  | (_, .wake timeout) => if s.startsOver timeout then 1 else 0
  | _ => 0

/-- A step that does not merge the iterator brings the thread closer to the merge, or a wait
has timed out. -/
theorem stepsToMerge_step (h : Expects subscription it s) (hleaves : e.leaves subscription = true)
    (hst : s.step (order, e) = some t) (hunmerged : ¬ (t.block.slot subscription).Holds it) :
    (if e.own then 1 else 0) + t.stepsToMerge ≤ s.stepsToMerge + 5 * s.timeouts (order, e) := by
  have harriving : (s.block.slot subscription).Arriving it :=
    h.place.resolve_right fun hplace =>
      hunmerged (holds_step hplace (ne_removeIterator_of_leaves hleaves) hst)
  cases transition_of_step hst with
  | addDeadlineWatcher | done | addIterator | removeIterator | notifyUnheard =>
    exact (Nat.zero_add _).le
  | setNeedStop => contradiction
  | stop _ hstop => simp [h.running] at hstop
  | merge | mergeAwake =>
    have hslot : (s.block.mergeInputToActive order).slot subscription = _ :=
      s.block.slot_loop order subscription .mergeInputToActive
    rw [block_merge] at hunmerged
    exact absurd (hslot ▸ harriving.mergeInputToActive) hunmerged
  | notifyWaiting hpc =>
    have hover : ({ s with pc := .woken false } : AckThread).startsOver false = false := by
      simp [startsOver, h.running]
    simp [AckThreadEvent.own, stepsToMerge, timeouts, hpc, hover]
  | wake timeout hpc =>
    have hover : ({ s with pc := .woken timeout } : AckThread).startsOver timeout =
        s.startsOver timeout := rfl
    simp only [AckThreadEvent.own, stepsToMerge, timeouts, hpc, hover, if_true]
    split_ifs <;> omega
  | startOver timeout hpc hover =>
    simp only [AckThreadEvent.own, stepsToMerge, timeouts, hpc, hover, if_true]
    omega
  | enter hpc | removeFromActive hpc | wait _ hpc | connect hpc | swapPending _ _ _ hpc
  | finishRound _ _ _ _ _ _ _ _ hpc | throwRound _ _ _ _ _ _ _ _ hpc
  | hangInRound _ _ _ _ _ _ _ hpc | endLoop _ hpc =>
    simp only [AckThreadEvent.own, stepsToMerge, timeouts, hpc, length_active, List.length_cons,
      List.length_nil, if_true]
    omega

theorem expects_of_added {added : AckThread}
    (hvacant : s.block.activeIterators.lookup subscription = none)
    (hkept : subscription ∉ s.block.removedIterators) (hrunning : s.needStop = false)
    (hadd : s.step (order, .addIterator subscription it) = some added) :
    Expects subscription it added := by
  cases hadd
  have hslot := s.block.slot_call order subscription (.addIterator subscription it)
  rw [IteratorCall.subscription, if_pos rfl] at hslot
  have harriving : ((s.block.slot subscription).call
      (.addIterator subscription it)).Arriving it :=
    ⟨rfl, hvacant, decide_eq_false hkept⟩
  exact ⟨hrunning, .inl (hslot ▸ harriving)⟩

/-- An iterator that is registered when none is active under its name becomes active: each of
the thread's own steps is paid for by the way to the merge or by a wait that timed out without
a round having asked for it. Until the merge the thread can go on, unless a remote call never
returns. -/
theorem active_of_added {object : ModAckIteratorPtr → String × AckDistribution}
    {events : List (HashOrder × AckThreadEvent)} (h : run step (start object) events = some s)
    (hvacant : s.block.activeIterators.lookup subscription = none)
    (hkept : subscription ∉ s.block.removedIterators) (hrunning : s.needStop = false)
    {added : AckThread} (hadd : s.step (order, .addIterator subscription it) = some added)
    {more : List (HashOrder × AckThreadEvent)} (hmore : run step added more = some t)
    (hleaves : ∀ e ∈ more, e.2.leaves subscription = true) :
    t.block.activeIterators.lookup subscription = some it ∨
      (more.countP (·.2.own) <
          7 + 2 * s.block.activeIterators.size + 5 * total step timeouts added more ∧
        ((∃ e : AckThreadEvent, e.own = true ∧ (t.step (.newestFirst, e)).isSome) ∨
          ∃ it', t.pc = .stuck it')) := by
  rw [or_iff_not_imp_left]
  intro hunmerged
  have hleft := stepsToMerge_le (steady_of_run h).fits
  have hadded := steady_step (steady_of_run h) hadd
  have hexpects := expects_of_added hvacant hkept hrunning hadd
  have hsame : added.stepsToMerge = s.stepsToMerge := by
    cases hadd
    rfl
  have hleaving : Along step (fun _ e => e.2.leaves subscription = true) added more :=
    along_of_forall step (fun e he _ => hleaves e he) added
  have hallowed := along_of_final (Q := fun u => (u.block.slot subscription).Holds it)
    (fun _ _ _ hQ hi hst => holds_step hQ (ne_removeIterator_of_leaves hi) hst) hmore hleaving
    fun hQ => hunmerged hQ.active
  have hkeep : ∀ (s : AckThread) (i : HashOrder × AckThreadEvent) (t : AckThread),
      Expects subscription it s →
      (i.2.leaves subscription = true ∧ ∀ u, step s i = some u →
        ¬ (u.block.slot subscription).Holds it) →
      step s i = some t → Expects subscription it t :=
    fun _ _ _ hs hi hst => expects_step hs hi.1 hst
  have ht := run_invariant_along (Expects subscription it) hkeep hmore hallowed hexpects
  have hsteady := run_invariant Steady (fun _ _ _ hs hst => steady_step hs hst) hmore hadded
  constructor
  · have hrun := total_le_of_potential (Expects subscription it) stepsToMerge
      (fun _ e => if e.2.own then 1 else 0) (fun s e => 5 * s.timeouts e) hkeep
      (fun _ _ _ hs hi hst => stepsToMerge_step hs hi.1 hst (hi.2 _ hst)) hmore hallowed
      hexpects
    have hpos := stepsToMerge_pos fun hstopped => by
      have hstop := hsteady.stopped hstopped
      rw [ht.running] at hstop
      contradiction
    rw [total_eq_countP hmore fun e => e.2.own, total_mul 5 timeouts] at hrun
    omega
  · exact exists_own_step_of_running hsteady ht.running

def beforeTheCheck : List (HashOrder × AckThreadEvent) :=
  [.test, .removeFromActive].map (HashOrder.newestFirst, ·)

/-- The check does not see what is registered, the wait ends with its timeout, and the next
check does not see it either. -/
def passedOver : List (HashOrder × AckThreadEvent) :=
  [.notify, .check, .wake true, .lockAgain, .test, .removeFromActive, .check].map
    (HashOrder.newestFirst, ·)

theorem active_of_added_passedOver :
    ∃ s added t, run step (start oneIterator) beforeTheCheck = some s ∧
      s.step (.newestFirst, .addIterator "s" 1) = some added ∧
      run step added passedOver = some t ∧
      t.block.activeIterators.lookup "s" ≠ some 1 ∧ total step timeouts added passedOver = 1 ∧
      passedOver.countP (·.2.own) < 7 + 2 * s.block.activeIterators.size + 5 * 1 := by
  have heval : ((run step (start oneIterator) beforeTheCheck).bind fun s =>
      (s.step (.newestFirst, .addIterator "s" 1)).bind fun added =>
        (run step added passedOver).map fun t =>
          s.block.activeIterators.lookup "s" == none && s.block.removedIterators == [] &&
            !s.needStop && t.block.activeIterators.lookup "s" == none &&
            total step timeouts added passedOver == 1) = some true := by
    decide +kernel
  obtain ⟨s, hs, hrest⟩ := Option.bind_eq_some_iff.mp heval
  obtain ⟨added, hadd, hrest⟩ := Option.bind_eq_some_iff.mp hrest
  obtain ⟨t, ht, hchecks⟩ := Option.map_eq_some_iff.mp hrest
  simp only [Bool.and_eq_true, beq_iff_eq, Bool.not_eq_true'] at hchecks
  obtain ⟨⟨⟨⟨hvacant, hremoved⟩, hrunning⟩, hunmerged⟩, htimeouts⟩ := hchecks
  have hwaiting : t.block.activeIterators.lookup "s" ≠ some 1 := by simp [hunmerged]
  have hbounds := (active_of_added hs hvacant (by simp [hremoved]) hrunning hadd ht
    (by decide)).resolve_left hwaiting
  rw [htimeouts] at hbounds
  exact ⟨s, added, t, hs, hadd, ht, hwaiting, htimeouts, hbounds.1⟩

end AckThread

end Pubsuber
