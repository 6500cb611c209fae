import Pubsuber.Executor.Stopping
import Pubsuber.Library.Amortized

/-!
# The last pull of a subscription

`RemoveIterator` leaves a note that the pull thread reads at the head of its loop. A
thread that is past the head pulls once more. An iterator that was merged before the
call is then gone until it is added again.
-/

namespace Pubsuber

open HashContainer StateMachine

namespace Slot

variable {π : Type} {s : Slot π}

/-- Nothing is left of a name but what the next `RemoveFromActive` takes away. -/
structure Gone (s : Slot π) : Prop where
  input : s.input = none
  remaining : s.remaining = none

theorem gone_call (h : s.input = none) (subscription : SubscriptionName) :
    (s.call (.removeIterator subscription)).Gone :=
  ⟨h, rfl⟩

theorem Gone.loop (h : s.Gone) (l : LoopStep) : (s.loop l).Gone := by
  obtain ⟨hinput, hremaining⟩ := h
  cases l with
  | removeFromActive => exact ⟨hinput, hremaining⟩
  | mergeInputToActive =>
    refine ⟨rfl, ?_⟩
    unfold Slot.remaining at hremaining ⊢
    simp only [Slot.loop, hinput, Option.or_none]
    exact hremaining

end Slot

/-- From `RemoveFromActive` to the end of the pulls. -/
def PullPc.pastRemoval : PullPc → Bool
  | .checking _ => true
  | .waiting => true
  | .woken _ => true
  | .merged => true
  | _ => false

namespace PullThread

variable {κ : Type}

/-- The requests for messages of a subscription that a step makes. -/
def requests (subscription : SubscriptionName) (s : PullThread κ) :
    HashOrder × PullThreadEvent κ → ℕ
  | (_, .pull results _) =>
    ((pullRound s.block.activeIterators results).called.map Prod.fst).count subscription
  | _ => 0

/-- The requests for a subscription that was removed which are still to come. -/
def requestsLeft (subscription : SubscriptionName) (s : PullThread κ) : ℕ :=
  if s.pc.pastRemoval ∧ subscription ∈ s.block.activeIterators.keys then 1 else 0

variable {s t : PullThread κ} {order : HashOrder} {e : PullThreadEvent κ}
  {subscription : SubscriptionName}

theorem requestsLeft_le (subscription : SubscriptionName) (s : PullThread κ) :
    s.requestsLeft subscription ≤ 1 := by
  unfold requestsLeft
  split_ifs
  · exact le_rfl
  · exact Nat.zero_le 1

theorem requests_pull_le (subscription : SubscriptionName) (s : PullThread κ)
    (order : HashOrder) (results : SubscriptionName → PullResult) (us : ℤ) :
    s.requests subscription (order, .pull results us) ≤
      if subscription ∈ s.block.activeIterators.keys then 1 else 0 := by
  have hsub : ((pullRound s.block.activeIterators results).called.map Prod.fst).Sublist
      s.block.activeIterators.keys :=
    (pullRound_called_initial _ results).sublist.map Prod.fst
  split_ifs with hactive
  · exact List.nodup_iff_count_le_one.mp
      (s.block.activeIterators.keys_nodup.sublist hsub) subscription
  · exact Nat.le_zero.mpr (List.count_eq_zero.mpr fun hmem => hactive (hsub.subset hmem))

theorem requests_of_not_round (he : e.isRound = false) :
    s.requests subscription (order, e) = 0 := by
  cases e with
  | pull => contradiction
  | _ => rfl

theorem requestsLeft_mono (he : e.isRound = false)
    (hpc : t.pc.pastRemoval = true → s.pc.pastRemoval = true)
    (hactive : subscription ∈ t.block.activeIterators.keys →
      subscription ∈ s.block.activeIterators.keys) :
    s.requests subscription (order, e) + t.requestsLeft subscription ≤
      s.requestsLeft subscription := by
  rw [requests_of_not_round he, Nat.zero_add]
  unfold requestsLeft
  split_ifs with ht hs hs
  · exact le_rfl
  · exact absurd ⟨hpc ht.1, hactive ht.2⟩ hs
  · exact Nat.zero_le 1
  · exact le_rfl

theorem mem_keys_iff_active (b : ThreadDataBlock (SubscriptionPullIterator κ)) :
    subscription ∈ b.activeIterators.keys ↔ (b.slot subscription).active.isSome := by
  rw [ThreadDataBlock.slot, Unordered.lookup_isSome]

theorem mem_keys_of_merge {b : ThreadDataBlock (SubscriptionPullIterator κ)}
    (hgone : (b.slot subscription).Gone)
    (h : subscription ∈ (b.mergeInputToActive order).activeIterators.keys) :
    subscription ∈ b.activeIterators.keys := by
  have hslot := b.slot_loop order subscription .mergeInputToActive
  unfold ThreadDataBlock.apply at hslot
  rw [mem_keys_iff_active, hslot] at h
  rw [mem_keys_iff_active]
  simpa [Slot.loop, hgone.input] using h

/-- A name that is gone stays so until it is added, and at most one request is made for
it. -/
theorem gone_step (hgone : (s.block.slot subscription).Gone)
    (hquiet : ∀ it, e ≠ .addIterator subscription it) (hst : s.step (order, e) = some t) :
    (t.block.slot subscription).Gone ∧
      s.requests subscription (order, e) + t.requestsLeft subscription ≤
        s.requestsLeft subscription := by
  have hloop := fun l => s.block.slot_loop order subscription l
  cases transition_of_step hst with
  | addIterator name it =>
    have hne : (IteratorCall.addIterator name it).subscription ≠ subscription :=
      fun heq => hquiet it (by subst heq; rfl)
    have hslot := s.block.slot_call_of_ne order hne
    exact ⟨hslot ▸ hgone, requestsLeft_mono rfl id id⟩
  | removeIterator name =>
    have hslot := s.block.slot_call order subscription (.removeIterator name)
    refine ⟨?_, requestsLeft_mono rfl id id⟩
    by_cases hname : (IteratorCall.removeIterator name :
        IteratorCall (SubscriptionPullIterator κ)).subscription = subscription
    · rw [if_pos hname] at hslot
      exact hslot ▸ Slot.gone_call hgone.input name
    · rw [if_neg hname] at hslot
      exact hslot ▸ hgone
  | setNeedStop | notifyUnheard => exact ⟨hgone, requestsLeft_mono rfl id id⟩
  | removeFromActive =>
    have hslot : (s.block.removeFromActive.slot subscription) = _ := hloop .removeFromActive
    refine ⟨hslot ▸ hgone.loop .removeFromActive, ?_⟩
    have hnone : subscription ∉ s.block.removeFromActive.activeIterators.keys := by
      rw [mem_keys_iff_active, hslot]
      simp [Slot.loop, hgone.remaining]
    rw [requests_of_not_round rfl, requestsLeft, if_neg fun h => hnone h.2]
    exact Nat.zero_le _
  | merge _ hpc | mergeAwake _ hpc =>
    have hslot : (s.block.mergeInputToActive order).slot subscription = _ :=
      hloop .mergeInputToActive
    exact ⟨hslot ▸ hgone.loop .mergeInputToActive, requestsLeft_mono rfl
      (by simp [hpc, PullPc.pastRemoval]) (mem_keys_of_merge hgone)⟩
  | rest results us hpc | goOn results us hpc | throw results us _ hpc =>
    have hrequests := s.requests_pull_le subscription order results us
    refine ⟨hgone, ?_⟩
    simpa [requestsLeft, hpc, PullPc.pastRemoval] using hrequests
  | notifyWaiting hpc | notifyResting _ hpc | stop hpc | enter hpc | wait _ hpc | wake _ hpc
  | startOver _ hpc | rested _ hpc =>
    exact ⟨hgone, requestsLeft_mono rfl (by simp [hpc, PullPc.pastRemoval]) id⟩

/-- Whatever else is registered meanwhile, at most one request is made for a subscription
after the call that removes it, if its iterator was merged before and none is added. -/
theorem requests_le_one_of_removed
    (hmerged : s.block.inputIterators.lookup subscription = none)
    {events : List (HashOrder × PullThreadEvent κ)}
    (h : run step s ((order, .removeIterator subscription) :: events) = some t)
    (hquiet : ∀ e ∈ events, ∀ it, e.2 ≠ .addIterator subscription it) :
    total step (requests subscription) s ((order, .removeIterator subscription) :: events) ≤
      1 := by
  obtain ⟨removed, hremoved, hrest⟩ := Option.bind_eq_some_iff.mp h
  rw [total_cons _ hremoved, requests_of_not_round rfl, Nat.zero_add]
  have hgone : (removed.block.slot subscription).Gone := by
    cases hremoved
    have hslot := s.block.slot_call order subscription (.removeIterator subscription)
    rw [if_pos (show (IteratorCall.removeIterator subscription :
      IteratorCall (SubscriptionPullIterator κ)).subscription = subscription from rfl)] at hslot
    exact hslot ▸ Slot.gone_call hmerged subscription
  have hallowed : Along step (fun _ e => ∀ it, e.2 ≠ .addIterator subscription it) removed
      events := along_of_forall step (fun e he _ => hquiet e he) removed
  have hrun := total_le_of_potential
    (fun s : PullThread κ => (s.block.slot subscription).Gone) (requestsLeft subscription)
    (requests subscription) (fun _ _ => 0)
    (fun _ ⟨_, _⟩ _ hgone hquiet hst => (gone_step hgone hquiet hst).1)
    (fun _ ⟨_, _⟩ _ hgone hquiet hst => (gone_step hgone hquiet hst).2) hrest hallowed hgone
  rw [total_eq_sum hrest, List.map_const', List.sum_replicate, smul_zero, Nat.add_zero] at hrun
  have hone := removed.requestsLeft_le subscription
  omega

def aboutToPull : PullThread Unit where
  block := ⟨.empty, [], ⟨[("s", ⟨"s", 4, (), 0⟩)], by decide⟩⟩
  needStop := false
  pc := .merged

def lastPull : List (HashOrder × PullThreadEvent Unit) :=
  [.pull (fun _ => received) 0, .rested, .test, .removeFromActive, .check, .wake true,
    .lockAgain].map (HashOrder.newestFirst, ·)

theorem requests_le_one_of_removed_lastPull :
    total step (requests "s") aboutToPull
        ((.newestFirst, .removeIterator "s") :: lastPull) ≤ 1 ∧
      total step (requests "s") aboutToPull
        ((.newestFirst, .removeIterator "s") :: lastPull) = 1 := by
  have hrun : (run step aboutToPull
      ((.newestFirst, .removeIterator "s") :: lastPull)).isSome = true := by decide +kernel
  obtain ⟨t, ht⟩ := Option.isSome_iff_exists.mp hrun
  exact ⟨requests_le_one_of_removed rfl ht (by simp [lastPull]), by decide +kernel⟩

end PullThread

end Pubsuber
