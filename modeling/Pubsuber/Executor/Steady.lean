import Pubsuber.Executor.Stopping

/-!
# The threads between their steps

What a thread knows at one place of its loop from having been at another: what it has
counted before its check, and that it needs no sleep in the middle of a round. And an
iterator that nobody removes stays active.
-/

namespace Pubsuber

open HashContainer StateMachine

namespace Slot

variable {π : Type} {s : Slot π} {it : π}

/-- The iterator is active and not to be removed. -/
structure Holds (s : Slot π) (it : π) : Prop where
  active : s.active = some it
  kept : s.removed = false

theorem Holds.loop (h : s.Holds it) (l : LoopStep) : (s.loop l).Holds it := by
  obtain ⟨hactive, hkept⟩ := h
  cases l with
  | removeFromActive => exact ⟨by simp [Slot.loop, remaining, hkept, hactive], rfl⟩
  | mergeInputToActive => exact ⟨by simp [Slot.loop, hactive], hkept⟩

end Slot

namespace ThreadDataBlock

variable {π : Type} {b : ThreadDataBlock π} {subscription : SubscriptionName} {it : π}

theorem holds_addIterator (h : (b.slot subscription).Holds it) (order : HashOrder)
    (name : SubscriptionName) (it' : π) :
    ((b.addIterator order name it').slot subscription).Holds it := by
  have hslot := b.slot_call order subscription (.addIterator name it')
  split_ifs at hslot
  · exact hslot ▸ ⟨h.active, h.kept⟩
  · exact hslot ▸ h

theorem slot_addIterator_of_ne (order : HashOrder) {name : SubscriptionName}
    (hname : name ≠ subscription) (it' : π) :
    (b.addIterator order name it').slot subscription = b.slot subscription :=
  b.slot_call_of_ne order (c := .addIterator name it') hname

theorem slot_removeIterator_of_ne {name : SubscriptionName} (hname : name ≠ subscription) :
    (b.removeIterator name).slot subscription = b.slot subscription :=
  b.slot_call_of_ne .newestFirst (c := .removeIterator name) hname

theorem holds_removeIterator (h : (b.slot subscription).Holds it) {name : SubscriptionName}
    (hname : name ≠ subscription) : ((b.removeIterator name).slot subscription).Holds it := by
  rw [slot_removeIterator_of_ne hname]
  exact h

theorem holds_removeFromActive (h : (b.slot subscription).Holds it) :
    (b.removeFromActive.slot subscription).Holds it := by
  have hslot : b.removeFromActive.slot subscription = _ :=
    b.slot_loop .newestFirst subscription .removeFromActive
  exact hslot ▸ h.loop .removeFromActive

theorem holds_mergeInputToActive (h : (b.slot subscription).Holds it) (order : HashOrder) :
    ((b.mergeInputToActive order).slot subscription).Holds it := by
  have hslot : (b.mergeInputToActive order).slot subscription = _ :=
    b.slot_loop order subscription .mergeInputToActive
  exact hslot ▸ h.loop .mergeInputToActive

end ThreadDataBlock

/-! ## The pull thread -/

namespace PullThread

variable {κ : Type} {s t : PullThread κ} {order : HashOrder} {e : PullThreadEvent κ}
  {subscription : SubscriptionName} {it : SubscriptionPullIterator κ}

/-- What every reachable state owes to the order of the steps in the loop. -/
structure Steady (s : PullThread κ) : Prop where
  checked : ∀ noActive, s.pc = .checking noActive →
    noActive = (s.block.activeIterators.size == 0)
  stopped : s.pc = .stopped → s.needStop = true
  unstuck : s.pc ≠ .stuck

theorem steady_step (h : s.Steady) (hst : s.step (order, e) = some t) : t.Steady := by
  have hunstuck := stuck_step hst h.unstuck
  cases transition_of_step hst with
  | addIterator | removeIterator => exact ⟨h.checked, h.stopped, hunstuck⟩
  | setNeedStop => exact ⟨h.checked, fun _ => rfl, hunstuck⟩
  | notifyUnheard => exact h
  | stop _ hstop => exact ⟨by simp, fun _ => hstop, hunstuck⟩
  | removeFromActive =>
    refine ⟨?_, by simp, hunstuck⟩
    intro noActive hpc
    cases hpc
    rfl
  | _ => exact ⟨by simp, by simp, hunstuck⟩

theorem steady_of_run {events : List (HashOrder × PullThreadEvent κ)}
    (h : run step start events = some s) : s.Steady :=
  run_invariant Steady (fun _ _ _ hs hst => steady_step hs hst) h
    ⟨by simp [start], by simp [start], by simp [start]⟩

end PullThread

/-! ## The ack thread -/

def AckPc.isProcessing : AckPc → Bool
  | .processing _ _ => true
  | .inRound _ _ _ _ _ => true
  | _ => false

namespace AckThread

variable {s t : AckThread} {order : HashOrder} {e : AckThreadEvent}

/-- The number of ids kept alive, before it wraps. -/
def keepAliveTotal (s : AckThread) : ℕ :=
  (s.active.map fun it => (s.heap it).iterator.keepAliveCount).sum

/-- What every reachable state owes to the order of the steps in the loop. -/
structure Steady (s : AckThread) : Prop where
  fits : s.RoundFits
  checked : ∀ noKeepAlives, s.pc = .checking noKeepAlives →
    noKeepAlives = (s.keepAliveCount == 0)
  awake : s.pc.isProcessing = true → s.needSleep = false
  stopped : s.pc = .stopped → s.needStop = true

theorem keepAliveCount_update (s : AckThread) (it : ModAckIteratorPtr)
    {f : ModAckIterator → ModAckIterator}
    (hf : (f (s.heap it).iterator).keepAliveAckIDs = (s.heap it).iterator.keepAliveAckIDs) :
    (s.update it f).keepAliveCount = s.keepAliveCount := by
  have hcount : ∀ it', ((s.update it f).heap it').iterator.keepAliveCount =
      (s.heap it').iterator.keepAliveCount := by
    intro it'
    by_cases hit : it' = it
    · subst hit
      simp [update, ModAckIterator.keepAliveCount, hf]
    · simp [update, Function.update_of_ne hit]
  simp only [keepAliveCount, hcount]
  rfl

theorem steady_update (h : s.Steady) (it : ModAckIteratorPtr)
    {f : ModAckIterator → ModAckIterator}
    (hf : (f (s.heap it).iterator).keepAliveAckIDs = (s.heap it).iterator.keepAliveAckIDs) :
    (s.update it f).Steady where
  fits := h.fits
  checked noKeepAlives hpc := by
    rw [keepAliveCount_update s it hf]
    exact h.checked noKeepAlives hpc
  awake := h.awake
  stopped := h.stopped

theorem steady_step (h : s.Steady) (hst : s.step (order, e) = some t) : t.Steady := by
  have hfits := roundFits_step hst h.fits
  cases transition_of_step hst with
  | addDeadlineWatcher it => exact steady_update h it rfl
  | done it ackID sec action => exact steady_update h it (by cases action <;> rfl)
  | addIterator | removeIterator => exact ⟨hfits, h.checked, h.awake, h.stopped⟩
  | setNeedStop => exact ⟨hfits, h.checked, h.awake, fun _ => rfl⟩
  | notifyUnheard => exact h
  | stop _ hstop => exact ⟨hfits, by simp, by simp [AckPc.isProcessing], fun _ => hstop⟩
  | removeFromActive =>
    refine ⟨hfits, ?_, by simp [AckPc.isProcessing], by simp⟩
    intro noKeepAlives hpc
    cases hpc
    rfl
  | connect => exact ⟨hfits, by simp, fun _ => rfl, by simp⟩
  | swapPending _ _ _ hpc | finishRound _ _ _ _ _ _ _ _ hpc =>
    have hawake := h.awake (by rw [hpc]; rfl)
    exact ⟨hfits, by simp, fun _ => hawake, by simp⟩
  | _ => exact ⟨hfits, by simp, by simp [AckPc.isProcessing], by simp⟩

theorem steady_of_run {object : ModAckIteratorPtr → String × AckDistribution}
    {events : List (HashOrder × AckThreadEvent)} (h : run step (start object) events = some s) :
    s.Steady := by
  refine run_invariant Steady (fun _ _ _ hs hst => steady_step hs hst) h ?_
  exact ⟨trivial, by simp [start], by simp [start, AckPc.isProcessing], by simp [start]⟩

theorem keepAlive_empty_of_waits (h : s.Steady) {noKeepAlives : Bool}
    (hpc : s.pc = .checking noKeepAlives) (hwaits : s.waits noKeepAlives = true)
    (hneed : s.needSleep = false) (htotal : s.keepAliveTotal < 2 ^ 64) :
    ∀ it ∈ s.active, (s.heap it).iterator.keepAliveAckIDs.keys = [] := by
  have hnone : noKeepAlives = true := by
    simp only [waits, hneed, Bool.false_or, Bool.and_eq_true] at hwaits
    exact hwaits.2
  have hcount : s.keepAliveTotal % 2 ^ 64 = 0 := by
    have hchecked := h.checked noKeepAlives hpc
    rw [hnone, eq_comm, beq_iff_eq] at hchecked
    exact hchecked
  rw [Nat.mod_eq_of_lt htotal] at hcount
  intro it hit
  have hsize := List.sum_eq_zero_iff.mp hcount _ (List.mem_map_of_mem hit)
  exact Unordered.size_eq_zero.mp hsize

theorem running_step_of_ne (hrunning : s.needStop = false) (he : e ≠ .setNeedStop)
    (hst : s.step (order, e) = some t) : t.needStop = false := by
  rw [← Bool.not_eq_true, needStop_step hst, hrunning]
  rintro (hset | hstop)
  · contradiction
  · exact he hstop

theorem exists_own_step_of_running (h : s.Steady) (hrunning : s.needStop = false) :
    (∃ e : AckThreadEvent, e.own = true ∧ (s.step (.newestFirst, e)).isSome) ∨
      ∃ it, s.pc = .stuck it := by
  by_cases hstuck : ∃ it, s.pc = .stuck it
  · exact .inr hstuck
  · refine .inl (exists_own_step (fun hstopped => ?_) (not_exists.mp hstuck))
    have hstop := h.stopped hstopped
    rw [hrunning] at hstop
    contradiction

theorem holds_step {subscription : SubscriptionName} {it : ModAckIteratorPtr}
    (h : (s.block.slot subscription).Holds it) (hkept : e ≠ .removeIterator subscription)
    (hst : s.step (order, e) = some t) : (t.block.slot subscription).Holds it := by
  cases transition_of_step hst with
  | addIterator name it' => exact ThreadDataBlock.holds_addIterator h order name it'
  | removeIterator name =>
    exact ThreadDataBlock.holds_removeIterator h fun hname => hkept (by rw [hname])
  | removeFromActive => exact ThreadDataBlock.holds_removeFromActive h
  | merge | mergeAwake =>
    rw [block_merge]
    exact ThreadDataBlock.holds_mergeInputToActive h order
  | _ => exact h

end AckThread

end Pubsuber
