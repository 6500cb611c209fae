import Pubsuber.Executor.AckThread

/-!
# What the ack thread goes to sleep on

A notification is lost on a thread that does not wait, so whatever is updated
before the thread enters `wait_for` has to show in the condition. Input counts
do, but only while `needSleep` is clear; pending sets and `_needStop` do not.
-/

namespace Pubsuber

open HashContainer StateMachine

namespace AckThread

/-- No active iterator has anything for the next iteration, nor is it the last one. -/
def NothingToDo (s : AckThread) : Prop :=
  s.needStop = false ∧ ∀ it ∈ s.active,
    (s.heap it).iterator.inputAckIDs.keys = [] ∧
    (s.heap it).iterator.pendingAckIDs.keys = [] ∧
    (s.heap it).iterator.pendingNackIDs.keys = []

/-- The number of ids that `getInputCount` counts before it wraps. -/
def inputTotal (s : AckThread) : ℕ :=
  (s.active.map fun it => (s.heap it).iterator.inputCount).sum

theorem mergeInputs_heap (s : AckThread) (order : HashOrder) (its : List ModAckIteratorPtr) :
    ∃ heap, s.mergeInputs order its = { s with heap := heap } := by
  induction its generalizing s with
  | nil => exact ⟨s.heap, rfl⟩
  | cons it its ih =>
    obtain ⟨heap, hheap⟩ := ih (s.update it (·.mergeInput order))
    exact ⟨heap, hheap⟩

@[simp] theorem needStop_merge (s : AckThread) (order : HashOrder) :
    (s.merge order).needStop = s.needStop := by
  obtain ⟨heap, hheap⟩ := mergeInputs_heap
    { s with block := s.block.mergeInputToActive order, pc := .merged } order
    { s with block := s.block.mergeInputToActive order, pc := .merged }.active
  rw [merge, hheap]

@[simp] theorem needSleep_merge (s : AckThread) (order : HashOrder) :
    (s.merge order).needSleep = s.needSleep := by
  obtain ⟨heap, hheap⟩ := mergeInputs_heap
    { s with block := s.block.mergeInputToActive order, pc := .merged } order
    { s with block := s.block.mergeInputToActive order, pc := .merged }.active
  rw [merge, hheap]

@[simp] theorem pc_merge (s : AckThread) (order : HashOrder) : (s.merge order).pc = .merged := by
  obtain ⟨heap, hheap⟩ := mergeInputs_heap
    { s with block := s.block.mergeInputToActive order, pc := .merged } order
    { s with block := s.block.mergeInputToActive order, pc := .merged }.active
  rw [merge, hheap]

/-- Only `Stop` sets the flag, and nothing clears it. -/
theorem needStop_step {s t : AckThread} {order : HashOrder} {e : AckThreadEvent}
    (h : s.step (order, e) = some t) :
    t.needStop = true ↔ s.needStop = true ∨ e = .setNeedStop := by
  cases e with
  | setNeedStop =>
    cases h
    simp
  | addDeadlineWatcher | done | addIterator | removeIterator =>
    cases h
    simp [update]
  | test | check | lockAgain =>
    simp only [step] at h
    split at h
    · split_ifs at h
      all_goals
        cases h
        simp
    · contradiction
  | notify =>
    simp only [step] at h
    split at h
    all_goals
      cases h
      simp
  | removeFromActive | wake | connect | swapPending | finishRound | endLoop =>
    simp only [step] at h
    split at h
    · cases h
      simp [update]
    · contradiction

/-- When the input counts decide, a thread that waits has seen no input. -/
theorem input_empty_of_waits {s : AckThread} {noKeepAlives : Bool}
    (h : s.waits noKeepAlives = true) (hneed : s.needSleep = false)
    (htotal : s.inputTotal < 2 ^ 32) :
    ∀ it ∈ s.active, (s.heap it).iterator.inputAckIDs.keys = [] := by
  have hcount : s.getInputCount = 0 := by
    simp only [waits, hneed, Bool.false_or, Bool.and_eq_true, beq_iff_eq] at h
    exact h.1
  have hzero : s.inputTotal = 0 := by
    have : s.inputTotal % 2 ^ 32 = 0 := hcount
    rwa [Nat.mod_eq_of_lt htotal] at this
  intro it hit
  have hsize := List.sum_eq_zero_iff.mp hzero _ (List.mem_map_of_mem hit)
  exact Unordered.size_eq_zero.mp hsize

/-! ## Two waits with work to do -/

def AckPc.isWaiting : AckPc → Bool
  | .waiting => true
  | _ => false

theorem AckPc.isWaiting_iff {pc : AckPc} : AckPc.isWaiting pc = true ↔ pc = .waiting := by
  cases pc <;> simp [AckPc.isWaiting]

theorem exists_of_run (s : AckThread) (events : List (HashOrder × AckThreadEvent))
    (e : HashOrder × AckThreadEvent) (p : AckThread → AckThread → Bool)
    (h : ((run step s events).bind fun t => (t.step e).map (p t)) = some true) :
    ∃ t u, run step s events = some t ∧ t.step e = some u ∧ p t u = true := by
  obtain ⟨t, ht, hu⟩ := Option.bind_eq_some_iff.mp h
  obtain ⟨u, hu, hp⟩ := Option.map_eq_some_iff.mp hu
  exact ⟨t, u, ht, hu, hp⟩

def oneIterator : ModAckIteratorPtr → String × AckDistribution :=
  fun _ => ("s", emptyDistribution)

/-- The iterator is registered, and the thread goes round once. -/
def registered : List (HashOrder × AckThreadEvent) :=
  [.addIterator "s" 1, .test, .removeFromActive, .check, .notify, .lockAgain, .connect,
    .swapPending, .finishRound 0 [], .endLoop].map (HashOrder.newestFirst, ·)

/-- A message arrives and is acknowledged while the thread is in its round. -/
def doneInRound : List (HashOrder × AckThreadEvent) :=
  registered ++ [.addDeadlineWatcher 1 "a" 9000000000, .notify, .test, .removeFromActive, .check,
    .connect, .swapPending, .done 1 "a" 1 .ack, .notify, .finishRound 0 [], .endLoop, .test,
    .removeFromActive].map (HashOrder.newestFirst, ·)

/-- `Stop` is called between the test of `_needStop` and the wait. -/
def stoppedLate : List (HashOrder × AckThreadEvent) :=
  [.test, .removeFromActive, .setNeedStop, .notify].map (HashOrder.newestFirst, ·)

end AckThread

end Pubsuber
