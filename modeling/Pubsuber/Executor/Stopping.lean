import Pubsuber.Executor.Merging
import Pubsuber.Executor.Transitions

/-!
# Threads that are to stop

The flag of a thread is set without the mutex, so the thread may begin a wait after
it was notified; it leaves it with the timeout. Every step of a thread that has its
flag set brings it closer to its end. Until then it begins one more round at most.
-/

namespace Pubsuber

open HashContainer StateMachine

variable {κ : Type}

/-! ## The pull thread -/

def PullThreadEvent.own : PullThreadEvent κ → Bool
  | .addIterator _ _ => false
  | .removeIterator _ => false
  | .setNeedStop => false
  | .notify => false
  | _ => true

def PullThreadEvent.isRound : PullThreadEvent κ → Bool
  | .pull _ _ => true
  | _ => false

/-- The most steps a thread that is to stop takes from here on. -/
def PullPc.stepsLeft : PullPc → ℕ
  | .stopped => 0
  | .stuck => 0
  | .loopHead => 1
  | .woken _ => 2
  | .resting _ => 2
  | .waiting => 3
  | .merged => 3
  | .checking _ => 4
  | .removing => 5

/-- The most rounds of pulls a thread that is to stop begins from here on. -/
def PullPc.roundsLeft : PullPc → ℕ
  | .removing => 1
  | .checking _ => 1
  | .merged => 1
  | _ => 0

theorem PullPc.stepsLeft_le (pc : PullPc) : pc.stepsLeft ≤ 5 := by
  cases pc <;> simp [stepsLeft]

theorem PullPc.roundsLeft_le (pc : PullPc) : pc.roundsLeft ≤ 1 := by
  cases pc <;> simp [roundsLeft]

namespace PullThread

variable {s t : PullThread κ} {order : HashOrder} {e : PullThreadEvent κ}

def start : PullThread κ := ⟨.empty, false, .loopHead⟩

theorem needStop_step (h : s.step (order, e) = some t) (he : e ≠ .setNeedStop) :
    t.needStop = s.needStop := by
  cases transition_of_step h with
  | setNeedStop => exact absurd rfl he
  | _ => rfl

/-- The steps of a thread that is to stop, and its rounds, are counted down. -/
theorem stepsLeft_step (h : s.step (order, e) = some t) (hstop : s.needStop = true) :
    (if e.own then 1 else 0) + t.pc.stepsLeft ≤ s.pc.stepsLeft ∧
      (if e.isRound then 1 else 0) + t.pc.roundsLeft ≤ s.pc.roundsLeft := by
  cases transition_of_step h with
  | addIterator | removeIterator | setNeedStop | notifyUnheard =>
    simp [PullThreadEvent.own, PullThreadEvent.isRound]
  | enter _ hrunning => simp [hstop] at hrunning
  | mergeAwake _ _ hover => exact absurd (.inr hstop) hover
  | notifyWaiting hpc | notifyResting _ hpc | stop hpc | removeFromActive hpc | wait _ hpc
  | merge _ hpc | wake _ hpc | startOver _ hpc | rest _ _ hpc | goOn _ _ hpc | throw _ _ _ hpc
  | rested _ hpc =>
    simp [PullThreadEvent.own, PullThreadEvent.isRound, PullPc.stepsLeft, PullPc.roundsLeft, hpc]

theorem exists_own_step (hstopped : s.pc ≠ .stopped) (hstuck : s.pc ≠ .stuck) :
    ∃ e : PullThreadEvent κ, e.own = true ∧ (s.step (.newestFirst, e)).isSome := by
  cases hpc : s.pc with
  | stopped => exact absurd hpc hstopped
  | stuck => exact absurd hpc hstuck
  | loopHead => exact ⟨.test, rfl, by simp [step, hpc]⟩
  | removing => exact ⟨.removeFromActive, rfl, by simp [step, hpc]⟩
  | checking noActive =>
    refine ⟨.check, rfl, ?_⟩
    simp only [step, hpc]
    split_ifs <;> rfl
  | waiting => exact ⟨.wake true, rfl, by simp [step, hpc]⟩
  | woken timeout =>
    refine ⟨.lockAgain, rfl, ?_⟩
    simp only [step, hpc]
    split_ifs <;> rfl
  | merged =>
    refine ⟨.pull (fun _ => received) 0, rfl, ?_⟩
    simp only [step, hpc]
    split <;> rfl
  | resting sleep => exact ⟨.rested, rfl, by simp [step, hpc]⟩

theorem stuck_step (h : s.step (order, e) = some t) (hs : s.pc ≠ .stuck) : t.pc ≠ .stuck := by
  cases transition_of_step h with
  | addIterator | removeIterator | setNeedStop | notifyUnheard => exact hs
  | _ => simp

theorem stopped_step (h : s.step (order, e) = some t) (hs : s.pc = .stopped) :
    t.pc = .stopped ∧ e.own = false := by
  cases e with
  | addIterator | removeIterator | setNeedStop =>
    cases h
    exact ⟨hs, rfl⟩
  | notify =>
    simp only [step, hs] at h
    cases h
    exact ⟨hs, rfl⟩
  | test | removeFromActive | check | wake | lockAgain | pull | rested =>
    simp [step, hs] at h

end PullThread

/-! ## The ack thread -/

def AckThreadEvent.own : AckThreadEvent → Bool
  | .addDeadlineWatcher _ _ _ => false
  | .done _ _ _ _ => false
  | .addIterator _ _ => false
  | .removeIterator _ => false
  | .setNeedStop => false
  | .notify => false
  | _ => true

def AckThreadEvent.isRound : AckThreadEvent → Bool
  | .connect => true
  | _ => false

def AckThreadEvent.adds : AckThreadEvent → Bool
  | .addIterator _ _ => true
  | _ => false

def ThreadDataBlock.size {π : Type} (b : ThreadDataBlock π) : ℕ :=
  b.inputIterators.size + b.activeIterators.size

section Block

variable {π : Type} (b : ThreadDataBlock π)

theorem ThreadDataBlock.size_addIterator_le (order : HashOrder) (subscription : SubscriptionName)
    (it : π) : (b.addIterator order subscription it).size ≤ b.size + 1 := by
  have h := b.inputIterators.size_insertOrAssign_le order (subscription, it)
  unfold size addIterator
  dsimp only
  omega

theorem ThreadDataBlock.size_removeFromActive_le : b.removeFromActive.size ≤ b.size := by
  have h := Unordered.size_foldl_erase_le b.removedIterators b.activeIterators
  unfold size removeFromActive
  dsimp only
  omega

theorem ThreadDataBlock.size_mergeInputToActive_le (order : HashOrder) :
    (b.mergeInputToActive order).size ≤ b.size ∧
      (b.mergeInputToActive order).activeIterators.size ≤ b.size := by
  have h := b.activeIterators.size_merge_le order b.inputIterators
  have hempty : (Unordered.empty : IteratorContainer π).size = 0 := rfl
  unfold size mergeInputToActive
  dsimp only
  omega

end Block

def AckPc.roundsLeft : AckPc → ℕ
  | .removing => 1
  | .checking _ => 1
  | .merged => 1
  | _ => 0

theorem AckPc.roundsLeft_le (pc : AckPc) : pc.roundsLeft ≤ 1 := by
  cases pc <;> simp [roundsLeft]

namespace AckThread

variable {s t : AckThread} {order : HashOrder} {e : AckThreadEvent}

theorem block_merge (s : AckThread) (order : HashOrder) :
    (s.merge order).block = s.block.mergeInputToActive order := by
  obtain ⟨heap, hheap⟩ := mergeInputs_heap
    { s with block := s.block.mergeInputToActive order, pc := .merged } order
    { s with block := s.block.mergeInputToActive order, pc := .merged }.active
  rw [merge, hheap]

theorem length_active (s : AckThread) : s.active.length = s.block.activeIterators.size :=
  List.length_map _

/-- The iterators that are still to come in a round are active. -/
def RoundFits (s : AckThread) : Prop :=
  match s.pc with
  | .processing rest _ => rest.length ≤ s.block.activeIterators.size
  | .inRound _ _ _ rest _ => rest.length < s.block.activeIterators.size
  | _ => True

/-- The most steps a thread that is to stop takes from here on: two for every
iterator of a round. -/
def stepsLeft (s : AckThread) : ℕ :=
  match s.pc with
  | .stopped => 0
  | .stuck _ => 0
  | .loopHead => 1
  | .woken _ => 2
  | .waiting => 3
  | .processing rest _ => 2 + 2 * rest.length
  | .inRound _ _ _ rest _ => 3 + 2 * rest.length
  | .merged => 3 + 2 * s.block.activeIterators.size
  | .checking _ => 4 + 2 * s.block.size
  | .removing => 5 + 2 * s.block.size

theorem stepsLeft_le (h : s.RoundFits) : s.stepsLeft ≤ 5 + 2 * s.block.size := by
  have hactive : s.block.activeIterators.size ≤ s.block.size := Nat.le_add_left _ _
  unfold RoundFits at h
  unfold stepsLeft
  split <;> simp_all <;> omega

theorem size_step (h : s.step (order, e) = some t) :
    t.block.size ≤ s.block.size + if e.adds then 1 else 0 := by
  cases transition_of_step h with
  | addIterator subscription it => exact s.block.size_addIterator_le order subscription it
  | removeFromActive => exact s.block.size_removeFromActive_le
  | merge | mergeAwake =>
    rw [block_merge]
    exact (s.block.size_mergeInputToActive_le order).1
  | _ => exact Nat.le_add_right _ _

theorem roundFits_step (h : s.step (order, e) = some t) (hs : s.RoundFits) : t.RoundFits := by
  cases transition_of_step h with
  | addDeadlineWatcher | done | addIterator | removeIterator | setNeedStop | notifyUnheard =>
    exact hs
  | merge | mergeAwake =>
    unfold RoundFits
    rw [pc_merge]
    trivial
  | connect => exact s.length_active.le
  | swapPending it rest sleep hpc =>
    simp only [RoundFits, hpc, List.length_cons] at hs
    exact hs
  | finishRound _ _ it acks nacks rest sleep ms hpc =>
    simp only [RoundFits, hpc] at hs
    exact hs.le
  | _ => trivial

/-- The steps of a thread that is to stop, and its rounds, are counted down. -/
theorem stepsLeft_step (h : s.step (order, e) = some t) (hstop : s.needStop = true) :
    (if e.own then 1 else 0) + t.stepsLeft ≤ s.stepsLeft + (if e.adds then 2 else 0) ∧
      (if e.isRound then 1 else 0) + t.pc.roundsLeft ≤ s.pc.roundsLeft := by
  cases transition_of_step h with
  | addIterator subscription it =>
    have hsize := s.block.size_addIterator_le order subscription it
    have hactive : (s.block.addIterator order subscription it).activeIterators =
      s.block.activeIterators := rfl
    simp only [AckThreadEvent.own, AckThreadEvent.adds, AckThreadEvent.isRound, stepsLeft,
      hactive, if_true, Bool.false_eq_true, if_false]
    cases s.pc with
    | removing | checking =>
      dsimp only
      omega
    | _ => simp
  | addDeadlineWatcher | done | setNeedStop | removeIterator | notifyUnheard =>
    exact ⟨(Nat.zero_add _).le, (Nat.zero_add _).le⟩
  | enter _ hrunning => simp [hstop] at hrunning
  | mergeAwake timeout _ hover => simp [startsOver, hstop] at hover
  | removeFromActive hpc =>
    have hsize := s.block.size_removeFromActive_le
    simp only [AckThreadEvent.own, AckThreadEvent.adds, AckThreadEvent.isRound, stepsLeft,
      AckPc.roundsLeft, hpc, if_true, Bool.false_eq_true, if_false]
    omega
  | merge _ hpc =>
    have hsize := (s.block.size_mergeInputToActive_le order).2
    simp only [AckThreadEvent.own, AckThreadEvent.adds, AckThreadEvent.isRound, stepsLeft,
      AckPc.roundsLeft, hpc, pc_merge, block_merge, if_true, Bool.false_eq_true, if_false]
    omega
  | notifyWaiting hpc | stop hpc | wait _ hpc | wake _ hpc | startOver _ hpc | connect hpc
  | swapPending _ _ _ hpc | finishRound _ _ _ _ _ _ _ _ hpc | throwRound _ _ _ _ _ _ _ _ hpc
  | hangInRound _ _ _ _ _ _ _ hpc | endLoop _ hpc =>
    simp only [AckThreadEvent.own, AckThreadEvent.adds, AckThreadEvent.isRound, stepsLeft,
      AckPc.roundsLeft, hpc, length_active, List.length_cons, if_true, Bool.false_eq_true,
      if_false]
    omega

theorem exists_own_step (hstopped : s.pc ≠ .stopped) (hstuck : ∀ it, s.pc ≠ .stuck it) :
    ∃ e : AckThreadEvent, e.own = true ∧ (s.step (.newestFirst, e)).isSome := by
  cases hpc : s.pc with
  | stopped => exact absurd hpc hstopped
  | stuck it => exact absurd hpc (hstuck it)
  | loopHead =>
    refine ⟨.test, rfl, ?_⟩
    simp only [step, hpc]
    split_ifs <;> rfl
  | removing => exact ⟨.removeFromActive, rfl, by simp [step, hpc]⟩
  | checking noKeepAlives =>
    refine ⟨.check, rfl, ?_⟩
    simp only [step, hpc]
    split_ifs <;> rfl
  | waiting => exact ⟨.wake true, rfl, by simp [step, hpc]⟩
  | woken timeout =>
    refine ⟨.lockAgain, rfl, ?_⟩
    simp only [step, hpc]
    split_ifs <;> rfl
  | merged => exact ⟨.connect, rfl, by simp [step, hpc]⟩
  | processing rest sleep =>
    cases rest with
    | nil => exact ⟨.endLoop, rfl, by simp [step, hpc]⟩
    | cons it rest => exact ⟨.swapPending, rfl, by simp [step, hpc]⟩
  | inRound it acks nacks rest sleep =>
    exact ⟨.finishRound 0 [], rfl, by simp [step, hpc]⟩

theorem stopped_step (h : s.step (order, e) = some t) (hs : s.pc = .stopped) :
    t.pc = .stopped ∧ e.own = false := by
  cases e with
  | addDeadlineWatcher | done | addIterator | removeIterator | setNeedStop =>
    cases h
    exact ⟨hs, rfl⟩
  | notify =>
    simp only [step, hs] at h
    cases h
    exact ⟨hs, rfl⟩
  | test | removeFromActive | check | wake | lockAgain | connect | swapPending | finishRound
  | endLoop =>
    simp [step, hs] at h

end AckThread

end Pubsuber
