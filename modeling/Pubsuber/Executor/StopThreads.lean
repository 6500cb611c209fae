import Pubsuber.Executor.Stopping
import Pubsuber.Library.Amortized

/-!
# Stopping both threads

`Executor::StopThreads` sets the flag of a thread, notifies it and joins it, the
pull thread first, and then clears what both have left. The steps of the call and
of the threads it waits for are paid for in advance, so the call comes back unless
a remote call does not.
-/

namespace Pubsuber

open HashContainer StateMachine

variable {κ : Type}

namespace ThreadDataBlock

variable {π : Type}

def clearInput (b : ThreadDataBlock π) : ThreadDataBlock π := { b with inputIterators := .empty }

def clearActive (b : ThreadDataBlock π) : ThreadDataBlock π :=
  { b with activeIterators := .empty }

def clearRemoved (b : ThreadDataBlock π) : ThreadDataBlock π := { b with removedIterators := [] }

end ThreadDataBlock

/-- Where a call of `StopThreads` is: what it does next. -/
inductive StopPoint
  | idle
  | pullNotify
  | pullJoin
  | ackStop
  | ackNotify
  | ackJoin
  | pullClearInput
  | pullClearActive
  | pullClearRemoved
  | ackClearInput
  | ackClearActive
  | ackClearRemoved
  | returned
  deriving DecidableEq, Repr

namespace StopPoint

def stepsLeft : StopPoint → ℕ
  | idle => 12
  | pullNotify => 11
  | pullJoin => 10
  | ackStop => 9
  | ackNotify => 8
  | ackJoin => 7
  | pullClearInput => 6
  | pullClearActive => 5
  | pullClearRemoved => 4
  | ackClearInput => 3
  | ackClearActive => 2
  | ackClearRemoved => 1
  | returned => 0

def pullJoined (p : StopPoint) : Bool := p.stepsLeft ≤ 9

def ackJoined (p : StopPoint) : Bool := p.stepsLeft ≤ 6

theorem of_ackJoined {p : StopPoint} (h : p.ackJoined = true) :
    p ≠ idle ∧ p.pullJoined = true ∧ p.stepsLeft ≤ 8 := by
  cases p <;> simp_all [ackJoined, pullJoined, stepsLeft]

theorem ackJoined_next {p q : StopPoint} (h : p.ackJoined = true)
    (hnext : q.stepsLeft + 1 = p.stepsLeft) : q.ackJoined = true := by
  unfold ackJoined at h ⊢
  simp only [decide_eq_true_eq] at h ⊢
  omega

end StopPoint

structure Executor (κ : Type) where
  pullThread : PullThread κ
  ackThread : AckThread
  stopping : StopPoint

/-- A step of one of the threads or a change made to it from outside; the next step of
`StopThreads`. -/
inductive ExecutorEvent (κ : Type)
  | pullThread (e : PullThreadEvent κ)
  | ackThread (e : AckThreadEvent)
  | stopThreads

namespace Executor

def start (object : ModAckIteratorPtr → String × AckDistribution) : Executor κ :=
  ⟨.start, .start object, .idle⟩

def withPull (s : Executor κ) (stopping : StopPoint)
    (f : ThreadDataBlock (SubscriptionPullIterator κ) →
      ThreadDataBlock (SubscriptionPullIterator κ)) : Executor κ :=
  { s with pullThread := { s.pullThread with block := f s.pullThread.block }, stopping }

def withAck (s : Executor κ) (stopping : StopPoint)
    (f : ThreadDataBlock ModAckIteratorPtr → ThreadDataBlock ModAckIteratorPtr) : Executor κ :=
  { s with ackThread := { s.ackThread with block := f s.ackThread.block }, stopping }

/-- A join comes back when the thread has stopped. -/
def stopThreads (s : Executor κ) : Option (Executor κ) :=
  match s.stopping with
  | .idle =>
    some { s with
      pullThread := { s.pullThread with needStop := true }
      stopping := .pullNotify }
  | .pullNotify =>
    (s.pullThread.step (.newestFirst, .notify)).map fun pullThread =>
      { s with pullThread, stopping := .pullJoin }
  | .pullJoin => if s.pullThread.pc = .stopped then some { s with stopping := .ackStop } else none
  | .ackStop =>
    some { s with
      ackThread := { s.ackThread with needStop := true }
      stopping := .ackNotify }
  | .ackNotify =>
    (s.ackThread.step (.newestFirst, .notify)).map fun ackThread =>
      { s with ackThread, stopping := .ackJoin }
  | .ackJoin =>
    match s.ackThread.pc with
    | .stopped => some { s with stopping := .pullClearInput }
    | _ => none
  | .pullClearInput => some (s.withPull .pullClearActive (·.clearInput))
  | .pullClearActive => some (s.withPull .pullClearRemoved (·.clearActive))
  | .pullClearRemoved => some (s.withPull .ackClearInput (·.clearRemoved))
  | .ackClearInput => some (s.withAck .ackClearActive (·.clearInput))
  | .ackClearActive => some (s.withAck .ackClearRemoved (·.clearActive))
  | .ackClearRemoved => some (s.withAck .returned (·.clearRemoved))
  | .returned => none

/-- Nothing but `StopThreads` sets the flags. -/
def step (s : Executor κ) : HashOrder × ExecutorEvent κ → Option (Executor κ)
  | (_, .pullThread .setNeedStop) => none
  | (_, .ackThread .setNeedStop) => none
  | (order, .pullThread e) =>
    (s.pullThread.step (order, e)).map fun pullThread => { s with pullThread }
  | (order, .ackThread e) =>
    (s.ackThread.step (order, e)).map fun ackThread => { s with ackThread }
  | (_, .stopThreads) => s.stopThreads

variable {s t : Executor κ} {order : HashOrder} {e : ExecutorEvent κ}

theorem step_cases (h : s.step (order, e) = some t) :
    (∃ e' pullThread, e = .pullThread e' ∧ e' ≠ .setNeedStop ∧
      s.pullThread.step (order, e') = some pullThread ∧ t = { s with pullThread }) ∨
    (∃ e' ackThread, e = .ackThread e' ∧ e' ≠ .setNeedStop ∧
      s.ackThread.step (order, e') = some ackThread ∧ t = { s with ackThread }) ∨
    (e = .stopThreads ∧ s.stopThreads = some t) := by
  cases e with
  | pullThread e' =>
    by_cases he : e' = .setNeedStop
    · subst he
      contradiction
    · rw [step.eq_3 _ _ _ he] at h
      obtain ⟨pullThread, hp, rfl⟩ := Option.map_eq_some_iff.mp h
      exact .inl ⟨e', pullThread, rfl, he, hp, rfl⟩
  | ackThread e' =>
    by_cases he : e' = .setNeedStop
    · subst he
      contradiction
    · rw [step.eq_4 _ _ _ he] at h
      obtain ⟨ackThread, ha, rfl⟩ := Option.map_eq_some_iff.mp h
      exact .inr (.inl ⟨e', ackThread, rfl, he, ha, rfl⟩)
  | stopThreads => exact .inr (.inr ⟨rfl, h⟩)

/-- The steps of a call of `StopThreads`. Both threads are joined before anything is
cleared. -/
inductive StopStep (s : Executor κ) : Executor κ → Prop
  | stopPull (hpoint : s.stopping = .idle) :
    StopStep s { s with
      pullThread := { s.pullThread with needStop := true }
      stopping := .pullNotify }
  | notifyPull (pullThread : PullThread κ) (hpoint : s.stopping = .pullNotify)
    (hp : s.pullThread.step (.newestFirst, .notify) = some pullThread) :
    StopStep s { s with pullThread, stopping := .pullJoin }
  | joinPull (hpoint : s.stopping = .pullJoin) (hstopped : s.pullThread.pc = .stopped) :
    StopStep s { s with stopping := .ackStop }
  | stopAck (hpoint : s.stopping = .ackStop) :
    StopStep s { s with
      ackThread := { s.ackThread with needStop := true }
      stopping := .ackNotify }
  | notifyAck (ackThread : AckThread) (hpoint : s.stopping = .ackNotify)
    (ha : s.ackThread.step (.newestFirst, .notify) = some ackThread) :
    StopStep s { s with ackThread, stopping := .ackJoin }
  | joinAck (hpoint : s.stopping = .ackJoin) (hstopped : s.ackThread.pc = .stopped) :
    StopStep s { s with stopping := .pullClearInput }
  | clearPull (p : StopPoint) (f : ThreadDataBlock (SubscriptionPullIterator κ) →
      ThreadDataBlock (SubscriptionPullIterator κ)) (hjoined : s.stopping.ackJoined = true)
    (hnext : p.stepsLeft + 1 = s.stopping.stepsLeft) : StopStep s (s.withPull p f)
  | clearAck (p : StopPoint) (f : ThreadDataBlock ModAckIteratorPtr →
      ThreadDataBlock ModAckIteratorPtr) (hjoined : s.stopping.ackJoined = true)
    (hnext : p.stepsLeft + 1 = s.stopping.stepsLeft) : StopStep s (s.withAck p f)

theorem stopStep_of_stopThreads (h : s.stopThreads = some t) : s.StopStep t := by
  unfold stopThreads at h
  split at h
  · next hpoint =>
    cases h
    exact .stopPull hpoint
  · next hpoint =>
    obtain ⟨p, hp, rfl⟩ := Option.map_eq_some_iff.mp h
    exact .notifyPull p hpoint hp
  · next hpoint =>
    split_ifs at h with hstopped
    cases h
    exact .joinPull hpoint hstopped
  · next hpoint =>
    cases h
    exact .stopAck hpoint
  · next hpoint =>
    obtain ⟨a, ha, rfl⟩ := Option.map_eq_some_iff.mp h
    exact .notifyAck a hpoint ha
  · next hpoint =>
    split at h
    · next hstopped =>
      cases h
      exact .joinAck hpoint hstopped
    · contradiction
  · next hpoint =>
    cases h
    exact .clearPull .pullClearActive _ (by rw [hpoint]; rfl) (by rw [hpoint]; rfl)
  · next hpoint =>
    cases h
    exact .clearPull .pullClearRemoved _ (by rw [hpoint]; rfl) (by rw [hpoint]; rfl)
  · next hpoint =>
    cases h
    exact .clearPull .ackClearInput _ (by rw [hpoint]; rfl) (by rw [hpoint]; rfl)
  · next hpoint =>
    cases h
    exact .clearAck .ackClearActive _ (by rw [hpoint]; rfl) (by rw [hpoint]; rfl)
  · next hpoint =>
    cases h
    exact .clearAck .ackClearRemoved _ (by rw [hpoint]; rfl) (by rw [hpoint]; rfl)
  · next hpoint =>
    cases h
    exact .clearAck .returned _ (by rw [hpoint]; rfl) (by rw [hpoint]; rfl)
  · contradiction

/-- What the call knows of the threads. -/
structure Coherent (s : Executor κ) : Prop where
  pullFlag : s.pullThread.needStop = true ↔ s.stopping ≠ .idle
  ackFlag : s.ackThread.needStop = true ↔ s.stopping.stepsLeft ≤ 8
  pullJoined : s.stopping.pullJoined = true → s.pullThread.pc = .stopped
  ackJoined : s.stopping.ackJoined = true → s.ackThread.pc = .stopped
  pullOver : s.pullThread.pc ≠ .stuck
  roundFits : s.ackThread.RoundFits

theorem coherent_start (object : ModAckIteratorPtr → String × AckDistribution) :
    Coherent (start object : Executor κ) where
  pullFlag := by simp [start, PullThread.start]
  ackFlag := by simp [start, AckThread.start, StopPoint.stepsLeft]
  pullJoined := by simp [start, StopPoint.pullJoined, StopPoint.stepsLeft]
  ackJoined := by simp [start, StopPoint.ackJoined, StopPoint.stepsLeft]
  pullOver := by simp [start, PullThread.start]
  roundFits := trivial

/-- Both threads have stopped when their blocks are cleared. -/
theorem Coherent.withPull (h : s.Coherent) (hs : s.stopping.ackJoined = true) {p : StopPoint}
    (hp : p.stepsLeft + 1 = s.stopping.stepsLeft)
    (f : ThreadDataBlock (SubscriptionPullIterator κ) →
      ThreadDataBlock (SubscriptionPullIterator κ)) : (s.withPull p f).Coherent := by
  obtain ⟨hne, hjoined, hsteps⟩ := StopPoint.of_ackJoined hs
  obtain ⟨hne', hjoined', hsteps'⟩ := StopPoint.of_ackJoined (StopPoint.ackJoined_next hs hp)
  exact ⟨iff_of_true (h.pullFlag.mpr hne) hne', iff_of_true (h.ackFlag.mpr hsteps) hsteps',
    fun _ => h.pullJoined hjoined, fun _ => h.ackJoined hs, h.pullOver, h.roundFits⟩

theorem Coherent.withAck (h : s.Coherent) (hs : s.stopping.ackJoined = true) {p : StopPoint}
    (hp : p.stepsLeft + 1 = s.stopping.stepsLeft)
    (f : ThreadDataBlock ModAckIteratorPtr → ThreadDataBlock ModAckIteratorPtr) :
    (s.withAck p f).Coherent := by
  obtain ⟨hne, hjoined, hsteps⟩ := StopPoint.of_ackJoined hs
  obtain ⟨hne', hjoined', hsteps'⟩ := StopPoint.of_ackJoined (StopPoint.ackJoined_next hs hp)
  have hstopped := h.ackJoined hs
  have hfits : (s.withAck p f).ackThread.RoundFits := by
    unfold AckThread.RoundFits Executor.withAck
    rw [hstopped]
    trivial
  exact ⟨iff_of_true (h.pullFlag.mpr hne) hne', iff_of_true (h.ackFlag.mpr hsteps) hsteps',
    fun _ => h.pullJoined hjoined, fun _ => hstopped, h.pullOver, hfits⟩

theorem Coherent.stopThreads (h : s.Coherent) (hst : s.stopThreads = some t) : t.Coherent := by
  have ⟨hpullFlag, hackFlag, hpullJoined, hackJoined, hover, hfits⟩ := h
  cases stopStep_of_stopThreads hst with
  | stopPull hpoint =>
    exact ⟨by simp, by simpa [hpoint, StopPoint.stepsLeft] using hackFlag,
      by simp [StopPoint.pullJoined, StopPoint.stepsLeft],
      by simp [StopPoint.ackJoined, StopPoint.stepsLeft], hover, hfits⟩
  | notifyPull p hpoint hp =>
    have hflag := PullThread.needStop_step hp (by simp)
    exact ⟨by simpa [hflag, hpoint] using hpullFlag,
      by simpa [hpoint, StopPoint.stepsLeft] using hackFlag,
      by simp [StopPoint.pullJoined, StopPoint.stepsLeft],
      by simp [StopPoint.ackJoined, StopPoint.stepsLeft], PullThread.stuck_step hp hover, hfits⟩
  | joinPull hpoint hstopped =>
    exact ⟨by simpa [hpoint] using hpullFlag,
      by simpa [hpoint, StopPoint.stepsLeft] using hackFlag, fun _ => hstopped,
      by simp [StopPoint.ackJoined, StopPoint.stepsLeft], hover, hfits⟩
  | stopAck hpoint =>
    exact ⟨by simpa [hpoint] using hpullFlag, by simp [StopPoint.stepsLeft],
      fun _ => hpullJoined (by simp [hpoint, StopPoint.pullJoined, StopPoint.stepsLeft]),
      by simp [StopPoint.ackJoined, StopPoint.stepsLeft], hover, hfits⟩
  | notifyAck a hpoint ha =>
    have hflag : a.needStop = true ↔ s.ackThread.needStop = true := by
      simp [AckThread.needStop_step ha]
    exact ⟨by simpa [hpoint] using hpullFlag,
      by simpa [hflag, hpoint, StopPoint.stepsLeft] using hackFlag,
      fun _ => hpullJoined (by simp [hpoint, StopPoint.pullJoined, StopPoint.stepsLeft]),
      by simp [StopPoint.ackJoined, StopPoint.stepsLeft], hover,
      AckThread.roundFits_step ha hfits⟩
  | joinAck hpoint hstopped =>
    exact ⟨by simpa [hpoint] using hpullFlag,
      by simpa [hpoint, StopPoint.stepsLeft] using hackFlag,
      fun _ => hpullJoined (by simp [hpoint, StopPoint.pullJoined, StopPoint.stepsLeft]),
      fun _ => hstopped, hover, hfits⟩
  | clearPull p f hjoined hnext => exact h.withPull hjoined hnext f
  | clearAck p f hjoined hnext => exact h.withAck hjoined hnext f

theorem Coherent.step (h : s.Coherent) (hst : s.step (order, e) = some t) : t.Coherent := by
  rcases step_cases hst with ⟨e', p, rfl, he, hp, rfl⟩ | ⟨e', a, rfl, he, ha, rfl⟩ | ⟨rfl, hst⟩
  · have hflag := PullThread.needStop_step hp he
    exact ⟨by simpa [hflag] using h.pullFlag, h.ackFlag,
      fun hj => (PullThread.stopped_step hp (h.pullJoined hj)).1, h.ackJoined,
      PullThread.stuck_step hp h.pullOver, h.roundFits⟩
  · have hflag : a.needStop = true ↔ s.ackThread.needStop = true := by
      simp [AckThread.needStop_step ha, he]
    exact ⟨h.pullFlag, hflag.trans h.ackFlag, h.pullJoined,
      fun hj => (AckThread.stopped_step ha (h.ackJoined hj)).1, h.pullOver,
      AckThread.roundFits_step ha h.roundFits⟩
  · exact h.stopThreads hst

/-! ## Counting -/

/-- The steps of the call, and those of the threads that are to stop. -/
def spent (s : Executor κ) : HashOrder × ExecutorEvent κ → ℕ
  | (_, .pullThread e) => if s.pullThread.needStop = true ∧ e.own = true then 1 else 0
  | (_, .ackThread e) => if s.ackThread.needStop = true ∧ e.own = true then 1 else 0
  | (_, .stopThreads) => 1

/-- A round that the thread begins although it is to stop. -/
def pullRoundsBegun (s : Executor κ) : HashOrder × ExecutorEvent κ → ℕ
  | (_, .pullThread e) => if s.pullThread.needStop = true ∧ e.isRound = true then 1 else 0
  | _ => 0

def ackRoundsBegun (s : Executor κ) : HashOrder × ExecutorEvent κ → ℕ
  | (_, .ackThread e) => if s.ackThread.needStop = true ∧ e.isRound = true then 1 else 0
  | _ => 0

def added : HashOrder × ExecutorEvent κ → ℕ
  | (_, .ackThread e) => if e.adds then 1 else 0
  | _ => 0

def pullStepsLeft (s : PullThread κ) : ℕ := if s.needStop then s.pc.stepsLeft else 5

def ackStepsLeft (s : AckThread) : ℕ :=
  if s.needStop then s.stepsLeft else 5 + 2 * s.block.size

def stepsLeft (s : Executor κ) : ℕ :=
  s.stopping.stepsLeft + pullStepsLeft s.pullThread + ackStepsLeft s.ackThread

def pullRoundsLeft (s : PullThread κ) : ℕ := if s.needStop then s.pc.roundsLeft else 1

def ackRoundsLeft (s : AckThread) : ℕ := if s.needStop then s.pc.roundsLeft else 1

theorem pullStepsLeft_step {s t : PullThread κ} {e : PullThreadEvent κ}
    (h : s.step (order, e) = some t) (he : e ≠ .setNeedStop) :
    (if s.needStop = true ∧ e.own = true then 1 else 0) + pullStepsLeft t ≤ pullStepsLeft s ∧
      (if s.needStop = true ∧ e.isRound = true then 1 else 0) + pullRoundsLeft t ≤
        pullRoundsLeft s := by
  have hflag := PullThread.needStop_step h he
  unfold pullStepsLeft pullRoundsLeft
  rw [hflag]
  by_cases hstop : s.needStop = true
  · simpa [hstop] using PullThread.stepsLeft_step h hstop
  · simp [hstop]

theorem ackStepsLeft_step {s t : AckThread} {e : AckThreadEvent}
    (h : s.step (order, e) = some t) (he : e ≠ .setNeedStop) :
    (if s.needStop = true ∧ e.own = true then 1 else 0) + ackStepsLeft t ≤
        ackStepsLeft s + (if e.adds then 2 else 0) ∧
      (if s.needStop = true ∧ e.isRound = true then 1 else 0) + ackRoundsLeft t ≤
        ackRoundsLeft s := by
  have hflag : t.needStop = s.needStop := by
    rw [Bool.eq_iff_iff, AckThread.needStop_step h]
    simp [he]
  have hsize := AckThread.size_step h
  unfold ackStepsLeft ackRoundsLeft
  rw [hflag]
  by_cases hstop : s.needStop = true
  · simpa [hstop] using AckThread.stepsLeft_step h hstop
  · simp only [hstop, false_and, if_false, Bool.false_eq_true]
    split_ifs at hsize ⊢ <;> omega

theorem pullStepsLeft_withPull {p : StopPoint} {f : ThreadDataBlock (SubscriptionPullIterator κ) →
    ThreadDataBlock (SubscriptionPullIterator κ)} :
    pullStepsLeft (s.withPull p f).pullThread = pullStepsLeft s.pullThread := rfl

theorem Coherent.ackStepsLeft_withAck (hs : s.Coherent) (hj : s.stopping.ackJoined = true)
    {p : StopPoint} {f : ThreadDataBlock ModAckIteratorPtr → ThreadDataBlock ModAckIteratorPtr} :
    ackStepsLeft (s.withAck p f).ackThread = ackStepsLeft s.ackThread := by
  have hstopped := hs.ackJoined hj
  have hflag := hs.ackFlag.mpr (StopPoint.of_ackJoined hj).2.2
  simp [ackStepsLeft, Executor.withAck, AckThread.stepsLeft, hstopped, hflag]

/-- Every step that counts is paid for. -/
theorem spent_step (hs : s.Coherent) (hst : s.step (order, e) = some t) :
    s.spent (order, e) + t.stepsLeft ≤ s.stepsLeft + 2 * added (order, e) := by
  rcases step_cases hst with ⟨e', p, rfl, he, hp, rfl⟩ | ⟨e', a, rfl, he, ha, rfl⟩ | ⟨rfl, hstop⟩
  · have hpay := (pullStepsLeft_step hp he).1
    unfold spent stepsLeft added
    dsimp only
    omega
  · have hpay := (ackStepsLeft_step ha he).1
    unfold spent stepsLeft added
    dsimp only
    split_ifs at hpay ⊢ <;> omega
  · have hpull := s.pullThread.pc.stepsLeft_le
    have hack := s.ackThread.stepsLeft_le hs.roundFits
    unfold spent stepsLeft added
    cases stopStep_of_stopThreads hstop with
    | stopPull hpoint =>
      have hflag : s.pullThread.needStop = false := by
        simpa [hpoint] using hs.pullFlag
      simp only [hpoint, pullStepsLeft, hflag, StopPoint.stepsLeft, if_true, Bool.false_eq_true,
        if_false]
      omega
    | notifyPull p hpoint hp =>
      have hpay := (pullStepsLeft_step hp (by simp)).1
      simp only [hpoint, StopPoint.stepsLeft]
      omega
    | joinPull hpoint =>
      simp only [hpoint, StopPoint.stepsLeft]
      omega
    | stopAck hpoint =>
      have hflag : s.ackThread.needStop = false := by
        simpa [hpoint, StopPoint.stepsLeft] using hs.ackFlag
      have hleft : AckThread.stepsLeft { s.ackThread with needStop := true } =
        s.ackThread.stepsLeft := rfl
      simp only [hpoint, ackStepsLeft, hflag, hleft, StopPoint.stepsLeft, if_true,
        Bool.false_eq_true, if_false]
      omega
    | notifyAck a hpoint ha =>
      have hpay := (ackStepsLeft_step ha (by simp)).1
      simp only [AckThreadEvent.adds, Bool.false_eq_true, if_false] at hpay
      simp only [hpoint, StopPoint.stepsLeft]
      omega
    | joinAck hpoint =>
      simp only [hpoint, StopPoint.stepsLeft]
      omega
    | clearPull p f hjoined hnext =>
      rw [pullStepsLeft_withPull, ← hnext]
      dsimp only [withPull]
      omega
    | clearAck p f hjoined hnext =>
      rw [hs.ackStepsLeft_withAck hjoined, ← hnext]
      dsimp only [withAck]
      omega

theorem Coherent.roundsLeft_stopThreads (hs : s.Coherent) (hst : s.stopThreads = some t) :
    pullRoundsLeft t.pullThread ≤ pullRoundsLeft s.pullThread ∧
      ackRoundsLeft t.ackThread ≤ ackRoundsLeft s.ackThread := by
  cases stopStep_of_stopThreads hst with
  | stopPull hpoint =>
    have hflag : s.pullThread.needStop = false := by simpa [hpoint] using hs.pullFlag
    have hone := s.pullThread.pc.roundsLeft_le
    simpa [pullRoundsLeft, hflag] using hone
  | notifyPull p _ hp =>
    have hpay := (pullStepsLeft_step hp (by simp)).2
    exact ⟨(Nat.le_add_left _ _).trans hpay, le_rfl⟩
  | stopAck hpoint =>
    have hflag : s.ackThread.needStop = false := by
      simpa [hpoint, StopPoint.stepsLeft] using hs.ackFlag
    have hone := s.ackThread.pc.roundsLeft_le
    simpa [ackRoundsLeft, hflag] using hone
  | notifyAck a _ ha =>
    have hpay := (ackStepsLeft_step ha (by simp)).2
    exact ⟨le_rfl, (Nat.le_add_left _ _).trans hpay⟩
  | joinPull | joinAck | clearPull | clearAck => exact ⟨le_rfl, le_rfl⟩

theorem roundsBegun_step (hs : s.Coherent) (hst : s.step (order, e) = some t) :
    s.pullRoundsBegun (order, e) + pullRoundsLeft t.pullThread ≤ pullRoundsLeft s.pullThread ∧
      s.ackRoundsBegun (order, e) + ackRoundsLeft t.ackThread ≤ ackRoundsLeft s.ackThread := by
  rcases step_cases hst with ⟨e', p, rfl, he, hp, rfl⟩ | ⟨e', a, rfl, he, ha, rfl⟩ | ⟨rfl, hstop⟩
  · exact ⟨(pullStepsLeft_step hp he).2, (Nat.zero_add _).le⟩
  · exact ⟨(Nat.zero_add _).le, (ackStepsLeft_step ha he).2⟩
  · have hleft := hs.roundsLeft_stopThreads hstop
    simpa [pullRoundsBegun, ackRoundsBegun] using hleft

theorem called_step (hcalled : s.stopping ≠ .idle) (hst : s.step (order, e) = some t) :
    t.stopping ≠ .idle := by
  rcases step_cases hst with ⟨_, _, -, -, -, rfl⟩ | ⟨_, _, -, -, -, rfl⟩ | ⟨-, hstop⟩
  · exact hcalled
  · exact hcalled
  · cases stopStep_of_stopThreads hstop with
    | clearPull p f hjoined hnext | clearAck p f hjoined hnext =>
      exact (StopPoint.of_ackJoined (StopPoint.ackJoined_next hjoined hnext)).1
    | _ => simp

/-- Until the call is back, the call or the thread it waits for can go on, save when
that thread waits in a remote call. -/
theorem exists_spent_step (hs : s.Coherent) (hcalled : s.stopping ≠ .idle)
    (hreturned : s.stopping ≠ .returned) (hstuck : ∀ it, s.ackThread.pc ≠ .stuck it) :
    ∃ e : ExecutorEvent κ, s.spent (.newestFirst, e) = 1 ∧
      (s.step (.newestFirst, e)).isSome := by
  cases hpoint : s.stopping with
  | idle => exact absurd hpoint hcalled
  | returned => exact absurd hpoint hreturned
  | pullJoin =>
    by_cases hstopped : s.pullThread.pc = .stopped
    · exact ⟨.stopThreads, rfl, by simp [step, stopThreads, hpoint, hstopped]⟩
    · obtain ⟨e, hown, he⟩ := s.pullThread.exists_own_step hstopped hs.pullOver
      obtain ⟨p, hp⟩ := Option.isSome_iff_exists.mp he
      have hflag := hs.pullFlag.mpr hcalled
      refine ⟨.pullThread e, by simp [spent, hflag, hown], ?_⟩
      cases e with
      | setNeedStop => contradiction
      | _ => simp [step, hp]
  | ackJoin =>
    have hflag := hs.ackFlag.mpr (by rw [hpoint]; decide)
    by_cases hstopped : s.ackThread.pc = .stopped
    · exact ⟨.stopThreads, rfl, by simp [step, stopThreads, hpoint, hstopped]⟩
    · obtain ⟨e, hown, he⟩ := s.ackThread.exists_own_step hstopped hstuck
      obtain ⟨a, ha⟩ := Option.isSome_iff_exists.mp he
      refine ⟨.ackThread e, by simp [spent, hflag, hown], ?_⟩
      cases e with
      | setNeedStop => contradiction
      | _ => simp [step, ha]
  | pullNotify =>
    refine ⟨.stopThreads, rfl, ?_⟩
    simp only [step, stopThreads, hpoint, Option.isSome_map, PullThread.step]
    split <;> rfl
  | ackNotify =>
    refine ⟨.stopThreads, rfl, ?_⟩
    simp only [step, stopThreads, hpoint, Option.isSome_map, AckThread.step]
    split <;> rfl
  | ackStop | pullClearInput | pullClearActive | pullClearRemoved | ackClearInput
  | ackClearActive | ackClearRemoved =>
    exact ⟨.stopThreads, rfl, by simp [step, stopThreads, hpoint]⟩

/-- A message has arrived, and the ack thread is about to merge it. -/
def aboutToMerge : List (HashOrder × ExecutorEvent Unit) :=
  AckThread.registered.map (fun e => (e.1, .ackThread e.2)) ++
    [.addDeadlineWatcher 1 "a" 9000000000, .test, .removeFromActive].map
      fun e => (HashOrder.newestFirst, .ackThread e)

/-- The ack thread makes its round and stops at the head of its loop. -/
def stopsAfterRound : List (HashOrder × ExecutorEvent Unit) :=
  [.stopThreads, .pullThread .test, .stopThreads, .stopThreads, .stopThreads, .ackThread .check,
    .ackThread .connect, .ackThread .swapPending, .ackThread (.finishRound 0 []),
    .ackThread .endLoop, .ackThread .test, .stopThreads, .stopThreads, .stopThreads, .stopThreads,
    .stopThreads, .stopThreads, .stopThreads].map (HashOrder.newestFirst, ·)

end Executor

end Pubsuber
