import Pubsuber.Executor.PullThread
import Pubsuber.Executor.WakeUp
import Pubsuber.Library.Lap

/-!
# Iterators that wait to be merged

Both threads merge their input once in every iteration of their loops, except
when they go back to the head straight from their first wait. The pull thread
does not wait while it has input. The ack thread does, as the input that its
condition asks for is that of the active iterators.
-/

namespace Pubsuber

open HashContainer StateMachine

/-! ## The pull thread -/

def PullPc.isHead : PullPc → Bool
  | .loopHead => true
  | _ => false

def PullPc.isMerged : PullPc → Bool
  | .merged => true
  | _ => false

namespace PullThread

variable {κ : Type}

/-- One iteration that starts with input, and in which nobody stops the thread. -/
structure Iteration (s : PullThread κ) (events : List (HashOrder × PullThreadEvent κ)) :
    Prop where
  head : s.pc = .loopHead
  input : s.block.inputIterators.keys ≠ []
  running : s.needStop = false
  undisturbed : ∀ order, (order, .setNeedStop) ∉ events
  tested : ∃ order rest, events = (order, .test) :: rest
  lap : isLap step (·.pc.isHead) s events = true

def Merges (s : PullThread κ) (events : List (HashOrder × PullThreadEvent κ)) : Prop :=
  visits step (·.pc.isMerged) s events = true

/-- On the way from the head to the merge. -/
structure OnTheWay (s : PullThread κ) : Prop where
  input : s.block.inputIterators.keys ≠ []
  pc : s.pc = .removing ∨ ∃ noActive, s.pc = .checking noActive

/-- Until the merge the input can only grow, and a thread with input does not wait. -/
theorem OnTheWay.step {s t : PullThread κ} {e : HashOrder × PullThreadEvent κ}
    (h : s.OnTheWay) (hst : s.step e = some t) (hmerged : t.pc.isMerged = false) :
    t.OnTheWay := by
  obtain ⟨order, e⟩ := e
  obtain ⟨hinput, hpc⟩ := h
  cases e with
  | addIterator subscription it =>
    cases hst
    refine ⟨?_, hpc⟩
    exact List.ne_nil_of_mem ((Unordered.mem_keys_insertOrAssign order).mpr (.inl rfl))
  | removeIterator | setNeedStop =>
    cases hst
    exact ⟨hinput, hpc⟩
  | notify =>
    rcases hpc with hpc | ⟨noActive, hpc⟩
    all_goals
      simp only [PullThread.step, hpc] at hst
      cases hst
      exact ⟨hinput, by simp [hpc]⟩
  | removeFromActive =>
    rcases hpc with hpc | ⟨noActive, hpc⟩
    · simp only [PullThread.step, hpc] at hst
      cases hst
      exact ⟨hinput, .inr ⟨_, rfl⟩⟩
    · simp [PullThread.step, hpc] at hst
  | check =>
    rcases hpc with hpc | ⟨noActive, hpc⟩
    · simp [PullThread.step, hpc] at hst
    · have hsize : ¬ (s.block.inputIterators.size = 0 ∧ noActive = true) :=
        fun h => hinput (Unordered.size_eq_zero.mp h.1)
      simp only [PullThread.step, hpc, if_neg hsize] at hst
      cases hst
      contradiction
  | test | wake | lockAgain | pull | rested =>
    rcases hpc with hpc | ⟨noActive, hpc⟩ <;> simp [PullThread.step, hpc] at hst

theorem Iteration.merges {s : PullThread κ} {events : List (HashOrder × PullThreadEvent κ)}
    (h : s.Iteration events) : s.Merges events := by
  obtain ⟨order, rest, rfl⟩ := h.tested
  obtain ⟨t, ht, hlap⟩ := isLap_cons.mp h.lap
  have hstep : s.step (order, .test) = some { s with pc := .removing } := by
    simp [step, h.head, h.running]
  obtain rfl : { s with pc := .removing } = t := by
    rw [ht] at hstep
    exact (Option.some.inj hstep).symm
  unfold Merges
  rw [visits_cons ht]
  right
  rcases hlap with ⟨hend, -⟩ | ⟨-, hlap⟩
  · contradiction
  · have hway : OnTheWay { s with pc := .removing } := ⟨h.input, .inl rfl⟩
    refine visits_of_isLap OnTheWay (fun u e v hu => hu.step) ?_ hway hlap
    rintro u ⟨-, hpc | ⟨noActive, hpc⟩⟩ <;> simp [hpc, PullPc.isHead]

end PullThread

/-! ## The ack thread -/

def AckPc.isHead : AckPc → Bool
  | .loopHead => true
  | _ => false

def AckPc.isMerged : AckPc → Bool
  | .merged => true
  | _ => false

/-- Before the merge, save after a wait that has timed out. -/
def AckPc.early : AckPc → Bool
  | .removing => true
  | .checking _ => true
  | .waiting => true
  | .woken timeout => !timeout
  | _ => false

def AckPc.late : AckPc → Bool
  | .merged => true
  | .processing _ _ => true
  | .inRound _ _ _ _ _ => true
  | .stuck _ => true
  | _ => false

namespace AckThread

/-- One iteration that starts with input, and in which nobody stops the thread. -/
structure Iteration (s : AckThread) (events : List (HashOrder × AckThreadEvent)) : Prop where
  head : s.pc = .loopHead
  input : s.block.inputIterators.keys ≠ []
  running : s.needStop = false
  undisturbed : ∀ order, (order, .setNeedStop) ∉ events
  tested : ∃ order rest, events = (order, .test) :: rest
  lap : isLap step (·.pc.isHead) s events = true

def Merges (s : AckThread) (events : List (HashOrder × AckThreadEvent)) : Prop :=
  visits step (·.pc.isMerged) s events = true

def TimesOut (events : List (HashOrder × AckThreadEvent)) : Prop :=
  ∃ order, (order, .wake true) ∈ events

/-- Where a step leads before the merge. Nothing before the merge touches `needSleep`. -/
inductive EarlyStep (s t : AckThread) : AckThreadEvent → Prop
  | early {e : AckThreadEvent} (hpc : t.pc.early = true) (hwake : e ≠ .wake true) :
    EarlyStep s t e
  | timedOut (hpc : t.pc = .woken true) : EarlyStep s t (.wake true)
  | merged {e : AckThreadEvent} (hpc : t.pc = .merged) (hwake : e ≠ .wake true) :
    EarlyStep s t e

theorem earlyStep {s t : AckThread} {order : HashOrder} {e : AckThreadEvent}
    (hpc : s.pc.early = true) (hstop : s.needStop = false) (h : s.step (order, e) = some t) :
    t.needSleep = s.needSleep ∧ EarlyStep s t e := by
  cases e with
  | addDeadlineWatcher | done | addIterator | removeIterator | setNeedStop =>
    cases h
    exact ⟨rfl, .early hpc (by simp)⟩
  | notify =>
    simp only [step] at h
    split at h
    · cases h
      exact ⟨rfl, .early rfl (by simp)⟩
    · cases h
      exact ⟨rfl, .early hpc (by simp)⟩
  | removeFromActive =>
    simp only [step] at h
    split at h
    · cases h
      exact ⟨rfl, .early rfl (by simp)⟩
    · contradiction
  | check =>
    simp only [step] at h
    split at h
    · split_ifs at h
      · cases h
        exact ⟨rfl, .early rfl (by simp)⟩
      · cases h
        exact ⟨s.needSleep_merge order, .merged (s.pc_merge order) (by simp)⟩
    · contradiction
  | wake timeout =>
    simp only [step] at h
    split at h
    · cases h
      cases timeout with
      | true => exact ⟨rfl, .timedOut rfl⟩
      | false => exact ⟨rfl, .early rfl (by simp)⟩
    · contradiction
  | lockAgain =>
    simp only [step] at h
    split at h
    · rename_i timeout hwoken
      obtain rfl : timeout = false := by simpa [hwoken, AckPc.early] using hpc
      rw [if_neg (by simp [startsOver, hstop])] at h
      cases h
      exact ⟨s.needSleep_merge order, .merged (s.pc_merge order) (by simp)⟩
    · contradiction
  | test | connect | swapPending | finishRound | endLoop =>
    simp only [step] at h
    split at h
    · rename_i hpc'
      simp [hpc', AckPc.early] at hpc
    · contradiction

/-- After the merge the thread only waits in remote calls. -/
theorem late_step {s t : AckThread} {order : HashOrder} {e : AckThreadEvent}
    (hpc : s.pc.late = true) (h : s.step (order, e) = some t) :
    e ≠ .wake true ∧ (t.pc.late = true ∨ t.pc.isHead = true) := by
  cases e with
  | addDeadlineWatcher | done | addIterator | removeIterator | setNeedStop =>
    cases h
    exact ⟨by simp, .inl hpc⟩
  | notify =>
    simp only [step] at h
    split at h
    · rename_i hpc'
      simp [hpc', AckPc.late] at hpc
    · cases h
      exact ⟨by simp, .inl hpc⟩
  | connect =>
    simp only [step] at h
    split at h
    · cases h
      exact ⟨by simp, .inl rfl⟩
    · contradiction
  | swapPending =>
    simp only [step] at h
    split at h
    · cases h
      exact ⟨by simp, .inl rfl⟩
    · contradiction
  | finishRound pseudoNow results =>
    simp only [step] at h
    split at h
    · cases h
      refine ⟨by simp, ?_⟩
      dsimp only
      split
      · exact .inl rfl
      · exact .inr rfl
      · exact .inl rfl
      · exact .inl rfl
    · contradiction
  | endLoop =>
    simp only [step] at h
    split at h
    · cases h
      exact ⟨by simp, .inr rfl⟩
    · contradiction
  | test | removeFromActive | check | wake | lockAgain =>
    simp only [step] at h
    split at h
    · rename_i hpc'
      simp [hpc', AckPc.late] at hpc
    · contradiction

theorem not_timesOut_of_late {s : AckThread} {events : List (HashOrder × AckThreadEvent)}
    (hpc : s.pc.late = true) (hlap : isLap step (·.pc.isHead) s events = true) :
    ¬ TimesOut events := by
  induction events generalizing s with
  | nil => contradiction
  | cons e events ih =>
    obtain ⟨order, e⟩ := e
    obtain ⟨t, ht, hend⟩ := isLap_cons.mp hlap
    obtain ⟨hwake, hnext⟩ := late_step hpc ht
    rintro ⟨order', hmem⟩
    rcases List.mem_cons.mp hmem with heq | hmem
    · exact hwake (Prod.mk.inj heq).2.symm
    · rcases hend with ⟨-, rfl⟩ | ⟨hhead, hrest⟩
      · contradiction
      · rcases hnext with hlate | hhead'
        · exact ih hlate hrest ⟨order', hmem⟩
        · rw [hhead] at hhead'
          contradiction

theorem running_step {s t : AckThread} {order : HashOrder} {e : AckThreadEvent}
    {events : List (HashOrder × AckThreadEvent)} (hrunning : s.needStop = false)
    (hstop : ∀ order', (order', .setNeedStop) ∉ (order, e) :: events)
    (h : s.step (order, e) = some t) : t.needStop = false := by
  rw [← Bool.not_eq_true, needStop_step h, hrunning]
  rintro (hset | rfl)
  · contradiction
  · exact hstop order List.mem_cons_self

theorem timedOut_step {s t : AckThread} {order : HashOrder} {e : AckThreadEvent}
    (hpc : s.pc = .woken true) (hrunning : s.needStop = false)
    (h : s.step (order, e) = some t) :
    t.needSleep = s.needSleep ∧ (t.pc = .woken true ∨
      (s.needSleep = true ∧ t.pc = .merged) ∨ (s.needSleep = false ∧ t.pc = .loopHead)) := by
  cases e with
  | lockAgain =>
    simp only [step, hpc] at h
    split_ifs at h with hover
    · cases h
      have hneed : s.needSleep = false := by simpa [startsOver, hrunning] using hover
      exact ⟨rfl, .inr (.inr ⟨hneed, rfl⟩)⟩
    · cases h
      have hneed : s.needSleep = true := by simpa [startsOver, hrunning] using hover
      exact ⟨s.needSleep_merge order, .inr (.inl ⟨hneed, s.pc_merge order⟩)⟩
  | addDeadlineWatcher | done | addIterator | removeIterator | setNeedStop =>
    cases h
    exact ⟨rfl, .inl hpc⟩
  | notify =>
    simp only [step, hpc] at h
    cases h
    exact ⟨rfl, .inl hpc⟩
  | test | removeFromActive | check | wake | connect | swapPending | finishRound | endLoop =>
    simp [step, hpc] at h

theorem merges_iff_of_timedOut {s : AckThread} {events : List (HashOrder × AckThreadEvent)}
    (hpc : s.pc = .woken true) (hrunning : s.needStop = false)
    (hstop : ∀ order, (order, .setNeedStop) ∉ events)
    (hlap : isLap step (·.pc.isHead) s events = true) :
    s.Merges events ↔ s.needSleep = true := by
  induction events generalizing s with
  | nil => contradiction
  | cons e events ih =>
    obtain ⟨order, e⟩ := e
    obtain ⟨t, ht, hend⟩ := isLap_cons.mp hlap
    have hrunning' := running_step hrunning hstop ht
    have hstop' : ∀ order, (order, .setNeedStop) ∉ events :=
      fun order h => hstop order (List.mem_cons_of_mem _ h)
    obtain ⟨hsleep, hnext⟩ := timedOut_step hpc hrunning ht
    unfold Merges
    rw [visits_cons ht, ← hsleep]
    rcases hnext with htimedOut | ⟨hneed, hmerged⟩ | ⟨hneed, hhead⟩
    · rcases hend with ⟨hhead, -⟩ | ⟨-, hrest⟩
      · simp [htimedOut, AckPc.isHead] at hhead
      · rw [← ih htimedOut hrunning' hstop' hrest]
        simp [htimedOut, AckPc.isMerged, Merges]
    · simp [hmerged, AckPc.isMerged, hsleep, hneed]
    · rcases hend with ⟨-, rfl⟩ | ⟨hnot, -⟩
      · simp [hhead, AckPc.isMerged, visits, hsleep, hneed]
      · simp [hhead, AckPc.isHead] at hnot

theorem merges_iff_of_early {s : AckThread} {events : List (HashOrder × AckThreadEvent)}
    (hpc : s.pc.early = true) (hrunning : s.needStop = false)
    (hstop : ∀ order, (order, .setNeedStop) ∉ events)
    (hlap : isLap step (·.pc.isHead) s events = true) :
    s.Merges events ↔ s.needSleep = true ∨ ¬ TimesOut events := by
  induction events generalizing s with
  | nil => contradiction
  | cons e events ih =>
    obtain ⟨order, e⟩ := e
    obtain ⟨t, ht, hend⟩ := isLap_cons.mp hlap
    have hrunning' := running_step hrunning hstop ht
    have hstop' : ∀ order, (order, .setNeedStop) ∉ events :=
      fun order h => hstop order (List.mem_cons_of_mem _ h)
    obtain ⟨hsleep, hearly⟩ := earlyStep hpc hrunning ht
    unfold Merges
    rw [visits_cons ht, ← hsleep]
    cases hearly with
    | early hpc' hwake =>
      have htimes : TimesOut ((order, e) :: events) ↔ TimesOut events := by
        simp [TimesOut, hwake.symm]
      rcases hend with ⟨hhead, -⟩ | ⟨-, hrest⟩
      · cases hq : t.pc <;> simp [hq, AckPc.early, AckPc.isHead] at hpc' hhead
      · rw [htimes, ← ih hpc' hrunning' hstop' hrest]
        cases hq : t.pc <;> simp [hq, AckPc.early, AckPc.isMerged, Merges] at hpc' ⊢
    | timedOut hpc' =>
      have htimes : TimesOut ((order, .wake true) :: events) := ⟨order, List.mem_cons_self⟩
      rcases hend with ⟨hhead, -⟩ | ⟨-, hrest⟩
      · simp [hpc', AckPc.isHead] at hhead
      · rw [or_iff_left (not_not.mpr htimes),
          ← merges_iff_of_timedOut hpc' hrunning' hstop' hrest]
        simp [hpc', AckPc.isMerged, Merges]
    | merged hpc' hwake =>
      have htimes : ¬ TimesOut ((order, e) :: events) := by
        rcases hend with ⟨hhead, -⟩ | ⟨-, hrest⟩
        · simp [hpc', AckPc.isHead] at hhead
        · have := not_timesOut_of_late (by simp [hpc', AckPc.late]) hrest
          simpa [TimesOut, hwake.symm] using this
      simp [hpc', AckPc.isMerged, htimes]

/-- An iteration of the ack thread merges exactly when the thread needed the sleep it
carried over, or when no wait of it times out. -/
theorem Iteration.merges_iff {s : AckThread} {events : List (HashOrder × AckThreadEvent)}
    (h : s.Iteration events) : s.Merges events ↔ s.needSleep = true ∨ ¬ TimesOut events := by
  obtain ⟨order, rest, rfl⟩ := h.tested
  obtain ⟨t, ht, hlap⟩ := isLap_cons.mp h.lap
  have hstop : ∀ order, (order, .setNeedStop) ∉ rest :=
    fun order hmem => h.undisturbed order (List.mem_cons_of_mem _ hmem)
  have hrunning := running_step h.running h.undisturbed ht
  have htest := ht
  simp only [step, h.head, h.running, Bool.false_eq_true, if_false] at ht
  obtain rfl := Option.some.inj ht
  have htimes : TimesOut ((order, .test) :: rest) ↔ TimesOut rest := by simp [TimesOut]
  rcases hlap with ⟨hend, -⟩ | ⟨-, hlap⟩
  · contradiction
  · rw [htimes, ← merges_iff_of_early rfl hrunning hstop hlap]
    unfold Merges
    rw [visits_cons htest]
    simp [AckPc.isMerged]

end AckThread

/-- An iteration that starts with input merges it: of the pull thread always, of the ack
thread when it needed its sleep or when no wait of it times out. -/
theorem iterations_merge_iff {κ : Type} {pull : PullThread κ}
    {pullEvents : List (HashOrder × PullThreadEvent κ)} {ack : AckThread}
    {ackEvents : List (HashOrder × AckThreadEvent)} (hpull : pull.Iteration pullEvents)
    (hack : ack.Iteration ackEvents) :
    pull.Merges pullEvents ∧
      (ack.Merges ackEvents ↔ ack.needSleep = true ∨ ¬ AckThread.TimesOut ackEvents) :=
  ⟨hpull.merges, hack.merges_iff⟩

/-- A pull thread on which an iterator is registered before it has started to run. -/
def pullRegistered : PullThread Unit where
  block := ThreadDataBlock.empty.addIterator .newestFirst "s" ⟨"s", 4, (), 1⟩
  needStop := false
  pc := .loopHead

def ackRegistered : AckThread :=
  { AckThread.start AckThread.oneIterator with
    block := ThreadDataBlock.empty.addIterator .newestFirst "s" 1 }

/-- The thread pulls, and that takes so long that it does not rest. -/
def pullsOnce : List (HashOrder × PullThreadEvent Unit) :=
  [.test, .removeFromActive, .check, .pull (fun _ => received) 300000].map
    (HashOrder.newestFirst, ·)

def notifiedOnce : List (HashOrder × AckThreadEvent) :=
  [.test, .removeFromActive, .check, .notify, .lockAgain, .connect, .swapPending,
    .finishRound 0 [], .endLoop].map (HashOrder.newestFirst, ·)

def timesOutOnce : List (HashOrder × AckThreadEvent) :=
  [.test, .removeFromActive, .check, .wake true, .lockAgain].map (HashOrder.newestFirst, ·)

theorem iterations_merge_iff_registered :
    pullRegistered.Merges pullsOnce ∧
      (ackRegistered.Merges notifiedOnce ↔
        ackRegistered.needSleep = true ∨ ¬ AckThread.TimesOut notifiedOnce) :=
  iterations_merge_iff
    ⟨rfl, by decide, rfl, by simp [pullsOnce], ⟨_, _, rfl⟩, by decide +kernel⟩
    ⟨rfl, by decide, rfl, by simp [notifiedOnce], ⟨_, _, rfl⟩, by decide +kernel⟩

/-- An iterator that is registered while the ack thread does not wait stays in the input
for 500ms, and for another 500ms whenever the wait times out again. -/
theorem not_merges_timesOut :
    run AckThread.step (.start AckThread.oneIterator)
        [(.newestFirst, .addIterator "s" 1), (.newestFirst, .notify)] = some ackRegistered ∧
      ackRegistered.Iteration timesOutOnce ∧ ¬ ackRegistered.Merges timesOutOnce := by
  refine ⟨rfl, ⟨rfl, by decide, rfl, by simp [timesOutOnce], ⟨_, _, rfl⟩, by decide +kernel⟩, ?_⟩
  unfold AckThread.Merges
  decide +kernel

end Pubsuber
