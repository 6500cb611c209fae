import Pubsuber.Ack.Resolution
import Pubsuber.Executor.Registration

/-!
# The ack thread among the other threads

`Executor::AckThreadFunc`, cut at its critical sections, with the updates that
other threads make under `_condMutex` or to `_needStop`, and their
notifications. What a notification does to a thread that does not wait is
nothing. Seen from one iterator, a run of the whole is a run of that iterator.
-/

namespace Pubsuber

open HashContainer StateMachine

/-- An iterator with every call made for it so far. -/
structure IteratorObject where
  iterator : ModAckIterator
  calls : List Call

inductive AckPc
  | loopHead
  | removing
  | checking (noKeepAlives : Bool)
  | waiting
  /-- The wait is over and the mutex is still to be locked again. -/
  | woken (timeout : Bool)
  | merged
  | processing (rest : List ModAckIteratorPtr) (sleep : ℤ)
  | inRound (it : ModAckIteratorPtr) (pendingAcks pendingNacks : AckIDSet)
    (rest : List ModAckIteratorPtr) (sleep : ℤ)
  | stuck (it : ModAckIteratorPtr)
  | stopped

structure AckThread where
  heap : ModAckIteratorPtr → IteratorObject
  block : ThreadDataBlock ModAckIteratorPtr
  needStop : Bool
  /-- Milliseconds. -/
  sleep : ℤ
  needSleep : Bool
  pc : AckPc

inductive AckThreadEvent
  -- other threads
  | addDeadlineWatcher (it : ModAckIteratorPtr) (ackID : AckID) (nextAck : TimePoint)
  | done (it : ModAckIteratorPtr) (ackID : AckID) (sec : ℤ) (action : DoneAction)
  | addIterator (subscription : SubscriptionName) (it : ModAckIteratorPtr)
  | removeIterator (subscription : SubscriptionName)
  | setNeedStop
  | notify
  -- the ack thread
  | test
  | removeFromActive
  | check
  | wake (timeout : Bool)
  | lockAgain
  | connect
  | swapPending
  | finishRound (pseudoNow : TimePoint) (results : List CallResult)
  | endLoop

namespace AckThread

/-- `object it` is the name and the initial histogram of iterator `it`. -/
def start (object : ModAckIteratorPtr → String × AckDistribution) : AckThread where
  heap it := ⟨.create (object it).1 (object it).2, []⟩
  block := .empty
  needStop := false
  sleep := kSoManyMilliseconds
  needSleep := false
  pc := .loopHead

variable (s : AckThread) (order : HashOrder)

def active : List ModAckIteratorPtr := s.block.activeIterators.toList.map Prod.snd

/-- `size_t`. -/
def keepAliveCount : ℕ :=
  (s.active.map fun it => (s.heap it).iterator.keepAliveCount).sum % 2 ^ 64

/-- The captured `count` is a `uint32_t`. -/
def getInputCount : ℕ := (s.active.map fun it => (s.heap it).iterator.inputCount).sum % 2 ^ 32

def update (it : ModAckIteratorPtr) (f : ModAckIterator → ModAckIterator) : AckThread :=
  { s with heap := Function.update s.heap it ⟨f (s.heap it).iterator, (s.heap it).calls⟩ }

def mergeInputs (its : List ModAckIteratorPtr) : AckThread :=
  its.foldl (fun s it => s.update it (·.mergeInput order)) s

/-- The rest of the critical section that starts with the check. -/
def merge : AckThread :=
  let s := { s with block := s.block.mergeInputToActive order, pc := .merged }
  s.mergeInputs order s.active

/-- The condition under which the thread calls `wait_for`. -/
def waits (noKeepAlives : Bool) : Bool :=
  s.needSleep || (s.getInputCount == 0 && noKeepAlives)

/-- The condition under which a thread that wakes up starts over. -/
def startsOver (timeout : Bool) : Bool := (!s.needSleep && timeout) || s.needStop

def step : HashOrder × AckThreadEvent → Option AckThread
  | (order, .addDeadlineWatcher it ackID nextAck) =>
    some (s.update it (·.addDeadlineWatcher order ackID nextAck))
  | (order, .done it ackID sec action) => some (s.update it (·.done order ackID sec action))
  | (order, .addIterator subscription it) =>
    some { s with block := s.block.addIterator order subscription it }
  | (_, .removeIterator subscription) =>
    some { s with block := s.block.removeIterator subscription }
  | (_, .setNeedStop) => some { s with needStop := true }
  | (_, .notify) =>
    match s.pc with
    | .waiting => some { s with pc := .woken false }
    | _ => some s
  | (_, .test) =>
    match s.pc with
    | .loopHead =>
      if s.needStop then some { s with pc := .stopped }
      else some { s with
        sleep := if s.sleep = kSoManyMilliseconds then 500 else s.sleep
        pc := .removing }
    | _ => none
  | (_, .removeFromActive) =>
    match s.pc with
    | .removing =>
      let s := { s with block := s.block.removeFromActive }
      some { s with pc := .checking (s.keepAliveCount == 0) }
    | _ => none
  | (order, .check) =>
    match s.pc with
    | .checking noKeepAlives =>
      if s.waits noKeepAlives then some { s with pc := .waiting } else some (s.merge order)
    | _ => none
  | (_, .wake timeout) =>
    match s.pc with
    | .waiting => some { s with pc := .woken timeout }
    | _ => none
  | (order, .lockAgain) =>
    match s.pc with
    | .woken timeout =>
      if s.startsOver timeout then some { s with pc := .loopHead } else some (s.merge order)
    | _ => none
  | (_, .connect) =>
    match s.pc with
    | .merged =>
      some { s with
        needSleep := false
        sleep := kSoManyMilliseconds
        pc := .processing s.active kSoManyMilliseconds }
    | _ => none
  | (_, .swapPending) =>
    match s.pc with
    | .processing (it :: rest) sleep =>
      let (iterator, pendingAcks, pendingNacks) := (s.heap it).iterator.swapPending
      some { s.update it (fun _ => iterator) with
        pc := .inRound it pendingAcks pendingNacks rest sleep }
    | _ => none
  | (order, .finishRound pseudoNow results) =>
    match s.pc with
    | .inRound it pendingAcks pendingNacks rest sleep =>
      let r := (s.heap it).iterator.finishRound order pendingAcks pendingNacks pseudoNow results
      some { s with
        heap := Function.update s.heap it ⟨r.iterator, (s.heap it).calls ++ r.calls⟩
        pc :=
          match r.ending with
          | .returned ms => .processing rest (min ms sleep)
          | .threw _ => .loopHead
          | .terminated => .stuck it
          | .calling => .stuck it }
    | _ => none
  | (_, .endLoop) =>
    match s.pc with
    | .processing [] sleep =>
      some { s with
        sleep := sleep
        needSleep := sleep != kSoManyMilliseconds
        pc := .loopHead }
    | _ => none

end AckThread

/-! ## One iterator -/

/-- The round that the thread is in with an iterator. -/
def AckPc.phaseOf (it : ModAckIteratorPtr) : AckPc → Phase
  | .inRound it' pendingAcks pendingNacks _ _ =>
    if it' = it then .swapped pendingAcks pendingNacks else .idle
  | .stuck it' => if it' = it then .stuck else .idle
  | _ => .idle

namespace AckThread

variable (it : ModAckIteratorPtr)

def view (s : AckThread) : IteratorState :=
  ⟨(s.heap it).iterator, s.pc.phaseOf it, (s.heap it).calls⟩

/-- The `MergeInput` that an iterator gets from a merge. -/
def mergesOf (s : AckThread) (order : HashOrder) : List (HashOrder × IteratorEvent) :=
  ({ s with block := s.block.mergeInputToActive order }.active.filter (· = it)).map fun _ =>
    (order, .mergeInput)

/-- What an event means to one iterator. -/
def eventsFor (s : AckThread) :
    HashOrder × AckThreadEvent → List (HashOrder × IteratorEvent)
  | (order, .addDeadlineWatcher it' ackID nextAck) =>
    if it' = it then [(order, .addDeadlineWatcher ackID nextAck)] else []
  | (order, .done it' ackID sec action) =>
    if it' = it then [(order, .done ackID sec action)] else []
  | (order, .check) =>
    match s.pc with
    | .checking noKeepAlives => if s.waits noKeepAlives then [] else s.mergesOf it order
    | _ => []
  | (order, .lockAgain) =>
    match s.pc with
    | .woken timeout => if s.startsOver timeout then [] else s.mergesOf it order
    | _ => []
  | (order, .swapPending) =>
    match s.pc with
    | .processing (it' :: _) _ => if it' = it then [(order, .swapPending)] else []
    | _ => []
  | (order, .finishRound pseudoNow results) =>
    match s.pc with
    | .inRound it' _ _ _ _ => if it' = it then [(order, .finishRound pseudoNow results)] else []
    | _ => []
  | _ => []

/-- The events of one iterator in a run. -/
def trace : AckThread → List (HashOrder × AckThreadEvent) → List (HashOrder × IteratorEvent)
  | _, [] => []
  | s, e :: events => s.eventsFor it e ++ (s.step e).elim [] fun t => trace t events

variable {it} (s : AckThread) (order : HashOrder)

theorem view_update (it' : ModAckIteratorPtr) (f : ModAckIterator → ModAckIterator) :
    (s.update it' f).view it =
      if it' = it then { s.view it with iterator := f (s.heap it).iterator } else s.view it := by
  by_cases h : it' = it
  · subst h
    simp [view, update]
  · simp [view, update, h, Function.update_of_ne (Ne.symm h)]

theorem view_mergeInputs (its : List ModAckIteratorPtr) (hpc : s.pc.phaseOf it = .idle) :
    run IteratorState.step (s.view it)
        ((its.filter (· = it)).map fun _ => (order, IteratorEvent.mergeInput)) =
      some ((s.mergeInputs order its).view it) := by
  induction its generalizing s with
  | nil => rfl
  | cons it' its ih =>
    have ih := ih (s.update it' (·.mergeInput order)) hpc
    by_cases h : it' = it
    · subst h
      rw [List.filter_cons_of_pos (by simp), List.map_cons, run_cons]
      have hstep : (s.view it').step (order, .mergeInput) =
          some ((s.update it' (·.mergeInput order)).view it') := by
        rw [view_update, if_pos rfl]
        simp [IteratorState.step, view, hpc]
      rw [hstep]
      exact ih
    · rw [List.filter_cons_of_neg (by simpa using h)]
      rw [view_update, if_neg h] at ih
      exact ih

theorem view_merge (hpc : s.pc.phaseOf it = .idle) :
    run IteratorState.step (s.view it) (s.mergesOf it order) = some ((s.merge order).view it) := by
  have hphase : AckPc.merged.phaseOf it = .idle := rfl
  have h := view_mergeInputs
    { s with block := s.block.mergeInputToActive order, pc := .merged } order
    { s with block := s.block.mergeInputToActive order }.active hphase
  have hview : { s with block := s.block.mergeInputToActive order, pc := .merged }.view it =
      s.view it := by
    rw [view, view, hpc]
    rfl
  rw [hview] at h
  exact h

theorem view_of_same {s t : AckThread} (hheap : t.heap it = s.heap it)
    (hphase : t.pc.phaseOf it = s.pc.phaseOf it) :
    run IteratorState.step (s.view it) [] = some (t.view it) := by
  rw [view, view, hheap, hphase]
  rfl

theorem view_of_idle {s t : AckThread} (hheap : t.heap = s.heap)
    (hs : s.pc.phaseOf it = .idle) (ht : t.pc.phaseOf it = .idle) :
    run IteratorState.step (s.view it) [] = some (t.view it) :=
  view_of_same (by rw [hheap]) (ht.trans hs.symm)

theorem view_swapPending {s : AckThread} {it' : ModAckIteratorPtr}
    {rest : List ModAckIteratorPtr} {sleep : ℤ} (hpc : s.pc = .processing (it' :: rest) sleep) :
    let p := (s.heap it').iterator.swapPending
    run IteratorState.step (s.view it) (s.eventsFor it (order, .swapPending)) =
      some ({ s.update it' (fun _ => p.1) with
        pc := .inRound it' p.2.1 p.2.2 rest sleep }.view it) := by
  intro p
  simp only [eventsFor, hpc]
  by_cases h : it' = it
  · subst h
    rw [if_pos rfl, run_cons]
    simp [IteratorState.step, view, hpc, AckPc.phaseOf, update, p]
  · rw [if_neg h]
    refine view_of_same ?_ ?_
    · simp [update, Function.update_of_ne (Ne.symm h)]
    · simp [hpc, AckPc.phaseOf, h]

theorem view_finishRound {s : AckThread} {it' : ModAckIteratorPtr}
    {pendingAcks pendingNacks : AckIDSet} {rest : List ModAckIteratorPtr} {sleep : ℤ}
    (hpc : s.pc = .inRound it' pendingAcks pendingNacks rest sleep) (pseudoNow : TimePoint)
    (results : List CallResult) :
    let r := (s.heap it').iterator.finishRound order pendingAcks pendingNacks pseudoNow results
    run IteratorState.step (s.view it) (s.eventsFor it (order, .finishRound pseudoNow results)) =
      some ({ s with
        heap := Function.update s.heap it' ⟨r.iterator, (s.heap it').calls ++ r.calls⟩
        pc :=
          match r.ending with
          | .returned ms => .processing rest (min ms sleep)
          | .threw _ => .loopHead
          | .terminated => .stuck it'
          | .calling => .stuck it' }.view it) := by
  intro r
  simp only [eventsFor, hpc]
  by_cases h : it' = it
  · subst h
    rw [if_pos rfl, run_cons]
    simp only [IteratorState.step, view, hpc, AckPc.phaseOf, if_true, Option.bind_some, run_nil,
      Function.update_self]
    cases hending : r.ending <;> simp [r, Ending.Over]
  · rw [if_neg h]
    refine view_of_same ?_ ?_
    · simp [Function.update_of_ne (Ne.symm h)]
    · simp only [hpc, AckPc.phaseOf, if_neg h]
      cases r.ending <;> simp [h]

/-- A step of the whole is some steps of every iterator. -/
theorem view_step {s t : AckThread} {e : HashOrder × AckThreadEvent} (h : s.step e = some t) :
    run IteratorState.step (s.view it) (s.eventsFor it e) = some (t.view it) := by
  obtain ⟨order, e⟩ := e
  cases e with
  | addDeadlineWatcher | done =>
    cases h
    rw [view_update, eventsFor]
    split_ifs <;> rfl
  | addIterator | removeIterator | setNeedStop =>
    cases h
    rfl
  | notify =>
    simp only [step] at h
    split at h
    · rename_i hpc
      cases h
      exact view_of_idle rfl (by rw [hpc]; rfl) rfl
    · cases h
      rfl
  | test =>
    simp only [step] at h
    split at h
    · rename_i hpc
      split_ifs at h
      all_goals
        cases h
        exact view_of_idle rfl (by rw [hpc]; rfl) rfl
    · contradiction
  | removeFromActive | wake | connect | endLoop =>
    simp only [step] at h
    split at h
    · rename_i hpc
      cases h
      exact view_of_idle rfl (by rw [hpc]; rfl) rfl
    · contradiction
  | check | lockAgain =>
    simp only [step] at h
    split at h
    · rename_i hpc
      simp only [eventsFor, hpc]
      split_ifs at h ⊢
      · cases h
        exact view_of_idle rfl (by rw [hpc]; rfl) rfl
      · cases h
        exact s.view_merge order (by rw [hpc]; rfl)
    · contradiction
  | swapPending =>
    simp only [step] at h
    split at h
    · rename_i it' rest sleep hpc
      cases h
      exact view_swapPending order hpc
    · contradiction
  | finishRound pseudoNow results =>
    simp only [step] at h
    split at h
    · rename_i it' pendingAcks pendingNacks rest sleep hpc
      cases h
      exact view_finishRound order hpc pseudoNow results
    · contradiction

variable (it)

theorem view_run {s t : AckThread} {events : List (HashOrder × AckThreadEvent)}
    (h : run step s events = some t) :
    run IteratorState.step (s.view it) (trace it s events) = some (t.view it) := by
  induction events generalizing s with
  | nil =>
    cases h
    rfl
  | cons e events ih =>
    obtain ⟨u, hu, ht⟩ := Option.bind_eq_some_iff.mp h
    rw [trace, hu, run_append, view_step hu]
    exact ih ht

end AckThread

end Pubsuber
