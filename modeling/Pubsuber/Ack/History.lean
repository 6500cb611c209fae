import Pubsuber.Library.StateMachine
import Pubsuber.Ack.Round

/-!
# Runs of one ack iterator

The critical sections of an iterator in any order: `AddDeadlineWatcher` and
`Done` at any time, `MergeInput` and the swap only between rounds, the rest of
a round only after its swap. The rest of a round shares nothing with the other
threads but the histogram, so a run in which ids arrive or are resolved while
it sends is the run in which they do so right before or after it; a round cut
off by a short list of results is a round caught in the middle of a call.
-/

namespace Pubsuber

open HashContainer StateMachine

inductive IteratorEvent
  | addDeadlineWatcher (ackID : AckID) (nextAck : TimePoint)
  | done (ackID : AckID) (sec : ℤ) (action : DoneAction)
  | mergeInput
  | swapPending
  | finishRound (pseudoNow : TimePoint) (results : List CallResult)

inductive Phase
  | idle
  | swapped (pendingAcks pendingNacks : AckIDSet)
  | stuck

def Phase.acks : Phase → List AckID
  | .swapped acks _ => acks.keys
  | _ => []

def Phase.nacks : Phase → List AckID
  | .swapped _ nacks => nacks.keys
  | _ => []

/-- An iterator with the locals of its round and every call made so far. -/
structure IteratorState where
  iterator : ModAckIterator
  phase : Phase
  calls : List Call

namespace IteratorState

def start (it : ModAckIterator) : IteratorState := ⟨it, .idle, []⟩

/-- Every event comes with the iteration order its insertions result in. -/
def step (s : IteratorState) : HashOrder × IteratorEvent → Option IteratorState
  | (order, .addDeadlineWatcher ackID nextAck) =>
    some { s with iterator := s.iterator.addDeadlineWatcher order ackID nextAck }
  | (order, .done ackID sec action) =>
    some { s with iterator := s.iterator.done order ackID sec action }
  | (order, .mergeInput) =>
    match s.phase with
    | .idle => some { s with iterator := s.iterator.mergeInput order }
    | _ => none
  | (_, .swapPending) =>
    match s.phase with
    | .idle =>
      let (it, pendingAcks, pendingNacks) := s.iterator.swapPending
      some { s with iterator := it, phase := .swapped pendingAcks pendingNacks }
    | _ => none
  | (order, .finishRound pseudoNow results) =>
    match s.phase with
    | .swapped pendingAcks pendingNacks =>
      let r := s.iterator.finishRound order pendingAcks pendingNacks pseudoNow results
      some ⟨r.iterator, if r.ending.Over then .idle else .stuck, s.calls ++ r.calls⟩
    | _ => none

/-- The step that a `some` result stands for, one case for each event. -/
theorem step_cases {s t : IteratorState} {order : HashOrder} {e : IteratorEvent}
    (h : s.step (order, e) = some t) :
    (∃ ackID nextAck, e = .addDeadlineWatcher ackID nextAck ∧
      t = { s with iterator := s.iterator.addDeadlineWatcher order ackID nextAck }) ∨
    (∃ ackID sec action, e = .done ackID sec action ∧
      t = { s with iterator := s.iterator.done order ackID sec action }) ∨
    (e = .mergeInput ∧ s.phase = .idle ∧
      t = { s with iterator := s.iterator.mergeInput order }) ∨
    (e = .swapPending ∧ s.phase = .idle ∧
      t = { s with
        iterator := s.iterator.swapPending.1
        phase := .swapped s.iterator.pendingAckIDs s.iterator.pendingNackIDs }) ∨
    ∃ pseudoNow results acks nacks, e = .finishRound pseudoNow results ∧
      s.phase = .swapped acks nacks ∧
      let r := s.iterator.finishRound order acks nacks pseudoNow results
      t = ⟨r.iterator, if r.ending.Over then .idle else .stuck, s.calls ++ r.calls⟩ := by
  cases e with
  | addDeadlineWatcher ackID nextAck =>
    cases h
    exact .inl ⟨ackID, nextAck, rfl, rfl⟩
  | done ackID sec action =>
    cases h
    exact .inr (.inl ⟨ackID, sec, action, rfl, rfl⟩)
  | mergeInput =>
    simp only [step] at h
    split at h
    · cases h
      exact .inr (.inr (.inl ⟨rfl, ‹_›, rfl⟩))
    · contradiction
  | swapPending =>
    simp only [step] at h
    split at h
    · cases h
      exact .inr (.inr (.inr (.inl ⟨rfl, ‹_›, rfl⟩)))
    · contradiction
  | finishRound pseudoNow results =>
    simp only [step] at h
    split at h
    · cases h
      exact .inr (.inr (.inr (.inr ⟨pseudoNow, results, _, _, rfl, ‹_›, rfl⟩)))
    · contradiction

end IteratorState

/-! ## What an event history says about an id -/

def watchedIds (events : List IteratorEvent) : List AckID :=
  events.filterMap fun
    | .addDeadlineWatcher ackID _ => some ackID
    | _ => none

def doneCalls (events : List IteratorEvent) : List (AckID × DoneAction) :=
  events.filterMap fun
    | .done ackID _ action => some (ackID, action)
    | _ => none

def doneIds (events : List IteratorEvent) : List AckID := (doneCalls events).map Prod.fst

/-- The resolution ledger: the action of the last `Done` of every id since the
last swap. -/
abbrev Ledger := AckID → Option DoneAction

def Ledger.step (ledger : Ledger) : IteratorEvent → Ledger
  | .done ackID _ action => Function.update ledger ackID (some action)
  | .swapPending => fun _ => none
  | _ => ledger

def lastDone (events : List IteratorEvent) : Ledger :=
  events.foldl Ledger.step fun _ => none

theorem lastDone_concat (events : List IteratorEvent) (e : IteratorEvent) :
    lastDone (events ++ [e]) = (lastDone events).step e := by
  simp [lastDone]

namespace ModAckIterator

variable (order : HashOrder) (it : ModAckIterator)

def pendingAction (ackID : AckID) : Option DoneAction :=
  if ackID ∈ it.pendingAckIDs.keys then some .ack
  else if ackID ∈ it.pendingNackIDs.keys then some .nack
  else none

theorem pendingAction_eq_ack {ackID : AckID} :
    it.pendingAction ackID = some .ack ↔ ackID ∈ it.pendingAckIDs.keys := by
  unfold pendingAction
  split_ifs <;> simp_all

theorem pendingAction_eq_nack {ackID : AckID} :
    it.pendingAction ackID = some .nack ↔ ackID ∈ it.pendingNackIDs.keys := by
  unfold pendingAction
  split_ifs with h h'
  · simpa using it.disjoint ackID h
  · simpa using h'
  · simpa using h'

@[simp] theorem pendingAction_swapPending :
    it.swapPending.1.pendingAction = fun _ => none := by
  funext ackID
  simp [pendingAction, swapPending]

theorem pendingAction_done (ackID : AckID) (sec : ℤ) (action : DoneAction) :
    (it.done order ackID sec action).pendingAction =
      Function.update it.pendingAction ackID (some action) := by
  funext k
  by_cases hk : k = ackID
  · subst hk
    cases action <;> simp [done, pendingAction]
  · rw [Function.update_of_ne hk]
    cases action <;> simp [done, pendingAction, hk]

end ModAckIterator

/-- The pending sets refine the ledger: the last `Done` of an id since the swap wins. -/
theorem pendingAction_eq_lastDone {it : ModAckIterator}
    (hit : it.pendingAction = fun _ => none) {events : List (HashOrder × IteratorEvent)}
    {s : IteratorState} (h : run IteratorState.step (.start it) events = some s) :
    s.iterator.pendingAction = lastDone (events.map Prod.snd) := by
  refine run_history (fun events (s : IteratorState) =>
    s.iterator.pendingAction = lastDone (events.map Prod.snd)) ?_ hit h
  intro events s e t ih hst
  obtain ⟨order, e⟩ := e
  simp only [List.map_append, List.map_cons, List.map_nil, lastDone_concat, ← ih]
  rcases IteratorState.step_cases hst with ⟨ackID, nextAck, rfl, rfl⟩ |
    ⟨ackID, sec, action, rfl, rfl⟩ | ⟨rfl, -, rfl⟩ | ⟨rfl, -, rfl⟩ |
    ⟨pseudoNow, results, acks, nacks, rfl, -, rfl⟩
  · rfl
  · exact s.iterator.pendingAction_done order ackID sec action
  · rfl
  · exact s.iterator.pendingAction_swapPending
  · rfl

end Pubsuber
