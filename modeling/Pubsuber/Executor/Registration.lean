import Pubsuber.Library.StateMachine
import Pubsuber.Ack.ModAckIterator
import Pubsuber.Executor.ThreadDataBlock

/-!
# Registration with both worker threads

`Executor::AddIterator` and `Executor::RemoveIterator` update the block of the
pull thread and then the block of the ack thread. Between the two any other
call and any loop step may run. The two blocks agree when every call finds them
in the same order and takes effect in both or in neither.
-/

namespace Pubsuber

open HashContainer StateMachine

/-- The identity of a `ModAckIterator` object. -/
abbrev ModAckIteratorPtr := ℕ

/-- `κ` identifies callbacks. -/
structure SubscriptionPullIterator (κ : Type) where
  subscriptionName : SubscriptionName
  maxMessagePrefetch : ℤ
  callback : κ
  ackIterator : ModAckIteratorPtr
  deriving DecidableEq, Repr

variable {π ρ κ : Type}

/-! ## What a block makes of the calls for one name -/

namespace IteratorCall

def map (f : π → ρ) : IteratorCall π → IteratorCall ρ
  | .addIterator subscription it => .addIterator subscription (f it)
  | .removeIterator subscription => .removeIterator subscription

end IteratorCall

/-- What a name settles to, and the iterator it was last asked to use. -/
structure Standing (π : Type) where
  active : Option π
  lastAdded : Option π

namespace Standing

def none : Standing π := ⟨.none, .none⟩

/-- A call and whether it takes effect. A removal that does not leaves the
iterator that is still to be merged. -/
def next (s : Standing π) : IteratorCall π × Bool → Standing π
  | (.addIterator _ it, true) => ⟨some it, some it⟩
  | (.addIterator _ it, false) => ⟨s.active, some it⟩
  | (.removeIterator _, true) => ⟨.none, s.lastAdded⟩
  | (.removeIterator _, false) => ⟨s.lastAdded, s.lastAdded⟩

def map (f : π → ρ) (s : Standing π) : Standing ρ := ⟨s.active.map f, s.lastAdded.map f⟩

theorem next_map (f : π → ρ) (s : Standing π) (entry : IteratorCall π × Bool) :
    (s.map f).next (entry.1.map f, entry.2) = (s.next entry).map f := by
  obtain ⟨c, effect⟩ := entry
  cases c <;> cases effect <;> rfl

theorem foldl_next_map (f : π → ρ) (entries : List (IteratorCall π × Bool)) (s : Standing π) :
    (entries.map fun entry => (entry.1.map f, entry.2)).foldl next (s.map f) =
      (entries.foldl next s).map f := by
  induction entries generalizing s with
  | nil => rfl
  | cons entry entries ih => rw [List.map_cons, List.foldl_cons, List.foldl_cons, next_map, ih]

/-- The standing of a name, by the loop step that is due next. -/
structure Describes (st : Standing π) (s : Slot π) (due : LoopStep) : Prop where
  active : st.active = s.settled due
  input : ∀ it, s.input = some it → st.lastAdded = some it

theorem Describes.call [DecidableEq π] {st : Standing π} {s : Slot π} {due : LoopStep}
    (h : st.Describes s due) (c : IteratorCall π) :
    (st.next (c, decide (s.TakesEffect due c))).Describes (s.call c) due := by
  obtain ⟨active, lastAdded⟩ := st
  obtain ⟨input, removed, current⟩ := s
  obtain ⟨hactive, hinput⟩ := h
  simp only at hactive hinput
  by_cases heffect : Slot.TakesEffect ⟨input, removed, current⟩ due c
  · rw [decide_eq_true heffect]
    have hwanted := (Slot.settled_call_iff _ due c).mpr heffect
    cases c with
    | addIterator subscription it => exact ⟨hwanted.symm, fun k hk => hk⟩
    | removeIterator subscription => exact ⟨hwanted.symm, hinput⟩
  · rw [decide_eq_false heffect]
    cases c with
    | addIterator subscription it =>
      refine ⟨?_, fun k hk => hk⟩
      -- the iterator already there is not `it`, so nothing changes
      simp only [next, hactive, Slot.settled, Slot.call, Slot.remaining, Slot.TakesEffect] at *
      cases due <;> cases removed <;> cases current <;> simp_all
    | removeIterator subscription =>
      refine ⟨?_, hinput⟩
      cases due with
      | removeFromActive =>
        cases input with
        | none => exact absurd rfl heffect
        | some it => simpa [next, Slot.settled, Slot.call, Slot.remaining] using hinput it rfl
      | mergeInputToActive => exact absurd trivial heffect

theorem Describes.loop {st : Standing π} {s : Slot π} {l : LoopStep}
    (h : st.Describes s l) (due : LoopStep) : st.Describes (s.loop l) due := by
  refine ⟨h.active.trans (s.settled_loop l due).symm, ?_⟩
  intro it hit
  cases l with
  | removeFromActive => exact h.input it hit
  | mergeInputToActive => simp [Slot.loop] at hit

end Standing

namespace ThreadDataBlock

variable [DecidableEq π]

/-- The calls for a name in the order in which they reach the block, and whether
each of them takes effect. -/
def ledger (subscription : SubscriptionName) :
    ThreadDataBlock π → List (HashOrder × BlockEvent π) → List (IteratorCall π × Bool)
  | _, [] => []
  | b, (order, .call c) :: events =>
    let entries := ledger subscription (b.apply (order, .call c)) events
    if c.subscription = subscription then
      (c, decide ((b.slot subscription).TakesEffect (nextLoop .removeFromActive events) c)) ::
        entries
    else entries
  | b, (order, .loop l) :: events => ledger subscription (b.apply (order, .loop l)) events

theorem describes_applyAll (b : ThreadDataBlock π) (subscription : SubscriptionName)
    (events : List (HashOrder × BlockEvent π)) (st : Standing π)
    (h : st.Describes (b.slot subscription) (nextLoop .removeFromActive events)) :
    ((b.ledger subscription events).foldl Standing.next st).Describes
      ((b.applyAll events).slot subscription) .removeFromActive := by
  induction events generalizing b st with
  | nil => exact h
  | cons e events ih =>
    obtain ⟨order, c | l⟩ := e
    · rw [applyAll_cons, ledger]
      by_cases hc : c.subscription = subscription
      · rw [if_pos hc, List.foldl_cons]
        apply ih
        rw [slot_call, if_pos hc]
        exact h.call c
      · rw [if_neg hc]
        apply ih
        rw [slot_call, if_neg hc]
        exact h
    · rw [applyAll_cons, ledger]
      apply ih
      rw [slot_loop]
      exact h.loop _

def WorkedOff (b : ThreadDataBlock π) : Prop :=
  b.inputIterators.keys = [] ∧ b.removedIterators = []

/-- A block that is worked off has active what its ledger says. -/
theorem active_eq_ledger (subscription : SubscriptionName)
    (events : List (HashOrder × BlockEvent π))
    (h : (empty.applyAll events : ThreadDataBlock π).WorkedOff) :
    (empty.applyAll events).activeIterators.lookup subscription =
      ((empty.ledger subscription events).foldl Standing.next .none).active := by
  have hd := describes_applyAll empty subscription events .none
    ⟨by simp [Standing.none], by simp [Slot.empty]⟩
  rw [hd.active]
  refine (Slot.settled_of_worked_off ((empty.applyAll events).slot subscription) ?_ ?_ _).symm
  · exact Unordered.lookup_eq_none.mpr (by simp [h.1])
  · simp [slot, h.2]

end ThreadDataBlock

/-! ## The two blocks -/

/-- The blocks of both threads and the calls that are between the two critical
sections. -/
structure Registration (κ : Type) where
  maxPrefetch : ℤ
  pullThread : ThreadDataBlock (SubscriptionPullIterator κ)
  ackThread : ThreadDataBlock ModAckIteratorPtr
  inFlight : List (IteratorCall ModAckIteratorPtr)

/-- `addIterator` and `removeIterator` run up to the end of the first critical
section, `returnFromCall` runs the second one. -/
inductive RegistrationEvent (κ : Type)
  | addIterator (subscription : SubscriptionName) (callback : Option κ)
    (ackIterator : ModAckIteratorPtr)
  | removeIterator (subscription : SubscriptionName)
  | returnFromCall (c : IteratorCall ModAckIteratorPtr)
  | pullLoop (l : LoopStep)
  | ackLoop (l : LoopStep)

/-- The checks at the head of `Executor::AddIterator`. -/
def checkAddIterator (subscription : SubscriptionName) (callback : Option κ) :
    Except Exception κ :=
  match callback with
  | none => .error ⟨"Pubsuber: callback must be set", kUninitializedCode⟩
  | some callback =>
    if subscription = "" then
      .error ⟨"Pubsuber: subscription name must be set", kUninitializedCode⟩
    else .ok callback

namespace Registration

def start (maxPrefetch : ℤ) : Registration κ := ⟨maxPrefetch, .empty, .empty, []⟩

def pullEvent (maxPrefetch : ℤ) :
    HashOrder × RegistrationEvent κ →
      Option (HashOrder × BlockEvent (SubscriptionPullIterator κ))
  | (order, .addIterator subscription callback ackIterator) =>
    match checkAddIterator subscription callback with
    | .error _ => none
    | .ok callback =>
      some (order, .call (.addIterator subscription
        ⟨subscription, maxPrefetch, callback, ackIterator⟩))
  | (order, .removeIterator subscription) => some (order, .call (.removeIterator subscription))
  | (order, .pullLoop l) => some (order, .loop l)
  | _ => none

def ackEvent : HashOrder × RegistrationEvent κ → Option (HashOrder × BlockEvent ModAckIteratorPtr)
  | (order, .returnFromCall c) => some (order, .call c)
  | (order, .ackLoop l) => some (order, .loop l)
  | _ => none

def step (s : Registration κ) : HashOrder × RegistrationEvent κ → Option (Registration κ)
  | (order, .addIterator subscription callback ackIterator) =>
    match checkAddIterator subscription callback with
    | .error _ => some s
    | .ok callback =>
      some { s with
        pullThread := s.pullThread.addIterator order subscription
          ⟨subscription, s.maxPrefetch, callback, ackIterator⟩
        inFlight := s.inFlight ++ [.addIterator subscription ackIterator] }
  | (_, .removeIterator subscription) =>
    some { s with
      pullThread := s.pullThread.removeIterator subscription
      inFlight := s.inFlight ++ [.removeIterator subscription] }
  | (order, .returnFromCall c) =>
    if c ∈ s.inFlight then
      some { s with
        ackThread := s.ackThread.apply (order, .call c)
        inFlight := s.inFlight.erase c }
    else none
  | (order, .pullLoop l) => some { s with pullThread := s.pullThread.apply (order, .loop l) }
  | (order, .ackLoop l) => some { s with ackThread := s.ackThread.apply (order, .loop l) }

variable (s : Registration κ)

/-- `Executor::AddIterator` from start to end, with the pull iterator it makes. -/
def addIterator (pullOrder ackOrder : HashOrder) (subscription : SubscriptionName)
    (callback : Option κ) (ackIterator : ModAckIteratorPtr) :
    Except Exception (SubscriptionPullIterator κ × Registration κ) :=
  match checkAddIterator subscription callback with
  | .error e => .error e
  | .ok callback =>
    let pullIterator := ⟨subscription, s.maxPrefetch, callback, ackIterator⟩
    .ok (pullIterator, { s with
      pullThread := s.pullThread.addIterator pullOrder subscription pullIterator
      ackThread := s.ackThread.addIterator ackOrder subscription ackIterator })

def removeIterator (subscription : SubscriptionName) : Registration κ :=
  { s with
    pullThread := s.pullThread.removeIterator subscription
    ackThread := s.ackThread.removeIterator subscription }

theorem addIterator_eq_ok {pullOrder ackOrder : HashOrder} {subscription : SubscriptionName}
    {callback : Option κ} {ackIterator : ModAckIteratorPtr} {it : SubscriptionPullIterator κ}
    {t : Registration κ}
    (h : s.addIterator pullOrder ackOrder subscription callback ackIterator = .ok (it, t)) :
    ∃ c, checkAddIterator subscription callback = .ok c ∧
      it = ⟨subscription, s.maxPrefetch, c, ackIterator⟩ ∧
      t = { s with
        pullThread := s.pullThread.addIterator pullOrder subscription it
        ackThread := s.ackThread.addIterator ackOrder subscription ackIterator } := by
  unfold addIterator at h
  cases hc : checkAddIterator subscription callback with
  | error e => simp [hc] at h
  | ok c =>
    simp only [hc, Except.ok.injEq, Prod.mk.injEq] at h
    obtain ⟨rfl, rfl⟩ := h
    exact ⟨c, rfl, rfl, rfl⟩

variable {s}

theorem step_blocks {s t : Registration κ} {e : HashOrder × RegistrationEvent κ}
    (h : s.step e = some t) :
    t.maxPrefetch = s.maxPrefetch ∧
      t.pullThread = s.pullThread.applyAll (pullEvent s.maxPrefetch e).toList ∧
      t.ackThread = s.ackThread.applyAll (ackEvent e).toList := by
  obtain ⟨order, e⟩ := e
  cases e with
  | addIterator subscription callback ackIterator =>
    simp only [step] at h
    cases hc : checkAddIterator subscription callback with
    | error e =>
      rw [hc] at h
      cases h
      refine ⟨rfl, ?_, rfl⟩
      simp only [pullEvent, hc]
      rfl
    | ok callback =>
      rw [hc] at h
      cases h
      refine ⟨rfl, ?_, rfl⟩
      simp only [pullEvent, hc]
      rfl
  | removeIterator subscription =>
    cases h
    exact ⟨rfl, rfl, rfl⟩
  | returnFromCall c =>
    simp only [step] at h
    split_ifs at h
    cases h
    exact ⟨rfl, rfl, rfl⟩
  | pullLoop l =>
    cases h
    exact ⟨rfl, rfl, rfl⟩
  | ackLoop l =>
    cases h
    exact ⟨rfl, rfl, rfl⟩

def pullEvents (maxPrefetch : ℤ) (events : List (HashOrder × RegistrationEvent κ)) :
    List (HashOrder × BlockEvent (SubscriptionPullIterator κ)) :=
  events.filterMap (pullEvent maxPrefetch)

def ackEvents (events : List (HashOrder × RegistrationEvent κ)) :
    List (HashOrder × BlockEvent ModAckIteratorPtr) :=
  events.filterMap ackEvent

theorem filterMap_singleton {α β : Type*} (f : α → Option β) (a : α) :
    [a].filterMap f = (f a).toList := by
  cases h : f a <;> simp [h]

theorem run_blocks {events : List (HashOrder × RegistrationEvent κ)} {s t : Registration κ}
    (h : run step s events = some t) :
    t.maxPrefetch = s.maxPrefetch ∧
      t.pullThread = s.pullThread.applyAll (pullEvents s.maxPrefetch events) ∧
      t.ackThread = s.ackThread.applyAll (ackEvents events) := by
  refine run_history (fun events (t : Registration κ) => t.maxPrefetch = s.maxPrefetch ∧
      t.pullThread = s.pullThread.applyAll (pullEvents s.maxPrefetch events) ∧
      t.ackThread = s.ackThread.applyAll (ackEvents events)) ?_ ⟨rfl, rfl, rfl⟩ h
  intro events t e u ⟨hm, hp, ha⟩ htu
  obtain ⟨hm', hp', ha'⟩ := step_blocks htu
  refine ⟨hm'.trans hm, ?_, ?_⟩
  · rw [hp', hp, hm, ← ThreadDataBlock.applyAll_append, pullEvents, pullEvents,
      List.filterMap_append, filterMap_singleton]
  · rw [ha', ha, ← ThreadDataBlock.applyAll_append, ackEvents, ackEvents,
      List.filterMap_append, filterMap_singleton]

/-- Every call has returned and both blocks are worked off. -/
structure Settled (s : Registration κ) : Prop where
  returned : s.inFlight = []
  pull_input : s.pullThread.inputIterators.keys = []
  pull_removed : s.pullThread.removedIterators = []
  ack_input : s.ackThread.inputIterators.keys = []
  ack_removed : s.ackThread.removedIterators = []

instance (s : Registration κ) : Decidable s.Settled :=
  decidable_of_iff (s.inFlight = [] ∧ s.pullThread.inputIterators.keys = [] ∧
      s.pullThread.removedIterators = [] ∧ s.ackThread.inputIterators.keys = [] ∧
      s.ackThread.removedIterators = [])
    ⟨fun ⟨h1, h2, h3, h4, h5⟩ => ⟨h1, h2, h3, h4, h5⟩,
      fun ⟨h1, h2, h3, h4, h5⟩ => ⟨h1, h2, h3, h4, h5⟩⟩

/-- The threads know the same names, and the watchers of a pulled message are kept
by the iterator that the ack thread processes under that name. -/
def Agree (s : Registration κ) : Prop :=
  ∀ subscription,
    (subscription ∈ s.pullThread.activeIterators.keys ↔
      subscription ∈ s.ackThread.activeIterators.keys) ∧
    (s.pullThread.activeIterators.lookup subscription).map (·.ackIterator) =
      s.ackThread.activeIterators.lookup subscription

/-- The calls for every name reach both blocks in one order, and each takes effect
in both or in neither. -/
def SameEffects [DecidableEq κ] (maxPrefetch : ℤ)
    (events : List (HashOrder × RegistrationEvent κ)) : Prop :=
  ∀ subscription,
    (ThreadDataBlock.empty.ledger subscription (pullEvents maxPrefetch events)).map
        (fun entry => (entry.1.map (·.ackIterator), entry.2)) =
      ThreadDataBlock.empty.ledger subscription (ackEvents events)

/-- In every settled state of a run whose calls have the same effects on both
threads, the threads agree. -/
theorem agree_of_sameEffects [DecidableEq κ] {maxPrefetch : ℤ}
    {events : List (HashOrder × RegistrationEvent κ)} {s : Registration κ}
    (h : run step (start maxPrefetch) events = some s) (heffects : SameEffects maxPrefetch events)
    (hsettled : s.Settled) : s.Agree := by
  obtain ⟨-, hp, ha⟩ := run_blocks h
  change s.pullThread = ThreadDataBlock.empty.applyAll (pullEvents maxPrefetch events) at hp
  change s.ackThread = ThreadDataBlock.empty.applyAll (ackEvents events) at ha
  intro subscription
  have hpull := ThreadDataBlock.active_eq_ledger subscription (pullEvents maxPrefetch events)
    (hp ▸ ⟨hsettled.pull_input, hsettled.pull_removed⟩)
  have hack := ThreadDataBlock.active_eq_ledger subscription (ackEvents events)
    (ha ▸ ⟨hsettled.ack_input, hsettled.ack_removed⟩)
  have hsame : (s.pullThread.activeIterators.lookup subscription).map (·.ackIterator) =
      s.ackThread.activeIterators.lookup subscription := by
    rw [hp, ha, hpull, hack, ← heffects subscription]
    exact (congrArg Standing.active (Standing.foldl_next_map _ _ .none)).symm
  refine ⟨?_, hsame⟩
  rw [← not_iff_not, ← Unordered.lookup_eq_none, ← Unordered.lookup_eq_none, ← hsame,
    Option.map_eq_none_iff]

def addBoth (ackIterator : ModAckIteratorPtr) : List (HashOrder × RegistrationEvent ℕ) :=
  [(.newestFirst, .addIterator "s" (some 0) ackIterator),
    (.newestFirst, .returnFromCall (.addIterator "s" ackIterator))]

def removeBoth : List (HashOrder × RegistrationEvent ℕ) :=
  [(.newestFirst, .removeIterator "s"), (.newestFirst, .returnFromCall (.removeIterator "s"))]

def loopBoth : List (HashOrder × RegistrationEvent ℕ) :=
  [(.newestFirst, .pullLoop .removeFromActive), (.newestFirst, .pullLoop .mergeInputToActive),
    (.newestFirst, .ackLoop .removeFromActive), (.newestFirst, .ackLoop .mergeInputToActive)]

/-- The subscription is stopped and received again while the ack thread is between
its two steps. -/
def receivedAgain : List (HashOrder × RegistrationEvent ℕ) :=
  addBoth 1 ++ loopBoth ++ [(.newestFirst, .ackLoop .removeFromActive)] ++ removeBoth ++
    addBoth 2 ++ [(.newestFirst, .ackLoop .mergeInputToActive),
      (.newestFirst, .pullLoop .removeFromActive), (.newestFirst, .pullLoop .mergeInputToActive),
      (.newestFirst, .ackLoop .removeFromActive)]

/-- Two concurrent calls overtake each other between the two critical sections. -/
def overtaken : List (HashOrder × RegistrationEvent ℕ) :=
  [(.newestFirst, .addIterator "s" (some 0) 1), (.newestFirst, .addIterator "s" (some 0) 2),
    (.newestFirst, .returnFromCall (.addIterator "s" 2)),
    (.newestFirst, .returnFromCall (.addIterator "s" 1))] ++ loopBoth

/-- Messages are pulled for an iterator that the ack thread does not process. -/
theorem not_agree :
    (∃ s, run step (start 4) receivedAgain = some s ∧ s.Settled ∧ ¬ s.Agree ∧
      (s.pullThread.activeIterators.lookup "s").map (·.ackIterator) = some 2 ∧
      s.ackThread.activeIterators.lookup "s" = none) ∧
    ∃ s, run step (start 4) overtaken = some s ∧ s.Settled ∧ ¬ s.Agree ∧
      (s.pullThread.activeIterators.lookup "s").map (·.ackIterator) = some 2 ∧
      s.ackThread.activeIterators.lookup "s" = some 1 := by
  refine ⟨⟨_, rfl, ⟨by decide, by decide, by decide, by decide, by decide⟩, fun h => ?_,
    by decide, by decide⟩, ⟨_, rfl, ⟨by decide, by decide, by decide, by decide, by decide⟩,
    fun h => ?_, by decide, by decide⟩⟩
  · exact absurd (h "s").2 (by decide)
  · exact absurd (h "s").2 (by decide)

def addRemoveAdd : List (HashOrder × RegistrationEvent ℕ) :=
  addBoth 1 ++ loopBoth ++ removeBoth ++ addBoth 2 ++ loopBoth

theorem agree_of_sameEffects_addRemoveAdd :
    ∃ s, run step (start 4) addRemoveAdd = some s ∧
      s.pullThread.activeIterators.keys = ["s"] ∧ s.Agree := by
  refine ⟨_, rfl, by decide, ?_⟩
  have hrun : run step (start 4) addRemoveAdd = some _ := rfl
  refine agree_of_sameEffects hrun (fun subscription => ?_)
    ⟨by decide, by decide, by decide, by decide, by decide⟩
  by_cases h : subscription = "s"
  · subst h
    decide
  · simp [pullEvents, ackEvents, addRemoveAdd, addBoth, removeBoth, loopBoth, pullEvent, ackEvent,
      checkAddIterator, ThreadDataBlock.ledger, IteratorCall.subscription, List.filterMap_cons,
      Ne.symm h]

end Registration

end Pubsuber
