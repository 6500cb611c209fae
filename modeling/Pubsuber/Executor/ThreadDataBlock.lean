import Pubsuber.Library.Unordered

/-!
# The registration queues of a worker thread

`Executor::ThreadDataBlock`. Every operation is one critical section. The loop
of a worker runs `RemoveFromActive` and then `MergeInputToActive` over and over
and may skip the latter; what is proved here holds for the two in any order.

A name is registered through the input map and unregistered through the list of
removed names. Seen from one name, the three containers are a `Slot`.
-/

namespace Pubsuber

open HashContainer

abbrev SubscriptionName := String

/-- `IteratorMap` and `PullIteratorMap`. -/
abbrev IteratorContainer (π : Type) :=
  Unordered (Prod.fst : SubscriptionName × π → SubscriptionName)

structure ThreadDataBlock (π : Type) where
  inputIterators : IteratorContainer π
  removedIterators : List SubscriptionName
  activeIterators : IteratorContainer π

inductive IteratorCall (π : Type)
  | addIterator (subscription : SubscriptionName) (it : π)
  | removeIterator (subscription : SubscriptionName)
  deriving DecidableEq, Repr

inductive LoopStep
  | removeFromActive
  | mergeInputToActive
  deriving DecidableEq, Repr

inductive BlockEvent (π : Type)
  | call (c : IteratorCall π)
  | loop (l : LoopStep)
  deriving DecidableEq, Repr

variable {π : Type}

def IteratorCall.subscription : IteratorCall π → SubscriptionName
  | .addIterator subscription _ => subscription
  | .removeIterator subscription => subscription

/-- The iterator a call asks to be active from then on. -/
def IteratorCall.wanted : IteratorCall π → Option π
  | .addIterator _ it => some it
  | .removeIterator _ => none

namespace ThreadDataBlock

def empty : ThreadDataBlock π := ⟨.empty, [], .empty⟩

variable (order : HashOrder) (b : ThreadDataBlock π)

def addIterator (subscription : SubscriptionName) (it : π) : ThreadDataBlock π :=
  { b with inputIterators := b.inputIterators.insertOrAssign order (subscription, it) }

def removeIterator (subscription : SubscriptionName) : ThreadDataBlock π :=
  { b with removedIterators := b.removedIterators ++ [subscription] }

/-- `merge` keeps the active iterator of a name that has one; what it leaves in
the input is cleared. -/
def mergeInputToActive : ThreadDataBlock π :=
  { b with
    activeIterators := b.activeIterators.merge order b.inputIterators
    inputIterators := .empty }

def removeFromActive : ThreadDataBlock π :=
  { b with
    activeIterators := b.removedIterators.foldl Unordered.erase b.activeIterators
    removedIterators := [] }

def apply : HashOrder × BlockEvent π → ThreadDataBlock π
  | (order, .call (.addIterator subscription it)) => b.addIterator order subscription it
  | (_, .call (.removeIterator subscription)) => b.removeIterator subscription
  | (_, .loop .removeFromActive) => b.removeFromActive
  | (order, .loop .mergeInputToActive) => b.mergeInputToActive order

def applyAll (events : List (HashOrder × BlockEvent π)) : ThreadDataBlock π :=
  events.foldl apply b

end ThreadDataBlock

/-! ## One name -/

/-- What the three containers hold about one name. -/
structure Slot (π : Type) where
  input : Option π
  removed : Bool
  active : Option π
  deriving DecidableEq, Repr

namespace Slot

def empty : Slot π := ⟨none, false, none⟩

variable (s : Slot π)

/-- What `RemoveFromActive` leaves active. -/
def remaining : Option π := if s.removed then none else s.active

def call : IteratorCall π → Slot π
  | .addIterator _ it => { s with input := some it }
  | .removeIterator _ => { s with removed := true }

def loop : LoopStep → Slot π
  | .removeFromActive => { s with active := s.remaining, removed := false }
  | .mergeInputToActive => { s with active := s.active.or s.input, input := none }

/-- What is active once both queues are worked off, by the loop step that is due
next. -/
def settled : LoopStep → Option π
  | .removeFromActive => s.remaining.or s.input
  | .mergeInputToActive => if s.removed then none else s.active.or s.input

/-- When a call made before the loop step `next` does what it asks for: an
iterator is not merged over another one nor erased by an older removal, and a
removal does not leave behind an iterator that is still to be merged. -/
def TakesEffect (next : LoopStep) : IteratorCall π → Prop
  | .addIterator _ it =>
    match next with
    | .removeFromActive => s.remaining = none ∨ s.remaining = some it
    | .mergeInputToActive => s.removed = false ∧ (s.active = none ∨ s.active = some it)
  | .removeIterator _ =>
    match next with
    | .removeFromActive => s.input = none
    | .mergeInputToActive => True

instance [DecidableEq π] (next : LoopStep) (c : IteratorCall π) :
    Decidable (s.TakesEffect next c) :=
  match c, next with
  | .addIterator _ _, .removeFromActive => inferInstanceAs (Decidable (_ ∨ _))
  | .addIterator _ _, .mergeInputToActive => inferInstanceAs (Decidable (_ ∧ _))
  | .removeIterator _, .removeFromActive => inferInstanceAs (Decidable (_ = _))
  | .removeIterator _, .mergeInputToActive => .isTrue trivial

@[simp] theorem settled_empty (next : LoopStep) : (empty : Slot π).settled next = none := by
  cases next <;> rfl

/-- The loop steps do not change what the slot settles to. -/
theorem settled_loop (l next : LoopStep) : (s.loop l).settled next = s.settled l := by
  obtain ⟨input, removed, active⟩ := s
  cases l <;> cases next <;> cases removed <;> simp [loop, settled, remaining]

theorem settled_of_worked_off (hi : s.input = none) (hr : s.removed = false)
    (next : LoopStep) : s.settled next = s.active := by
  cases next <;> simp [settled, remaining, hi, hr]

/-- A call settles as asked exactly when it takes effect. -/
theorem settled_call_iff (next : LoopStep) (c : IteratorCall π) :
    (s.call c).settled next = c.wanted ↔ s.TakesEffect next c := by
  obtain ⟨input, removed, active⟩ := s
  cases c with
  | addIterator subscription it =>
    cases next with
    | removeFromActive =>
      simp only [call, settled, TakesEffect, IteratorCall.wanted, remaining]
      cases removed <;> cases active <;> simp
    | mergeInputToActive =>
      simp only [call, settled, TakesEffect, IteratorCall.wanted]
      cases removed <;> cases active <;> simp
  | removeIterator subscription =>
    cases next <;> simp [call, settled, TakesEffect, IteratorCall.wanted, remaining]

end Slot

namespace ThreadDataBlock

def slot (b : ThreadDataBlock π) (subscription : SubscriptionName) : Slot π where
  input := b.inputIterators.lookup subscription
  removed := subscription ∈ b.removedIterators
  active := b.activeIterators.lookup subscription

variable (order : HashOrder) (b : ThreadDataBlock π) (subscription : SubscriptionName)

@[simp] theorem slot_empty : (empty : ThreadDataBlock π).slot subscription = .empty := by
  simp [slot, empty, Slot.empty]

theorem slot_call (c : IteratorCall π) :
    (b.apply (order, .call c)).slot subscription =
      if c.subscription = subscription then (b.slot subscription).call c
      else b.slot subscription := by
  by_cases h : c.subscription = subscription
  · rw [if_pos h]
    subst h
    cases c with
    | addIterator s it =>
      simp only [apply, slot, addIterator, IteratorCall.subscription, Slot.call,
        Unordered.lookup_insertOrAssign, if_true]
      rfl
    | removeIterator s =>
      simp [apply, slot, removeIterator, IteratorCall.subscription, Slot.call]
  · rw [if_neg h]
    cases c with
    | addIterator s it =>
      simp only [apply, slot, addIterator, Unordered.lookup_insertOrAssign,
        if_neg (show ¬ s = subscription from h)]
      rfl
    | removeIterator s =>
      have h : subscription ≠ s := Ne.symm h
      simp [apply, slot, removeIterator, h]

theorem slot_loop (l : LoopStep) :
    (b.apply (order, .loop l)).slot subscription = (b.slot subscription).loop l := by
  cases l with
  | removeFromActive =>
    simp [apply, slot, removeFromActive, Slot.loop, Slot.remaining,
      Unordered.lookup_foldl_erase]
  | mergeInputToActive =>
    simp only [apply, slot, mergeInputToActive, Slot.loop, Unordered.lookup_merge,
      Unordered.lookup_empty]
    rfl

@[simp] theorem applyAll_nil : b.applyAll [] = b := rfl

theorem applyAll_cons (e : HashOrder × BlockEvent π) (events : List (HashOrder × BlockEvent π)) :
    b.applyAll (e :: events) = (b.apply e).applyAll events := rfl

theorem applyAll_append (events events' : List (HashOrder × BlockEvent π)) :
    b.applyAll (events ++ events') = (b.applyAll events).applyAll events' :=
  List.foldl_append

end ThreadDataBlock

/-- The loop step that comes first in a list of events, or else the one after. -/
def nextLoop (after : LoopStep) : List (HashOrder × BlockEvent π) → LoopStep
  | [] => after
  | (_, .loop l) :: _ => l
  | (_, .call _) :: events => nextLoop after events

/-- No call in the list is for this name. -/
def QuietFor (subscription : SubscriptionName) (events : List (HashOrder × BlockEvent π)) :
    Prop :=
  ∀ order c, (order, BlockEvent.call c) ∈ events → c.subscription ≠ subscription

theorem QuietFor.of_cons {subscription : SubscriptionName} {e : HashOrder × BlockEvent π}
    {events : List (HashOrder × BlockEvent π)} (h : QuietFor subscription (e :: events)) :
    QuietFor subscription events :=
  fun order c hc => h order c (List.mem_cons_of_mem e hc)

namespace ThreadDataBlock

variable (b : ThreadDataBlock π) {subscription : SubscriptionName}
variable {events : List (HashOrder × BlockEvent π)}

theorem slot_call_of_ne (order : HashOrder) {c : IteratorCall π}
    (h : c.subscription ≠ subscription) :
    (b.apply (order, .call c)).slot subscription = b.slot subscription := by
  rw [slot_call, if_neg h]

theorem settled_applyAll (h : QuietFor subscription events) (after : LoopStep) :
    ((b.applyAll events).slot subscription).settled after =
      (b.slot subscription).settled (nextLoop after events) := by
  induction events generalizing b with
  | nil => rfl
  | cons e events ih =>
    obtain ⟨order, c | l⟩ := e
    · rw [applyAll_cons, ih _ h.of_cons, b.slot_call_of_ne order (h order c List.mem_cons_self)]
      rfl
    · rw [applyAll_cons, ih _ h.of_cons, slot_loop, Slot.settled_loop]
      rfl

theorem slot_input_applyAll (h : QuietFor subscription events)
    (hm : (b.slot subscription).input = none ∨
      ∃ order, (order, BlockEvent.loop LoopStep.mergeInputToActive) ∈ events) :
    ((b.applyAll events).slot subscription).input = none := by
  induction events generalizing b with
  | nil => simpa using hm
  | cons e events ih =>
    obtain ⟨order, c | l⟩ := e
    · refine ih _ h.of_cons ?_
      rw [b.slot_call_of_ne order (h order c List.mem_cons_self)]
      simpa using hm
    · refine ih _ h.of_cons ?_
      rw [slot_loop]
      cases l with
      | removeFromActive => simpa [Slot.loop] using hm
      | mergeInputToActive => exact .inl rfl

theorem slot_removed_applyAll (h : QuietFor subscription events)
    (hm : (b.slot subscription).removed = false ∨
      ∃ order, (order, BlockEvent.loop LoopStep.removeFromActive) ∈ events) :
    ((b.applyAll events).slot subscription).removed = false := by
  induction events generalizing b with
  | nil => simpa using hm
  | cons e events ih =>
    obtain ⟨order, c | l⟩ := e
    · refine ih _ h.of_cons ?_
      rw [b.slot_call_of_ne order (h order c List.mem_cons_self)]
      simpa using hm
    · refine ih _ h.of_cons ?_
      rw [slot_loop]
      cases l with
      | removeFromActive => exact .inl rfl
      | mergeInputToActive => simpa [Slot.loop] using hm

/-- What is active for a name once no more calls for it have arrived and both loop
steps have run. -/
theorem active_applyAll (h : QuietFor subscription events)
    (hr : ∃ order, (order, BlockEvent.loop LoopStep.removeFromActive) ∈ events)
    (hm : ∃ order, (order, BlockEvent.loop LoopStep.mergeInputToActive) ∈ events)
    (after : LoopStep) :
    (b.applyAll events).activeIterators.lookup subscription =
      (b.slot subscription).settled (nextLoop after events) := by
  rw [← b.settled_applyAll h after]
  exact (Slot.settled_of_worked_off _ (b.slot_input_applyAll h (.inr hm))
    (b.slot_removed_applyAll h (.inr hr)) after).symm

/-- After the last call for a name and both loop steps, the block does what the
call asks for exactly when the call takes effect. -/
theorem active_eq_wanted_iff (before : List (HashOrder × BlockEvent π)) (order : HashOrder)
    (c : IteratorCall π) (h : QuietFor c.subscription events)
    (hr : ∃ order, (order, BlockEvent.loop LoopStep.removeFromActive) ∈ events)
    (hm : ∃ order, (order, BlockEvent.loop LoopStep.mergeInputToActive) ∈ events) :
    (empty.applyAll (before ++ (order, .call c) :: events)).activeIterators.lookup
        c.subscription = c.wanted ↔
      ((empty.applyAll before).slot c.subscription).TakesEffect
        (nextLoop .removeFromActive events) c := by
  rw [applyAll_append, applyAll_cons, active_applyAll _ h hr hm .removeFromActive, slot_call,
    if_pos rfl, Slot.settled_call_iff]

/-- Every name is mapped to the iterator of its last call, if that registers one. -/
def Linearized (events : List (HashOrder × BlockEvent π)) : Prop :=
  ∀ before order c after, events = before ++ (order, .call c) :: after →
    QuietFor c.subscription after →
    (empty.applyAll events).activeIterators.lookup c.subscription = c.wanted

def LastCallsTakeEffect (events : List (HashOrder × BlockEvent π)) : Prop :=
  ∀ before order c after, events = before ++ (order, .call c) :: after →
    QuietFor c.subscription after →
    ((empty.applyAll before).slot c.subscription).TakesEffect
      (nextLoop .removeFromActive after) c

theorem mem_after_of_mem_tail {before after calls tail : List (HashOrder × BlockEvent π)}
    {order : HashOrder} {c : IteratorCall π} {l : LoopStep}
    (hsplit : calls ++ tail = before ++ (order, .call c) :: after)
    (htail : ∀ e ∈ tail, ∃ l, e.2 = .loop l) (hl : .loop l ∈ tail.map Prod.snd) :
    ∃ order, (order, BlockEvent.loop l) ∈ after := by
  obtain ⟨⟨order', e⟩, hmem, he⟩ := List.mem_map.mp hl
  have he : e = .loop l := he
  subst he
  rcases List.append_eq_append_iff.mp hsplit with ⟨mid, -, htail'⟩ | ⟨mid, -, hafter⟩
  · -- the call itself would be in the tail
    obtain ⟨l', hl'⟩ := htail (order, .call c) (by simp [htail'])
    contradiction
  · cases mid with
    | nil =>
      obtain ⟨l', hl'⟩ := htail (order, .call c) (by simp [← show _ = tail from hafter])
      contradiction
    | cons e' mid =>
      obtain ⟨-, hafter⟩ := List.cons_eq_cons.mp hafter
      exact ⟨order', by simp [hafter, hmem]⟩

/-- Once the calls have stopped and the loop has come round, the block agrees with
the last call for every name exactly when these calls took effect. -/
theorem linearized_iff (calls tail : List (HashOrder × BlockEvent π))
    (htail : ∀ e ∈ tail, ∃ l, e.2 = .loop l)
    (hloop : [.loop .removeFromActive, .loop .mergeInputToActive, .loop .removeFromActive].Sublist
      (tail.map Prod.snd)) :
    Linearized (calls ++ tail) ↔ LastCallsTakeEffect (calls ++ tail) := by
  have hiff : ∀ before order c after, calls ++ tail = before ++ (order, .call c) :: after →
      QuietFor c.subscription after →
      ((empty.applyAll (calls ++ tail)).activeIterators.lookup c.subscription = c.wanted ↔
        ((empty.applyAll before).slot c.subscription).TakesEffect
          (nextLoop .removeFromActive after) c) := by
    intro before order c after hsplit hquiet
    rw [hsplit]
    exact active_eq_wanted_iff before order c hquiet
      (mem_after_of_mem_tail hsplit htail (hloop.subset (by simp)))
      (mem_after_of_mem_tail hsplit htail (hloop.subset (by simp)))
  constructor
  · intro h before order c after hsplit hquiet
    exact (hiff before order c after hsplit hquiet).mp (h before order c after hsplit hquiet)
  · intro h before order c after hsplit hquiet
    exact (hiff before order c after hsplit hquiet).mpr (h before order c after hsplit hquiet)

def loopOnce : List (HashOrder × BlockEvent ℕ) :=
  [(.newestFirst, .loop .removeFromActive), (.newestFirst, .loop .mergeInputToActive)]

def comeRound : List (HashOrder × BlockEvent ℕ) :=
  loopOnce ++ [(.newestFirst, .loop .removeFromActive)]

/-- A second iterator for a name that is active is dropped; an iterator removed
before it is merged becomes active; an iterator merged after the removal of the
old one, but before the loop has seen that removal, is dropped with it. -/
theorem not_linearized :
    ¬ Linearized ((.newestFirst, .call (.addIterator "s" 1)) :: loopOnce ++
      [(.newestFirst, .call (.addIterator "s" 2))] ++ comeRound) ∧
    ¬ Linearized ([(.newestFirst, .call (.addIterator "s" 1)),
      (.newestFirst, .call (.removeIterator "s"))] ++ comeRound) ∧
    ¬ Linearized ((.newestFirst, .call (.addIterator "s" 1)) :: comeRound ++
      [(.newestFirst, .call (.removeIterator "s")), (.newestFirst, .call (.addIterator "s" 2)),
        (.newestFirst, .loop .mergeInputToActive)] ++ comeRound) := by
  refine ⟨fun h => ?_, fun h => ?_, fun h => ?_⟩
  · exact absurd (h ((.newestFirst, .call (.addIterator "s" 1)) :: loopOnce) _ _ comeRound rfl
      (by simp [QuietFor, comeRound, loopOnce])) (by decide +kernel)
  · exact absurd (h [_] _ _ comeRound rfl
      (by simp [QuietFor, comeRound, loopOnce])) (by decide +kernel)
  · exact absurd (h ((.newestFirst, .call (.addIterator "s" 1)) :: comeRound ++
      [(.newestFirst, .call (.removeIterator "s"))]) _ _
      ((.newestFirst, .loop .mergeInputToActive) :: comeRound) rfl
      (by simp [QuietFor, comeRound, loopOnce])) (by decide +kernel)

theorem linearized_iff_addRemove :
    Linearized ([(.newestFirst, .call (.addIterator "s" 1))] ++ loopOnce ++
      [(.newestFirst, .call (.removeIterator "s"))] ++ comeRound) := by
  refine (linearized_iff _ comeRound (by simp [comeRound, loopOnce])
    (by simp [comeRound, loopOnce])).mpr ?_
  intro before order c after hsplit hquiet
  -- the call of the split is the first or the fourth event
  rcases before with _ | ⟨_, _ | ⟨_, _ | ⟨_, _ | ⟨_, before⟩⟩⟩⟩
  · obtain ⟨⟨-, rfl⟩, rfl⟩ : (HashOrder.newestFirst = order ∧
        IteratorCall.addIterator "s" 1 = c) ∧ _ = after := by simpa using hsplit
    exact absurd rfl (hquiet .newestFirst (.removeIterator "s") (by simp [loopOnce]))
  · simp [loopOnce] at hsplit
  · simp [loopOnce] at hsplit
  · simp only [loopOnce, List.cons_append, List.nil_append, List.cons.injEq, Prod.mk.injEq,
      BlockEvent.call.injEq] at hsplit
    obtain ⟨rfl, rfl, rfl, ⟨rfl, rfl⟩, rfl⟩ := hsplit
    decide
  · have hmem : (order, BlockEvent.call c) ∈ comeRound := by
      simp only [loopOnce, List.cons_append, List.nil_append, List.cons.injEq] at hsplit
      simp [hsplit.2.2.2.2]
    simp [comeRound, loopOnce] at hmem

end ThreadDataBlock

end Pubsuber
