import Mathlib.Tactic

/-!
# Statuses and exceptions of remote calls

What a stub answers, what `make_call` hands back to its callers and how a
function that makes remote calls ends.
-/

namespace Pubsuber

/-- Nanoseconds on the steady clock. -/
abbrev TimePoint := ℤ

inductive StatusCode
  | ok | cancelled | unknown | invalidArgument | deadlineExceeded | notFound | alreadyExists
  | permissionDenied | resourceExhausted | failedPrecondition | aborted | outOfRange
  | unimplemented | internal | unavailable | dataLoss | unauthenticated
  deriving DecidableEq, Repr

/-- The numeric values of `grpc::StatusCode`. -/
def StatusCode.toNat : StatusCode → ℕ
  | ok => 0 | cancelled => 1 | unknown => 2 | invalidArgument => 3 | deadlineExceeded => 4
  | notFound => 5 | alreadyExists => 6 | permissionDenied => 7 | resourceExhausted => 8
  | failedPrecondition => 9 | aborted => 10 | outOfRange => 11 | unimplemented => 12
  | internal => 13 | unavailable => 14 | dataLoss => 15 | unauthenticated => 16

structure Status where
  code : StatusCode
  message : String
  deriving DecidableEq, Repr

def kUninitializedCode : ℕ := 0x7FFFFFFF

structure Exception where
  what : String
  code : ℕ
  deriving DecidableEq, Repr

/-- What `retriable::make_call` gives back to its caller. -/
abbrev CallResult := Except Exception (Status × TimePoint)

/-- How a function of the ack thread ends, or that it waits in a remote call. -/
inductive Ending (α : Type)
  | returned (value : α)
  | threw (e : Exception)
  | terminated
  | calling
  deriving DecidableEq, Repr

def Ending.map {α β : Type} (f : α → β) : Ending α → Ending β
  | .returned value => .returned (f value)
  | .threw e => .threw e
  | .terminated => .terminated
  | .calling => .calling

theorem Ending.map_eq_returned {α β : Type} {f : α → β} {ending : Ending α} {b : β} :
    ending.map f = .returned b ↔ ∃ a, ending = .returned a ∧ f a = b := by
  cases ending <;> simp [map]

theorem Ending.eq_returned_of_map {α β : Type} {f : α → β} {ending : Ending α} {b : β}
    (h : ending.map f = .returned b) : ∃ a, ending = .returned a := by
  obtain ⟨a, ha, -⟩ := map_eq_returned.mp h
  exact ⟨a, ha⟩

/-- Control has left the function, to its caller or to a handler. -/
def Ending.Over {α : Type} : Ending α → Prop
  | .returned _ => True
  | .threw _ => True
  | .terminated => False
  | .calling => False

instance {α : Type} (ending : Ending α) : Decidable ending.Over :=
  match ending with
  | .returned _ => .isTrue trivial
  | .threw _ => .isTrue trivial
  | .terminated => .isFalse id
  | .calling => .isFalse id

def Ending.Returns {α : Type} (ending : Ending α) : Prop := ∃ a, ending = .returned a

instance {α : Type} (ending : Ending α) : Decidable ending.Returns :=
  match ending with
  | .returned a => .isTrue ⟨a, rfl⟩
  | .threw _ => .isFalse fun ⟨_, h⟩ => nomatch h
  | .terminated => .isFalse fun ⟨_, h⟩ => nomatch h
  | .calling => .isFalse fun ⟨_, h⟩ => nomatch h

theorem Ending.returns_map {α β : Type} {f : α → β} {ending : Ending α} :
    (ending.map f).Returns ↔ ending.Returns := by
  cases ending <;> simp [Ending.map, Ending.Returns]

end Pubsuber
