import Mathlib.Data.List.Basic
import Mathlib.Tactic

/-!
# Entries that reach a map by way of a staging map

Entries are put into a staging map, where a later one replaces an earlier one of
the same key. From time to time the staging map is merged into the main map,
which keeps the entries it has, and is emptied. The main map then holds the last
entry of the first batch that has the key. This is the last entry of all exactly
where no later batch ends with another value.
-/

namespace Staging

variable {κ α : Type} [DecidableEq κ]

inductive Step (κ α : Type)
  | put (k : κ) (a : α)
  | merge
  deriving DecidableEq

/-- The value of the last entry with a key. -/
def lastOf (k : κ) : List (κ × α) → Option α
  | [] => none
  | (j, a) :: entries => (lastOf k entries).or (if j = k then some a else none)

/-- The batches that are merged one after another, when the last one is merged
at the end; `current` is already staged. -/
def batches (current : List (κ × α)) : List (Step κ α) → List (List (κ × α))
  | [] => [current]
  | .put k a :: steps => batches (current ++ [(k, a)]) steps
  | .merge :: steps => current :: batches [] steps

def puts : List (Step κ α) → List (κ × α)
  | [] => []
  | .put k a :: steps => (k, a) :: puts steps
  | .merge :: steps => puts steps

/-- What the main map holds under a key: the first batch that has it decides. -/
def firstOf (k : κ) (bs : List (List (κ × α))) : Option α := bs.findSome? (lastOf k)

/-- A key that comes back in a later batch comes back, in the end, with the value
it had in its first one. -/
def FirstIsLast (bs : List (List (κ × α))) : Prop :=
  ∀ earlier batch later k a b, bs = earlier ++ batch :: later →
    (∀ other ∈ earlier, lastOf k other = none) → lastOf k batch = some a →
      lastOf k later.flatten = some b → b = a

variable (k : κ)

@[simp] theorem lastOf_nil : lastOf k ([] : List (κ × α)) = none := rfl

theorem lastOf_append (xs ys : List (κ × α)) :
    lastOf k (xs ++ ys) = (lastOf k ys).or (lastOf k xs) := by
  induction xs with
  | nil => simp
  | cons x xs ih =>
    rw [List.cons_append, lastOf, ih, lastOf, Option.or_assoc]

theorem lastOf_concat (xs : List (κ × α)) (j : κ) (a : α) :
    lastOf k (xs ++ [(j, a)]) = if j = k then some a else lastOf k xs := by
  rw [lastOf_append]
  unfold lastOf
  split_ifs <;> simp

theorem lastOf_flatten_eq_none {bs : List (List (κ × α))} (h : ∀ b ∈ bs, lastOf k b = none) :
    lastOf k bs.flatten = none := by
  induction bs with
  | nil => rfl
  | cons b bs ih =>
    rw [List.flatten_cons, lastOf_append, h b List.mem_cons_self,
      ih fun b' hb' => h b' (List.mem_cons_of_mem _ hb')]
    rfl

omit [DecidableEq κ] in
theorem flatten_batches (current : List (κ × α)) (steps : List (Step κ α)) :
    (batches current steps).flatten = current ++ puts steps := by
  induction steps generalizing current with
  | nil => simp [batches, puts]
  | cons step steps ih =>
    cases step with
    | put k a => simp [batches, puts, ih]
    | merge => simp [batches, puts, ih]

/-- The last entry of all is the last one behind the first batch with the key, if
the key comes back there. -/
theorem lastOf_flatten_split {earlier : List (List (κ × α))} (batch : List (κ × α))
    (later : List (List (κ × α))) (h : ∀ b ∈ earlier, lastOf k b = none) :
    lastOf k (earlier ++ batch :: later).flatten =
      (lastOf k later.flatten).or (lastOf k batch) := by
  rw [List.flatten_append, List.flatten_cons, lastOf_append, lastOf_append,
    lastOf_flatten_eq_none k h, Option.or_none]

theorem firstOf_cons (batch : List (κ × α)) (bs : List (List (κ × α))) :
    firstOf k (batch :: bs) = (lastOf k batch).or (firstOf k bs) := by
  unfold firstOf
  rw [List.findSome?_cons]
  cases lastOf k batch <;> rfl

theorem firstOf_eq_lastOf_iff {bs : List (List (κ × α))} :
    (∀ k, firstOf k bs = lastOf k bs.flatten) ↔ FirstIsLast bs := by
  constructor
  · intro h earlier batch later k a b heq hearlier hbatch hlater
    have hfirst : firstOf k bs = some a :=
      List.findSome?_eq_some_iff.mpr ⟨earlier, batch, later, heq, hbatch, hearlier⟩
    rw [h k, heq, lastOf_flatten_split k batch later hearlier, hlater] at hfirst
    exact Option.some.inj hfirst
  · intro h k
    cases hfirst : firstOf k bs with
    | none =>
      symm
      apply lastOf_flatten_eq_none
      exact List.findSome?_eq_none_iff.mp hfirst
    | some a =>
      obtain ⟨earlier, batch, later, heq, hbatch, hearlier⟩ :=
        List.findSome?_eq_some_iff.mp hfirst
      rw [heq, lastOf_flatten_split k batch later hearlier, hbatch]
      cases hlater : lastOf k later.flatten with
      | none => rfl
      | some b =>
        rw [h earlier batch later k a b heq hearlier hbatch hlater]
        rfl

end Staging
