import Mathlib.Algebra.BigOperators.Group.List.Basic
import Mathlib.Tactic

/-!
# Greedy prefixes under a budget

Elements are taken from the front of a list as long as the weight spent so far
stays below a limit. The first element that would reach the limit ends the
prefix, even if a later one would still fit.
-/

namespace Greedy

variable {α : Type*} (weight : α → ℕ) (limit : ℕ)

/-- The elements taken, when `spent` is already used up. -/
def taken : ℕ → List α → List α
  | _, [] => []
  | spent, x :: xs =>
    if spent + weight x < limit then x :: taken (spent + weight x) xs else []

def left : ℕ → List α → List α
  | _, [] => []
  | spent, x :: xs =>
    if spent + weight x < limit then left (spent + weight x) xs else x :: xs

def cost (xs : List α) : ℕ := (xs.map weight).sum

@[simp] theorem cost_nil : cost weight [] = 0 := rfl

@[simp] theorem cost_cons (x : α) (xs : List α) :
    cost weight (x :: xs) = weight x + cost weight xs := by
  simp [cost]

theorem cost_perm {xs ys : List α} (h : xs.Perm ys) : cost weight xs = cost weight ys :=
  (h.map weight).sum_eq

theorem taken_append_left (spent : ℕ) (xs : List α) :
    taken weight limit spent xs ++ left weight limit spent xs = xs := by
  induction xs generalizing spent with
  | nil => rfl
  | cons x xs ih =>
    unfold taken left
    split_ifs
    · rw [List.cons_append, ih]
    · rfl

theorem spent_lt (spent : ℕ) (xs : List α) (h : taken weight limit spent xs ≠ []) :
    spent + cost weight (taken weight limit spent xs) < limit := by
  induction xs generalizing spent with
  | nil => simp [taken] at h
  | cons x xs ih =>
    unfold taken at h ⊢
    split_ifs at h ⊢ with hx
    · by_cases hxs : taken weight limit (spent + weight x) xs = []
      · simpa [hxs] using hx
      · have := ih (spent + weight x) hxs
        rw [cost_cons]
        omega
    · contradiction

/-- What is left over starts with an element that would reach the limit. -/
theorem left_maximal (spent : ℕ) (xs : List α) :
    left weight limit spent xs = [] ∨
      ∃ x rest, left weight limit spent xs = x :: rest ∧
        limit ≤ spent + cost weight (taken weight limit spent xs) + weight x := by
  induction xs generalizing spent with
  | nil => simp [left]
  | cons x xs ih =>
    unfold left taken
    split_ifs with hx
    · rcases ih (spent + weight x) with h | ⟨y, rest, hleft, hy⟩
      · exact .inl h
      · refine .inr ⟨y, rest, hleft, ?_⟩
        rw [cost_cons]
        omega
    · exact .inr ⟨x, xs, rfl, by simpa using hx⟩

theorem fits_of_mem_taken (spent : ℕ) (xs : List α) {x : α}
    (hx : x ∈ taken weight limit spent xs) : spent + weight x < limit := by
  induction xs generalizing spent with
  | nil => simp [taken] at hx
  | cons y ys ih =>
    unfold taken at hx
    split_ifs at hx with hy
    · rcases List.mem_cons.mp hx with rfl | hx
      · exact hy
      · have := ih (spent + weight y) hx
        omega
    · contradiction

theorem taken_eq_self (spent : ℕ) (xs : List α) (h : spent + cost weight xs < limit) :
    taken weight limit spent xs = xs := by
  induction xs generalizing spent with
  | nil => rfl
  | cons x xs ih =>
    rw [cost_cons] at h
    unfold taken
    rw [if_pos (by omega), ih (spent + weight x) (by omega)]

end Greedy
