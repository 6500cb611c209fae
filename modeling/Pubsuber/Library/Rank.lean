import Mathlib.Data.List.Sort
import Mathlib.Algebra.Order.Floor.Semiring
import Mathlib.Data.Rat.Floor
import Mathlib.Tactic

/-!
# Nearest-rank percentiles

Of `n` values in ascending order, the nearest-rank percentile `p` is the value
at position `⌈p * n⌉`, counted from one. It is the least value that has as many
values at or below it, which is how a table of counts finds it.
-/

namespace Rank

variable {α : Type} [LinearOrder α]

/-- No value when there is none to choose from. -/
def nearestRank (p : ℚ) (xs : List α) : Option α :=
  (xs.mergeSort fun a b => decide (a ≤ b))[⌈p * xs.length⌉₊ - 1]?

omit [LinearOrder α] in
theorem ceil_le_length {p : ℚ} (hp : p ≤ 1) (xs : List α) : ⌈p * xs.length⌉₊ ≤ xs.length := by
  apply Nat.ceil_le.mpr
  have hlen : (0 : ℚ) ≤ xs.length := Nat.cast_nonneg _
  nlinarith

theorem getElem_le_iff {xs : List α} (hsorted : xs.Pairwise (· ≤ ·)) {i : ℕ}
    (hi : i < xs.length) (v : α) : xs[i] ≤ v ↔ i < xs.countP fun a => decide (a ≤ v) := by
  induction xs generalizing i with
  | nil => simp at hi
  | cons x xs ih =>
    obtain ⟨hx, hsorted⟩ := List.pairwise_cons.mp hsorted
    by_cases hxv : x ≤ v
    · rw [List.countP_cons_of_pos (by simpa using hxv)]
      cases i with
      | zero => simp [hxv]
      | succ i =>
        have hi : i < xs.length := by simpa using hi
        rw [List.getElem_cons_succ, ih hsorted hi]
        omega
    · have hnone : xs.countP (fun a => decide (a ≤ v)) = 0 := by
        apply List.countP_eq_zero.mpr
        intro a ha hav
        exact hxv ((hx a ha).trans (by simpa using hav))
      rw [List.countP_cons_of_neg (by simpa using hxv), hnone]
      constructor
      · intro hle
        cases i with
        | zero => exact absurd hle hxv
        | succ i => exact absurd ((hx _ (List.getElem_mem _)).trans hle) hxv
      · omega

section Sorted

variable (xs : List α)

theorem sorted_mergeSort : (xs.mergeSort fun a b => decide (a ≤ b)).Pairwise (· ≤ ·) := by
  have htrans : ∀ a b c : α, decide (a ≤ b) = true → decide (b ≤ c) = true →
      decide (a ≤ c) = true := by
    intro a b c hab hbc
    rw [decide_eq_true_eq] at *
    exact hab.trans hbc
  have htotal : ∀ a b : α, (decide (a ≤ b) || decide (b ≤ a)) = true := by
    intro a b
    simpa using le_total a b
  simpa using List.pairwise_mergeSort htrans htotal xs

theorem perm_mergeSort : (xs.mergeSort fun a b => decide (a ≤ b)).Perm xs :=
  List.mergeSort_perm xs _

end Sorted

theorem nearestRank_perm (p : ℚ) {xs ys : List α} (h : xs.Perm ys) :
    nearestRank p xs = nearestRank p ys := by
  have hperm := ((perm_mergeSort xs).trans h).trans (perm_mergeSort ys).symm
  have heq := hperm.eq_of_pairwise (fun a b _ _ => le_antisymm) (sorted_mergeSort xs)
    (sorted_mergeSort ys)
  unfold nearestRank
  rw [heq, h.length_eq]

theorem nearestRank_mem {p : ℚ} {xs : List α} {a : α} (h : nearestRank p xs = some a) :
    a ∈ xs :=
  (perm_mergeSort xs).mem_iff.mp (List.mem_of_getElem? h)

theorem exists_nearestRank {p : ℚ} (hp : p ≤ 1) {xs : List α} (hxs : xs ≠ []) :
    ∃ a, nearestRank p xs = some a := by
  have hpos : 0 < xs.length := List.length_pos_iff.mpr hxs
  have hrank := ceil_le_length hp xs
  have hlt : ⌈p * xs.length⌉₊ - 1 < (xs.mergeSort fun a b => decide (a ≤ b)).length := by
    rw [List.length_mergeSort]
    omega
  exact ⟨_, List.getElem?_eq_getElem hlt⟩

theorem nearestRank_eq_none {p : ℚ} (hp : p ≤ 1) {xs : List α}
    (h : nearestRank p xs = none) : xs = [] := by
  by_contra hxs
  obtain ⟨a, ha⟩ := exists_nearestRank hp hxs
  rw [h] at ha
  contradiction

/-- The percentile lies at or below `v` exactly when enough values do. -/
theorem nearestRank_le_iff {p : ℚ} (hp : 0 < p) {xs : List α} {a : α}
    (h : nearestRank p xs = some a) (v : α) :
    a ≤ v ↔ ⌈p * xs.length⌉₊ ≤ xs.countP fun b => decide (b ≤ v) := by
  obtain ⟨hi, ha⟩ := List.getElem?_eq_some_iff.mp h
  have hlen : 0 < xs.length := by
    rw [List.length_mergeSort] at hi
    omega
  have hrank : 0 < ⌈p * xs.length⌉₊ := by
    apply Nat.ceil_pos.mpr
    have hcast : (0 : ℚ) < xs.length := Nat.cast_pos.mpr hlen
    positivity
  rw [← ha, getElem_le_iff (sorted_mergeSort xs) hi, (perm_mergeSort xs).countP_eq]
  omega

theorem nearestRank_of_forall_eq {p : ℚ} (hp : p ≤ 1) {xs : List α} {a : α} (hxs : xs ≠ [])
    (h : ∀ x ∈ xs, x = a) : nearestRank p xs = some a := by
  obtain ⟨b, hb⟩ := exists_nearestRank hp hxs
  rw [hb, h b (nearestRank_mem hb)]

end Rank
