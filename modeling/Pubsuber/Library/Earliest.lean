import Mathlib.Order.Bounds.Basic
import Mathlib.Order.Bounds.Lattice
import Mathlib.Data.Set.Insert
import Mathlib.Order.MinMax

/-!
# The earliest of several timers

A loop that keeps the minimum of what it sees starts with a bound `b` and ends
with the least of `b` and of the values seen. Where every value lies below `b`,
the bound tells a loop that has seen a value from one that has seen none.
-/

namespace Earliest

variable {α β : Type} [LinearOrder β] {a b d : β} {values : Set β}

theorem isLeast_insert_of_min (h : IsLeast (insert (min b a) values) d) :
    IsLeast (insert b (insert a values)) d := by
  obtain ⟨hmem, hle⟩ := h
  constructor
  · rcases hmem with rfl | hmem
    · rcases min_choice b a with hmin | hmin
      · exact .inl hmin
      · exact .inr (.inl hmin)
    · exact .inr (.inr hmem)
  · have hmin : d ≤ min b a := hle (Set.mem_insert _ _)
    rintro x (rfl | rfl | hx)
    · exact hmin.trans (min_le_left _ _)
    · exact hmin.trans (min_le_right _ _)
    · exact hle (Set.mem_insert_of_mem _ hx)

/-- A whole run of the loop. -/
theorem isLeast_foldl_min (f : α → β) (xs : List α) (b : β) :
    IsLeast (insert b {v | ∃ x ∈ xs, f x = v}) (xs.foldl (fun m x => min m (f x)) b) := by
  induction xs generalizing b with
  | nil => simp
  | cons x xs ih =>
    have hset : {v | ∃ y ∈ x :: xs, f y = v} = insert (f x) {v | ∃ y ∈ xs, f y = v} := by
      ext v
      simp [eq_comm]
    rw [hset]
    exact isLeast_insert_of_min (ih (min b (f x)))

theorem ne_bound_iff (h : IsLeast (insert b values) d) (hlt : ∀ v ∈ values, v < b) :
    d ≠ b ↔ values.Nonempty := by
  constructor
  · intro hne
    exact ⟨d, h.1.resolve_left hne⟩
  · rintro ⟨v, hv⟩ rfl
    exact absurd (h.2 (Set.mem_insert_of_mem _ hv)) (not_le.mpr (hlt v hv))

theorem isLeast_of_ne_bound (h : IsLeast (insert b values) d) (hne : d ≠ b) :
    IsLeast values d :=
  ⟨h.1.resolve_left hne, fun _ hv => h.2 (Set.mem_insert_of_mem _ hv)⟩

end Earliest
