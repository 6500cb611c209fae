import Pubsuber.Library.Greedy

/-!
# How many pieces greedy prefixes make

Elements are packed into pieces one after the other, each a greedy prefix of what the
pieces before have left over. Two neighbours together do not fit below the limit, so
there are less than twice as many pieces as in any packing.
-/

namespace Greedy

variable {α : Type*} (weight : α → ℕ)

theorem cost_append (xs ys : List α) :
    cost weight (xs ++ ys) = cost weight xs + cost weight ys := by
  simp [cost]

theorem le_cost_of_mem {x : α} {xs : List α} (h : x ∈ xs) : weight x ≤ cost weight xs :=
  List.le_sum_of_mem (List.mem_map_of_mem h)

theorem cost_le_of_subperm {xs ys : List α} (h : xs.Subperm ys) :
    cost weight xs ≤ cost weight ys := by
  obtain ⟨zs, hperm, hsub⟩ := h
  rw [← cost_perm weight hperm]
  exact (hsub.map weight).sum_le_sum fun _ _ => Nat.zero_le _

theorem cost_flatten_lt {bound : ℕ} {bins : List (List α)} (hne : bins ≠ [])
    (h : ∀ bin ∈ bins, cost weight bin < bound) :
    cost weight bins.flatten < bins.length * bound := by
  induction bins with
  | nil => exact absurd rfl hne
  | cons bin bins ih =>
    have hbin := h bin List.mem_cons_self
    rw [List.flatten_cons, cost_append, List.length_cons, Nat.add_mul, Nat.one_mul]
    by_cases hbins : bins = []
    · subst hbins
      simpa using hbin
    · have := ih hbins fun b hb => h b (List.mem_cons_of_mem _ hb)
      omega

/-- Two pieces that do not fit below the bound together. -/
def Tight (bound : ℕ) (piece next : List α) : Prop :=
  bound ≤ cost weight piece + cost weight next

/-- Every second piece has been paid for with a whole bound. -/
theorem half_mul_le_cost {bound : ℕ} :
    ∀ {pieces : List (List α)}, pieces.IsChain (Tight weight bound) →
      pieces.length / 2 * bound ≤ cost weight pieces.flatten
  | [], _ => by simp
  | [_], _ => by simp
  | piece :: next :: pieces, h => by
    obtain ⟨htight, hchain⟩ := List.isChain_cons_cons.mp h
    have hrest : pieces.length / 2 * bound ≤ cost weight pieces.flatten :=
      half_mul_le_cost hchain.tail
    have hhalf : (piece :: next :: pieces).length / 2 = pieces.length / 2 + 1 := by
      simp only [List.length_cons]
      omega
    rw [hhalf, List.flatten_cons, List.flatten_cons, cost_append, cost_append, Nat.add_mul,
      Nat.one_mul]
    unfold Tight at htight
    omega

/-- Less than twice as many pieces as any packing has bins. -/
theorem length_le_of_packing {bound : ℕ} {pieces bins : List (List α)}
    (htight : pieces.IsChain (Tight weight bound)) (hnonempty : ∀ piece ∈ pieces, piece ≠ [])
    (hbins : ∀ bin ∈ bins, cost weight bin < bound) (hcover : pieces.flatten.Subperm bins.flatten) :
    pieces.length ≤ 2 * bins.length - 1 := by
  by_cases hnone : bins = []
  · subst hnone
    have hflat : pieces.flatten = [] := List.subperm_nil.mp hcover
    cases pieces with
    | nil => exact Nat.zero_le _
    | cons piece pieces =>
      exact absurd (List.flatten_eq_nil_iff.mp hflat piece List.mem_cons_self)
        (hnonempty piece List.mem_cons_self)
  · have hpos := List.length_pos_of_ne_nil hnone
    have hhalf : pieces.length / 2 * bound < bins.length * bound :=
      (half_mul_le_cost weight htight).trans_lt
        ((cost_le_of_subperm weight hcover).trans_lt (cost_flatten_lt weight hnone hbins))
    have hlt := Nat.lt_of_mul_lt_mul_right hhalf
    omega

end Greedy
