import Mathlib.Order.Bounds.Basic
import Mathlib.Order.Nat
import Mathlib.Tactic

/-!
# Bisection over a range of indices

A binary search asks for each index it probes whether the wanted index lies
behind it. On a range where the answer changes once, from yes to no, it ends at
the first no. On any other range it still ends at some change from yes to no, or
at an end of the range. That is what is known of a search over a sequence that
is not sorted.
-/

namespace Bisect

variable (less : ℕ → Bool)

/-- The search on `len` indices from `first` on; `less i` says that the wanted
index lies behind `i`. -/
def bisect : ℕ → ℕ → ℕ → ℕ
  | 0, first, _ => first
  | fuel + 1, first, len =>
    if len = 0 then first
    else if less (first + len / 2) then
      bisect fuel (first + len / 2 + 1) (len - len / 2 - 1)
    else bisect fuel first (len / 2)

/-- A change from yes to no, or an end of the range. -/
structure Boundary (lo hi r : ℕ) : Prop where
  lower : lo ≤ r
  upper : r ≤ hi
  before : r = lo ∨ less (r - 1) = true
  at_end : r = hi ∨ less r = false

variable {less}

theorem bisect_zero (fuel first : ℕ) : bisect less fuel first 0 = first := by
  cases fuel with
  | zero => rfl
  | succ fuel => rw [bisect, if_pos rfl]

theorem bisect_of_less {fuel first len : ℕ} (hlen : len ≠ 0)
    (h : less (first + len / 2) = true) :
    bisect less (fuel + 1) first len =
      bisect less fuel (first + len / 2 + 1) (len - len / 2 - 1) := by
  rw [bisect, if_neg hlen, if_pos h]

theorem bisect_of_not_less {fuel first len : ℕ} (hlen : len ≠ 0)
    (h : less (first + len / 2) = false) :
    bisect less (fuel + 1) first len = bisect less fuel first (len / 2) := by
  rw [bisect, if_neg hlen, if_neg (by simp [h])]

/-- Whatever the answers are: the search halves the range, and each end it moves
stays where an answer has put it. -/
theorem bisect_boundary {fuel first len : ℕ} (hfuel : len ≤ fuel) :
    Boundary less first (first + len) (bisect less fuel first len) := by
  induction fuel generalizing first len with
  | zero =>
    obtain rfl : len = 0 := by omega
    exact ⟨le_rfl, le_rfl, .inl rfl, .inl rfl⟩
  | succ fuel ih =>
    by_cases hlen : len = 0
    · subst hlen
      rw [bisect_zero]
      exact ⟨le_rfl, le_rfl, .inl rfl, .inl rfl⟩
    · cases hprobe : less (first + len / 2) with
      | true =>
        rw [bisect_of_less hlen hprobe]
        have h : Boundary less (first + len / 2 + 1)
            (first + len / 2 + 1 + (len - len / 2 - 1))
            (bisect less fuel (first + len / 2 + 1) (len - len / 2 - 1)) := ih (by omega)
        have hend : first + len / 2 + 1 + (len - len / 2 - 1) = first + len := by omega
        rw [hend] at h
        have hlower := h.lower
        refine ⟨by omega, h.upper, .inr ?_, h.at_end⟩
        rcases h.before with hr | hr
        · rw [hr, Nat.add_sub_cancel]
          exact hprobe
        · exact hr
      | false =>
        rw [bisect_of_not_less hlen hprobe]
        have h : Boundary less first (first + len / 2) (bisect less fuel first (len / 2)) :=
          ih (by omega)
        have hupper := h.upper
        refine ⟨h.lower, by omega, h.before, .inr ?_⟩
        rcases h.at_end with hr | hr
        · rw [hr]
          exact hprobe
        · exact hr

theorem lt_bisect_of_less {fuel first len : ℕ} (hfuel : len ≤ fuel + 1) (hlen : len ≠ 0)
    (h : less (first + len / 2) = true) : first + len / 2 < bisect less (fuel + 1) first len := by
  have hlower : first + len / 2 + 1 ≤
      bisect less fuel (first + len / 2 + 1) (len - len / 2 - 1) :=
    (bisect_boundary (by omega)).lower
  rw [bisect_of_less hlen h]
  omega

theorem half_div_pow (len j : ℕ) : len / 2 / 2 ^ j = len / 2 ^ (j + 1) := by
  rw [Nat.div_div_eq_div_mul, ← pow_succ']

/-- A search that ends in the first `len / 2 ^ k` indices has halved `k` times,
that is, heard no at the middle of every range so far. -/
theorem bisect_le_halved_iff {k fuel first len : ℕ} (hfuel : len ≤ fuel) (hlen : 2 ^ k ≤ len) :
    bisect less fuel first len ≤ first + len / 2 ^ k ↔
      ∀ j, 1 ≤ j → j ≤ k → less (first + len / 2 ^ j) = false := by
  induction k generalizing fuel len with
  | zero =>
    constructor
    · intro _ j h1 h0
      omega
    · intro _
      simpa using (bisect_boundary hfuel).upper
  | succ k ih =>
    rw [pow_succ'] at hlen
    have hpow : 0 < 2 ^ k := by positivity
    cases fuel with
    | zero => omega
    | succ fuel =>
      cases hprobe : less (first + len / 2) with
      | true =>
        have hlt := lt_bisect_of_less hfuel (by omega) hprobe
        have hle : len / 2 ^ (k + 1) ≤ len / 2 := by
          rw [← half_div_pow]
          exact Nat.div_le_self _ _
        constructor
        · intro h
          omega
        · intro h
          have hno := h 1 le_rfl (by omega)
          rw [pow_one, hprobe] at hno
          contradiction
      | false =>
        rw [bisect_of_not_less (by omega) hprobe, ← half_div_pow, ih (by omega) (by omega)]
        constructor
        · intro h j h1 hj
          rcases Nat.lt_or_ge 1 j with hlt | hge
          · have hno := h (j - 1) (by omega) (by omega)
            rwa [half_div_pow, Nat.sub_add_cancel h1] at hno
          · obtain rfl : j = 1 := by omega
            rwa [pow_one]
        · intro h j h1 hj
          rw [half_div_pow]
          exact h (j + 1) (by omega) (by omega)

/-- Where no answer of the range changes from no to yes, the search ends at the
first no. -/
theorem isLeast_of_boundary {lo hi r : ℕ}
    (hmono : ∀ i j, i ≤ j → j < hi → less j = true → less i = true)
    (h : Boundary less lo hi r) (hr : r < hi) : IsLeast {i | lo ≤ i ∧ less i = false} r := by
  constructor
  · exact ⟨h.lower, h.at_end.resolve_left (by omega)⟩
  · rintro i ⟨hi, hno⟩
    by_contra hlt
    rcases h.before with hr | hr
    · omega
    · have hyes := hmono i (r - 1) (by omega) (by omega) hr
      rw [hno] at hyes
      contradiction

theorem eq_of_forall_not_less {lo hi r : ℕ} (h : Boundary less lo hi r)
    (hno : ∀ i, i < hi → less i = false) : r = lo := by
  have hlower := h.lower
  have hupper := h.upper
  rcases h.before with hr | hr
  · exact hr
  · by_contra hne
    rw [hno (r - 1) (by omega)] at hr
    contradiction

theorem lt_of_last {lo hi r : ℕ} (h : Boundary less lo hi r) (hlt : lo < hi)
    (hlast : less (hi - 1) = false) : r < hi := by
  have hupper := h.upper
  rcases h.before with hr | hr
  · omega
  · by_contra hge
    obtain rfl : r = hi := by omega
    rw [hlast] at hr
    contradiction

end Bisect
