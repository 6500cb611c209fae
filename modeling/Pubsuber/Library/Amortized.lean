import Pubsuber.Library.StateMachine

/-!
# Amortized counting along runs

What the inputs of a run weigh is added up. Where every step pays for its weight
out of a potential of the states and of what inputs bring in, so does every run:
the potential telescopes.
-/

namespace StateMachine

variable {σ ι M : Type*} (step : σ → ι → Option σ)

/-- What the inputs of a run weigh together, each in the state it is given to. -/
def total [AddMonoid M] (weight : σ → ι → M) : σ → List ι → M
  | _, [] => 0
  | s, i :: is => weight s i + (step s i).elim 0 fun t => total weight t is

section Total

variable [AddMonoid M] (weight : σ → ι → M)

@[simp] theorem total_nil (s : σ) : total step weight s [] = 0 := rfl

variable {step}

theorem total_cons {s t : σ} {i : ι} (h : step s i = some t) (is : List ι) :
    total step weight s (i :: is) = weight s i + total step weight t is := by
  rw [total, h]
  rfl

theorem map_total {N : Type*} [AddMonoid N] (f : M →+ N) (s : σ) (is : List ι) :
    f (total step weight s is) = total step (fun s i => f (weight s i)) s is := by
  induction is generalizing s with
  | nil => exact f.map_zero
  | cons i is ih =>
    rw [total, total, f.map_add]
    cases step s i with
    | none => rw [Option.elim_none, Option.elim_none, f.map_zero]
    | some t => rw [Option.elim_some, Option.elim_some, ih]

theorem total_eq_sum {s t : σ} {is : List ι} (h : run step s is = some t) (w : ι → M) :
    total step (fun _ i => w i) s is = (is.map w).sum := by
  induction is generalizing s with
  | nil => rfl
  | cons i is ih =>
    obtain ⟨u, hu, ht⟩ := Option.bind_eq_some_iff.mp h
    rw [total_cons _ hu, ih ht, List.map_cons, List.sum_cons]

end Total

section Sums

variable {step}

theorem total_add [AddCommMonoid M] (w w' : σ → ι → M) (s : σ) (is : List ι) :
    total step (fun s i => w s i + w' s i) s is = total step w s is + total step w' s is := by
  induction is generalizing s with
  | nil => exact (add_zero 0).symm
  | cons i is ih =>
    rw [total, total, total]
    cases step s i with
    | none =>
      rw [Option.elim_none, Option.elim_none, Option.elim_none, add_zero, add_zero, add_zero]
    | some t => rw [Option.elim_some, Option.elim_some, Option.elim_some, ih, add_add_add_comm]

theorem total_mul [NonUnitalNonAssocSemiring M] (c : M) (w : σ → ι → M) (s : σ) (is : List ι) :
    total step (fun s i => c * w s i) s is = c * total step w s is :=
  (map_total w (AddMonoidHom.mulLeft c) s is).symm

theorem total_eq_countP {s t : σ} {is : List ι} (h : run step s is = some t) (p : ι → Bool) :
    total step (fun _ i => if p i then 1 else 0) s is = is.countP p := by
  rw [total_eq_sum h fun i => if p i then 1 else 0]
  clear h
  induction is with
  | nil => rfl
  | cons i is ih => rw [List.map_cons, List.sum_cons, ih, List.countP_cons, Nat.add_comm]

end Sums

section Potential

variable [AddCommMonoid M] [PartialOrder M] [IsOrderedAddMonoid M] {step}

/-- A run of steps each of which pays for its cost out of the potential and of its
gain. -/
theorem total_le_of_potential {allowed : σ → ι → Prop} (P : σ → Prop) (potential : σ → M)
    (cost gain : σ → ι → M)
    (hkeep : ∀ s i t, P s → allowed s i → step s i = some t → P t)
    (hpay : ∀ s i t, P s → allowed s i → step s i = some t →
      cost s i + potential t ≤ potential s + gain s i)
    {s t : σ} {is : List ι} (h : run step s is = some t) (ha : Along step allowed s is)
    (hs : P s) :
    total step cost s is + potential t ≤ potential s + total step gain s is := by
  induction is generalizing s with
  | nil =>
    cases h
    rw [total_nil, total_nil, zero_add, add_zero]
  | cons i is ih =>
    obtain ⟨u, hu, ht⟩ := Option.bind_eq_some_iff.mp h
    obtain ⟨hi, hrest⟩ := ha
    have hstep := hpay s i u hs hi hu
    have hrun := ih ht (hrest u hu) (hkeep s i u hs hi hu)
    rw [total_cons cost hu, total_cons gain hu]
    calc
      cost s i + total step cost u is + potential t
          = cost s i + (total step cost u is + potential t) := add_assoc _ _ _
      _ ≤ cost s i + (potential u + total step gain u is) := by gcongr
      _ = cost s i + potential u + total step gain u is := (add_assoc _ _ _).symm
      _ ≤ potential s + gain s i + total step gain u is := by gcongr
      _ = potential s + (gain s i + total step gain u is) := add_assoc _ _ _

end Potential

end StateMachine
