import Mathlib.Tactic

/-!
# Deterministic machines driven by inputs

A step function answers `none` when its input is not enabled. Whatever is
undetermined (schedules, iteration orders, results of remote calls) is part of
the input, so a run is a list of inputs and quantifying over runs quantifies
over all of it.
-/

namespace StateMachine

variable {σ ι : Type*} (step : σ → ι → Option σ)

/-- The state after all inputs, each of which must be enabled in turn. -/
def run : σ → List ι → Option σ
  | s, [] => some s
  | s, i :: is => (step s i).bind fun t => run t is

/-- Every input of a run meets `allowed` in the state it is given to. -/
def Along (allowed : σ → ι → Prop) : σ → List ι → Prop
  | _, [] => True
  | s, i :: is => allowed s i ∧ ∀ t, step s i = some t → Along allowed t is

instance decidableAlong (allowed : σ → ι → Prop) [∀ s i, Decidable (allowed s i)] :
    ∀ s is, Decidable (Along step allowed s is)
  | _, [] => .isTrue trivial
  | s, i :: is =>
    match h : step s i with
    | none => decidable_of_iff (allowed s i) (by simp [Along, h])
    | some t =>
      have := decidableAlong allowed t is
      decidable_of_iff (allowed s i ∧ Along step allowed t is) (by simp [Along, h])

@[simp] theorem run_nil (s : σ) : run step s [] = some s := rfl

theorem run_cons (s : σ) (i : ι) (is : List ι) :
    run step s (i :: is) = (step s i).bind fun t => run step t is := rfl

theorem run_append (s : σ) (is js : List ι) :
    run step s (is ++ js) = (run step s is).bind fun t => run step t js := by
  induction is generalizing s with
  | nil => rfl
  | cons i is ih =>
    rw [List.cons_append, run_cons, run_cons]
    cases step s i with
    | none => rfl
    | some t => simpa using ih t

theorem run_concat (s : σ) (is : List ι) (i : ι) :
    run step s (is ++ [i]) = (run step s is).bind fun t => step t i := by
  rw [run_append]
  cases run step s is with
  | none => rfl
  | some t => cases h : step t i <;> simp [run_cons, h]

theorem along_of_forall {allowed : σ → ι → Prop} {is : List ι}
    (h : ∀ i ∈ is, ∀ s, allowed s i) (s : σ) : Along step allowed s is := by
  induction is generalizing s with
  | nil => trivial
  | cons i is ih =>
    exact ⟨h i List.mem_cons_self s,
      fun t _ => ih (fun j hj => h j (List.mem_cons_of_mem i hj)) t⟩

theorem along_append (allowed : σ → ι → Prop) (s : σ) (is js : List ι) :
    Along step allowed s (is ++ js) ↔
      Along step allowed s is ∧ ∀ t, run step s is = some t → Along step allowed t js := by
  induction is generalizing s with
  | nil => simp [Along]
  | cons i is ih =>
    rw [List.cons_append, Along, Along, run_cons]
    constructor
    · rintro ⟨hi, hrest⟩
      refine ⟨⟨hi, fun t ht => ((ih t).mp (hrest t ht)).1⟩, fun u hu => ?_⟩
      obtain ⟨t, ht, hu⟩ := Option.bind_eq_some_iff.mp hu
      exact ((ih t).mp (hrest t ht)).2 u hu
    · rintro ⟨⟨hi, hrest⟩, hjs⟩
      refine ⟨hi, fun t ht => (ih t).mpr ⟨hrest t ht, fun u hu => hjs u ?_⟩⟩
      rw [ht]
      exact hu

theorem along_iff_of_run {allowed : σ → ι → Prop} {s u : σ} {is : List ι}
    (h : run step s is = some u) :
    Along step allowed s is ↔ ∀ before i t v, before ++ [i] <+: is →
      run step s before = some t → step t i = some v → allowed t i := by
  induction is generalizing s with
  | nil => simp [Along]
  | cons j is ih =>
    obtain ⟨t, ht, htu⟩ := Option.bind_eq_some_iff.mp h
    rw [Along]
    constructor
    · rintro ⟨hj, hrest⟩ before i w v hprefix hw hv
      cases before with
      | nil =>
        obtain ⟨rfl, -⟩ := List.cons_prefix_cons.mp hprefix
        cases hw
        exact hj
      | cons k before =>
        obtain ⟨rfl, -⟩ := List.cons_prefix_cons.mp hprefix
        rw [run_cons, ht] at hw
        exact (ih htu).mp (hrest t ht) before i w v
          (List.cons_prefix_cons.mp hprefix).2 hw hv
    · intro hall
      refine ⟨hall [] j s t (by simp) rfl ht, fun t' ht' => ?_⟩
      rw [ht] at ht'
      cases ht'
      refine (ih htu).mpr fun before i w v hprefix hw hv => ?_
      refine hall (j :: before) i w v (List.cons_prefix_cons.mpr ⟨rfl, hprefix⟩) ?_ hv
      rw [run_cons, ht]
      exact hw

variable {step}

/-- A property kept by every allowed step is kept by every run of them. -/
theorem run_invariant_along {allowed : σ → ι → Prop} (P : σ → Prop)
    (hstep : ∀ s i t, P s → allowed s i → step s i = some t → P t)
    {s t : σ} {is : List ι} (h : run step s is = some t) (ha : Along step allowed s is)
    (hs : P s) : P t := by
  induction is generalizing s with
  | nil =>
    cases h
    exact hs
  | cons i is ih =>
    obtain ⟨hi, hrest⟩ := ha
    cases hst : step s i with
    | none => simp [run_cons, hst] at h
    | some u =>
      rw [run_cons, hst] at h
      exact ih h (hrest u hst) (hstep s i u hs hi hst)

/-- A property kept by every step is kept by every run. -/
theorem run_invariant (P : σ → Prop) (hstep : ∀ s i t, P s → step s i = some t → P t)
    {s t : σ} {is : List ι} (h : run step s is = some t) (hs : P s) : P t := by
  induction is generalizing s with
  | nil =>
    cases h
    exact hs
  | cons i is ih =>
    cases hst : step s i with
    | none => simp [run_cons, hst] at h
    | some u =>
      rw [run_cons, hst] at h
      exact ih h (hstep s i u hs hst)

/-- What steps never undo and does not hold in the end has held after no step. -/
theorem along_of_final {allowed : σ → ι → Prop} {Q : σ → Prop}
    (hkeep : ∀ s i t, Q s → allowed s i → step s i = some t → Q t)
    {s t : σ} {is : List ι} (h : run step s is = some t) (ha : Along step allowed s is)
    (ht : ¬ Q t) :
    Along step (fun s i => allowed s i ∧ ∀ u, step s i = some u → ¬ Q u) s is := by
  induction is generalizing s with
  | nil => trivial
  | cons i is ih =>
    obtain ⟨u, hu, hrest⟩ := Option.bind_eq_some_iff.mp h
    refine ⟨⟨ha.1, ?_⟩, ?_⟩
    · intro u' hu' hQ
      rw [hu] at hu'
      cases hu'
      exact ht (run_invariant_along Q hkeep hrest (ha.2 u hu) hQ)
    · intro u' hu'
      rw [hu] at hu'
      cases hu'
      exact ih hrest (ha.2 u hu)

/-- Induction along a run on what has been fed to the machine so far and the state
it has led to. -/
theorem run_history (P : List ι → σ → Prop)
    (hstep : ∀ is s i t, P is s → step s i = some t → P (is ++ [i]) t)
    {s t : σ} {is : List ι} (hs : P [] s) (h : run step s is = some t) : P is t := by
  induction is using List.reverseRecOn generalizing t with
  | nil =>
    cases h
    exact hs
  | append_singleton is i ih =>
    rw [run_concat] at h
    cases hr : run step s is with
    | none => simp [hr] at h
    | some u =>
      rw [hr] at h
      exact hstep is u i t (ih hr) h

theorem run_history_along {allowed : σ → ι → Prop} (P : List ι → σ → Prop)
    (hstep : ∀ is s i t, P is s → allowed s i → step s i = some t → P (is ++ [i]) t)
    {s t : σ} {is : List ι} (hs : P [] s) (h : run step s is = some t)
    (ha : Along step allowed s is) : P is t := by
  induction is using List.reverseRecOn generalizing t with
  | nil =>
    cases h
    exact hs
  | append_singleton is i ih =>
    obtain ⟨his, hi⟩ := (along_append step allowed s is [i]).mp ha
    rw [run_concat] at h
    cases hr : run step s is with
    | none => simp [hr] at h
    | some u =>
      rw [hr] at h
      exact hstep is u i t (ih hr his) (hi u hr).1 h

end StateMachine
