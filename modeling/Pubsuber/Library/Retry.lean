import Mathlib.Tactic

/-!
# Retry loops over a tape of attempts

Before each attempt a loop may give up, and after it it may have to try again.
Whatever is undetermined about an attempt, its answer above all, is on the tape,
so quantifying over tapes quantifies over everything that can happen.
-/

namespace Retry

variable {α : Type*}

/-- How a loop ends, or that the tape has ended first. -/
inductive Verdict (α : Type*)
  | settled (a : α)
  | gaveUp
  | pending
  deriving DecidableEq, Repr

variable (stop : ℕ → α → Bool) (again : α → Bool)

/-- The attempts made, from attempt number `k` on. -/
def made : ℕ → List α → List α
  | _, [] => []
  | k, a :: as =>
    if stop k a then [] else if again a then a :: made (k + 1) as else [a]

def verdict : ℕ → List α → Verdict α
  | _, [] => .pending
  | k, a :: as =>
    if stop k a then .gaveUp else if again a then verdict (k + 1) as else .settled a

/-- A loop at attempt number `k` gets to make attempt `i` of the tape: no attempt before
settles it, and it does not give up before. -/
def Reached (k : ℕ) (tape : List α) (i : ℕ) : Prop :=
  (∀ a ∈ tape.take i, again a = true) ∧
    ∀ j ≤ i, ∀ a, tape[j]? = some a → stop (k + j) a = false

variable {stop again} in
theorem Reached.mono {k : ℕ} {tape : List α} {i j : ℕ} (h : Reached stop again k tape j)
    (hij : i ≤ j) : Reached stop again k tape i := by
  constructor
  · intro a ha
    exact h.1 a ((List.take_prefix_take_left hij).subset ha)
  · intro l hl
    exact h.2 l (hl.trans hij)

theorem reached_zero_iff (k : ℕ) (a : α) (as : List α) :
    Reached stop again k (a :: as) 0 ↔ stop k a = false := by
  constructor
  · intro h
    exact h.2 0 le_rfl a rfl
  · intro hstop
    constructor
    · simp
    · intro j hj b hb
      obtain rfl := Nat.le_zero.mp hj
      obtain rfl : a = b := by simpa using hb
      exact hstop

theorem reached_succ_iff (k : ℕ) (a : α) (as : List α) (i : ℕ) :
    Reached stop again k (a :: as) (i + 1) ↔
      stop k a = false ∧ again a = true ∧ Reached stop again (k + 1) as i := by
  constructor
  · rintro ⟨hall, hnone⟩
    refine ⟨hnone 0 (Nat.zero_le _) a rfl, hall a (by simp), ?_, ?_⟩
    · intro b hb
      exact hall b (by simp [hb])
    · intro j hj b hb
      have := hnone (j + 1) (by omega) b (by simpa using hb)
      rwa [Nat.add_right_comm]
  · rintro ⟨hstop, hagain, hall, hnone⟩
    constructor
    · intro b hb
      rcases List.mem_cons.mp hb with rfl | hb
      · exact hagain
      · exact hall b hb
    · intro j hj b hb
      cases j with
      | zero =>
        obtain rfl : a = b := by simpa using hb
        exact hstop
      | succ j =>
        have := hnone j (by omega) b (by simpa using hb)
        rwa [Nat.add_right_comm] at this

theorem made_initial (k : ℕ) (tape : List α) : made stop again k tape <+: tape := by
  induction tape generalizing k with
  | nil => exact List.prefix_refl _
  | cons a as ih =>
    unfold made
    split_ifs
    · exact List.nil_prefix
    · exact (List.prefix_cons_inj a).mpr (ih (k + 1))
    · exact List.prefix_append [a] as

theorem made_eq_take (k : ℕ) (tape : List α) :
    made stop again k tape = tape.take (made stop again k tape).length :=
  List.prefix_iff_eq_take.mp (made_initial stop again k tape)

/-- An attempt is made exactly when it is reached. -/
theorem lt_length_made_iff (k : ℕ) (tape : List α) (i : ℕ) (hi : i < tape.length) :
    i < (made stop again k tape).length ↔ Reached stop again k tape i := by
  induction tape generalizing k i with
  | nil => simp at hi
  | cons a as ih =>
    unfold made
    cases i with
    | zero =>
      rw [reached_zero_iff]
      split_ifs with hstop <;> simp [hstop]
    | succ i =>
      rw [reached_succ_iff, ← ih (k + 1) i (by simpa using hi)]
      split_ifs with hstop hagain
      · simp [hstop]
      · simp [hstop, hagain]
      · simp [hagain]

theorem verdict_settled_iff (k : ℕ) (tape : List α) (a : α) :
    verdict stop again k tape = .settled a ↔
      ∃ before, made stop again k tape = before ++ [a] ∧ again a = false ∧
        ∀ b ∈ before, again b = true := by
  induction tape generalizing k with
  | nil => simp [verdict, made]
  | cons b bs ih =>
    unfold verdict made
    by_cases hstop : stop k b = true
    · simp [hstop]
    · by_cases hagain : again b = true
      · rw [if_neg hstop, if_neg hstop, if_pos hagain, if_pos hagain, ih (k + 1)]
        constructor
        · rintro ⟨before, hmade, ha, hbefore⟩
          refine ⟨b :: before, by rw [hmade, List.cons_append], ha, ?_⟩
          intro c hc
          rcases List.mem_cons.mp hc with rfl | hc
          · exact hagain
          · exact hbefore c hc
        · rintro ⟨before, hmade, ha, hbefore⟩
          cases before with
          | nil =>
            obtain ⟨rfl, -⟩ := List.cons_eq_cons.mp hmade
            rw [hagain] at ha
            contradiction
          | cons c before =>
            rw [List.cons_append, List.cons_eq_cons] at hmade
            obtain ⟨rfl, hmade⟩ := hmade
            exact ⟨before, hmade, ha, fun d hd => hbefore d (List.mem_cons_of_mem _ hd)⟩
      · rw [if_neg hstop, if_neg hstop, if_neg hagain, if_neg hagain]
        constructor
        · intro h
          cases h
          exact ⟨[], rfl, by simpa using hagain, by simp⟩
        · rintro ⟨before, hmade, -, -⟩
          cases before with
          | nil =>
            obtain ⟨rfl, -⟩ := List.cons_eq_cons.mp hmade
            rfl
          | cons c before =>
            have := congrArg List.length hmade
            simp at this

theorem again_of_not_settled (k : ℕ) (tape : List α)
    (h : ∀ a, verdict stop again k tape ≠ .settled a) :
    ∀ a ∈ made stop again k tape, again a = true := by
  induction tape generalizing k with
  | nil => simp [made]
  | cons b bs ih =>
    unfold verdict at h
    unfold made
    split_ifs at h ⊢ with hstop hagain
    · simp
    · intro a ha
      rcases List.mem_cons.mp ha with rfl | ha
      · exact hagain
      · exact ih (k + 1) h a ha
    · exact absurd rfl (h b)

theorem made_of_pending (k : ℕ) (tape : List α) (h : verdict stop again k tape = .pending) :
    made stop again k tape = tape := by
  induction tape generalizing k with
  | nil => rfl
  | cons a as ih =>
    unfold verdict at h
    unfold made
    split_ifs at h ⊢
    rw [ih (k + 1) h]

end Retry
