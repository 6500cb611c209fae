import Pubsuber.Library.StateMachine

/-!
# Laps of a loop

A machine that runs a loop comes back to the head of the loop again and again,
with steps of other parties in between. A lap ends with the first step that
leads to the head, and what happens within it shows in the states it visits.
-/

namespace StateMachine

variable {σ ι : Type*} (step : σ → ι → Option σ)

/-- The inputs lead to the head of the loop with the last of them, and not before. -/
def isLap (head : σ → Bool) : σ → List ι → Bool
  | _, [] => false
  | s, i :: is => (step s i).any fun t => if head t then is.isEmpty else isLap head t is

/-- A state after one of the inputs has a property. -/
def visits (p : σ → Bool) : σ → List ι → Bool
  | _, [] => false
  | s, i :: is => (step s i).any fun t => p t || visits p t is

variable {step}

theorem isLap_cons {head : σ → Bool} {s : σ} {i : ι} {is : List ι} :
    isLap step head s (i :: is) = true ↔ ∃ t, step s i = some t ∧
      (head t = true ∧ is = [] ∨ head t = false ∧ isLap step head t is = true) := by
  rw [isLap, Option.any_eq_true]
  apply exists_congr
  intro t
  apply and_congr_right
  intro _
  cases head t <;> simp

theorem visits_cons {p : σ → Bool} {s t : σ} {i : ι} {is : List ι} (h : step s i = some t) :
    visits step p s (i :: is) = true ↔ p t = true ∨ visits step p t is = true := by
  rw [visits, h, Option.any_some, Bool.or_eq_true]

/-- What holds at a state on a lap and is kept by its steps until a state of interest holds
until then; if it fails at the head, such a state is visited. -/
theorem visits_of_isLap {head p : σ → Bool} (P : σ → Prop)
    (hstep : ∀ s i t, P s → step s i = some t → p t = false → P t)
    (hhead : ∀ s, P s → head s = false) {s : σ} {is : List ι} (hs : P s)
    (h : isLap step head s is = true) : visits step p s is = true := by
  induction is generalizing s with
  | nil => contradiction
  | cons i is ih =>
    obtain ⟨t, ht, hlap⟩ := isLap_cons.mp h
    rw [visits_cons ht]
    by_cases hp : p t = true
    · exact .inl hp
    · have hPt := hstep s i t hs ht (by simpa using hp)
      right
      rcases hlap with ⟨hend, -⟩ | ⟨-, hlap⟩
      · rw [hhead t hPt] at hend
        contradiction
      · exact ih hPt hlap

end StateMachine
