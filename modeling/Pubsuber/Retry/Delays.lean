import Pubsuber.Retry.ExpoBackoff

/-!
# Delays and the bounds of their policy

A delay is the draw before it, cut at the upper limit. Nothing cuts it from
below, nothing asks whether the draw or the scaled delay fits `uint64_t`, and
the first delay is the initial one as it stands.
-/

namespace Pubsuber

namespace ExpoBackoff

/-- The samples yield these numbers, whatever the means and the deviations are and
whatever undefined conversions leave. -/
def Yields (samples : List Sample) (draws : List ℚ) : Prop :=
  List.Forall₂ (fun sample x => ∀ mean deviation, sample.draw mean deviation = x) samples draws

def Within (backoffPolicy : ExponentialBackoffPolicy) (v : ℤ) : Prop :=
  v ≤ backoffPolicy.maxDelay ∧ 0 ≤ v ∧ min backoffPolicy.initialDelay backoffPolicy.maxDelay ≤ v

/-- The delays of as many calls as there are draws lie between zero and the upper
limit, and none is below the initial delay. -/
def WithinPolicy (backoffPolicy : ExponentialBackoffPolicy) (draws : List ℚ) : Prop :=
  ∀ samples, Yields samples draws →
    ∀ v ∈ (create backoffPolicy).delays samples, Within backoffPolicy v

/-- The draws that become delays fit `uint64_t` and are not below the initial delay, and
so do the intervals that are scaled for them: `interval`, and the draws but for the last two. -/
structure DrawsFit (backoffPolicy : ExponentialBackoffPolicy) (interval : ℤ)
    (draws : List ℚ) : Prop where
  drawn : ∀ x ∈ draws.dropLast, ∃ ms, toMs x = some ms ∧ backoffPolicy.initialDelay ≤ ms
  scaled : draws.dropLast ≠ [] → (toMs (interval * backoffPolicy.scale)).isSome
  scaledDraws : ∀ x ∈ draws.dropLast.dropLast, ∀ ms, toMs x = some ms →
    (toMs ((min ms backoffPolicy.maxDelay : ℤ) * backoffPolicy.scale)).isSome

theorem drawsFit_cons_cons (backoffPolicy : ExponentialBackoffPolicy) (interval : ℤ) (x y : ℚ)
    (draws : List ℚ) :
    DrawsFit backoffPolicy interval (x :: y :: draws) ↔
      (toMs (interval * backoffPolicy.scale)).isSome ∧
        ∃ ms, toMs x = some ms ∧ backoffPolicy.initialDelay ≤ ms ∧
          DrawsFit backoffPolicy (min ms backoffPolicy.maxDelay) (y :: draws) := by
  constructor
  · rintro ⟨hdrawn, hscaled, hscaledDraws⟩
    obtain ⟨ms, hms, hle⟩ := hdrawn x List.mem_cons_self
    refine ⟨hscaled (List.cons_ne_nil _ _), ms, hms, hle, ?_, ?_, ?_⟩
    · exact fun z hz => hdrawn z (List.mem_cons_of_mem _ hz)
    · intro hne
      refine hscaledDraws x ?_ ms hms
      rw [List.dropLast_cons_cons, List.dropLast_cons_of_ne_nil hne]
      exact List.mem_cons_self
    · intro z hz
      refine hscaledDraws z ?_
      rw [List.dropLast_cons_cons, List.dropLast_cons_of_ne_nil (List.ne_nil_of_mem
        (List.mem_of_mem_dropLast hz))]
      exact List.mem_cons_of_mem _ hz
  · rintro ⟨hscaled, ms, hms, hle, hrest⟩
    refine ⟨?_, fun _ => hscaled, ?_⟩
    · rw [List.dropLast_cons_cons]
      exact List.forall_mem_cons.mpr ⟨⟨ms, hms, hle⟩, hrest.drawn⟩
    · intro z hz
      rw [List.dropLast_cons_cons] at hz
      cases hnil : (y :: draws).dropLast with
      | nil => simp [hnil] at hz
      | cons w draws' =>
        rw [hnil, List.dropLast_cons_cons, ← hnil] at hz
        rcases List.mem_cons.mp hz with rfl | hz
        · intro ms' hms'
          rw [hms] at hms'
          cases hms'
          exact hrest.scaled (by simp [hnil])
        · exact hrest.scaledDraws z hz

variable {b : ExpoBackoff} {sample : Sample} {x : ℚ}

@[simp] theorem backoffPolicy_delay (sample : Sample) :
    (b.delay sample).2.backoffPolicy = b.backoffPolicy := rfl

@[simp] theorem jitter_delay (sample : Sample) : (b.delay sample).2.jitter = b.jitter := rfl

theorem currentInterval_delay (hjitter : ¬ b.jitter < 0.0001)
    (hsample : ∀ mean deviation, sample.draw mean deviation = x)
    (hscaled : (toMs (b.currentInterval * b.backoffPolicy.scale)).isSome) {ms : ℤ}
    (hms : toMs x = some ms) :
    (b.delay sample).2.currentInterval = min ms b.backoffPolicy.maxDelay := by
  obtain ⟨scaled, hscaled⟩ := Option.isSome_iff_exists.mp hscaled
  simp only [delay, calculateNext, hscaled, if_neg hjitter, hsample, hms, Option.bind_eq_bind,
    Option.bind_some]
  split_ifs <;> omega

theorem currentInterval_delay_undefined (hjitter : ¬ b.jitter < 0.0001)
    (hsample : ∀ mean deviation, sample.draw mean deviation = x)
    (h : (toMs (b.currentInterval * b.backoffPolicy.scale)).isSome → toMs x = none) :
    (b.delay sample).2.currentInterval = sample.undefined := by
  cases hscaled : toMs (b.currentInterval * b.backoffPolicy.scale) with
  | none => simp [delay, calculateNext, hscaled]
  | some ms =>
    rw [hscaled] at h
    simp only [delay, calculateNext, hscaled, if_neg hjitter, hsample, h rfl,
      Option.bind_eq_bind, Option.bind_some]

theorem within_of_drawsFit (hjitter : ¬ b.jitter < 0.0001)
    (hlimit : b.backoffPolicy.initialDelay ≤ b.backoffPolicy.maxDelay)
    (hinitial : 0 ≤ b.backoffPolicy.initialDelay) (hb : Within b.backoffPolicy b.currentInterval)
    {samples : List Sample} {draws : List ℚ} (hyields : Yields samples draws)
    (h : DrawsFit b.backoffPolicy b.currentInterval draws) :
    ∀ v ∈ b.delays samples, Within b.backoffPolicy v := by
  induction hyields generalizing b with
  | nil => simp [delays]
  | @cons sample x samples draws hsample hyields ih =>
    rw [delays, List.forall_mem_cons]
    refine ⟨hb, ?_⟩
    cases hyields with
    | nil => simp [delays]
    | @cons sample' y samples draws hsample' hyields =>
      obtain ⟨hscaled, ms, hms, hle, hrest⟩ := (drawsFit_cons_cons _ _ _ _ _).mp h
      have hnext := currentInterval_delay hjitter hsample hscaled hms
      refine ih (b := (b.delay sample).2) hjitter hlimit hinitial ?_ ?_
      · rw [backoffPolicy_delay, hnext]
        unfold Within
        omega
      · rw [backoffPolicy_delay, hnext]
        exact hrest

/-- Numbers as draws; an undefined conversion leaves a negative interval. -/
def fixedDraws (draws : List ℚ) : List Sample := draws.map fun x => ⟨fun _ _ => x, -1⟩

theorem yields_fixedDraws (draws : List ℚ) : Yields (fixedDraws draws) draws := by
  induction draws with
  | nil => exact .nil
  | cons x draws ih => exact .cons (fun _ _ => rfl) ih

theorem drawsFit_of_within (hjitter : ¬ b.jitter < 0.0001)
    (hlimit : b.backoffPolicy.initialDelay ≤ b.backoffPolicy.maxDelay) {draws : List ℚ}
    (h : ∀ v ∈ b.delays (fixedDraws draws), Within b.backoffPolicy v) :
    DrawsFit b.backoffPolicy b.currentInterval draws := by
  induction draws generalizing b with
  | nil => exact ⟨by simp, by simp, by simp⟩
  | cons x draws ih =>
    cases draws with
    | nil => exact ⟨by simp, by simp, by simp⟩
    | cons y draws =>
      let sample : Sample := ⟨fun _ _ => x, -1⟩
      have hsample : ∀ mean deviation, sample.draw mean deviation = x := fun _ _ => rfl
      have hdelays : b.delays (fixedDraws (x :: y :: draws)) =
        b.currentInterval :: (b.delay sample).2.delays (fixedDraws (y :: draws)) := rfl
      rw [hdelays, List.forall_mem_cons] at h
      have hnext : Within b.backoffPolicy (b.delay sample).2.currentInterval :=
        h.2 _ List.mem_cons_self
      -- an undefined conversion would have left a negative delay
      have hdefined : (toMs (b.currentInterval * b.backoffPolicy.scale)).isSome ∧
          toMs x ≠ none := by
        by_contra hnot
        rw [currentInterval_delay_undefined hjitter hsample
          fun hscaled => by_contra fun hx => hnot ⟨hscaled, hx⟩] at hnext
        exact absurd hnext.2.1 (by simp [sample])
      obtain ⟨ms, hms⟩ := Option.ne_none_iff_exists'.mp hdefined.2
      have hvalue := currentInterval_delay hjitter hsample hdefined.1 hms
      have hrest := ih (b := (b.delay sample).2) hjitter hlimit h.2
      rw [hvalue] at hnext hrest
      obtain ⟨-, -, hlow⟩ := hnext
      exact (drawsFit_cons_cons _ _ _ _ _).mpr ⟨hdefined.1, ms, hms, by omega, hrest⟩

theorem defaultJitter_not_lt (backoffPolicy : ExponentialBackoffPolicy) :
    ¬ (create backoffPolicy).jitter < 0.0001 := by
  unfold create defaultJitter
  norm_num

/-- The delays stay within the policy exactly where the initial delay is within the limit and
every conversion that a delay depends on is one of a number that fits, a draw among them being
at least the initial delay. -/
theorem withinPolicy_iff {backoffPolicy : ExponentialBackoffPolicy}
    (hinitial : 0 ≤ backoffPolicy.initialDelay) (draws : List ℚ) :
    WithinPolicy backoffPolicy draws ↔
      (draws ≠ [] → backoffPolicy.initialDelay ≤ backoffPolicy.maxDelay) ∧
        DrawsFit backoffPolicy backoffPolicy.initialDelay draws := by
  have hjitter := defaultJitter_not_lt backoffPolicy
  constructor
  · intro h
    have hfixed := h _ (yields_fixedDraws draws)
    cases draws with
    | nil => exact ⟨fun hne => absurd rfl hne, by simp, by simp, by simp⟩
    | cons x draws =>
      have hlimit := (hfixed backoffPolicy.initialDelay List.mem_cons_self).1
      exact ⟨fun _ => hlimit, drawsFit_of_within hjitter hlimit hfixed⟩
  · rintro ⟨hlimit, hfit⟩ samples hyields
    cases hyields with
    | nil => simp [delays]
    | cons hsample hyields =>
      have hlimit := hlimit (List.cons_ne_nil _ _)
      refine within_of_drawsFit hjitter hlimit hinitial ?_ (.cons hsample hyields) hfit
      exact ⟨hlimit, hinitial, min_le_left _ _⟩

theorem withinPolicy_default : WithinPolicy {} [700, 1900, 0] :=
  (withinPolicy_iff (by decide) [700, 1900, 0]).mpr
    ⟨fun _ => by decide, by decide +kernel, fun _ => by decide +kernel, by decide +kernel⟩

/-- A draw far below the mean is handed out as it is, and an initial delay above
the limit comes back as the first delay. -/
theorem delays_leave_policy :
    (¬ ∀ draws : List ℚ, WithinPolicy {} draws) ∧
      ¬ ∀ draws : List ℚ, WithinPolicy { initialDelay := 20000 } draws := by
  constructor
  · intro h
    obtain ⟨-, -, hlow⟩ := h [100, 0] _ (yields_fixedDraws _) 100 (by decide +kernel)
    revert hlow
    decide
  · intro h
    obtain ⟨hlimit, -, -⟩ := h [0] _ (yields_fixedDraws _) 20000 (by decide +kernel)
    revert hlimit
    decide

end ExpoBackoff

end Pubsuber
