import Pubsuber.Executor.Removal

/-!
# The pace of polling

After a round of pulls the thread rests for what is left of a quarter of a second, in
whole milliseconds. A round that throws and a rest that is cut short are not made up
for, everything else is: no subscription is asked for messages more often.
-/

namespace Pubsuber

open HashContainer StateMachine

variable {κ : Type}

theorem pullSleep_of_le {us : ℤ} (hlow : us ≤ kLowPullLimit) :
    pullSleep us = (kLowPullLimit - us) / 1000 := by
  rw [pullSleep, if_neg (not_lt.mpr hlow), Int.tdiv_eq_ediv_of_nonneg (sub_nonneg.mpr hlow)]

theorem le_pullSleep {us : ℤ} (hlow : us ≤ kLowPullLimit) :
    249001 ≤ us + pullSleep us * 1000 := by
  rw [pullSleep_of_le hlow, kLowPullLimit]
  omega

theorem pullSleep_le {us : ℤ} (hus : 0 ≤ us) (hlow : us ≤ kLowPullLimit) :
    pullSleep us ≤ 250 := by
  rw [pullSleep_of_le hlow, kLowPullLimit]
  omega

theorem pullSleep_eq_iff {us : ℤ} (hus : 0 ≤ us) :
    pullSleep us = kSoManyMilliseconds ↔ kLowPullLimit < us := by
  constructor
  · intro h
    by_contra hlow
    have hle := pullSleep_le hus (not_lt.mp hlow)
    rw [h] at hle
    unfold kSoManyMilliseconds at hle
    omega
  · intro h
    rw [pullSleep, if_pos h]

/-- The pull thread with the time of the last step of all and of the last one of its own. -/
structure TimedPullThread (κ : Type) where
  thread : PullThread κ
  now : TimePoint
  since : TimePoint

namespace TimedPullThread

def start (now : TimePoint) : TimedPullThread κ := ⟨.start, now, now⟩

/-- Every event comes with the time it happens at, a round of pulls with the time it is
over. -/
def step (s : TimedPullThread κ) :
    TimePoint × HashOrder × PullThreadEvent κ → Option (TimedPullThread κ)
  | (time, order, e) =>
    (s.thread.step (order, e)).map fun thread =>
      { thread
        now := time
        since := if e.own then time else s.since }

/-- The clock does not run backwards, and what `Pull` reads off it lies between the merge
and the end of the round. -/
def Timely (s : TimedPullThread κ) : TimePoint × HashOrder × PullThreadEvent κ → Prop
  | (time, _, .pull _ us) => s.now ≤ time ∧ 0 ≤ us ∧ s.since + us * 1000 ≤ time
  | (time, _, _) => s.now ≤ time

/-- The time from which on the thread may begin to pull, if it is left alone. -/
def readyAt (s : TimedPullThread κ) : TimePoint :=
  match s.thread.pc with
  | .merged => s.since
  | .resting sleep => s.since + sleep * 1000000
  | _ => s.now

def requests (subscription : SubscriptionName) (s : TimedPullThread κ) :
    TimePoint × HashOrder × PullThreadEvent κ → ℕ
  | (_, order, e) => s.thread.requests subscription (order, e)

/-- Whether a step is the end of a round that throws or of a rest that is cut short. -/
def unpaced (s : TimedPullThread κ) : TimePoint × HashOrder × PullThreadEvent κ → ℕ
  | (_, _, .pull results _) =>
    match (pullRound s.thread.block.activeIterators results).ending with
    | .returned () => 0
    | _ => 1
  | (time, _, .notify) | (time, _, .rested) =>
    match s.thread.pc with
    | .resting sleep => if time < s.since + sleep * 1000000 then 1 else 0
    | _ => 0
  | _ => 0

/-- The thread rests for a quarter of a second at most. -/
structure Paced (s : TimedPullThread κ) : Prop where
  since : s.since ≤ s.now
  sleep : ∀ sleep, s.thread.pc = .resting sleep → sleep ≤ 250

namespace Paced

variable {s t : TimedPullThread κ} {time : TimePoint} {order : HashOrder}
  {e : PullThreadEvent κ}

theorem readyAt_le (h : Paced s) : s.readyAt ≤ s.now + 250000000 := by
  have hsince := h.since
  have hsleep := h.sleep
  unfold readyAt
  split
  · linarith
  · next sleep hpc =>
    have := hsleep sleep hpc
    linarith
  · linarith

theorem pull (h : Paced s) {results : SubscriptionName → PullResult} {us : ℤ}
    (htimely : s.Timely (time, order, .pull results us))
    (hst : s.step (time, order, .pull results us) = some t) :
    Paced t ∧ s.readyAt + 249001000 ≤
      t.readyAt + 250000000 * (s.unpaced (time, order, .pull results us) : ℤ) := by
  obtain ⟨hnow, hus, htook⟩ := htimely
  obtain ⟨thread, hthread, rfl⟩ := Option.map_eq_some_iff.mp hst
  have hsince := h.since
  cases PullThread.transition_of_step hthread with
  | rest _ _ hpc hending hsleep =>
    have hlow : us ≤ kLowPullLimit :=
      not_lt.mp fun hlow => hsleep ((pullSleep_eq_iff hus).mpr hlow)
    have hpace := le_pullSleep hlow
    refine ⟨⟨le_rfl, ?_⟩, ?_⟩
    · intro sleep hresting
      cases hresting
      exact pullSleep_le hus hlow
    · simp only [readyAt, unpaced, hpc, hending, PullThreadEvent.own, if_true]
      linarith
  | goOn _ _ hpc hending hmany =>
    have hlow := (pullSleep_eq_iff hus).mp hmany
    unfold kLowPullLimit at hlow
    refine ⟨⟨le_rfl, by simp⟩, ?_⟩
    simp only [readyAt, unpaced, hpc, hending]
    linarith
  | throw _ _ e hpc hending =>
    refine ⟨⟨le_rfl, by simp⟩, ?_⟩
    simp only [readyAt, unpaced, hpc, hending, Nat.cast_one]
    linarith

theorem go (htime : s.now ≤ time) (hready : s.readyAt = s.now) {thread : PullThread κ}
    (hpc : ∀ sleep, thread.pc ≠ .resting sleep) (n : ℕ) :
    Paced ⟨thread, time, time⟩ ∧
      s.readyAt ≤ readyAt ⟨thread, time, time⟩ + 250000000 * (n : ℤ) := by
  refine ⟨⟨le_rfl, fun sleep hsleep => absurd hsleep (hpc sleep)⟩, ?_⟩
  have hthread : readyAt ⟨thread, time, time⟩ = time := by
    unfold readyAt
    split
    · rfl
    · next sleep hsleep => exact absurd hsleep (hpc sleep)
    · rfl
  rw [hthread, hready]
  linarith [Int.natCast_nonneg n]

theorem quiet (h : Paced s) (htime : s.now ≤ time) (he : e.isRound = false)
    (hst : s.step (time, order, e) = some t) :
    Paced t ∧ s.readyAt ≤ t.readyAt + 250000000 * (s.unpaced (time, order, e) : ℤ) := by
  obtain ⟨thread, hthread, rfl⟩ := Option.map_eq_some_iff.mp hst
  have hsince := h.since
  have hsleep := h.sleep
  -- a rest that is over or cut short
  have hrest : ∀ sleep, s.thread.pc = .resting sleep → s.since + sleep * 1000000 ≤
      time + 250000000 * ((if time < s.since + sleep * 1000000 then 1 else 0 : ℕ) : ℤ) := by
    intro sleep hpc
    have hle := hsleep sleep hpc
    split_ifs with hcut
    · push_cast
      linarith
    · push_cast
      linarith
  cases PullThread.transition_of_step hthread with
  | rest | goOn | throw => contradiction
  | addIterator | removeIterator | setNeedStop =>
    refine ⟨⟨hsince.trans htime, hsleep⟩, ?_⟩
    simp only [readyAt, unpaced, PullThreadEvent.own]
    split <;> simp [htime]
  | notifyWaiting hpc =>
    refine ⟨⟨hsince.trans htime, by simp⟩, ?_⟩
    simpa [readyAt, unpaced, hpc] using htime
  | notifyResting sleep hpc =>
    refine ⟨⟨hsince.trans htime, by simp⟩, ?_⟩
    simpa [readyAt, unpaced, hpc] using hrest sleep hpc
  | notifyUnheard hwaiting hresting =>
    refine ⟨⟨hsince.trans htime, hsleep⟩, ?_⟩
    simp only [readyAt, unpaced, PullThreadEvent.own]
    split
    · simp
    · next sleep hpc => exact absurd hpc (hresting sleep)
    · simp [htime]
  | rested sleep hpc =>
    refine ⟨⟨le_rfl, by simp⟩, ?_⟩
    simpa [readyAt, unpaced, hpc] using hrest sleep hpc
  | stop hpc | enter hpc | removeFromActive hpc | wait _ hpc | merge _ hpc | wake _ hpc
  | startOver _ hpc | mergeAwake _ hpc => exact go htime (by simp [readyAt, hpc]) (by simp) _

theorem step (h : Paced s) (htimely : s.Timely (time, order, e))
    (hst : s.step (time, order, e) = some t) (subscription : SubscriptionName) :
    Paced t ∧ 249001000 * (s.requests subscription (time, order, e) : ℤ) + s.readyAt ≤
      t.readyAt + 250000000 * (s.unpaced (time, order, e) : ℤ) := by
  by_cases he : e.isRound = true
  · cases e with
    | pull results us =>
      obtain ⟨ht, hpace⟩ := h.pull htimely hst
      have hone : (s.requests subscription (time, order, .pull results us) : ℤ) ≤ 1 := by
        have hle := s.thread.requests_pull_le subscription order results us
        exact_mod_cast hle.trans (by split_ifs <;> simp)
      exact ⟨ht, by linarith⟩
    | _ => contradiction
  · have htime : s.now ≤ time := by
      cases e with
      | pull results us => exact absurd rfl he
      | _ => exact htimely
    have hnone : s.requests subscription (time, order, e) = 0 :=
      PullThread.requests_of_not_round (Bool.eq_false_of_not_eq_true he)
    rw [hnone, Nat.cast_zero, mul_zero, zero_add]
    exact h.quiet htime (Bool.eq_false_of_not_eq_true he) hst

end Paced

theorem paced_start (now : TimePoint) : Paced (start now : TimedPullThread κ) where
  since := le_rfl
  sleep := by simp [start, PullThread.start]

/-- Between two requests for messages of a subscription there is a quarter of a second,
up to a millisecond, but for rounds that throw and rests that are cut short. -/
theorem requests_le_of_elapsed {now : TimePoint}
    {events : List (TimePoint × HashOrder × PullThreadEvent κ)} {s : TimedPullThread κ}
    (h : run step (start now) events = some s)
    (htimely : Along step Timely (start now) events) (subscription : SubscriptionName) :
    249001000 * ((total step (requests subscription) (start now) events : ℕ) : ℤ) ≤
      s.now - now + 250000000 * (1 + (total step unpaced (start now) events : ℕ)) := by
  have hkeep : ∀ (s : TimedPullThread κ) i t, Paced s → s.Timely i → s.step i = some t →
      Paced t := fun s _ t hs hallowed hst => (hs.step hallowed hst subscription).1
  have hready : s.readyAt ≤ s.now + 250000000 :=
    (run_invariant_along Paced hkeep h htimely (paced_start now)).readyAt_le
  let scaled (c : ℤ) : ℕ →+ ℤ := (AddMonoidHom.mulLeft c).comp (Nat.castAddMonoidHom ℤ)
  have hrun := total_le_of_potential Paced (fun s => -s.readyAt)
    (fun s i => scaled 249001000 (s.requests subscription i))
    (fun s i => scaled 250000000 (s.unpaced i)) hkeep ?_ h htimely (paced_start now)
  · rw [← map_total, ← map_total] at hrun
    have hstart : (start now : TimedPullThread κ).readyAt = now := rfl
    rw [hstart] at hrun
    simp only [scaled, AddMonoidHom.comp_apply, AddMonoidHom.coe_mulLeft,
      Nat.coe_castAddMonoidHom] at hrun
    linarith
  · rintro s ⟨time, order, e⟩ t hs hallowed hst
    have hpay := (hs.step hallowed hst subscription).2
    simp only [scaled, AddMonoidHom.comp_apply, AddMonoidHom.coe_mulLeft,
      Nat.coe_castAddMonoidHom]
    linarith

instance (s : TimedPullThread κ) :
    (e : TimePoint × HashOrder × PullThreadEvent κ) → Decidable (s.Timely e)
  | (_, _, .pull _ _) => inferInstanceAs (Decidable (_ ∧ _ ∧ _))
  | (_, _, .addIterator _ _) | (_, _, .removeIterator _) | (_, _, .setNeedStop)
  | (_, _, .notify) | (_, _, .test) | (_, _, .removeFromActive) | (_, _, .check)
  | (_, _, .wake _) | (_, _, .lockAgain) | (_, _, .rested) => inferInstanceAs (Decidable (_ ≤ _))

/-- The first round takes 50 milliseconds, so the second begins 200 after it. -/
def twoRounds : List (TimePoint × HashOrder × PullThreadEvent Unit) :=
  [(0, .newestFirst, .addIterator "s" ⟨"s", 4, (), 0⟩), (0, .newestFirst, .test),
    (0, .newestFirst, .removeFromActive), (0, .newestFirst, .check),
    (50000000, .newestFirst, .pull (fun _ => received) 50000),
    (250000000, .newestFirst, .rested), (250000000, .newestFirst, .test),
    (250000000, .newestFirst, .removeFromActive), (250000000, .newestFirst, .check),
    (251000000, .newestFirst, .pull (fun _ => received) 1000)]

theorem requests_le_of_elapsed_twoRounds :
    ∃ s, run step (start 0) twoRounds = some s ∧
      total step (requests "s") (start 0) twoRounds = 2 ∧
      249001000 * ((total step (requests "s") (start 0) twoRounds : ℕ) : ℤ) ≤
        s.now - 0 + 250000000 * (1 + (total step unpaced (start 0) twoRounds : ℕ)) := by
  have heval : (run step (start 0) twoRounds).isSome = true := by decide +kernel
  obtain ⟨s, hrun⟩ := Option.isSome_iff_exists.mp heval
  exact ⟨s, hrun, by decide +kernel, requests_le_of_elapsed hrun (by decide +kernel) "s"⟩

end TimedPullThread

end Pubsuber
