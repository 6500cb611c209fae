import Pubsuber.Retry.Trace

/-!
# What a failed call reports

An exception of the retry loop carries the status of a call that has failed, as
long as a call has been made. The policies are asked before the first call too,
and then the status is still the `OK` it was set to in advance.
-/

namespace Pubsuber

theorem CallState.status_after_concat (s : CallState) (before : List Attempt) (a : Attempt) :
    (s.after (before ++ [a])).status = a.status := by
  rw [after_append]
  rfl

/-- A call is made, and an exception carries the status of the last one, which was to be
tried again. -/
structure FailsAsCalled (attempts : List Attempt) (trace : Trace) : Prop where
  called : 1 ≤ trace.calls.length
  code : ∀ e, trace.ending = .threw e →
    ∃ a, (attempts.take trace.calls.length).getLast? = some a ∧
      e.code = a.status.code.toNat ∧
        (a.status.code = .deadlineExceeded ∨ a.status.code = .unavailable)

theorem StatusCode.retriable_iff (code : StatusCode) :
    code.retriable = true ↔ code = .deadlineExceeded ∨ code = .unavailable := by
  cases code <;> simp [StatusCode.retriable]

section Run

variable (name : String) (countPolicy : RetryCountPolicy) (timePolicy : MaxRetryTimePolicy)
  (backoffPolicy : ExponentialBackoffPolicy) (start : TimePoint)

/-- The count policy never stands in the way of the first call. -/
theorem exhausted_first_iff (a : Attempt) :
    exhausted countPolicy timePolicy start 0 a = false ↔
      a.checkTime - start ≤ toNanoseconds timePolicy.interval := by
  rw [exhausted_eq_false_iff, and_iff_right]
  intro hpos
  exact UInt32.le_of_lt hpos

theorem issued_cons_ne_nil_iff (a : Attempt) (as : List Attempt) :
    issued countPolicy timePolicy start (a :: as) ≠ [] ↔
      a.checkTime - start ≤ toNanoseconds timePolicy.interval := by
  rw [← exhausted_first_iff countPolicy timePolicy start a]
  unfold issued Retry.made
  split_ifs with hstop hagain
  · simp [hstop]
  · simpa using hstop
  · simpa using hstop

theorem retriable_of_threw {attempts : List Attempt} {e : Exception}
    (h : (makeCall name countPolicy timePolicy start backoffPolicy attempts).ending =
      .threw e) :
    ∀ a ∈ issued countPolicy timePolicy start attempts, a.retriable = true := by
  intro a ha
  by_contra hsettle
  rw [Bool.not_eq_true] at hsettle
  obtain ⟨r, hr⟩ :=
    (returns_makeCall_iff countPolicy timePolicy name backoffPolicy start attempts).mpr
      ⟨a, ha, hsettle⟩
  rw [h] at hr
  contradiction

/-- The failures of a loop are those of its calls exactly when the time policy lets the
first call be made. -/
theorem makeCall_failsAsCalled_iff (a : Attempt) (as : List Attempt) :
    FailsAsCalled (a :: as)
        (makeCall name countPolicy timePolicy start backoffPolicy (a :: as)) ↔
      a.checkTime - start ≤ toNanoseconds timePolicy.interval := by
  rw [← issued_cons_ne_nil_iff countPolicy timePolicy start a as]
  constructor
  · intro h hnil
    have hcalled := h.called
    rw [length_calls_makeCall, hnil] at hcalled
    contradiction
  · intro hne
    constructor
    · rw [length_calls_makeCall]
      exact List.length_pos_iff.mpr hne
    · intro e he
      have hretry := retriable_of_threw name countPolicy timePolicy backoffPolicy start he
      have hcode := threw_makeCall countPolicy timePolicy name backoffPolicy start _ he
      rw [take_calls_makeCall]
      obtain ⟨before, b, hissued⟩ := List.eq_nil_or_concat' _ |>.resolve_left hne
      rw [hissued, CallState.status_after_concat] at hcode
      refine ⟨b, by rw [hissued, List.getLast?_concat], hcode, ?_⟩
      exact (StatusCode.retriable_iff _).mp (hretry b (by rw [hissued]; simp))

end Run

/-- With no time at all for retries a clock that moves on by one nanosecond is enough: no
call is made, and the exception carries `OK`. -/
theorem not_failsAsCalled_zeroInterval :
    Clocked 0 [attemptAt 1 .ok] ∧
      ¬ FailsAsCalled [attemptAt 1 .ok]
        (makeCall "Publish" {} ⟨0⟩ 0 {} [attemptAt 1 .ok]) ∧
      (makeCall "Publish" {} ⟨0⟩ 0 {} [attemptAt 1 .ok]).ending =
        .threw ⟨retriesError "Publish" {} ⟨0⟩, StatusCode.ok.toNat⟩ := by
  refine ⟨by simp [Clocked, attemptAt], ?_, by rfl⟩
  intro h
  have := h.called
  revert this
  decide

end Pubsuber
