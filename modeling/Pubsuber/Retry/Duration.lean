import Pubsuber.Retry.RpcDeadline

/-!
# How long a call lasts

Where a stub answers by the deadline of the call, and with `DEADLINE_EXCEEDED` not
before it, a timeout that is doubled has been waited for. The time policy bounds the
wait, so it bounds the timeouts and the last call as well, and no deadline overflows.
-/

namespace Pubsuber

/-- An attempt with the reading of the steady clock when it is answered. -/
structure AnsweredAttempt where
  attempt : Attempt
  answered : TimePoint

/-- The steady clock does not run backwards from `start` through the attempts and their
answers. -/
def Ticking : TimePoint → List AnsweredAttempt → Prop
  | _, [] => True
  | start, a :: as => start ≤ a.attempt.checkTime ∧ a.attempt.checkTime ≤ a.attempt.next ∧
    a.attempt.next ≤ a.answered ∧ Ticking a.answered as

namespace Ticking

variable {start : TimePoint} {served : List AnsweredAttempt}

theorem le_checkTime (h : Ticking start served) {k : ℕ} {a : AnsweredAttempt}
    (ha : served[k]? = some a) :
    start ≤ a.attempt.checkTime ∧ a.attempt.checkTime ≤ a.attempt.next ∧
      a.attempt.next ≤ a.answered := by
  induction served generalizing start k with
  | nil => simp at ha
  | cons b bs ih =>
    obtain ⟨hcheck, hnext, hanswered, hrest⟩ := h
    cases k with
    | zero =>
      obtain rfl : b = a := by simpa using ha
      exact ⟨hcheck, hnext, hanswered⟩
    | succ k =>
      obtain ⟨hle, hlater⟩ := ih hrest (by simpa using ha)
      exact ⟨hcheck.trans (hnext.trans (hanswered.trans hle)), hlater⟩

theorem answered_le (h : Ticking start served) {k : ℕ} {a b : AnsweredAttempt}
    (ha : served[k]? = some a) (hb : served[k + 1]? = some b) :
    a.answered ≤ b.attempt.checkTime := by
  induction served generalizing start k with
  | nil => simp at ha
  | cons c cs ih =>
    obtain ⟨-, -, -, hrest⟩ := h
    cases k with
    | zero =>
      obtain rfl : c = a := by simpa using ha
      exact (hrest.le_checkTime (by simpa using hb)).1
    | succ k => exact ih hrest (by simpa using ha) (by simpa using hb)

end Ticking

/-- A call is answered by its deadline, and with `DEADLINE_EXCEEDED` not before it. The
deadline is set between the two readings of the steady clock. -/
structure AnsweredAttempt.Honours (a : AnsweredAttempt) (timeout : ℤ) : Prop where
  inTime : a.answered ≤ a.attempt.next + timeout * 10 ^ 9
  expired : a.attempt.status.code = .deadlineExceeded →
    a.attempt.checkTime + timeout * 10 ^ 9 ≤ a.answered

def Honoured (served : List AnsweredAttempt) (trace : Trace) : Prop :=
  ∀ (k : ℕ) (a : AnsweredAttempt) (timeout deadline : ℤ), served[k]? = some a →
    trace.calls[k]? = some (timeout, deadline) → a.Honours timeout

theorem doublings_take_succ {attempts : List Attempt} {k : ℕ} {a : Attempt}
    (ha : attempts[k]? = some a) :
    doublings (attempts.take (k + 1)) =
      doublings (attempts.take k) + if a.status.code = .deadlineExceeded then 1 else 0 := by
  unfold doublings
  rw [List.take_add_one, ha, List.countP_append]
  simp [List.countP_cons]

theorem timeoutAfter_succ (n : ℕ) : timeoutAfter (n + 1) = timeoutAfter n * 2 := by
  unfold timeoutAfter
  rw [pow_succ, mul_assoc]

theorem doublings_le_of_waited {n : ℕ} {interval : ℤ}
    (h : (timeoutAfter n - kDefaultRPCTimeout) * 10 ^ 9 ≤ toNanoseconds interval) : n ≤ 28 := by
  by_contra hmany
  have hbig := timeoutAfter_ge (not_le.mp hmany)
  have h29 : timeoutAfter 29 = 10737418240 := by rfl
  have hlt := Int.bmod_lt (x := interval * 10 ^ 9) (m := 2 ^ 64) (by decide)
  unfold toNanoseconds kDefaultRPCTimeout at h
  omega

section Run

variable {name : String} {countPolicy : RetryCountPolicy} {timePolicy : MaxRetryTimePolicy}
  {backoffPolicy : ExponentialBackoffPolicy} {start : TimePoint} {served : List AnsweredAttempt}

theorem checkTime_le_of_reached {attempts : List Attempt} {k : ℕ} {a : Attempt}
    (ha : attempts[k]? = some a)
    (hreached : Retry.Reached (exhausted countPolicy timePolicy start) Attempt.retriable 0
      attempts k) : a.checkTime - start ≤ toNanoseconds timePolicy.interval := by
  have hgo := hreached.2 k le_rfl a ha
  rw [Nat.zero_add, exhausted_eq_false_iff] at hgo
  exact hgo.2

/-- Before each call the timeouts that were doubled have been waited for. -/
theorem waited_of_reached (hticking : Ticking start served)
    (hhonoured : Honoured served (makeCall name countPolicy timePolicy start backoffPolicy
      (served.map (·.attempt)))) {k : ℕ} {a : AnsweredAttempt} (ha : served[k]? = some a)
    (hreached : Retry.Reached (exhausted countPolicy timePolicy start) Attempt.retriable 0
      (served.map (·.attempt)) k) :
    (timeoutAfter (doublings ((served.map (·.attempt)).take k)) - kDefaultRPCTimeout) * 10 ^ 9 ≤
      a.attempt.checkTime - start := by
  induction k generalizing a with
  | zero =>
    have := (hticking.le_checkTime ha).1
    simp [doublings, timeoutAfter]
    linarith
  | succ k ih =>
    have hk := (List.getElem?_eq_some_iff.mp ha).1
    have hb : served[k]? = some served[k] := List.getElem?_eq_getElem (by omega)
    have hattempt : (served.map (·.attempt))[k]? = some served[k].attempt := by simp [hb]
    have hreached' := hreached.mono (Nat.le_succ k)
    have hwaited := ih hb hreached'
    have hfew := doublings_le_of_waited
      (hwaited.trans (checkTime_le_of_reached hattempt hreached'))
    have hlater := hticking.answered_le hb ha
    obtain ⟨-, hcheck, hnext⟩ := hticking.le_checkTime hb
    rw [doublings_take_succ hattempt]
    split_ifs with hexpired
    · -- the attempt before has waited for its whole timeout
      have hpresent : PresentDay (1500000000 * 10 ^ 9) := by
        unfold PresentDay
        decide
      have hcall := getElem?_calls_makeCall name countPolicy timePolicy backoffPolicy start _
        hattempt hreached'
      rw [(deadline_exact hpresent hfew).1] at hcall
      have hwait := (hhonoured k _ _ _ hb hcall).expired hexpired
      rw [timeoutAfter_succ]
      linarith
    · rw [Nat.add_zero]
      linarith

theorem few_of_honoured (hticking : Ticking start served)
    (hhonoured : Honoured served (makeCall name countPolicy timePolicy start backoffPolicy
      (served.map (·.attempt)))) (k : ℕ) (hk : k < (served.map (·.attempt)).length)
    (hreached : Retry.Reached (exhausted countPolicy timePolicy start) Attempt.retriable 0
      (served.map (·.attempt)) k) : doublings ((served.map (·.attempt)).take k) ≤ 28 := by
  rw [List.length_map] at hk
  have ha := List.getElem?_eq_getElem hk
  have hattempt : (served.map (·.attempt))[k]? = some served[k].attempt := by simp [ha]
  exact doublings_le_of_waited ((waited_of_reached hticking hhonoured ha hreached).trans
    (checkTime_le_of_reached hattempt hreached))

/-- What a call of a loop is given, and how long it takes, where deadlines are honoured. -/
structure BoundedCall (timePolicy : MaxRetryTimePolicy) (start : TimePoint)
    (served : List AnsweredAttempt) (k : ℕ) (a : AnsweredAttempt) (timeout deadline : ℤ) :
    Prop where
  exact : timeout = timeoutAfter (doublings ((served.map (·.attempt)).take k)) ∧
    deadline = a.attempt.systemTime + timeout * 10 ^ 9
  timeout_le : timeout * 10 ^ 9 ≤
    toNanoseconds timePolicy.interval + kDefaultRPCTimeout * 10 ^ 9
  answered_le : a.answered - start ≤ 2 * toNanoseconds timePolicy.interval +
    kDefaultRPCTimeout * 10 ^ 9 + (a.attempt.next - a.attempt.checkTime)
  /-- An interval shorter than the default timeout leaves no time to try again after it. -/
  never_doubled : toNanoseconds timePolicy.interval < kDefaultRPCTimeout * 10 ^ 9 →
    ∀ b ∈ (served.map (·.attempt)).take k, b.status.code ≠ .deadlineExceeded

theorem makeCall_boundedCall (hticking : Ticking start served)
    (hnow : ∀ a ∈ served, PresentDay a.attempt.systemTime)
    (hhonoured : Honoured served (makeCall name countPolicy timePolicy start backoffPolicy
      (served.map (·.attempt)))) {k : ℕ} {a : AnsweredAttempt} (ha : served[k]? = some a)
    {timeout deadline : ℤ} (hcall : (makeCall name countPolicy timePolicy start backoffPolicy
      (served.map (·.attempt))).calls[k]? = some (timeout, deadline)) :
    BoundedCall timePolicy start served k a timeout deadline := by
  have hattempt : (served.map (·.attempt))[k]? = some a.attempt := by simp [ha]
  obtain ⟨hk, hreached⟩ := reached_of_getElem?_calls _ _ _ _ _ _ hcall
  have hpresent : ∀ b ∈ served.map (·.attempt), PresentDay b.systemTime := by
    intro b hb
    obtain ⟨c, hc, rfl⟩ := List.mem_map.mp hb
    exact hnow c hc
  have hexact := calls_exact _ _ _ _ _ _ hpresent (few_of_honoured hticking hhonoured)
    hattempt hcall
  have hchecked := checkTime_le_of_reached hattempt hreached
  have hwaited := waited_of_reached hticking hhonoured ha hreached
  rw [← hexact.1] at hwaited
  have hanswered := (hhonoured k a timeout deadline ha hcall).inTime
  constructor
  case exact => exact hexact
  case timeout_le => linarith
  case answered_le => linarith
  case never_doubled =>
    intro hshort b hb hexpired
    have hdoubled : 0 < doublings ((served.map (·.attempt)).take k) :=
      List.countP_pos_iff.mpr ⟨b, hb, by simpa using hexpired⟩
    have htwice : timeoutAfter 1 ≤ timeout := by
      rw [hexact.1]
      unfold timeoutAfter kDefaultRPCTimeout
      have : (2 : ℤ) ^ 1 ≤ 2 ^ doublings ((served.map (·.attempt)).take k) :=
        pow_le_pow_right₀ (by decide) hdoubled
      linarith
    have h1 : timeoutAfter 1 = 2 * kDefaultRPCTimeout := by rfl
    linarith

end Run

/-- A first call that times out and a second one that is answered after a second. -/
def retriedOnce : List AnsweredAttempt :=
  [⟨attemptAt 0 .deadlineExceeded, 20000000000⟩, ⟨attemptAt 20250000000 .ok, 21250000000⟩]

/-- Within an interval of a minute the second call has twice the timeout. -/
theorem makeCall_boundedCall_retriedOnce :
    BoundedCall ⟨60⟩ 0 retriedOnce 1 ⟨attemptAt 20250000000 .ok, 21250000000⟩ 40
      1700000060250000000 := by
  have hcalls : (makeCall "Publish" {} ⟨60⟩ 0 {} (retriedOnce.map (·.attempt))).calls =
      [(20, 1700000020000000000), (40, 1700000060250000000)] := by decide +kernel
  have hticking : Ticking 0 retriedOnce := by
    simp [Ticking, retriedOnce, attemptAt]
  have hnow : ∀ a ∈ retriedOnce, PresentDay a.attempt.systemTime := by
    simp [retriedOnce, attemptAt, PresentDay]
  have hhonoured : Honoured retriedOnce
      (makeCall "Publish" {} ⟨60⟩ 0 {} (retriedOnce.map (·.attempt))) := by
    intro k a timeout deadline ha hcall
    rw [hcalls] at hcall
    rcases k with _ | _ | k
    · cases ha
      cases hcall
      constructor <;> decide
    · cases ha
      cases hcall
      constructor <;> decide
    · simp [retriedOnce] at ha
  exact makeCall_boundedCall hticking hnow hhonoured rfl (by rw [hcalls]; rfl)

end Pubsuber
