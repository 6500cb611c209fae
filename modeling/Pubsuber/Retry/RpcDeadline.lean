import Pubsuber.Retry.Failure

/-!
# The deadlines of calls

Every `DEADLINE_EXCEEDED` doubles the timeout of the calls after it, with no
limit. The deadline of a call is a 64-bit number of nanoseconds, which leaves
room for twenty-eight doublings.
-/

namespace Pubsuber

/-- How often the timeout has been doubled after some attempts. -/
def doublings (attempts : List Attempt) : ℕ :=
  attempts.countP fun a => a.status.code = .deadlineExceeded

def timeoutAfter (n : ℕ) : ℤ := kDefaultRPCTimeout * 2 ^ n

/-- A reading of the system clock from July 2017 to June 2090. -/
def PresentDay (t : ℤ) : Prop := 1500000000 * 10 ^ 9 ≤ t ∧ t ≤ 3800000000 * 10 ^ 9

theorem CallState.rpcTimeout_retry (s : CallState) (a : Attempt)
    (hs : s.rpcTimeout.bmod (2 ^ 64) = s.rpcTimeout) :
    (s.retry a).rpcTimeout = (s.rpcTimeout * 2 ^ doublings [a]).bmod (2 ^ 64) := by
  unfold CallState.retry doublings
  by_cases h : a.status.code = .deadlineExceeded
  · simp [h]
  · simpa [h] using hs.symm

/-- The timeout wraps around as a 64-bit number. -/
theorem CallState.rpcTimeout_after (s : CallState) (attempts : List Attempt)
    (hs : s.rpcTimeout.bmod (2 ^ 64) = s.rpcTimeout) :
    (s.after attempts).rpcTimeout =
      (s.rpcTimeout * 2 ^ doublings attempts).bmod (2 ^ 64) := by
  induction attempts generalizing s with
  | nil => simpa [doublings] using hs.symm
  | cons a as ih =>
    have hretry := s.rpcTimeout_retry a hs
    have hsum : doublings (a :: as) = doublings [a] + doublings as := by
      unfold doublings
      rw [← List.countP_append]
      rfl
    rw [after_cons, ih (s.retry a) (by rw [hretry, Int.bmod_bmod]), hretry,
      Int.bmod_mul_bmod, hsum, pow_add, mul_assoc]

theorem setDeadline_bmod (systemNow timeout : ℤ) :
    setDeadline systemNow (timeout.bmod (2 ^ 64)) =
      (systemNow + timeout * 10 ^ 9).bmod (2 ^ 64) := by
  unfold setDeadline toNanoseconds
  rw [Int.bmod_mul_bmod, Int.add_bmod_bmod]

theorem timeoutAfter_nonneg (n : ℕ) : kDefaultRPCTimeout ≤ timeoutAfter n := by
  have : (1 : ℤ) ≤ 2 ^ n := one_le_pow₀ (by decide)
  unfold timeoutAfter kDefaultRPCTimeout
  omega

theorem timeoutAfter_le {n : ℕ} (h : n ≤ 28) : timeoutAfter n ≤ timeoutAfter 28 := by
  have : (2 : ℤ) ^ n ≤ 2 ^ 28 := pow_le_pow_right₀ (by decide) h
  unfold timeoutAfter kDefaultRPCTimeout
  omega

theorem timeoutAfter_ge {n : ℕ} (h : 28 < n) : timeoutAfter 29 ≤ timeoutAfter n := by
  have : (2 : ℤ) ^ 29 ≤ 2 ^ n := pow_le_pow_right₀ (by decide) h
  unfold timeoutAfter kDefaultRPCTimeout
  omega

/-- Up to twenty-eight doublings a timeout and a deadline are what they would be without
a limit on numbers. -/
theorem deadline_exact {systemNow : ℤ} (hnow : PresentDay systemNow) {n : ℕ} (hn : n ≤ 28) :
    (timeoutAfter n).bmod (2 ^ 64) = timeoutAfter n ∧
      setDeadline systemNow ((timeoutAfter n).bmod (2 ^ 64)) =
        systemNow + timeoutAfter n * 10 ^ 9 := by
  obtain ⟨hearly, hlate⟩ := hnow
  have hlow := timeoutAfter_nonneg n
  have hhigh := timeoutAfter_le hn
  unfold kDefaultRPCTimeout at hlow
  have h28 : timeoutAfter 28 = 5368709120 := by rfl
  constructor
  · apply Int.bmod_eq_of_le_mul_two <;> omega
  · rw [setDeadline_bmod]
    apply Int.bmod_eq_of_le_mul_two <;> omega

theorem doublings_le_of_exact {systemNow : ℤ} (hnow : PresentDay systemNow) {n : ℕ}
    (hdeadline : setDeadline systemNow ((timeoutAfter n).bmod (2 ^ 64)) =
      systemNow + timeoutAfter n * 10 ^ 9) : n ≤ 28 := by
  by_contra hmany
  have hbig := timeoutAfter_ge (not_le.mp hmany)
  have h29 : timeoutAfter 29 = 10737418240 := by rfl
  have hearly := hnow.1
  rw [setDeadline_bmod] at hdeadline
  have hlt := Int.bmod_lt (x := systemNow + timeoutAfter n * 10 ^ 9) (m := 2 ^ 64) (by decide)
  omega

/-- The deadlines of a run as they are meant to be: nothing overflows, every call has at
least the default timeout ahead of it, and no deadline lies before the one before. -/
structure SoundDeadlines (attempts : List Attempt) (trace : Trace) : Prop where
  exact : ∀ (k : ℕ) (a : Attempt) (timeout deadline : ℤ), attempts[k]? = some a →
    trace.calls[k]? = some (timeout, deadline) →
      timeout = timeoutAfter (doublings (attempts.take k)) ∧
        deadline = a.systemTime + timeout * 10 ^ 9
  ahead : ∀ (k : ℕ) (a : Attempt) (timeout deadline : ℤ), attempts[k]? = some a →
    trace.calls[k]? = some (timeout, deadline) →
      a.systemTime + kDefaultRPCTimeout * 10 ^ 9 ≤ deadline
  mono : ∀ (k : ℕ) (timeout deadline timeout' deadline' : ℤ),
    trace.calls[k]? = some (timeout, deadline) →
      trace.calls[k + 1]? = some (timeout', deadline') → deadline ≤ deadline'

/-- No attempt that the loop gets to comes after more than twenty-eight doublings, and the
system clock is never set back between two of them by more than the timeout has grown. -/
structure FewDoublings (countPolicy : RetryCountPolicy) (timePolicy : MaxRetryTimePolicy)
    (start : TimePoint) (attempts : List Attempt) : Prop where
  few : ∀ k < attempts.length,
    Retry.Reached (exhausted countPolicy timePolicy start) Attempt.retriable 0 attempts k →
      doublings (attempts.take k) ≤ 28
  steady : ∀ (k : ℕ) (a b : Attempt), attempts[k]? = some a → attempts[k + 1]? = some b →
    Retry.Reached (exhausted countPolicy timePolicy start) Attempt.retriable 0 attempts
      (k + 1) →
      a.systemTime + timeoutAfter (doublings (attempts.take k)) * 10 ^ 9 ≤
        b.systemTime + timeoutAfter (doublings (attempts.take (k + 1))) * 10 ^ 9

section Run

variable (name : String) (countPolicy : RetryCountPolicy) (timePolicy : MaxRetryTimePolicy)
  (backoffPolicy : ExponentialBackoffPolicy) (start : TimePoint) (attempts : List Attempt)

theorem getElem?_calls_makeCall {k : ℕ} {a : Attempt} (ha : attempts[k]? = some a)
    (hreached : Retry.Reached (exhausted countPolicy timePolicy start) Attempt.retriable 0
      attempts k) :
    (makeCall name countPolicy timePolicy start backoffPolicy attempts).calls[k]? =
      some ((timeoutAfter (doublings (attempts.take k))).bmod (2 ^ 64),
        setDeadline a.systemTime
          ((timeoutAfter (doublings (attempts.take k))).bmod (2 ^ 64))) := by
  have hk := (List.getElem?_eq_some_iff.mp ha).1
  have hlt : k < (issued countPolicy timePolicy start attempts).length :=
    (Retry.lt_length_made_iff _ _ _ _ _ hk).mpr hreached
  have htake := issued_eq_take countPolicy timePolicy start attempts
  rw [makeCall_eq]
  unfold Trace.calls
  rw [CallState.getElem?_calls, htake, List.take_take, min_eq_left hlt.le,
    List.getElem?_take_of_lt hlt, ha, CallState.rpcTimeout_after _ _ (by rfl)]
  rfl

theorem reached_of_getElem?_calls {k : ℕ} {call : ℤ × ℤ}
    (h : (makeCall name countPolicy timePolicy start backoffPolicy attempts).calls[k]? =
      some call) :
    k < attempts.length ∧
      Retry.Reached (exhausted countPolicy timePolicy start) Attempt.retriable 0 attempts
        k := by
  have hlt := (List.getElem?_eq_some_iff.mp h).1
  rw [length_calls_makeCall] at hlt
  have hk := lt_of_lt_of_le hlt (Retry.made_initial _ _ _ _).length_le
  exact ⟨hk, (Retry.lt_length_made_iff _ _ _ _ _ hk).mp hlt⟩

/-- Where the timeout is not doubled too often every call gets the deadline it is meant to
have. -/
theorem calls_exact (hnow : ∀ a ∈ attempts, PresentDay a.systemTime)
    (hfew : ∀ k < attempts.length,
      Retry.Reached (exhausted countPolicy timePolicy start) Attempt.retriable 0 attempts k →
        doublings (attempts.take k) ≤ 28)
    {k : ℕ} {a : Attempt} {timeout deadline : ℤ} (ha : attempts[k]? = some a)
    (hget : (makeCall name countPolicy timePolicy start backoffPolicy attempts).calls[k]? =
      some (timeout, deadline)) :
    timeout = timeoutAfter (doublings (attempts.take k)) ∧
      deadline = a.systemTime + timeout * 10 ^ 9 := by
  obtain ⟨hk, hreached⟩ := reached_of_getElem?_calls _ _ _ _ _ _ hget
  obtain ⟨htimeout, hdeadline⟩ :=
    deadline_exact (hnow a (List.mem_of_getElem? ha)) (hfew k hk hreached)
  rw [getElem?_calls_makeCall name countPolicy timePolicy backoffPolicy start attempts ha
    hreached, hdeadline, htimeout] at hget
  obtain ⟨rfl, rfl⟩ := Prod.mk.inj (Option.some.inj hget)
  exact ⟨rfl, rfl⟩

/-- The deadlines of a run are sound exactly when its timeout is not doubled too often and
the system clock is steady. -/
theorem makeCall_soundDeadlines_iff (hnow : ∀ a ∈ attempts, PresentDay a.systemTime) :
    SoundDeadlines attempts
        (makeCall name countPolicy timePolicy start backoffPolicy attempts) ↔
      FewDoublings countPolicy timePolicy start attempts := by
  have hcall := fun {k a} => getElem?_calls_makeCall name countPolicy timePolicy
    backoffPolicy start attempts (k := k) (a := a)
  constructor
  · intro h
    have hfew : ∀ k < attempts.length, Retry.Reached
        (exhausted countPolicy timePolicy start) Attempt.retriable 0 attempts k →
          doublings (attempts.take k) ≤ 28 := by
      intro k hk hreached
      have ha := List.getElem?_eq_getElem hk
      obtain ⟨htimeout, hdeadline⟩ := h.exact k _ _ _ ha (hcall ha hreached)
      apply doublings_le_of_exact (hnow _ (List.mem_of_getElem? ha))
      rw [hdeadline, htimeout]
    constructor
    · exact hfew
    · intro k a b ha hb hreached
      have hreached' := hreached.mono (Nat.le_succ k)
      have hka := (List.getElem?_eq_some_iff.mp ha).1
      have hkb := (List.getElem?_eq_some_iff.mp hb).1
      have hle := h.mono k _ _ _ _ (hcall ha hreached') (hcall hb hreached)
      rwa [(deadline_exact (hnow a (List.mem_of_getElem? ha)) (hfew k hka hreached')).2,
        (deadline_exact (hnow b (List.mem_of_getElem? hb)) (hfew _ hkb hreached)).2] at hle
  · intro h
    constructor
    · intro k a timeout deadline ha hget
      exact calls_exact _ _ _ _ _ _ hnow h.few ha hget
    · intro k a timeout deadline ha hget
      obtain ⟨rfl, rfl⟩ := calls_exact _ _ _ _ _ _ hnow h.few ha hget
      have := timeoutAfter_nonneg (doublings (attempts.take k))
      omega
    · intro k timeout deadline timeout' deadline' hget hget'
      obtain ⟨hk, -⟩ := reached_of_getElem?_calls _ _ _ _ _ _ hget
      obtain ⟨hk', hreached'⟩ := reached_of_getElem?_calls _ _ _ _ _ _ hget'
      have ha := List.getElem?_eq_getElem hk
      have hb := List.getElem?_eq_getElem hk'
      obtain ⟨rfl, rfl⟩ := calls_exact _ _ _ _ _ _ hnow h.few ha hget
      obtain ⟨rfl, rfl⟩ := calls_exact _ _ _ _ _ _ hnow h.few hb hget'
      exact h.steady k _ _ ha hb hreached'

end Run

def fastFailures (n : ℕ) : List Attempt :=
  (List.range n).map fun k => attemptAt k .deadlineExceeded

/-- Without a limit on retries and without delays the thirtieth call has a deadline in the
year 1779. -/
theorem not_soundDeadlines_fastFailures :
    (∀ a ∈ fastFailures 30, PresentDay a.systemTime) ∧
      ¬ SoundDeadlines (fastFailures 30)
        (makeCall "Publish" ⟨0⟩ {} 0 { initialDelay := 0, maxDelay := 0 }
          (fastFailures 30)) := by
  constructor
  · unfold PresentDay
    decide
  · intro h
    have := h.ahead 29 (attemptAt 29 .deadlineExceeded) 10737418240
      (-6009325833709551587) (by rfl) (by decide +kernel)
    revert this
    decide

/-- A call that times out once and then succeeds. -/
theorem makeCall_soundDeadlines_iff_oneTimeout :
    SoundDeadlines [attemptAt 0 .deadlineExceeded, attemptAt 300000000 .ok]
      (makeCall "Publish" {} {} 0 {}
        [attemptAt 0 .deadlineExceeded, attemptAt 300000000 .ok]) := by
  refine (makeCall_soundDeadlines_iff "Publish" {} {} {} 0 _ ?_).mpr ⟨?_, ?_⟩
  · unfold PresentDay
    decide
  · intro k hk _
    exact (List.countP_le_length.trans (List.length_take_le _ _)).trans
      (by simp only [List.length_cons, List.length_nil] at hk; omega)
  · intro k a b ha hb _
    rcases k with _ | k
    · cases ha
      cases hb
      decide
    · simp at hb

end Pubsuber
