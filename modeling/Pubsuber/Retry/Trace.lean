import Pubsuber.Retry.MakeCall

/-!
# What the retry loop does

Whether an attempt is issued depends on the answers before it and on both
policies. The time policy is asked in nanoseconds, and its interval is given in
seconds, so what the loop does is exact as long as that conversion is.
-/

namespace Pubsuber

namespace CallState

variable (s : CallState)

@[simp] theorem after_nil : s.after [] = s := rfl

@[simp] theorem after_cons (a : Attempt) (as : List Attempt) :
    s.after (a :: as) = (s.retry a).after as := rfl

theorem after_append (as bs : List Attempt) : s.after (as ++ bs) = (s.after as).after bs :=
  List.foldl_append

theorem filterMap_call?_cons (a : Attempt) (as : List Attempt) :
    (s.actions (a :: as)).filterMap Action.call? =
      (s.rpcTimeout, setDeadline a.systemTime s.rpcTimeout) ::
        ((s.retry a).actions as).filterMap Action.call? := by
  rw [actions]
  split_ifs <;> rfl

theorem length_calls (attempts : List Attempt) :
    ((s.actions attempts).filterMap Action.call?).length = attempts.length := by
  induction attempts generalizing s with
  | nil => rfl
  | cons a as ih =>
    rw [filterMap_call?_cons, List.length_cons, ih, List.length_cons]

theorem getElem?_calls (attempts : List Attempt) (k : ℕ) :
    ((s.actions attempts).filterMap Action.call?)[k]? =
      attempts[k]?.map fun a => ((s.after (attempts.take k)).rpcTimeout,
        setDeadline a.systemTime (s.after (attempts.take k)).rpcTimeout) := by
  induction attempts generalizing s k with
  | nil => simp [actions]
  | cons a as ih =>
    rw [filterMap_call?_cons]
    cases k with
    | zero => rfl
    | succ k =>
      rw [List.getElem?_cons_succ, List.getElem?_cons_succ, ih (s.retry a) k,
        List.take_succ_cons, after_cons]

/-- A call that is to be tried again is followed by one sleep, and the sleeps are the
delays of one backoff. -/
theorem sleeps_actions (attempts : List Attempt) :
    (s.actions attempts).map Action.sleep? =
      (attempts.zip (s.backoff.delays (attempts.map Attempt.sample))).flatMap fun p =>
        none :: if p.1.retriable then [some p.2] else [] := by
  induction attempts generalizing s with
  | nil => rfl
  | cons a as ih =>
    rw [actions, List.map_cons, List.map_append, ih (s.retry a), List.map_cons,
      ExpoBackoff.delays, List.zip_cons_cons, List.flatMap_cons]
    cases a.retriable <;> rfl

end CallState

/-- The steady clock does not run backwards from `start` through the attempts. -/
def Clocked : TimePoint → List Attempt → Prop
  | _, [] => True
  | start, a :: as => start ≤ a.checkTime ∧ a.checkTime ≤ a.next ∧ Clocked a.next as

theorem Clocked.le_checkTime {start : TimePoint} {attempts : List Attempt}
    (h : Clocked start attempts) {a : Attempt} (ha : a ∈ attempts) : start ≤ a.checkTime := by
  induction attempts generalizing start with
  | nil => simp at ha
  | cons b bs ih =>
    obtain ⟨hcheck, hnext, hrest⟩ := h
    rcases List.mem_cons.mp ha with rfl | ha
    · exact hcheck
    · exact hcheck.trans (hnext.trans (ih hrest ha))

theorem Clocked.le_next {start : TimePoint} {attempts : List Attempt}
    (h : Clocked start attempts) {a : Attempt} (ha : a ∈ attempts) : start ≤ a.next := by
  induction attempts generalizing start with
  | nil => simp at ha
  | cons b bs ih =>
    obtain ⟨hcheck, hnext, hrest⟩ := h
    rcases List.mem_cons.mp ha with rfl | ha
    · exact hcheck.trans hnext
    · exact hcheck.trans (hnext.trans (ih hrest ha))

theorem Clocked.checkTime_le {start : TimePoint} {attempts : List Attempt}
    (h : Clocked start attempts) {j k : ℕ} (hjk : j ≤ k) {a b : Attempt}
    (ha : attempts[j]? = some a) (hb : attempts[k]? = some b) :
    a.checkTime ≤ b.checkTime := by
  induction attempts generalizing start j k with
  | nil => simp at ha
  | cons c cs ih =>
    obtain ⟨-, hnext, hrest⟩ := h
    cases k with
    | zero =>
      obtain rfl := Nat.le_zero.mp hjk
      rw [ha] at hb
      rw [Option.some.inj hb]
    | succ k =>
      cases j with
      | zero =>
        obtain rfl : c = a := by simpa using ha
        rw [List.getElem?_cons_succ] at hb
        exact hnext.trans (hrest.le_checkTime (List.mem_of_getElem? hb))
      | succ j =>
        rw [List.getElem?_cons_succ] at ha hb
        exact ih hrest (Nat.le_of_succ_le_succ hjk) ha hb

/-- The conversion of an interval does not change how elapsed times compare with it
exactly when its nanoseconds fit, or when it is negative and stays so. -/
theorem exact_toNanoseconds_iff (interval : ℤ) :
    (∀ elapsed ≥ 0, elapsed ≤ toNanoseconds interval ↔ elapsed ≤ interval * 10 ^ 9) ↔
      interval.natAbs ≤ 9223372036 ∨ interval < 0 ∧ toNanoseconds interval < 0 := by
  have hlt : toNanoseconds interval < 2 ^ 63 := by
    have := Int.bmod_lt (x := interval * 10 ^ 9) (m := 2 ^ 64) (by decide)
    unfold toNanoseconds
    omega
  constructor
  · intro h
    by_contra hnot
    rw [not_or, not_and, not_lt] at hnot
    obtain ⟨hlarge, hneg⟩ := hnot
    by_cases hsign : interval < 0
    · have := (h (toNanoseconds interval) (hneg hsign)).mp le_rfl
      have := hneg hsign
      omega
    · have := (h (max (toNanoseconds interval + 1) 0) (by omega)).mpr (by omega)
      omega
  · rintro (hfits | ⟨hsign, hneg⟩) elapsed helapsed
    · have : toNanoseconds interval = interval * 10 ^ 9 :=
        Int.bmod_eq_of_le_mul_two (by omega) (by omega)
      rw [this]
    · constructor <;> intro _ <;> omega

section Exact

variable (countPolicy : RetryCountPolicy) (timePolicy : MaxRetryTimePolicy)

theorem exhausted_eq_false_iff (start : TimePoint) (k : ℕ) (a : Attempt) :
    exhausted countPolicy timePolicy start k a = false ↔
      (0 < countPolicy.count → UInt32.ofNat k ≤ countPolicy.count) ∧
        a.checkTime - start ≤ toNanoseconds timePolicy.interval := by
  simp [exhausted, retriesExahusted]

/-- The count policy has let every attempt up to number `k` pass exactly when `k` is at
most the count, as the number of retries reaches the count before it overflows. -/
theorem count_passed_iff (hcount : countPolicy.count.toNat < 2 ^ 32 - 1) (k : ℕ) :
    (∀ j ≤ k, 0 < countPolicy.count → UInt32.ofNat j ≤ countPolicy.count) ↔
      (0 < countPolicy.count → k ≤ countPolicy.count.toNat) := by
  constructor
  · intro h hpos
    by_contra hlt
    have := h (countPolicy.count.toNat + 1) (by omega) hpos
    rw [UInt32.le_iff_toNat_le, UInt32.toNat_ofNat'] at this
    omega
  · intro h j hj hpos
    have := h hpos
    rw [UInt32.le_iff_toNat_le, UInt32.toNat_ofNat']
    omega

theorem issued_eq_take (start : TimePoint) (attempts : List Attempt) :
    issued countPolicy timePolicy start attempts =
      attempts.take (issued countPolicy timePolicy start attempts).length :=
  Retry.made_eq_take _ _ _ _

theorem lt_length_issued_iff (hcount : countPolicy.count.toNat < 2 ^ 32 - 1)
    {start : TimePoint} {attempts : List Attempt} (hclock : Clocked start attempts) {k : ℕ}
    {a : Attempt} (ha : attempts[k]? = some a) :
    k < (issued countPolicy timePolicy start attempts).length ↔
      (∀ b ∈ attempts.take k, b.retriable = true) ∧
        (0 < countPolicy.count → k ≤ countPolicy.count.toNat) ∧
        a.checkTime - start ≤ toNanoseconds timePolicy.interval := by
  have hk := (List.getElem?_eq_some_iff.mp ha).1
  unfold issued
  rw [Retry.lt_length_made_iff _ _ _ _ _ hk, ← count_passed_iff countPolicy hcount k]
  constructor
  · rintro ⟨hretry, hgo⟩
    simp only [Nat.zero_add, exhausted_eq_false_iff] at hgo
    refine ⟨hretry, ?_, (hgo k le_rfl a ha).2⟩
    intro j hj
    have hlt : j < attempts.length := by omega
    exact (hgo j hj _ (List.getElem?_eq_getElem hlt)).1
  · rintro ⟨hretry, hpassed, htime⟩
    refine ⟨hretry, ?_⟩
    intro j hj b hb
    rw [Nat.zero_add, exhausted_eq_false_iff]
    have hle := hclock.checkTime_le hj hb ha
    exact ⟨hpassed j hj, (sub_le_sub_right hle start).trans htime⟩

/-- The trace of a retry loop that follows its policies to the letter. -/
structure ExactTrace (backoffPolicy : ExponentialBackoffPolicy) (start : TimePoint)
    (attempts : List Attempt) (trace : Trace) : Prop where
  calls_iff : ∀ (k : ℕ) (a : Attempt), attempts[k]? = some a →
    (k < trace.calls.length ↔
      (∀ b ∈ attempts.take k, b.retriable = true) ∧
        (0 < countPolicy.count → k ≤ countPolicy.count.toNat) ∧
        a.checkTime - start ≤ timePolicy.interval * 10 ^ 9)
  calls_le : trace.calls.length ≤ attempts.length
  /-- The calls in order, each that is to be tried again with its sleep. -/
  sleeps : trace.actions.map Action.sleep? =
    ((attempts.take trace.calls.length).zip ((ExpoBackoff.create backoffPolicy).delays
      ((attempts.take trace.calls.length).map Attempt.sample))).flatMap fun p =>
        none :: if p.1.retriable then [some p.2] else []
  returns_iff : trace.ending.Returns ↔
    ∃ a ∈ attempts.take trace.calls.length, a.retriable = false
  returned : ∀ r, trace.ending = .returned r →
    ∃ (k : ℕ) (a : Attempt), attempts[k]? = some a ∧ trace.calls.length = k + 1 ∧
      a.retriable = false ∧ r = (a.status, a.next)
  /-- A loop that does not return and does not wait in its last call throws. -/
  otherwise : (∀ a ∈ attempts.take trace.calls.length, a.retriable = true) →
    (∃ e, trace.ending = .threw e) ∨
      trace.ending = .calling ∧ trace.calls.length = attempts.length
  calls_le_count : 0 < countPolicy.count →
    trace.calls.length ≤ 1 + countPolicy.count.toNat

section Runs

variable (name : String) (backoffPolicy : ExponentialBackoffPolicy) (start : TimePoint)
  (attempts : List Attempt)

theorem length_calls_makeCall :
    (makeCall name countPolicy timePolicy start backoffPolicy attempts).calls.length =
      (issued countPolicy timePolicy start attempts).length := by
  rw [makeCall_eq]
  exact CallState.length_calls _ _

theorem take_calls_makeCall :
    attempts.take
        (makeCall name countPolicy timePolicy start backoffPolicy attempts).calls.length =
      issued countPolicy timePolicy start attempts := by
  rw [length_calls_makeCall]
  exact (issued_eq_take countPolicy timePolicy start attempts).symm

theorem returns_makeCall_iff :
    (makeCall name countPolicy timePolicy start backoffPolicy attempts).ending.Returns ↔
      ∃ a ∈ issued countPolicy timePolicy start attempts, a.retriable = false := by
  rw [makeCall_eq]
  have hsettled := Retry.verdict_settled_iff (exhausted countPolicy timePolicy start)
    Attempt.retriable 0 attempts
  have hagain := Retry.again_of_not_settled (exhausted countPolicy timePolicy start)
    Attempt.retriable 0 attempts
  cases hverdict : Retry.verdict (exhausted countPolicy timePolicy start)
    Attempt.retriable 0 attempts with
  | settled a =>
    obtain ⟨before, hmade, ha, -⟩ := (hsettled a).mp hverdict
    constructor
    · intro _
      exact ⟨a, by rw [issued, hmade]; simp, ha⟩
    · intro _
      exact ⟨_, rfl⟩
  | gaveUp =>
    constructor
    · rintro ⟨r, hr⟩
      contradiction
    · rintro ⟨a, ha, hsettle⟩
      rw [hagain (by simp [hverdict]) a ha] at hsettle
      contradiction
  | pending =>
    constructor
    · rintro ⟨r, hr⟩
      contradiction
    · rintro ⟨a, ha, hsettle⟩
      rw [hagain (by simp [hverdict]) a ha] at hsettle
      contradiction

theorem returned_makeCall {r : Status × TimePoint}
    (h : (makeCall name countPolicy timePolicy start backoffPolicy attempts).ending =
      .returned r) :
    ∃ before a, issued countPolicy timePolicy start attempts = before ++ [a] ∧
      (∀ b ∈ before, b.retriable = true) ∧ a.retriable = false ∧ r = (a.status, a.next) := by
  rw [makeCall_eq] at h
  cases hverdict : Retry.verdict (exhausted countPolicy timePolicy start)
    Attempt.retriable 0 attempts with
  | settled a =>
    rw [hverdict] at h
    obtain ⟨before, hmade, ha, hbefore⟩ := (Retry.verdict_settled_iff _ _ _ _ _).mp hverdict
    exact ⟨before, a, hmade, hbefore, ha, (Ending.returned.inj h).symm⟩
  | gaveUp =>
    rw [hverdict] at h
    contradiction
  | pending =>
    rw [hverdict] at h
    contradiction

/-- What a loop throws carries the last status it has seen. -/
theorem threw_makeCall {e : Exception}
    (h : (makeCall name countPolicy timePolicy start backoffPolicy attempts).ending =
      .threw e) :
    e.code = ((CallState.create backoffPolicy kDefaultRPCTimeout).after
      (issued countPolicy timePolicy start attempts)).status.code.toNat := by
  rw [makeCall_eq] at h
  cases hverdict : Retry.verdict (exhausted countPolicy timePolicy start)
    Attempt.retriable 0 attempts with
  | settled a =>
    rw [hverdict] at h
    contradiction
  | gaveUp =>
    rw [hverdict] at h
    rw [← Ending.threw.inj h]
  | pending =>
    rw [hverdict] at h
    contradiction

theorem threw_or_calling_makeCall
    (h : ∀ a ∈ issued countPolicy timePolicy start attempts, a.retriable = true) :
    (∃ e, (makeCall name countPolicy timePolicy start backoffPolicy attempts).ending =
        .threw e) ∨
      (makeCall name countPolicy timePolicy start backoffPolicy attempts).ending = .calling ∧
        issued countPolicy timePolicy start attempts = attempts := by
  rw [makeCall_eq]
  cases hverdict : Retry.verdict (exhausted countPolicy timePolicy start)
    Attempt.retriable 0 attempts with
  | settled a =>
    obtain ⟨before, hmade, ha, -⟩ := (Retry.verdict_settled_iff _ _ _ _ _).mp hverdict
    rw [h a (by rw [issued, hmade]; simp)] at ha
    contradiction
  | gaveUp => exact .inl ⟨_, rfl⟩
  | pending => exact .inr ⟨rfl, Retry.made_of_pending _ _ _ _ hverdict⟩

end Runs

/-- With an interval that compares exactly the loop follows its policies to the letter. -/
theorem makeCall_exactTrace (hcount : countPolicy.count.toNat < 2 ^ 32 - 1)
    (hexact : ∀ elapsed ≥ 0, elapsed ≤ toNanoseconds timePolicy.interval ↔
      elapsed ≤ timePolicy.interval * 10 ^ 9)
    (name : String) (backoffPolicy : ExponentialBackoffPolicy) (start : TimePoint)
    (attempts : List Attempt) (hclock : Clocked start attempts) :
    ExactTrace countPolicy timePolicy backoffPolicy start attempts
      (makeCall name countPolicy timePolicy start backoffPolicy attempts) := by
  have hiff : ∀ (k : ℕ) (a : Attempt), attempts[k]? = some a →
      (k < (makeCall name countPolicy timePolicy start backoffPolicy attempts).calls.length ↔
        (∀ b ∈ attempts.take k, b.retriable = true) ∧
          (0 < countPolicy.count → k ≤ countPolicy.count.toNat) ∧
          a.checkTime - start ≤ timePolicy.interval * 10 ^ 9) := by
    intro k a ha
    have hstart := hclock.le_checkTime (List.mem_of_getElem? ha)
    rw [length_calls_makeCall,
      lt_length_issued_iff countPolicy timePolicy hcount hclock ha,
      hexact _ (sub_nonneg.mpr hstart)]
  have hle : (makeCall name countPolicy timePolicy start backoffPolicy
      attempts).calls.length ≤ attempts.length := by
    rw [length_calls_makeCall]
    exact (Retry.made_initial _ _ _ _).length_le
  constructor
  · exact hiff
  · exact hle
  · rw [take_calls_makeCall, makeCall_eq]
    exact CallState.sleeps_actions _ _
  · rw [take_calls_makeCall]
    exact returns_makeCall_iff _ _ _ _ _ _
  · intro r hr
    obtain ⟨before, a, hissued, -, ha, hra⟩ := returned_makeCall _ _ _ _ _ _ hr
    refine ⟨before.length, a, ?_, ?_, ha, hra⟩
    · have htake := issued_eq_take countPolicy timePolicy start attempts
      rw [hissued] at htake
      have hget := congrArg (·[before.length]?) htake
      simpa [List.getElem?_take] using hget.symm
    · rw [length_calls_makeCall, hissued, List.length_append, List.length_singleton]
  · rw [take_calls_makeCall]
    intro h
    rcases threw_or_calling_makeCall countPolicy timePolicy name backoffPolicy start attempts
      h with hthrew | ⟨hcalling, hall⟩
    · exact .inl hthrew
    · right
      rw [length_calls_makeCall, hall]
      exact ⟨hcalling, rfl⟩
  · intro hpos
    by_contra hlt
    have hk : 1 + countPolicy.count.toNat < attempts.length := by omega
    have := ((hiff _ _ (List.getElem?_eq_getElem hk)).mp (by omega)).2.1 hpos
    omega

def attemptAt (t : TimePoint) (code : StatusCode) : Attempt where
  checkTime := t
  systemTime := 1700000000 * 10 ^ 9 + t
  next := t
  status := ⟨code, ""⟩
  sample := ⟨fun mean _ => mean, 0⟩

/-- The loop follows its policies in every run exactly when the interval in nanoseconds
fits 64 bits, or is negative and stays negative when it does not. -/
theorem makeCall_exactTrace_iff (hcount : countPolicy.count.toNat < 2 ^ 32 - 1) :
    (∀ (name : String) (backoffPolicy : ExponentialBackoffPolicy) (start : TimePoint)
      (attempts : List Attempt), Clocked start attempts →
        ExactTrace countPolicy timePolicy backoffPolicy start attempts
          (makeCall name countPolicy timePolicy start backoffPolicy attempts)) ↔
      timePolicy.interval.natAbs ≤ 9223372036 ∨
        timePolicy.interval < 0 ∧ toNanoseconds timePolicy.interval < 0 := by
  rw [← exact_toNanoseconds_iff]
  constructor
  · intro h elapsed helapsed
    have hclock : Clocked 0 [attemptAt elapsed .ok] := ⟨helapsed, le_rfl, trivial⟩
    have hcalls := (h "" {} 0 [attemptAt elapsed .ok] hclock).calls_iff 0 _ rfl
    rw [length_calls_makeCall,
      lt_length_issued_iff countPolicy timePolicy hcount hclock rfl] at hcalls
    simpa [attemptAt] using hcalls
  · exact makeCall_exactTrace countPolicy timePolicy hcount

end Exact

/-- With the default policies one retry is made, and its answer is returned. -/
theorem makeCall_exactTrace_iff_oneRetry :
    ExactTrace {} {} {} 0 [attemptAt 0 .unavailable, attemptAt 300000000 .ok]
      (makeCall "Publish" {} {} 0 {} [attemptAt 0 .unavailable, attemptAt 300000000 .ok]) :=
  (makeCall_exactTrace_iff {} {} (by decide)).mpr (.inl (by decide)) "Publish" {} 0
    [attemptAt 0 .unavailable, attemptAt 300000000 .ok] (by simp [Clocked, attemptAt])

/-- The longest interval a policy can have, 2^63 - 1 seconds, comes out as minus one
second, and the call is never made. -/
theorem not_exactTrace_longestInterval :
    Clocked 0 [attemptAt 0 .ok] ∧
      ¬ ExactTrace {} ⟨2 ^ 63 - 1⟩ {} 0 [attemptAt 0 .ok]
        (makeCall "Publish" {} ⟨2 ^ 63 - 1⟩ 0 {} [attemptAt 0 .ok]) := by
  constructor
  · simp [Clocked, attemptAt]
  · intro h
    have := (h.calls_iff 0 _ rfl).mpr (by decide)
    revert this
    decide

end Pubsuber
