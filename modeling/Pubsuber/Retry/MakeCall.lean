import Pubsuber.Library.Retry
import Pubsuber.Retry.ExpoBackoff
import Pubsuber.Retry.Status

/-!
# Making a remote call

A stub that answers with a retriable status is called again after a delay, until
one of two policies gives up. The readings of both clocks, the answers and the
draws of the backoff are given from outside, one `Attempt` a round of the loop.
-/

namespace Pubsuber

structure RetryCountPolicy where
  /-- The most tries of a call, or zero to try indefinitely. -/
  count : UInt32 := 3
  deriving DecidableEq

structure MaxRetryTimePolicy where
  /-- Seconds, a 64-bit number. -/
  interval : ℤ := 15
  deriving DecidableEq

/-- Seconds as nanoseconds, both 64-bit numbers. -/
def toNanoseconds (seconds : ℤ) : ℤ := (seconds * 10 ^ 9).bmod (2 ^ 64)

def retriesExahusted (start now : TimePoint) (retryCount : UInt32)
    (countPolicy : RetryCountPolicy) (timePolicy : MaxRetryTimePolicy) : Bool :=
  (countPolicy.count > 0 && retryCount > countPolicy.count) ||
    now - start > toNanoseconds timePolicy.interval

/-- Seconds. -/
def kDefaultRPCTimeout : ℤ := 20

/-- The deadline of a call, in 64-bit nanoseconds on the system clock. -/
def setDeadline (systemNow timeout : ℤ) : ℤ :=
  (systemNow + toNanoseconds timeout).bmod (2 ^ 64)

/-- What a round of the loop finds: its clock readings in their order, the answer of the
stub and the draw of the backoff. -/
structure Attempt where
  /-- The steady clock when the policies are asked. -/
  checkTime : TimePoint
  /-- The system clock when the deadline is set, in nanoseconds since the epoch. -/
  systemTime : ℤ
  /-- The steady clock just before the stub is called. -/
  next : TimePoint
  status : Status
  sample : ExpoBackoff.Sample

def StatusCode.retriable : StatusCode → Bool
  | deadlineExceeded => true
  | unavailable => true
  | _ => false

def Attempt.retriable (a : Attempt) : Bool := a.status.code.retriable

inductive Action
  | call (timeout deadline : ℤ)
  | sleep (delay : ℤ)
  deriving DecidableEq, Repr

def Action.call? : Action → Option (ℤ × ℤ)
  | call timeout deadline => some (timeout, deadline)
  | sleep _ => none

def Action.sleep? : Action → Option ℤ
  | call _ _ => none
  | sleep delay => some delay

structure Trace where
  actions : List Action
  ending : Ending (Status × TimePoint)

def Trace.calls (t : Trace) : List (ℤ × ℤ) := t.actions.filterMap Action.call?

structure CallState where
  backoff : ExpoBackoff
  rpcTimeout : ℤ
  status : Status

/-- After an answer that is to be tried again; only one of the two retriable statuses
doubles the timeout. -/
def CallState.retry (s : CallState) (a : Attempt) : CallState where
  backoff := (s.backoff.delay a.sample).2
  rpcTimeout :=
    if a.status.code = .deadlineExceeded then (s.rpcTimeout * 2).bmod (2 ^ 64)
    else s.rpcTimeout
  status := a.status

def CallState.call (s : CallState) (a : Attempt) : Action :=
  .call s.rpcTimeout (setDeadline a.systemTime s.rpcTimeout)

def CallState.sleep (s : CallState) (a : Attempt) : Action :=
  .sleep (s.backoff.delay a.sample).1

def retriesError (name : String) (countPolicy : RetryCountPolicy)
    (timePolicy : MaxRetryTimePolicy) : String :=
  "Pubsuber: GRPC call '" ++ name ++ "' failed after " ++ toString countPolicy.count ++
    " times or " ++ toString timePolicy.interval ++ "s with error"

section Loop

variable (name : String) (countPolicy : RetryCountPolicy) (timePolicy : MaxRetryTimePolicy)
  (start : TimePoint)

/-- The `while` loop. Without a next attempt the run waits in the last one. -/
def makeCallLoop : CallState → List Attempt → Trace
  | _, [] => ⟨[], .calling⟩
  | s, a :: as =>
    if retriesExahusted start a.checkTime s.backoff.retryCount countPolicy timePolicy then
      ⟨[], .threw ⟨retriesError name countPolicy timePolicy, s.status.code.toNat⟩⟩
    else
      match a.status.code with
      | .deadlineExceeded | .unavailable =>
        let rest := makeCallLoop (s.retry a) as
        ⟨s.call a :: s.sleep a :: rest.actions, rest.ending⟩
      | _ => ⟨[s.call a], .returned (a.status, a.next)⟩

def CallState.create (backoffPolicy : ExponentialBackoffPolicy) (rpcTimeout : ℤ) :
    CallState where
  backoff := ExpoBackoff.create backoffPolicy
  rpcTimeout := rpcTimeout
  status := ⟨.ok, ""⟩

def makeCall (backoffPolicy : ExponentialBackoffPolicy) (attempts : List Attempt)
    (rpcTimeout : ℤ := kDefaultRPCTimeout) : Trace :=
  makeCallLoop name countPolicy timePolicy start (.create backoffPolicy rpcTimeout) attempts

/-- The policies give up before attempt number `k`. -/
def exhausted (k : ℕ) (a : Attempt) : Bool :=
  retriesExahusted start a.checkTime (UInt32.ofNat k) countPolicy timePolicy

def issued (attempts : List Attempt) : List Attempt :=
  Retry.made (exhausted countPolicy timePolicy start) Attempt.retriable 0 attempts

def CallState.actions : CallState → List Attempt → List Action
  | _, [] => []
  | s, a :: as =>
    s.call a :: ((if a.retriable then [s.sleep a] else []) ++ (s.retry a).actions as)

/-- The variables of the loop after attempts that are to be tried again. -/
def CallState.after (s : CallState) (attempts : List Attempt) : CallState :=
  attempts.foldl CallState.retry s

def endingOf (s : CallState) (issued : List Attempt) :
    Retry.Verdict Attempt → Ending (Status × TimePoint)
  | .settled a => .returned (a.status, a.next)
  | .gaveUp =>
    .threw ⟨retriesError name countPolicy timePolicy, (s.after issued).status.code.toNat⟩
  | .pending => .calling

theorem makeCallLoop_retry (s : CallState) (a : Attempt) (as : List Attempt)
    (hgo : retriesExahusted start a.checkTime s.backoff.retryCount countPolicy timePolicy =
      false) (ha : a.retriable = true) :
    makeCallLoop name countPolicy timePolicy start s (a :: as) =
      ⟨s.call a :: s.sleep a ::
          (makeCallLoop name countPolicy timePolicy start (s.retry a) as).actions,
        (makeCallLoop name countPolicy timePolicy start (s.retry a) as).ending⟩ := by
  unfold Attempt.retriable at ha
  rw [makeCallLoop, hgo, if_neg Bool.false_ne_true]
  cases hcode : a.status.code <;> rw [hcode] at ha <;> first | rfl | contradiction

theorem makeCallLoop_settle (s : CallState) (a : Attempt) (as : List Attempt)
    (hgo : retriesExahusted start a.checkTime s.backoff.retryCount countPolicy timePolicy =
      false) (ha : a.retriable = false) :
    makeCallLoop name countPolicy timePolicy start s (a :: as) =
      ⟨[s.call a], .returned (a.status, a.next)⟩ := by
  unfold Attempt.retriable at ha
  rw [makeCallLoop, hgo, if_neg Bool.false_ne_true]
  cases hcode : a.status.code <;> rw [hcode] at ha <;> first | rfl | contradiction

theorem CallState.retryCount_retry {s : CallState} {k : ℕ}
    (hs : s.backoff.retryCount = UInt32.ofNat k) (a : Attempt) :
    (s.retry a).backoff.retryCount = UInt32.ofNat (k + 1) := by
  unfold CallState.retry
  rw [ExpoBackoff.retryCount_delay, hs, UInt32.ofNat_add]
  rfl

/-- The loop is a retry loop: the policies stop it, a retriable answer keeps it going. -/
theorem makeCallLoop_eq (s : CallState) (k : ℕ) (attempts : List Attempt)
    (hs : s.backoff.retryCount = UInt32.ofNat k) :
    makeCallLoop name countPolicy timePolicy start s attempts =
      ⟨s.actions (Retry.made (exhausted countPolicy timePolicy start) Attempt.retriable k
          attempts),
        endingOf name countPolicy timePolicy s
          (Retry.made (exhausted countPolicy timePolicy start) Attempt.retriable k attempts)
          (Retry.verdict (exhausted countPolicy timePolicy start) Attempt.retriable k
            attempts)⟩ := by
  induction attempts generalizing s k with
  | nil => rfl
  | cons a as ih =>
    unfold Retry.made Retry.verdict
    by_cases hstop : exhausted countPolicy timePolicy start k a = true
    · rw [if_pos hstop, if_pos hstop]
      unfold exhausted at hstop
      unfold makeCallLoop
      rw [hs, if_pos hstop]
      rfl
    · rw [if_neg hstop, if_neg hstop]
      rw [Bool.not_eq_true] at hstop
      unfold exhausted at hstop
      rw [← hs] at hstop
      by_cases ha : a.retriable = true
      · rw [if_pos ha, if_pos ha, makeCallLoop_retry _ _ _ _ s a as hstop ha,
          ih (s.retry a) (k + 1) (CallState.retryCount_retry hs a), CallState.actions,
          if_pos ha]
        cases Retry.verdict (exhausted countPolicy timePolicy start) Attempt.retriable
          (k + 1) as <;> rfl
      · rw [if_neg ha, if_neg ha]
        rw [Bool.not_eq_true] at ha
        rw [makeCallLoop_settle _ _ _ _ s a as hstop ha, CallState.actions, ha]
        rfl

theorem makeCall_eq (backoffPolicy : ExponentialBackoffPolicy) (attempts : List Attempt)
    (rpcTimeout : ℤ) :
    makeCall name countPolicy timePolicy start backoffPolicy attempts rpcTimeout =
      ⟨(CallState.create backoffPolicy rpcTimeout).actions
          (issued countPolicy timePolicy start attempts),
        endingOf name countPolicy timePolicy (.create backoffPolicy rpcTimeout)
          (issued countPolicy timePolicy start attempts)
          (Retry.verdict (exhausted countPolicy timePolicy start) Attempt.retriable 0
            attempts)⟩ := by
  apply makeCallLoop_eq
  rfl

end Loop

end Pubsuber
