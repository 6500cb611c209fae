import Mathlib.Tactic

/-!
# The delays between attempts

A delay of a backoff is drawn around the previous one times the scale factor.
What the normal distribution yields for a mean and a deviation is given from
outside, one function a draw.
-/

namespace Pubsuber

/-- The whole part of a number as milliseconds, by way of `uint64_t`. For a number
that does not fit the conversion is undefined. -/
def toMs (v : ℚ) : Option ℤ :=
  let whole := v.num.tdiv v.den
  if 0 ≤ whole ∧ whole < 2 ^ 64 then some (whole.bmod (2 ^ 64)) else none

structure ExponentialBackoffPolicy where
  /-- Milliseconds before the first retry. -/
  initialDelay : ℤ := 250
  /-- The upper limit for the delay, in milliseconds. -/
  maxDelay : ℤ := 15000
  scale : ℚ := 2.7182818
  deriving DecidableEq

def defaultJitter : ℚ := 0.11049435140430175

structure ExpoBackoff where
  backoffPolicy : ExponentialBackoffPolicy
  currentInterval : ℤ
  jitter : ℚ
  attempt : UInt32
  deriving DecidableEq

namespace ExpoBackoff

/-- What a call finds: the value that a normal distribution with a mean and a
deviation yields, and the interval it is left with if a conversion is undefined. -/
structure Sample where
  draw : ℚ → ℚ → ℚ
  undefined : ℤ

def create (backoffPolicy : ExponentialBackoffPolicy) : ExpoBackoff where
  backoffPolicy := backoffPolicy
  currentInterval := backoffPolicy.initialDelay
  jitter := defaultJitter
  attempt := 0

def calculateNext (b : ExpoBackoff) (sample : Sample) : ExpoBackoff :=
  let scaled : ℚ := b.currentInterval * b.backoffPolicy.scale
  let converted : Option ℤ := do
    let ms ← toMs scaled
    let nextTime : ℚ :=
      if ms > b.backoffPolicy.maxDelay then b.backoffPolicy.maxDelay else scaled
    if b.jitter < 0.0001 then toMs nextTime
    else toMs (sample.draw nextTime (b.jitter * nextTime))
  { b with
    currentInterval :=
      match converted with
      | some interval =>
        if interval > b.backoffPolicy.maxDelay then b.backoffPolicy.maxDelay else interval
      | none => sample.undefined }

/-- The delay handed out, and the backoff afterwards. -/
def delay (b : ExpoBackoff) (sample : Sample) : ℤ × ExpoBackoff :=
  (b.currentInterval, calculateNext { b with attempt := b.attempt + 1 } sample)

def retryCount (b : ExpoBackoff) : UInt32 := b.attempt

/-- The delays of successive calls, one for each draw. -/
def delays (b : ExpoBackoff) : List Sample → List ℤ
  | [] => []
  | sample :: samples => (b.delay sample).1 :: (b.delay sample).2.delays samples

@[simp] theorem retryCount_create (backoffPolicy : ExponentialBackoffPolicy) :
    (create backoffPolicy).retryCount = 0 := rfl

@[simp] theorem retryCount_delay (b : ExpoBackoff) (sample : Sample) :
    (b.delay sample).2.retryCount = b.retryCount + 1 := rfl

@[simp] theorem length_delays (b : ExpoBackoff) (samples : List Sample) :
    (b.delays samples).length = samples.length := by
  induction samples generalizing b with
  | nil => rfl
  | cons sample samples ih =>
    unfold delays
    rw [List.length_cons, ih, List.length_cons]

end ExpoBackoff

end Pubsuber
