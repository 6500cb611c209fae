import Mathlib.Tactic

/-!
# Histogram of message handling times

`Distribution.h`. The counters are 64-bit and wrap; their sum is multiplied by
the percentile in exact rational arithmetic. The constructor leaves the
counters as they are in memory, so a fresh distribution may hold any counters.
-/

namespace Pubsuber

structure Distribution (highLimit : ℕ) where
  hist : Vector UInt64 highLimit

/-- The two ways in which `Percentile` throws a `runtime_error`. -/
inductive PercentileError
  | percentileOutOfRange (p : ℚ)
  | targetNotFound (target : UInt64)

namespace Distribution

variable {highLimit : ℕ}

/-- `v` is unsigned, so the range check of the source never throws. -/
def record (d : Distribution highLimit) (v : UInt64) : Distribution highLimit :=
  let v := if v.toNat ≥ highLimit then highLimit - 1 else v.toNat
  if h : v < highLimit then ⟨d.hist.set v (d.hist[v] + 1)⟩ else d

def runningSums : List UInt64 → UInt64 → List UInt64
  | [], _ => []
  | count :: counts, sum => (sum + count) :: runningSums counts (sum + count)

/-- The bisection of `std::lower_bound` on `len` elements from `first` on. -/
def lowerBound (sums : List UInt64) (target : UInt64) : ℕ → ℕ → ℕ → ℕ
  | 0, first, _ => first
  | fuel + 1, first, len =>
    if len = 0 then first
    else
      let half := len / 2
      if sums.getD (first + half) 0 < target then
        lowerBound sums target fuel (first + half + 1) (len - half - 1)
      else lowerBound sums target fuel first half

def percentile (d : Distribution highLimit) (p : ℚ) : Except PercentileError ℕ :=
  if p < 0 ∨ p > 1 then .error (.percentileOutOfRange p)
  else
    let sums := runningSums d.hist.toList 0
    let sum := sums.getLastD 0
    let target := UInt64.ofNat ((sum.toNat : ℚ) * p).ceil.toNat
    let it := lowerBound sums target highLimit 0 highLimit
    if it = highLimit then .error (.targetNotFound target) else .ok it

end Distribution

/-- Seconds. -/
def kMinAckDeadline : ℤ := 10

/-- Seconds. -/
def kMaxAckDeadline : ℤ := 600

abbrev AckDistribution := Distribution (kMaxAckDeadline.toNat + 1)

/-- `none` when `Percentile` throws, which terminates the process because
`AckDeadline` is `noexcept`. -/
def ackDeadline (ackDist : AckDistribution) : Option ℤ :=
  match ackDist.percentile (99 / 100) with
  | .ok dl => some (min (max (dl : ℤ) kMinAckDeadline) kMaxAckDeadline)
  | .error _ => none

theorem ackDeadline_bounds {ackDist : AckDistribution} {dl : ℤ}
    (h : ackDeadline ackDist = some dl) : kMinAckDeadline ≤ dl ∧ dl ≤ kMaxAckDeadline := by
  unfold ackDeadline at h
  split at h
  · cases h
    unfold kMinAckDeadline kMaxAckDeadline
    omega
  · contradiction

def emptyDistribution : AckDistribution := ⟨Vector.replicate _ 0⟩

example : ackDeadline emptyDistribution = some 10 := by decide +kernel

example : ackDeadline (emptyDistribution.record 42) = some 42 := by decide +kernel

end Pubsuber
