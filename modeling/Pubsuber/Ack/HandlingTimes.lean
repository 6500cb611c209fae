import Pubsuber.Ack.ModAckIterator
import Pubsuber.Ack.Percentile
import Pubsuber.Library.Rank

/-!
# The deadline as a statistic of the handling times

`AckDeadline` is meant to be the 99th percentile of the handling times that
`Done` has recorded. The constructor of `Distribution` leaves its counters as
they are in memory, so the percentile is taken of these together with what has
been recorded.
-/

namespace Pubsuber

open HashContainer Bisect Rank

/-- A call of `Done`; the handling time is the whole seconds of a `duration`
that is not negative. -/
structure DoneCall where
  order : HashOrder
  ackID : AckID
  sec : ℕ
  action : DoneAction
  fits : sec < 2 ^ 63

def ModAckIterator.doneAll (it : ModAckIterator) (calls : List DoneCall) : ModAckIterator :=
  calls.foldl (fun it call => it.done call.order call.ackID call.sec call.action) it

def handlingTimes (calls : List DoneCall) : List ℕ := calls.map DoneCall.sec

/-- The nearest-rank 99th percentile of the times, each one above 600 counted as
600, clamped to the bounds of a deadline. -/
def deadlineOf (times : List ℕ) : ℤ :=
  min (max (((nearestRank (99 / 100) (times.map (min · 600))).getD 0 : ℕ) : ℤ) kMinAckDeadline)
    kMaxAckDeadline

/-- The deadline after each of two sequences of calls is the same, and it is the
percentile of their times. -/
def DeadlinesAgree (it it' : ModAckIterator) (calls calls' : List DoneCall) : Prop :=
  ackDeadline (it.doneAll calls).ackDist = ackDeadline (it'.doneAll calls').ackDist ∧
    ackDeadline (it.doneAll calls).ackDist = some (deadlineOf (handlingTimes calls))

/-- Memory that serves as an empty histogram: no counter from 10 on, and counters
below 10 that add up to nothing. -/
structure Blank (d : AckDistribution) : Prop where
  low : 2 ^ 64 ∣ d.partialSum 9
  high : ∀ v, 10 ≤ v → (h : v < kMaxAckDeadline.toNat + 1) → d.hist[v] = 0

namespace Distribution

section Counters

variable {highLimit : ℕ} (d : Distribution highLimit) {i : ℕ}

theorem getD_runningSums_succ {counts : List UInt64} (sum : UInt64) {i : ℕ}
    (hi : i + 1 < counts.length) :
    (runningSums counts sum).getD (i + 1) 0 =
      (runningSums counts sum).getD i 0 + counts.getD (i + 1) 0 := by
  induction counts generalizing sum i with
  | nil => simp at hi
  | cons count counts ih =>
    rw [runningSums, List.getD_cons_succ, List.getD_cons_succ]
    cases i with
    | zero =>
      cases counts with
      | nil => simp at hi
      | cons count' counts => rfl
    | succ i =>
      have hi : i + 1 < counts.length := by simpa using hi
      rw [List.getD_cons_succ, ih _ hi]

theorem sumAt_succ (hi : i + 1 < highLimit) : d.sumAt (i + 1) = d.sumAt i + d.hist[i + 1] := by
  have hcounter : d.hist.toList.getD (i + 1) 0 = d.hist[i + 1] := by
    rw [List.getD_eq_getElem _ _ (by simpa using hi)]
    simp
  unfold sumAt
  rw [getD_runningSums_succ 0 (by simpa using hi), hcounter]

theorem sumAt_of_ge (hi : highLimit ≤ i) : d.sumAt i = 0 := by
  unfold sumAt
  apply List.getD_eq_default
  simpa using hi

end Counters

def recordAll (d : AckDistribution) (times : List ℕ) : AckDistribution :=
  times.foldl (fun d t => d.record (UInt64.ofInt t)) d

/-- How many of the times count as at most `i`. -/
def atMost (times : List ℕ) (i : ℕ) : ℕ := (times.map (min · 600)).countP fun t => decide (t ≤ i)

end Distribution

open Pubsuber.Distribution

theorem doneAll_ackDist (it : ModAckIterator) (calls : List DoneCall) :
    (it.doneAll calls).ackDist = it.ackDist.recordAll (handlingTimes calls) := by
  induction calls generalizing it with
  | nil => rfl
  | cons call calls ih =>
    have hdone : (it.done call.order call.ackID call.sec call.action).ackDist =
        it.ackDist.record (UInt64.ofInt call.sec) := by
      unfold ModAckIterator.done
      cases call.action with
      | ack => rfl
      | nack => rfl
    change ((it.done call.order call.ackID call.sec call.action).doneAll calls).ackDist = _
    rw [ih, hdone]
    rfl

theorem exists_calls {times : List ℕ} (h : ∀ t ∈ times, t < 2 ^ 63) :
    ∃ calls, handlingTimes calls = times := by
  induction times with
  | nil => exact ⟨[], rfl⟩
  | cons t times ih =>
    obtain ⟨calls, hcalls⟩ := ih fun t ht => h t (List.mem_cons_of_mem _ ht)
    refine ⟨⟨HashOrder.newestFirst, "", t, .ack, h t List.mem_cons_self⟩ :: calls, ?_⟩
    unfold handlingTimes at *
    rw [List.map_cons, hcalls]

theorem lt_size {i : ℕ} (hi : i ≤ 600) : i < kMaxAckDeadline.toNat + 1 := by
  change i < 601
  omega

section Recorded

variable (d : AckDistribution) {times : List ℕ} {i : ℕ}

theorem slot_ofInt {t : ℕ} (ht : t < 2 ^ 63) :
    slot (kMaxAckDeadline.toNat + 1) (UInt64.ofInt t) = min t 600 := by
  have hmod : ((t : ℤ) % 2 ^ 64).toNat = t := by omega
  unfold slot UInt64.ofInt
  rw [hmod, UInt64.toNat_ofNat_of_lt' (by unfold UInt64.size; omega)]
  rfl

theorem sumAt_recordAll (ht : ∀ t ∈ times, t < 2 ^ 63) (hi : i ≤ 600) :
    (d.recordAll times).sumAt i = d.sumAt i + UInt64.ofNat (atMost times i) := by
  induction times generalizing d with
  | nil => simp [recordAll, atMost]
  | cons t times ih =>
    change ((d.record (UInt64.ofInt t)).recordAll times).sumAt i = _
    rw [ih _ fun t' ht' => ht t' (List.mem_cons_of_mem _ ht'), d.sumAt_record (lt_size hi),
      slot_ofInt (ht t List.mem_cons_self)]
    unfold atMost
    rw [List.map_cons]
    by_cases hle : min t 600 ≤ i
    · rw [if_pos hle, List.countP_cons_of_pos (by simpa using hle), UInt64.ofNat_add,
        UInt64.add_assoc, UInt64.add_comm 1]
      rfl
    · rw [if_neg hle, List.countP_cons_of_neg (by simpa using hle), UInt64.add_zero]

theorem toNat_sumAt_recordAll (ht : ∀ t ∈ times, t < 2 ^ 63) (hi : i ≤ 600) :
    ((d.recordAll times).sumAt i).toNat = ((d.sumAt i).toNat + atMost times i) % 2 ^ 64 := by
  rw [sumAt_recordAll d ht hi, UInt64.toNat_add, UInt64.toNat_ofNat']
  omega

theorem atMost_le_length : atMost times i ≤ times.length := by
  unfold atMost
  rw [← List.length_map (min · 600)]
  exact List.countP_le_length

theorem atMost_last : atMost times 600 = times.length := by
  unfold atMost
  rw [← List.length_map (min · 600), List.countP_eq_length]
  intro t ht
  obtain ⟨t', -, rfl⟩ := List.mem_map.mp ht
  simp

end Recorded

section Search

variable (d : AckDistribution) {times : List ℕ} {i : ℕ}

theorem ceil_percent_le_iff (n m : ℕ) : ⌈(n : ℚ) * (99 / 100)⌉₊ ≤ m ↔ 99 * n ≤ 100 * m := by
  rw [Nat.ceil_le]
  constructor
  · intro h
    have hq : (99 : ℚ) * n ≤ 100 * m := by linarith
    exact_mod_cast hq
  · intro h
    have hq : (99 : ℚ) * n ≤ 100 * m := by exact_mod_cast h
    linarith

theorem below_eq_false_iff :
    d.below (99 / 100) i = false ↔ 99 * (d.sumAt 600).toNat ≤ 100 * (d.sumAt i).toNat := by
  unfold below
  rw [decide_eq_false_iff_not, not_lt]
  exact ceil_percent_le_iff _ _

theorem found_boundary :
    d.found (99 / 100) < 601 ∧ Boundary (d.below (99 / 100)) 0 601 (d.found (99 / 100)) := by
  obtain ⟨-, hlt, hboundary⟩ := d.percentile_found (by decide) (by norm_num : (0 : ℚ) ≤ 99 / 100)
    (by norm_num)
  exact ⟨hlt, hboundary⟩

theorem found_le_nine_iff :
    d.found (99 / 100) ≤ 9 ↔
      ∀ j, 1 ≤ j → j ≤ 6 → d.below (99 / 100) (601 / 2 ^ j) = false := by
  have h : bisect (d.below (99 / 100)) 601 0 601 ≤ 0 + 601 / 2 ^ 6 ↔
      ∀ j, 1 ≤ j → j ≤ 6 → d.below (99 / 100) (0 + 601 / 2 ^ j) = false :=
    bisect_le_halved_iff le_rfl (by norm_num)
  simp only [Nat.zero_add] at h
  exact h

theorem nearestRank_le_iff_atMost {a : ℕ}
    (h : nearestRank (99 / 100) (times.map (min · 600)) = some a) (v : ℕ) :
    a ≤ v ↔ 99 * times.length ≤ 100 * atMost times v := by
  rw [nearestRank_le_iff (by norm_num) h v, List.length_map, mul_comm, ceil_percent_le_iff]
  rfl

theorem nearestRank_le_last {a : ℕ}
    (h : nearestRank (99 / 100) (times.map (min · 600)) = some a) : a ≤ 600 := by
  rw [nearestRank_le_iff_atMost h, atMost_last]
  omega

end Search

section Blank

variable {d : AckDistribution} {times : List ℕ}

theorem sumAt_eq_zero_iff {i : ℕ} (hi : i ≤ 600) : d.sumAt i = 0 ↔ 2 ^ 64 ∣ d.partialSum i := by
  rw [← UInt64.toNat_inj, d.toNat_sumAt (lt_size hi), UInt64.toNat_zero, Nat.dvd_iff_mod_eq_zero]

/-- Memory is blank when no running sum from index 9 on shows what it holds. -/
theorem blank_iff : Blank d ↔ ∀ i, 9 ≤ i → i ≤ 600 → d.sumAt i = 0 := by
  constructor
  · intro h i hi
    induction i, hi using Nat.le_induction with
    | base => exact fun hle => (sumAt_eq_zero_iff hle).mpr h.low
    | succ i hi ih =>
      intro hle
      rw [d.sumAt_succ (lt_size hle), ih (by omega), h.high _ (by omega), UInt64.zero_add]
  · intro h
    constructor
    · exact (sumAt_eq_zero_iff (by omega)).mp (h 9 le_rfl (by omega))
    · intro v hten hv
      have hv' : v < 601 := hv
      obtain ⟨i, rfl⟩ := Nat.exists_eq_add_of_le' (by omega : 1 ≤ v)
      have hsucc := d.sumAt_succ hv
      rw [h (i + 1) (by omega) (by omega), h i (by omega) (by omega), UInt64.zero_add] at hsucc
      exact hsucc.symm

theorem clamp_congr {a b : ℕ} (h : a = b ∨ a ≤ 9 ∧ b ≤ 9) :
    min (max (a : ℤ) kMinAckDeadline) kMaxAckDeadline =
      min (max (b : ℤ) kMinAckDeadline) kMaxAckDeadline := by
  unfold kMinAckDeadline kMaxAckDeadline
  omega

theorem toNat_sumAt_of_blank (hblank : Blank d) (hlen : times.length < 2 ^ 64)
    (ht : ∀ t ∈ times, t < 2 ^ 63) {i : ℕ} (hlow : 9 ≤ i) (hi : i ≤ 600) :
    ((d.recordAll times).sumAt i).toNat = atMost times i := by
  have hle : atMost times i ≤ times.length := atMost_le_length
  rw [toNat_sumAt_recordAll d ht hi, blank_iff.mp hblank i hlow hi, UInt64.toNat_zero,
    Nat.zero_add, Nat.mod_eq_of_lt (by omega)]

theorem below_of_blank (hblank : Blank d) (hlen : times.length < 2 ^ 64)
    (ht : ∀ t ∈ times, t < 2 ^ 63) {i : ℕ} (hlow : 9 ≤ i) (hi : i ≤ 600) :
    (d.recordAll times).below (99 / 100) i = false ↔
      99 * times.length ≤ 100 * atMost times i := by
  rw [below_eq_false_iff, toNat_sumAt_of_blank hblank hlen ht (by omega) le_rfl,
    toNat_sumAt_of_blank hblank hlen ht hlow hi, atMost_last]

theorem found_of_blank_nil (hblank : Blank d) : d.found (99 / 100) = 0 := by
  obtain ⟨-, hboundary⟩ := found_boundary d
  apply eq_of_forall_not_less hboundary
  intro i _
  rw [below_eq_false_iff, blank_iff.mp hblank 600 (by omega) le_rfl]
  simp

/-- On blank memory the deadline is the percentile of the times. Below 10 the sums
may be anything, but a search that ends there has seen that the percentile is
below 10 as well. -/
theorem ackDeadline_of_blank (hblank : Blank d) (hlen : times.length < 2 ^ 64)
    (ht : ∀ t ∈ times, t < 2 ^ 63) :
    ackDeadline (d.recordAll times) = some (deadlineOf times) := by
  rw [ackDeadline_eq]
  unfold deadlineOf
  cases hrank : nearestRank (99 / 100) (times.map (min · 600)) with
  | none =>
    have hnil := nearestRank_eq_none (by norm_num) hrank
    obtain rfl : times = [] := by simpa using hnil
    rw [show d.recordAll [] = d from rfl, found_of_blank_nil hblank]
    rfl
  | some a =>
    obtain ⟨hlt, hboundary⟩ := found_boundary (d.recordAll times)
    have hbelow := fun i => below_of_blank hblank hlen ht (i := i)
    have hle := fun v => nearestRank_le_iff_atMost hrank v
    rw [Option.getD_some]
    apply congrArg some
    apply clamp_congr
    rcases Nat.lt_or_ge 9 ((d.recordAll times).found (99 / 100)) with hhigh | hlow
    · -- the search has ended where the sums are exact
      have hafter : a ≤ (d.recordAll times).found (99 / 100) := by
        apply (hle _).mpr
        exact (hbelow _ (by omega) (by omega)).mp (hboundary.at_end.resolve_left (by omega))
      have hbefore : ¬ a ≤ (d.recordAll times).found (99 / 100) - 1 := by
        rw [hle, ← hbelow _ (by omega) (by omega), hboundary.before.resolve_left (by omega)]
        simp
      omega
    · have hno := (found_le_nine_iff _).mp hlow 6 (by omega) le_rfl
      have hnine : a ≤ 9 := (hle 9).mpr ((hbelow 9 le_rfl (by omega)).mp hno)
      omega

end Blank

section NotBlank

variable {d : AckDistribution} {times : List ℕ}

theorem fits_replicate {n t : ℕ} (ht : t < 2 ^ 63) : ∀ t' ∈ List.replicate n t, t' < 2 ^ 63 := by
  intro t' ht'
  rw [List.eq_of_mem_replicate ht']
  exact ht

theorem atMost_replicate (n t i : ℕ) :
    atMost (List.replicate n t) i = if min t 600 ≤ i then n else 0 := by
  unfold atMost
  rw [List.map_replicate, List.countP_replicate]
  simp only [decide_eq_true_eq]

theorem deadlineOf_replicate {n t : ℕ} (hn : n ≠ 0) (h10 : 10 ≤ t) (h600 : t ≤ 600) :
    deadlineOf (List.replicate n t) = t := by
  have hrank : nearestRank (99 / 100) ((List.replicate n t).map (min · 600)) = some t := by
    apply nearestRank_of_forall_eq (by norm_num)
    · simpa using hn
    · intro x hx
      rw [List.map_replicate] at hx
      rw [List.eq_of_mem_replicate hx, min_eq_left h600]
  unfold deadlineOf kMinAckDeadline kMaxAckDeadline
  rw [hrank, Option.getD_some]
  omega

theorem eq_of_clamp {a v : ℕ} (h10 : 10 < v) (h600 : v ≤ 600) (ha : a < 601)
    (h : min (max (a : ℤ) kMinAckDeadline) kMaxAckDeadline = v) : a = v := by
  unfold kMinAckDeadline kMaxAckDeadline at h
  omega

theorem found_eq_of_deadline {v : ℕ} (h10 : 10 < v) (h600 : v ≤ 600)
    (h : ackDeadline d = some (v : ℤ)) : d.found (99 / 100) = v := by
  obtain ⟨hlt, -⟩ := found_boundary d
  rw [ackDeadline_eq] at h
  exact eq_of_clamp h10 h600 hlt (Option.some.inj h)

/-- No search ends at an index whose counter is zero, except at the front. -/
theorem found_ne_of_flat {v : ℕ} (hpos : 0 < v) (h600 : v ≤ 600)
    (h : d.sumAt v = d.sumAt (v - 1)) : d.found (99 / 100) ≠ v := by
  intro hfound
  obtain ⟨-, hboundary⟩ := found_boundary d
  rw [hfound] at hboundary
  have hbefore := hboundary.before.resolve_left (by omega)
  have hat := hboundary.at_end.resolve_left (by omega)
  unfold below at hbefore hat
  rw [h, hbefore] at hat
  contradiction

theorem wrong_of_counter {v : ℕ} (h10 : 10 < v) (hv : v < kMaxAckDeadline.toNat + 1)
    (hcounter : d.hist[v] ≠ 0) :
    ackDeadline (d.recordAll (List.replicate (2 ^ 64 - d.hist[v].toNat) v)) ≠
      some (deadlineOf (List.replicate (2 ^ 64 - d.hist[v].toNat) v)) := by
  have h600 : v ≤ 600 := Nat.le_of_lt_succ hv
  have hsize := UInt64.toNat_lt_size d.hist[v]
  unfold UInt64.size at hsize
  have ht : ∀ t ∈ List.replicate (2 ^ 64 - d.hist[v].toNat) v, t < 2 ^ 63 :=
    fits_replicate (by omega)
  have hflat : (d.recordAll (List.replicate (2 ^ 64 - d.hist[v].toNat) v)).sumAt v =
      (d.recordAll (List.replicate (2 ^ 64 - d.hist[v].toNat) v)).sumAt (v - 1) := by
    have hsucc : d.sumAt v = d.sumAt (v - 1) + d.hist[v] := by
      obtain ⟨i, rfl⟩ := Nat.exists_eq_add_of_le' (by omega : 1 ≤ v)
      exact d.sumAt_succ hv
    have hback : d.hist[v] + UInt64.ofNat (2 ^ 64 - d.hist[v].toNat) = 0 := by
      apply UInt64.toNat_inj.mp
      rw [UInt64.toNat_add, UInt64.toNat_ofNat', UInt64.toNat_zero]
      omega
    rw [sumAt_recordAll d ht h600, sumAt_recordAll d ht (by omega), atMost_replicate,
      atMost_replicate, if_pos (by omega), if_neg (by omega), hsucc, UInt64.add_assoc, hback]
    rfl
  rw [deadlineOf_replicate (by omega) (by omega) h600]
  intro h
  exact found_ne_of_flat (by omega) h600 hflat (found_eq_of_deadline h10 h600 h)

section Late

variable {z : ℕ}

theorem length_late : (List.replicate z 0 ++ [600]).length = z + 1 := by simp

theorem fits_late : ∀ t ∈ List.replicate z 0 ++ [600], t < 2 ^ 63 := by
  intro t ht
  rcases List.mem_append.mp ht with ht | ht
  · exact fits_replicate (by norm_num) t ht
  · rw [List.mem_singleton.mp ht]
    norm_num

theorem atMost_late : atMost (List.replicate z 0 ++ [600]) 599 = z := by
  unfold atMost
  rw [List.map_append, List.countP_append]
  change atMost (List.replicate z 0) 599 + 0 = z
  rw [atMost_replicate, if_pos (by omega), Nat.add_zero]

theorem deadlineOf_late (hz : z < 99) :
    deadlineOf (List.replicate z 0 ++ [600]) = (600 : ℕ) := by
  obtain ⟨a, ha⟩ := exists_nearestRank (p := 99 / 100) (by norm_num)
    (show (List.replicate z 0 ++ [600]).map (min · 600) ≠ [] by simp)
  have hlast := nearestRank_le_last ha
  have hnot : ¬ a ≤ 599 := by
    rw [nearestRank_le_iff_atMost ha, atMost_late, length_late]
    omega
  unfold deadlineOf kMinAckDeadline kMaxAckDeadline
  rw [ha, Option.getD_some]
  omega

theorem wrong_of_total (hz : z < 99) (hmany : 99 ≤ (d.sumAt 599).toNat + z)
    (hfits : (d.sumAt 599).toNat + z < 2 ^ 64) (hflat : d.sumAt 600 = d.sumAt 599) :
    ackDeadline (d.recordAll (List.replicate z 0 ++ [600])) ≠
      some (deadlineOf (List.replicate z 0 ++ [600])) := by
  have hno : (d.recordAll (List.replicate z 0 ++ [600])).below (99 / 100) 599 = false := by
    rw [below_eq_false_iff, toNat_sumAt_recordAll d fits_late le_rfl,
      toNat_sumAt_recordAll d fits_late (by omega), atMost_last, length_late, atMost_late, hflat]
    omega
  rw [deadlineOf_late hz]
  intro h
  have hfound := found_eq_of_deadline (by omega) le_rfl h
  obtain ⟨-, hboundary⟩ := found_boundary (d.recordAll (List.replicate z 0 ++ [600]))
  rw [hfound] at hboundary
  rw [hboundary.before.resolve_left (by omega)] at hno
  contradiction

end Late

/-- Memory that shows below 10 only draws the search to the front. -/
theorem wrong_of_low (hnine : d.sumAt 9 ≠ 0) (hzero : ∀ i, 10 ≤ i → i ≤ 600 → d.sumAt i = 0) :
    ackDeadline (d.recordAll [18]) ≠ some (deadlineOf [18]) := by
  have ht : ∀ t ∈ [18], t < 2 ^ 63 := by simp
  have hcount : ∀ i, atMost [18] i = if 18 ≤ i then 1 else 0 := atMost_replicate 1 18
  have hsum : ∀ i, 18 ≤ i → i ≤ 600 → ((d.recordAll [18]).sumAt i).toNat = 1 := by
    intro i h18 hi
    rw [toNat_sumAt_recordAll d ht hi, hzero i (by omega) hi, hcount, if_pos h18]
    rfl
  have hfront : ((d.recordAll [18]).sumAt 9).toNat ≠ 0 := by
    rw [sumAt_recordAll d ht (by omega), hcount, if_neg (by omega)]
    intro h
    apply hnine
    apply UInt64.toNat_inj.mp
    simpa using h
  have hlow : (d.recordAll [18]).found (99 / 100) ≤ 9 := by
    rw [found_le_nine_iff]
    intro j h1 h6
    rw [below_eq_false_iff, hsum 600 (by omega) le_rfl]
    -- the probes are 300, 150, 75, 37 and 18, all behind the time, and then 9
    rcases Nat.lt_or_ge j 6 with hlt | hge
    · have hprobe : 18 ≤ 601 / 2 ^ j ∧ 601 / 2 ^ j ≤ 600 := by
        interval_cases j <;> norm_num
      rw [hsum _ hprobe.1 hprobe.2]
      omega
    · obtain rfl : j = 6 := by omega
      change 99 * 1 ≤ 100 * ((d.recordAll [18]).sumAt 9).toNat
      omega
  have hdeadline : deadlineOf [18] = (18 : ℕ) :=
    deadlineOf_replicate (n := 1) (by omega) (by omega) (by omega)
  rw [hdeadline]
  intro h
  have hfound := found_eq_of_deadline (by omega) (by omega) h
  omega

/-- Some times, fewer than the counters can count, are reported wrong. -/
def ReportedWrong (d : AckDistribution) : Prop :=
  ∃ times : List ℕ, (∀ t ∈ times, t < 2 ^ 63) ∧ times.length < 2 ^ 64 ∧
    ackDeadline (d.recordAll times) ≠ some (deadlineOf times)

theorem sumAt_eq_ten
    (hcounter : ∀ v, (hv : v < kMaxAckDeadline.toNat + 1) → 10 < v → d.hist[v] = 0) {i : ℕ}
    (hi : 10 ≤ i) (hle : i ≤ 600) : d.sumAt i = d.sumAt 10 := by
  induction i, hi using Nat.le_induction with
  | base => rfl
  | succ i hi ih =>
    rw [d.sumAt_succ (lt_size hle), ih (by omega), hcounter (i + 1) (lt_size hle) (by omega),
      UInt64.add_zero]

/-- A total of its own in counters up to 10: a few short times make it large enough
to hide the long one. -/
theorem reportedWrong_of_ten (hflat : ∀ i, 10 ≤ i → i ≤ 600 → d.sumAt i = d.sumAt 10)
    (hten : d.sumAt 10 ≠ 0) : ReportedWrong d := by
  have hlast : d.sumAt 600 = d.sumAt 599 := by
    rw [hflat 600 (by omega) le_rfl, hflat 599 (by omega) (by omega)]
  have hsum : (d.sumAt 599).toNat ≠ 0 := by
    rw [hflat 599 (by omega) (by omega)]
    exact fun h => hten (UInt64.toNat_inj.mp h)
  have hsize := UInt64.toNat_lt_size (d.sumAt 599)
  unfold UInt64.size at hsize
  rcases Nat.lt_or_ge (d.sumAt 599).toNat 99 with hfew | hmany
  · have hwrong := wrong_of_total (z := 98) (by omega) (by omega) (by omega) hlast
    exact ⟨_, fits_late, by simp, hwrong⟩
  · have hwrong := wrong_of_total (z := 0) (by omega) (by omega) (by omega) hlast
    exact ⟨_, fits_late, by simp, hwrong⟩

theorem reportedWrong_of_not_blank (h : ¬ Blank d) : ReportedWrong d := by
  by_cases hcounter : ∃ v, ∃ hv : v < kMaxAckDeadline.toNat + 1, 10 < v ∧ d.hist[v] ≠ 0
  · obtain ⟨v, hv, h10, hne⟩ := hcounter
    have h600 : v ≤ 600 := Nat.le_of_lt_succ hv
    have hpos : d.hist[v].toNat ≠ 0 := fun h => hne (UInt64.toNat_inj.mp h)
    refine ⟨_, fits_replicate (by omega), ?_, wrong_of_counter h10 hv hne⟩
    rw [List.length_replicate]
    omega
  · push Not at hcounter
    have hflat : ∀ i, 10 ≤ i → i ≤ 600 → d.sumAt i = d.sumAt 10 :=
      fun i hi hle => sumAt_eq_ten hcounter hi hle
    by_cases hten : d.sumAt 10 = 0
    · have hzero : ∀ i, 10 ≤ i → i ≤ 600 → d.sumAt i = 0 := by
        intro i hi hle
        rw [hflat i hi hle, hten]
      have hnine : d.sumAt 9 ≠ 0 := by
        intro hnine
        apply h
        rw [blank_iff]
        intro i hi hle
        rcases Nat.eq_or_lt_of_le hi with rfl | hlt
        · exact hnine
        · exact hzero i hlt hle
      exact ⟨[18], by simp, by simp, wrong_of_low hnine hzero⟩
    · exact reportedWrong_of_ten hflat hten

end NotBlank

/-- As many times as bring every counter back to what it was. -/
theorem ackDeadline_wrapped (d : AckDistribution) {n t : ℕ} (hn : UInt64.ofNat n = 0)
    (ht : t < 2 ^ 63) : ackDeadline (d.recordAll (List.replicate n t)) = ackDeadline d := by
  have hall : ∀ t' ∈ List.replicate n t, t' < 2 ^ 63 := fits_replicate ht
  have hsum : ∀ i, (d.recordAll (List.replicate n t)).sumAt i = d.sumAt i := by
    intro i
    rcases Nat.lt_or_ge 600 i with hgt | hle
    · have hge : kMaxAckDeadline.toNat + 1 ≤ i := hgt
      rw [sumAt_of_ge _ hge, sumAt_of_ge _ hge]
    · rw [sumAt_recordAll d hall hle, atMost_replicate]
      split_ifs
      · rw [hn, UInt64.add_zero]
      · exact UInt64.add_zero _
  have hbelow : (d.recordAll (List.replicate n t)).below (99 / 100) = d.below (99 / 100) := by
    funext i
    unfold below target
    rw [hsum, hsum]
  rw [ackDeadline_eq, ackDeadline_eq]
  unfold found
  rw [hbelow]

theorem deadlineOf_perm {times times' : List ℕ} (h : times.Perm times') :
    deadlineOf times = deadlineOf times' := by
  unfold deadlineOf
  rw [nearestRank_perm _ (h.map _)]

section Agreement

variable {name name' : String} {d d' : AckDistribution}

theorem fits_handlingTimes (calls : List DoneCall) : ∀ t ∈ handlingTimes calls, t < 2 ^ 63 := by
  intro t ht
  obtain ⟨call, -, rfl⟩ := List.mem_map.mp ht
  exact call.fits

theorem length_handlingTimes (calls : List DoneCall) :
    (handlingTimes calls).length = calls.length :=
  List.length_map _

theorem ackDeadline_doneAll (calls : List DoneCall) :
    ackDeadline ((ModAckIterator.create name d).doneAll calls).ackDist =
      ackDeadline (d.recordAll (handlingTimes calls)) := by
  rw [doneAll_ackDist]
  rfl

theorem blank_of_deadlines (h : ∀ calls : List DoneCall, calls.length < 2 ^ 64 →
    ackDeadline (d.recordAll (handlingTimes calls)) = some (deadlineOf (handlingTimes calls))) :
    Blank d := by
  by_contra hnot
  obtain ⟨times, ht, hlen, hwrong⟩ := reportedWrong_of_not_blank hnot
  obtain ⟨calls, rfl⟩ := exists_calls ht
  rw [length_handlingTimes] at hlen
  exact hwrong (h calls hlen)

theorem agree_of_blank (hd : Blank d) (hd' : Blank d') {calls calls' : List DoneCall}
    (hperm : (handlingTimes calls).Perm (handlingTimes calls')) (hlen : calls.length < 2 ^ 64) :
    DeadlinesAgree (.create name d) (.create name' d') calls calls' := by
  have hlen' : (handlingTimes calls').length < 2 ^ 64 := by
    rw [← hperm.length_eq, length_handlingTimes]
    exact hlen
  rw [← length_handlingTimes] at hlen
  have hvalue := ackDeadline_of_blank hd hlen (fits_handlingTimes calls)
  have hvalue' := ackDeadline_of_blank hd' hlen' (fits_handlingTimes calls')
  unfold DeadlinesAgree
  rw [ackDeadline_doneAll, ackDeadline_doneAll, hvalue, hvalue', deadlineOf_perm hperm]
  exact ⟨rfl, rfl⟩

/-- After `2 ^ 64` equal times the deadline is what the memory gives, whatever the
time was. -/
theorem exists_disagreement (name name' : String) (d d' : AckDistribution) :
    ∃ calls : List DoneCall, calls.length = 2 ^ 64 ∧
      ¬ DeadlinesAgree (.create name d) (.create name' d') calls calls := by
  -- a name for the number, so that no list of this length is evaluated
  obtain ⟨n, hn⟩ : ∃ n, n = 2 ^ 64 := ⟨_, rfl⟩
  have hzero : UInt64.ofNat n = 0 := by
    rw [hn]
    rfl
  have hagree : ∀ t : ℕ, 10 ≤ t → t ≤ 600 → ∃ calls : List DoneCall, calls.length = n ∧
      (DeadlinesAgree (.create name d) (.create name' d') calls calls →
        ackDeadline d = some (t : ℤ)) := by
    intro t h10 h600
    have hfits : ∀ t' ∈ List.replicate n t, t' < 2 ^ 63 := fits_replicate (by omega)
    obtain ⟨calls, hcalls⟩ := exists_calls hfits
    refine ⟨calls, ?_, ?_⟩
    · rw [← length_handlingTimes, hcalls, List.length_replicate]
    · intro h
      obtain ⟨-, hvalue⟩ := h
      rw [ackDeadline_doneAll, hcalls, deadlineOf_replicate (by omega) h10 h600,
        ackDeadline_wrapped d hzero (by omega)] at hvalue
      exact hvalue
  obtain ⟨short, hshort, hshort20⟩ := hagree 20 (by omega) (by omega)
  obtain ⟨long, hlong, hlong600⟩ := hagree 600 (by omega) (by omega)
  rw [← hn]
  by_cases h : DeadlinesAgree (.create name d) (.create name' d') short short
  · refine ⟨long, hlong, ?_⟩
    intro h'
    have heq := (hshort20 h).symm.trans (hlong600 h')
    contradiction
  · exact ⟨short, hshort, h⟩

end Agreement

/-- For fewer than `2 ^ 64` calls the deadline is the percentile of the times
exactly where the constructor finds blank memory; at `2 ^ 64` calls the counters
are back where they were and the deadline has forgotten the times. -/
theorem deadlinesAgree_iff (name name' : String) (d d' : AckDistribution) :
    ((∀ calls calls' : List DoneCall, (handlingTimes calls).Perm (handlingTimes calls') →
        calls.length < 2 ^ 64 →
        DeadlinesAgree (.create name d) (.create name' d') calls calls') ↔
      Blank d ∧ Blank d') ∧
    ∃ calls : List DoneCall, calls.length = 2 ^ 64 ∧
      ¬ DeadlinesAgree (.create name d) (.create name' d') calls calls := by
  refine ⟨⟨?_, ?_⟩, exists_disagreement name name' d d'⟩
  · intro h
    constructor
    · apply blank_of_deadlines
      intro calls hlen
      obtain ⟨-, hvalue⟩ := h calls calls (.refl _) hlen
      rwa [ackDeadline_doneAll] at hvalue
    · apply blank_of_deadlines
      intro calls hlen
      obtain ⟨hsame, hvalue⟩ := h calls calls (.refl _) hlen
      rwa [hsame, ackDeadline_doneAll] at hvalue
  · rintro ⟨hd, hd'⟩ calls calls' hperm hlen
    exact agree_of_blank hd hd' hperm hlen

/-- Memory in which counter 42 happens to hold a one. -/
def strayDistribution : AckDistribution := ⟨(Vector.replicate _ 0).set 42 1 (by decide)⟩

/-- Two iterators that have recorded nothing: the one built on the stray counter
has a deadline of 42 seconds, the other one of 10. -/
theorem deadlines_differ :
    ¬ ∀ (name name' : String) (d d' : AckDistribution) (calls calls' : List DoneCall),
      (handlingTimes calls).Perm (handlingTimes calls') →
        DeadlinesAgree (.create name d) (.create name' d') calls calls' := by
  intro h
  obtain ⟨hsame, -⟩ := h "" "" strayDistribution emptyDistribution [] [] (.refl _)
  have hstray : ackDeadline strayDistribution = some 42 := by decide +kernel
  have hempty : ackDeadline emptyDistribution = some 10 := by decide +kernel
  change ackDeadline strayDistribution = ackDeadline emptyDistribution at hsame
  rw [hstray, hempty] at hsame
  contradiction

end Pubsuber
