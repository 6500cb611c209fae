import Pubsuber.Ack.Distribution
import Pubsuber.Library.Bisect
import Mathlib.Data.List.GetD
import Mathlib.Data.Rat.Floor

/-!
# Percentiles of a histogram

The search of `Percentile` is a bisection over the running sums. On any counters
it stops inside the table, since the last running sum is not below the target.
Where the running sums do not wrap they ascend, and the search stops at the
first one that reaches the target.
-/

namespace Pubsuber

namespace Distribution

open Bisect

variable {highLimit : ℕ}

/-- The sum of the counters `0..i`, without wrapping. -/
def partialSum (d : Distribution highLimit) (i : ℕ) : ℕ :=
  ((d.hist.toList.map UInt64.toNat).take (i + 1)).sum

def total (d : Distribution highLimit) : ℕ := (d.hist.toList.map UInt64.toNat).sum

/-- The running sum at index `i`, as `Percentile` computes it. -/
def sumAt (d : Distribution highLimit) (i : ℕ) : UInt64 :=
  (runningSums d.hist.toList 0).getD i 0

def slot (highLimit : ℕ) (v : UInt64) : ℕ := min v.toNat (highLimit - 1)

section RunningSums

@[simp] theorem length_runningSums (counts : List UInt64) (sum : UInt64) :
    (runningSums counts sum).length = counts.length := by
  induction counts generalizing sum with
  | nil => rfl
  | cons count counts ih =>
    unfold runningSums
    rw [List.length_cons, ih, List.length_cons]

/-- A running sum is the sum of the counters so far, modulo `2 ^ 64`. -/
theorem toNat_getD_runningSums {counts : List UInt64} (sum : UInt64) {i : ℕ}
    (hi : i < counts.length) :
    ((runningSums counts sum).getD i 0).toNat =
      (sum.toNat + ((counts.map UInt64.toNat).take (i + 1)).sum) % 2 ^ 64 := by
  induction counts generalizing sum i with
  | nil => simp at hi
  | cons count counts ih =>
    rw [runningSums, List.map_cons, List.take_succ_cons, List.sum_cons]
    cases i with
    | zero => simp
    | succ i =>
      have hi : i < counts.length := by simpa using hi
      rw [List.getD_cons_succ, ih _ hi, UInt64.toNat_add]
      omega

theorem getD_runningSums_add {counts : List UInt64} (sum c : UInt64) {i : ℕ}
    (hi : i < counts.length) :
    (runningSums counts (sum + c)).getD i 0 = (runningSums counts sum).getD i 0 + c := by
  induction counts generalizing sum i with
  | nil => simp at hi
  | cons count counts ih =>
    have hswap : sum + c + count = sum + count + c := by
      rw [UInt64.add_assoc, UInt64.add_comm c, UInt64.add_assoc]
    rw [runningSums, runningSums, hswap]
    cases i with
    | zero => rfl
    | succ i =>
      have hi : i < counts.length := by simpa using hi
      rw [List.getD_cons_succ, List.getD_cons_succ, ih _ hi]

theorem getD_runningSums_set {counts : List UInt64} (sum : UInt64) {v i : ℕ}
    (hv : v < counts.length) (hi : i < counts.length) :
    (runningSums (counts.set v (counts.getD v 0 + 1)) sum).getD i 0 =
      (runningSums counts sum).getD i 0 + if v ≤ i then 1 else 0 := by
  induction counts generalizing sum v i with
  | nil => simp at hi
  | cons count counts ih =>
    cases v with
    | zero =>
      rw [List.set_cons_zero, List.getD_cons_zero, runningSums, runningSums,
        ← UInt64.add_assoc, if_pos (Nat.zero_le i)]
      cases i with
      | zero => rfl
      | succ i =>
        have hi : i < counts.length := by simpa using hi
        rw [List.getD_cons_succ, List.getD_cons_succ, getD_runningSums_add _ _ hi]
    | succ v =>
      rw [List.set_cons_succ, List.getD_cons_succ, runningSums, runningSums]
      cases i with
      | zero => simp
      | succ i =>
        have hv : v < counts.length := by simpa using hv
        have hi : i < counts.length := by simpa using hi
        rw [List.getD_cons_succ, List.getD_cons_succ, ih _ hv hi]
        simp only [Nat.add_le_add_iff_right]

end RunningSums

variable (d : Distribution highLimit) {i j : ℕ} {p q : ℚ} {v : UInt64}

theorem toNat_sumAt (hi : i < highLimit) : (d.sumAt i).toNat = d.partialSum i % 2 ^ 64 := by
  unfold sumAt partialSum
  rw [toNat_getD_runningSums 0 (by simpa using hi)]
  simp

theorem partialSum_mono (hij : i ≤ j) : d.partialSum i ≤ d.partialSum j := by
  unfold partialSum
  apply List.Sublist.sum_le_sum (List.take_sublist_take_left (by omega))
  intro n _
  exact Nat.zero_le n

theorem partialSum_last (hpos : 0 < highLimit) : d.partialSum (highLimit - 1) = d.total := by
  unfold partialSum total
  rw [Nat.sub_add_cancel hpos, List.take_of_length_le (by simp)]

theorem partialSum_le_total (hi : i < highLimit) : d.partialSum i ≤ d.total := by
  rw [← d.partialSum_last (by omega)]
  exact d.partialSum_mono (by omega)

theorem slot_lt (hpos : 0 < highLimit) : slot highLimit v < highLimit := by
  unfold slot
  omega

theorem hist_record (hpos : 0 < highLimit) :
    (d.record v).hist.toList =
      d.hist.toList.set (slot highLimit v) (d.hist.toList.getD (slot highLimit v) 0 + 1) := by
  have hslot : (if v.toNat ≥ highLimit then highLimit - 1 else v.toNat) = slot highLimit v := by
    unfold slot
    split_ifs <;> omega
  have hlt : slot highLimit v < highLimit := slot_lt hpos
  have hcounter : d.hist.toList.getD (slot highLimit v) 0 = d.hist[slot highLimit v] := by
    rw [List.getD_eq_getElem _ _ (by simpa using hlt)]
    simp
  unfold record
  simp only [hslot]
  rw [dif_pos hlt, Vector.toList_set, hcounter]

theorem sumAt_record (hi : i < highLimit) :
    (d.record v).sumAt i = d.sumAt i + if slot highLimit v ≤ i then 1 else 0 := by
  have hpos : 0 < highLimit := by omega
  unfold sumAt
  rw [d.hist_record hpos]
  exact getD_runningSums_set 0 (by simpa using slot_lt hpos) (by simpa using hi)

/-- The sum that the counters before index `i + 1` must reach. -/
def target (d : Distribution highLimit) (p : ℚ) : ℕ :=
  ⌈((d.sumAt (highLimit - 1)).toNat : ℚ) * p⌉₊

def below (d : Distribution highLimit) (p : ℚ) (i : ℕ) : Bool :=
  decide ((d.sumAt i).toNat < d.target p)

def found (d : Distribution highLimit) (p : ℚ) : ℕ :=
  bisect (d.below p) highLimit 0 highLimit

theorem lowerBound_eq_bisect (sums : List UInt64) (target : UInt64) (fuel first len : ℕ) :
    lowerBound sums target fuel first len =
      bisect (fun i => decide (sums.getD i 0 < target)) fuel first len := by
  induction fuel generalizing first len with
  | zero => rfl
  | succ fuel ih =>
    unfold lowerBound bisect
    simp only [ih, decide_eq_true_eq]

theorem target_le (h1 : p ≤ 1) : d.target p ≤ (d.sumAt (highLimit - 1)).toNat := by
  apply Nat.ceil_le.mpr
  have hsum : (0 : ℚ) ≤ ((d.sumAt (highLimit - 1)).toNat : ℚ) := Nat.cast_nonneg _
  nlinarith

theorem target_mono (h : p ≤ q) : d.target p ≤ d.target q := by
  apply Nat.ceil_mono
  have hsum : (0 : ℚ) ≤ ((d.sumAt (highLimit - 1)).toNat : ℚ) := Nat.cast_nonneg _
  nlinarith

theorem getLastD_runningSums :
    (runningSums d.hist.toList 0).getLastD 0 = d.sumAt (highLimit - 1) := by
  unfold sumAt
  rw [List.getLastD_eq_getLast?, List.getLast?_eq_getElem?, length_runningSums,
    Vector.length_toList]
  rfl

/-- `Percentile` for an argument in range: the bisection, and the error where it
runs off the table. -/
theorem percentile_eq (h0 : 0 ≤ p) (h1 : p ≤ 1) :
    d.percentile p =
      if d.found p = highLimit then .error (.targetNotFound (UInt64.ofNat (d.target p)))
      else .ok (d.found p) := by
  have hceil : ∀ x : ℚ, x.ceil.toNat = ⌈x⌉₊ := by
    intro x
    have hx : x.ceil = ⌈x⌉ := by
      apply eq_of_forall_ge_iff
      intro n
      rw [Rat.ceil_le_iff, Int.ceil_le]
    rw [hx, Int.ceil_toNat]
  have htarget : (UInt64.ofNat (d.target p)).toNat = d.target p := by
    apply UInt64.toNat_ofNat_of_lt'
    exact lt_of_le_of_lt (d.target_le h1) (UInt64.toNat_lt_size _)
  have hbelow : (fun i => decide ((runningSums d.hist.toList 0).getD i 0 <
      UInt64.ofNat (d.target p))) = d.below p := by
    funext i
    unfold below sumAt
    simp only [UInt64.lt_iff_toNat_lt, htarget]
  unfold percentile
  rw [if_neg (by push Not; exact ⟨h0, h1⟩)]
  simp only [getLastD_runningSums, hceil, lowerBound_eq_bisect]
  unfold found
  rw [← hbelow]
  rfl

/-- `Percentile` does not throw for an argument in range, whatever the counters
hold: the last running sum reaches the target. -/
theorem percentile_found (hpos : 0 < highLimit) (h0 : 0 ≤ p) (h1 : p ≤ 1) :
    d.percentile p = .ok (d.found p) ∧ d.found p < highLimit ∧
      Boundary (d.below p) 0 highLimit (d.found p) := by
  have hboundary : Boundary (d.below p) 0 (0 + highLimit) (d.found p) :=
    bisect_boundary le_rfl
  rw [Nat.zero_add] at hboundary
  have hlast : d.below p (highLimit - 1) = false := by
    unfold below
    simpa using d.target_le h1
  have hlt := lt_of_last hboundary hpos hlast
  refine ⟨?_, hlt, hboundary⟩
  rw [d.percentile_eq h0 h1, if_neg (by omega)]

def reaching (d : Distribution highLimit) (target : ℕ) : Set ℕ :=
  {i | i < highLimit ∧ target ≤ (d.sumAt i).toNat}

def Ascending (d : Distribution highLimit) : Prop :=
  ∀ i j, i ≤ j → j < highLimit → (d.sumAt i).toNat ≤ (d.sumAt j).toNat

variable {d}

theorem reaching_anti {s t : ℕ} (h : s ≤ t) : d.reaching t ⊆ d.reaching s := by
  intro i hi
  exact ⟨hi.1, h.trans hi.2⟩

theorem isLeast_reaching (hasc : d.Ascending) {r : ℕ}
    (h : Boundary (d.below p) 0 highLimit r) (hr : r < highLimit) :
    IsLeast (d.reaching (d.target p)) r := by
  have hleast := isLeast_of_boundary (fun i j hij hj hbelow => by
    unfold below at *
    have hle := hasc i j hij hj
    rw [decide_eq_true_eq] at *
    omega) h hr
  constructor
  · have hno : d.below p r = false := hleast.1.2
    unfold below at hno
    exact ⟨hr, by simpa using hno⟩
  · intro i hi
    apply hleast.2
    refine ⟨Nat.zero_le i, ?_⟩
    unfold below
    simpa using hi.2

/-- Where the running sums ascend, `Percentile` finds the first one that reaches
the target. -/
theorem percentile_isLeast (hpos : 0 < highLimit) (hasc : d.Ascending) (h0 : 0 ≤ p)
    (h1 : p ≤ 1) :
    d.percentile p = .ok (d.found p) ∧ IsLeast (d.reaching (d.target p)) (d.found p) := by
  obtain ⟨heq, hlt, hboundary⟩ := d.percentile_found hpos h0 h1
  exact ⟨heq, isLeast_reaching hasc hboundary hlt⟩

section NoWrap

variable (htotal : d.total < 2 ^ 64)

include htotal

theorem toNat_sumAt_of_total (hi : i < highLimit) : (d.sumAt i).toNat = d.partialSum i := by
  rw [d.toNat_sumAt hi]
  apply Nat.mod_eq_of_lt
  exact (d.partialSum_le_total hi).trans_lt htotal

theorem ascending_of_total : d.Ascending := by
  intro i j hij hj
  rw [toNat_sumAt_of_total htotal hj, toNat_sumAt_of_total htotal (by omega)]
  exact d.partialSum_mono hij

theorem target_eq (hpos : 0 < highLimit) : d.target p = ⌈(d.total : ℚ) * p⌉₊ := by
  unfold target
  rw [toNat_sumAt_of_total htotal (by omega), d.partialSum_last hpos]

theorem reaching_eq (t : ℕ) : d.reaching t = {i | i < highLimit ∧ t ≤ d.partialSum i} := by
  ext i
  constructor
  · intro hi
    have heq := toNat_sumAt_of_total htotal hi.1
    exact ⟨hi.1, heq ▸ hi.2⟩
  · intro hi
    have heq := toNat_sumAt_of_total htotal hi.1
    exact ⟨hi.1, heq ▸ hi.2⟩

end NoWrap

section Record

theorem slot_last (hpos : 0 < highLimit) : slot highLimit v ≤ highLimit - 1 := by
  have hlt : slot highLimit v < highLimit := slot_lt hpos
  omega

theorem le_slot {r : ℕ} (hr : r < highLimit) (hv : r ≤ v.toNat) : r ≤ slot highLimit v := by
  unfold slot
  omega

theorem slot_le {r : ℕ} (hv : v.toNat ≤ r) : slot highLimit v ≤ r := by
  unfold slot
  omega

variable (v)

theorem toNat_sumAt_record (htotal : d.total + 1 < 2 ^ 64) (hi : i < highLimit) :
    ((d.record v).sumAt i).toNat =
      (d.sumAt i).toNat + if slot highLimit v ≤ i then 1 else 0 := by
  have hle := d.partialSum_le_total hi
  have hsum := toNat_sumAt_of_total (by omega : d.total < 2 ^ 64) hi
  rw [d.sumAt_record hi, UInt64.toNat_add]
  split_ifs
  · rw [UInt64.toNat_one]
    omega
  · rw [UInt64.toNat_zero]
    omega

theorem ascending_record (htotal : d.total + 1 < 2 ^ 64) : (d.record v).Ascending := by
  intro i j hij hj
  have hasc := ascending_of_total (by omega : d.total < 2 ^ 64) i j hij hj
  rw [toNat_sumAt_record v htotal hj, toNat_sumAt_record v htotal (by omega)]
  split_ifs <;> omega

theorem target_record (hpos : 0 < highLimit) (htotal : d.total + 1 < 2 ^ 64) :
    (d.record v).target p = ⌈((d.total : ℚ) + 1) * p⌉₊ := by
  have hsum := toNat_sumAt_of_total (by omega : d.total < 2 ^ 64)
    (by omega : highLimit - 1 < highLimit)
  unfold target
  rw [toNat_sumAt_record v htotal (by omega), if_pos (slot_last hpos), hsum,
    d.partialSum_last hpos]
  push_cast
  rfl

theorem target_record_le (hpos : 0 < highLimit) (htotal : d.total + 1 < 2 ^ 64)
    (h1 : p ≤ 1) : (d.record v).target p ≤ d.target p + 1 := by
  rw [target_record v hpos htotal, target_eq (by omega) hpos]
  apply Nat.ceil_le.mpr
  have hceil := Nat.le_ceil ((d.total : ℚ) * p)
  push_cast
  linarith

theorem target_le_record (hpos : 0 < highLimit) (htotal : d.total + 1 < 2 ^ 64)
    (h0 : 0 ≤ p) : d.target p ≤ (d.record v).target p := by
  rw [target_record v hpos htotal, target_eq (by omega) hpos]
  apply Nat.ceil_mono
  linarith

variable {r s : ℕ}

/-- A value from the percentile on does not lower it: in front of the value the
sums are as before, and the target is not smaller. -/
theorem le_percentile_record (hpos : 0 < highLimit) (htotal : d.total + 1 < 2 ^ 64)
    (h0 : 0 ≤ p) (hr : IsLeast (d.reaching (d.target p)) r)
    (hs : IsLeast ((d.record v).reaching ((d.record v).target p)) s) (hv : r ≤ v.toNat) :
    r ≤ s := by
  obtain ⟨hslt, hsum⟩ := hs.1
  rcases lt_or_ge s (slot highLimit v) with hlt | hge
  · apply hr.2
    rw [toNat_sumAt_record v htotal hslt, if_neg (by omega)] at hsum
    have htarget := target_le_record v hpos htotal h0
    exact ⟨hslt, by omega⟩
  · exact (le_slot hr.1.1 hv).trans hge

/-- A value up to the percentile does not raise it: the sum at the percentile
grows by one, and the target by one at most. -/
theorem percentile_record_le (hpos : 0 < highLimit) (htotal : d.total + 1 < 2 ^ 64)
    (h1 : p ≤ 1) (hr : IsLeast (d.reaching (d.target p)) r)
    (hs : IsLeast ((d.record v).reaching ((d.record v).target p)) s) (hv : v.toNat ≤ r) :
    s ≤ r := by
  obtain ⟨hrlt, hsum⟩ := hr.1
  apply hs.2
  have htarget := target_record_le v hpos htotal h1
  refine ⟨hrlt, ?_⟩
  rw [toNat_sumAt_record v htotal hrlt, if_pos (slot_le hv)]
  omega

/-- The record that brings the total back to zero: every index reaches the
target. -/
theorem percentile_record_wrapped (hpos : 0 < highLimit) (htotal : d.total + 1 = 2 ^ 64)
    (h0 : 0 ≤ p) (h1 : p ≤ 1) : (d.record v).percentile p = .ok 0 := by
  have hlast : (d.record v).sumAt (highLimit - 1) = 0 := by
    have hsum := toNat_sumAt_of_total (by omega : d.total < 2 ^ 64)
      (by omega : highLimit - 1 < highLimit)
    rw [d.partialSum_last hpos] at hsum
    apply UInt64.toNat_inj.mp
    rw [d.sumAt_record (by omega), if_pos (slot_last hpos), UInt64.toNat_add, hsum,
      UInt64.toNat_one, htotal]
    rfl
  have htarget : (d.record v).target p = 0 := by
    unfold target
    rw [hlast]
    simp
  obtain ⟨heq, -, hboundary⟩ := (d.record v).percentile_found hpos h0 h1
  have hs : (d.record v).found p = 0 := by
    apply eq_of_forall_not_less hboundary
    intro i _
    unfold below
    rw [htarget]
    simp
  rw [heq, hs]

end Record

end Distribution

open Pubsuber.Distribution

theorem ackDeadline_eq (ackDist : AckDistribution) :
    ackDeadline ackDist =
      some (min (max (ackDist.found (99 / 100) : ℤ) kMinAckDeadline) kMaxAckDeadline) := by
  obtain ⟨heq, -, -⟩ := ackDist.percentile_found (by decide) (by norm_num : (0 : ℚ) ≤ 99 / 100)
    (by norm_num)
  unfold ackDeadline
  rw [heq]

theorem eq_ok_of_toOption {ε α : Type} {x : Except ε α} {a : α} (h : x.toOption = some a) :
    x = .ok a := by
  cases x with
  | ok b => cases h; rfl
  | error e => contradiction

/-- With a total that fits, `Percentile` is the search for the first index whose
counters add up to the target, ascends with its argument, and follows a value
that is recorded; the deadline taken from any counters lies in its bounds. The
value must not bring the total back to zero for the percentile to stay up. -/
theorem percentile_search {highLimit : ℕ} (hpos : 0 < highLimit) (d : Distribution highLimit)
    (htotal : d.total < 2 ^ 64) :
    (∀ p : ℚ, 0 ≤ p → p ≤ 1 → ∃ r, d.percentile p = .ok r ∧
      IsLeast {i | i < highLimit ∧ ⌈(d.total : ℚ) * p⌉₊ ≤ d.partialSum i} r) ∧
    (∀ (p q : ℚ) (r s : ℕ), 0 ≤ p → p ≤ q → q ≤ 1 → d.percentile p = .ok r →
      d.percentile q = .ok s → r ≤ s) ∧
    (∀ (p : ℚ) (v : UInt64) (r : ℕ), 0 < p → p < 1 → d.percentile p = .ok r →
      ∃ s, (d.record v).percentile p = .ok s ∧
        (r ≤ v.toNat → d.total + 1 < 2 ^ 64 → r ≤ s) ∧ (v.toNat ≤ r → s ≤ r)) ∧
    ∀ ackDist : AckDistribution, ∃ dl, ackDeadline ackDist = some dl ∧ 10 ≤ dl ∧ dl ≤ 600 := by
  have hfound : ∀ p : ℚ, 0 ≤ p → p ≤ 1 → d.percentile p = .ok (d.found p) ∧
      IsLeast (d.reaching (d.target p)) (d.found p) :=
    fun p h0 h1 => percentile_isLeast hpos (ascending_of_total htotal) h0 h1
  have hleast : ∀ (p : ℚ) (r : ℕ), 0 ≤ p → p ≤ 1 → d.percentile p = .ok r →
      IsLeast (d.reaching (d.target p)) r := by
    intro p r h0 h1 hr
    obtain ⟨heq, h⟩ := hfound p h0 h1
    rw [hr] at heq
    cases heq
    exact h
  refine ⟨?_, ?_, ?_, ?_⟩
  · intro p h0 h1
    obtain ⟨heq, h⟩ := hfound p h0 h1
    rw [reaching_eq htotal, target_eq htotal hpos] at h
    exact ⟨d.found p, heq, h⟩
  · intro p q r s h0 hpq h1 hr hs
    apply (hleast q s (h0.trans hpq) h1 hs).mono (hleast p r h0 (hpq.trans h1) hr)
    exact reaching_anti (d.target_mono hpq)
  · intro p v r h0 h1 hr
    have hr := hleast p r h0.le h1.le hr
    rcases Nat.lt_or_ge (d.total + 1) (2 ^ 64) with hlt | hge
    · obtain ⟨heq, hs⟩ := percentile_isLeast hpos (ascending_record v hlt) h0.le h1.le
      refine ⟨(d.record v).found p, heq, ?_, ?_⟩
      · exact fun hv _ => le_percentile_record v hpos hlt h0.le hr hs hv
      · exact fun hv => percentile_record_le v hpos hlt h1.le hr hs hv
    · refine ⟨0, percentile_record_wrapped v hpos (by omega) h0.le h1.le, ?_, ?_⟩
      · exact fun _ hlt => absurd hlt (by omega)
      · exact fun _ => Nat.zero_le r
  · intro ackDist
    have heq := ackDeadline_eq ackDist
    exact ⟨_, heq, ackDeadline_bounds heq⟩

theorem percentile_search_three :
    ∃ s, ((⟨#v[2, 0, 3]⟩ : Distribution 3).record 2).percentile (1 / 2) = .ok s ∧ 2 ≤ s := by
  obtain ⟨-, -, hrecord, -⟩ :=
    percentile_search (by decide) (⟨#v[2, 0, 3]⟩ : Distribution 3) (by decide)
  obtain ⟨s, heq, hle, -⟩ := hrecord (1 / 2) 2 2 (by norm_num) (by norm_num)
    (eq_ok_of_toOption (by decide +kernel))
  exact ⟨s, heq, hle (by decide) (by decide)⟩

/-- The value that brings the total from its largest back to zero moves the
median from the last index to the first. -/
theorem percentile_record_drops :
    ¬ ∀ (highLimit : ℕ) (d : Distribution highLimit) (p : ℚ) (v : UInt64) (r s : ℕ),
      0 < highLimit → d.total < 2 ^ 64 → 0 < p → p < 1 → d.percentile p = .ok r →
        r ≤ v.toNat → (d.record v).percentile p = .ok s → r ≤ s := by
  intro h
  have hle := h 2 ⟨#v[0, 18446744073709551615]⟩ (1 / 2) 1 1 0 (by decide) (by decide)
    (by norm_num) (by norm_num) (eq_ok_of_toOption (by decide +kernel)) (by decide)
    (eq_ok_of_toOption (by decide +kernel))
  omega

end Pubsuber
