import Pubsuber.Library.Greedy
import Pubsuber.Ack.Algorithms

/-!
# What `split_request_ids` takes

The accumulator of the loop is a 32-bit `int`. For ids that the channel can
deliver it never leaves the range in which it is exact, and the split is the
greedy one.
-/

namespace Pubsuber

open HashContainer

/-- The largest message that the channel receives, hence the largest ack id. -/
def kMaxSendRecvBytes : ℕ := 20 * 1024 * 1024

def Admitted (ackIDs : List AckID) : Prop :=
  ∀ ackID ∈ ackIDs, ackID.utf8ByteSize ≤ kMaxSendRecvBytes

/-- What an id is taken to add to the size of a request. -/
def idCost (ackID : AckID) : ℕ := kOverheadPerID + ackID.utf8ByteSize

/-- What a request with these ids is taken to cost. -/
def requestCost (ackIDs : List AckID) : ℕ := kReqFixedOverhead + Greedy.cost idCost ackIDs

/-- Neither the addition nor the narrowing changes the value. -/
theorem addToSize_eq {size : ℕ} (hsize : size < 2 ^ 31 - 1) {ackID : AckID}
    (hid : ackID.utf8ByteSize ≤ kMaxSendRecvBytes) :
    addToSize size ackID.utf8ByteSize = size + idCost ackID := by
  unfold addToSize idCost
  unfold kMaxSendRecvBytes at hid
  apply Nat.mod_eq_of_lt
  unfold kOverheadPerID
  omega

section

variable {α : Type} {key : α → AckID} (order : HashOrder)

theorem cost_map_key (xs : List α) :
    Greedy.cost (fun x => idCost (key x)) xs = Greedy.cost idCost (xs.map key) := by
  simp [Greedy.cost, Function.comp_def]

theorem splitLoop_fst_eq {maxSize : ℕ} (hmax : maxSize ≤ 2 ^ 31 - 1) (size : ℕ)
    (remainder : List α) (toSend : Unordered key) (hids : Admitted (remainder.map key)) :
    (splitLoop order maxSize size remainder toSend).1 =
      Greedy.left (fun x => idCost (key x)) maxSize size remainder := by
  induction remainder generalizing size toSend with
  | nil => rfl
  | cons x remainder ih =>
    have hx : (key x).utf8ByteSize ≤ kMaxSendRecvBytes := hids (key x) (by simp)
    have hrest : Admitted (remainder.map key) :=
      fun ackID h => hids ackID (List.mem_cons_of_mem _ h)
    simp only [splitLoop, Greedy.left]
    by_cases hsize : size < maxSize
    · rw [if_pos hsize, addToSize_eq (by omega) hx]
      split_ifs with hfits
      · exact ih _ _ hrest
      · rfl
    · rw [if_neg hsize, if_neg (by omega)]

theorem splitRequestIds_fst_eq {maxSize : ℕ} (hmax : maxSize ≤ 2 ^ 31 - 1)
    (remainder toSend : Unordered key) (hids : Admitted remainder.keys) :
    (splitRequestIds order remainder toSend maxSize).1.toList =
      Greedy.left (fun x => idCost (key x)) maxSize kReqFixedOverhead remainder.toList :=
  splitLoop_fst_eq order hmax kReqFixedOverhead remainder.toList .empty hids

theorem splitRequestIds_snd_perm {maxSize : ℕ} (hmax : maxSize ≤ 2 ^ 31 - 1)
    (remainder toSend : Unordered key) (hids : Admitted remainder.keys) :
    (splitRequestIds order remainder toSend maxSize).2.toList.Perm
      (Greedy.taken (fun x => idCost (key x)) maxSize kReqFixedOverhead remainder.toList) := by
  have hperm := splitRequestIds_perm order remainder toSend maxSize
  have hgreedy := Greedy.taken_append_left (fun x => idCost (key x)) maxSize kReqFixedOverhead
    remainder.toList
  rw [splitRequestIds_fst_eq order hmax remainder toSend hids] at hperm
  nth_rewrite 2 [← hgreedy] at hperm
  exact (List.perm_append_left_iff _).mp (hperm.trans List.perm_append_comm)

theorem requestCost_batch {maxSize : ℕ} (hmax : maxSize ≤ 2 ^ 31 - 1)
    (remainder toSend : Unordered key) (hids : Admitted remainder.keys) :
    requestCost (splitRequestIds order remainder toSend maxSize).2.keys =
      kReqFixedOverhead + Greedy.cost (fun x => idCost (key x))
        (Greedy.taken (fun x => idCost (key x)) maxSize kReqFixedOverhead remainder.toList) := by
  have h := splitRequestIds_snd_perm order hmax remainder toSend hids
  unfold requestCost Unordered.keys
  rw [← cost_map_key, Greedy.cost_perm _ h]

theorem requestCost_batch_lt {maxSize : ℕ} (hmax : maxSize ≤ 2 ^ 31 - 1)
    (remainder toSend : Unordered key) (hids : Admitted remainder.keys)
    (hne : (splitRequestIds order remainder toSend maxSize).2.toList ≠ []) :
    requestCost (splitRequestIds order remainder toSend maxSize).2.keys < maxSize := by
  have hbatch := splitRequestIds_snd_perm order hmax remainder toSend hids
  rw [requestCost_batch order hmax remainder toSend hids]
  apply Greedy.spent_lt
  intro htaken
  rw [htaken] at hbatch
  exact hne hbatch.eq_nil

/-- What a call of `split_request_ids` has done: nothing is lost, the batch costs
less than `maxSize`, and the next id would not have fitted. -/
structure SplitSpec (remainder rest toSend : Unordered key) (maxSize : ℕ) : Prop where
  disjoint : ∀ ackID ∈ rest.keys, ackID ∉ toSend.keys
  union : ∀ x, x ∈ remainder.toList ↔ x ∈ rest.toList ∨ x ∈ toSend.toList
  suffix : rest.toList <:+ remainder.toList
  fits : toSend.toList ≠ [] → requestCost toSend.keys < maxSize
  maximal : rest.toList = [] ∨ maxSize ≤ kReqFixedOverhead ∨
    ∃ x xs, rest.toList = x :: xs ∧ maxSize ≤ requestCost toSend.keys + idCost (key x)

theorem splitRequestIds_disjoint (remainder toSend : Unordered key) (maxSize : ℕ) :
    let split := splitRequestIds order remainder toSend maxSize
    ∀ ackID ∈ split.1.keys, ackID ∉ split.2.keys := by
  intro split ackID h
  have hperm := splitRequestIds_keys_perm order remainder toSend maxSize
  exact List.disjoint_of_nodup_append (hperm.nodup_iff.mpr remainder.keys_nodup) h

/-- For ids that the channel can deliver and a `maxSize` that is an `int`, the split
is without loss, within the budget and maximal, and the accumulator is exact in
every comparison. -/
theorem splitRequestIds_spec (remainder toSend : Unordered key) (maxSize : ℕ)
    (hmax : maxSize ≤ 2 ^ 31 - 1) (hids : Admitted remainder.keys) :
    let split := splitRequestIds order remainder toSend maxSize
    SplitSpec remainder split.1 split.2 maxSize ∧
      ∀ size < maxSize, ∀ ackID ∈ remainder.keys,
        addToSize size ackID.utf8ByteSize = size + idCost ackID := by
  intro split
  have hrest := splitRequestIds_fst_eq order hmax remainder toSend hids
  have hcost := requestCost_batch order hmax remainder toSend hids
  constructor
  · constructor
    case disjoint => exact splitRequestIds_disjoint order remainder toSend maxSize
    case union =>
      intro x
      rw [← List.mem_append]
      exact (splitRequestIds_perm order remainder toSend maxSize).mem_iff.symm
    case suffix => exact splitLoop_suffix order maxSize _ _ _
    case fits => exact requestCost_batch_lt order hmax remainder toSend hids
    case maximal =>
      rw [hcost, hrest]
      rcases Greedy.left_maximal (fun x => idCost (key x)) maxSize kReqFixedOverhead
        remainder.toList with h | ⟨x, xs, hleft, hx⟩
      · exact .inl h
      · exact .inr (.inr ⟨x, xs, hleft, hx⟩)
  · intro size hsize ackID hmem
    exact addToSize_eq (by omega) (hids ackID hmem)

end

def threeIds : AckIDSet := ⟨["aaaaaaaaaa", "bbbbbbbbbb", "cccccccccc"], by decide⟩

/-- Two ids of ten bytes cost 126 and a third one would make it 139. -/
theorem splitRequestIds_spec_threeIds :
    let split := splitRequestIds .newestFirst threeIds .empty 130
    SplitSpec threeIds split.1 split.2 130 ∧ split.1.keys = ["cccccccccc"] :=
  ⟨(splitRequestIds_spec .newestFirst threeIds .empty 130 (by decide)
    (by unfold Admitted; decide)).1, by decide⟩

def idOfSize : ℕ → AckID
  | 0 => ""
  | n + 1 => idOfSize n ++ "a"

@[simp] theorem utf8ByteSize_idOfSize (n : ℕ) : (idOfSize n).utf8ByteSize = n := by
  induction n with
  | zero => rfl
  | succ n ih =>
    rw [idOfSize, String.utf8ByteSize_append, ih]
    rfl

end Pubsuber
