import Pubsuber.Library.Unordered
import Pubsuber.Retry.Status

/-!
# Container types and batching of ack ids

`ContainerTypes.h` and `Algorithms.h`. An iterator into the node-based
keep-alive map stays valid while nodes move around it, so it is represented by
the key of the node it points to. Time points are nanoseconds of the steady
clock; `ExtendIn` truncates to milliseconds towards zero as `duration_cast`
does.
-/

namespace Pubsuber

open HashContainer

abbrev AckID := String

structure AckWatchDescriptior where
  nextAck : TimePoint
  deriving DecidableEq, Repr

/-- Milliseconds until the deadline has to be extended. Both times come from readings of the
steady clock, so their difference fits the `int64_t` of the source. -/
def AckWatchDescriptior.extendIn (descr : AckWatchDescriptior) (now : TimePoint) : ℤ :=
  (descr.nextAck - now).tdiv 1000000

def AckWatchDescriptior.updateNextAck (_descr : AckWatchDescriptior) (t : TimePoint) :
    AckWatchDescriptior :=
  { nextAck := t }

abbrev WatchDescrContainer := Unordered (Prod.fst : AckID × AckWatchDescriptior → AckID)

/-- An iterator into a `WatchDescrContainer`, named by the key of its node. -/
abbrev WatchDescrIterator := AckID

abbrev AckIDSet := Unordered (id : AckID → AckID)

abbrev AckIDPack := AckID × WatchDescrIterator

/-- `PackSetHelper` hashes and compares the first component only. -/
abbrev AckIDPackSet := Unordered (Prod.fst : AckIDPack → AckID)

def kReqFixedOverhead : ℕ := 100

def kOverheadPerID : ℕ := 3

def eraseKeys (c : WatchDescrContainer) (what : AckIDSet) : WatchDescrContainer :=
  what.toList.foldl Unordered.erase c

/-- The predicate may update captured variables, here threaded as `σ`. -/
def giveMeTheKeys {σ : Type} (order : HashOrder) (ids : WatchDescrContainer)
    (toModify : AckIDPackSet) (pred : σ → AckWatchDescriptior → Bool × σ) (captured : σ) :
    AckIDPackSet × σ :=
  ids.toList.foldl (fun acc pair =>
    let taken := pred acc.2 pair.2
    (if taken.1 then acc.1.emplace order (pair.1, pair.1) else acc.1, taken.2))
    (toModify, captured)

section Split

variable {α : Type} {key : α → AckID}

/-- `size` is a 32-bit `int` to which a `size_t` is added and which is compared
with a `uint32_t`; all of this acts on its 32-bit pattern. -/
def addToSize (size : ℕ) (ackIdSize : ℕ) : ℕ := (size + (kOverheadPerID + ackIdSize)) % 2 ^ 32

/-- The loop of `split_request_ids`: `it` is always the first remaining element. -/
def splitLoop (order : HashOrder) (maxSize : ℕ) :
    ℕ → List α → Unordered key → List α × Unordered key
  | _, [], toSend => ([], toSend)
  | size, x :: remainder, toSend =>
    if size < maxSize then
      let size := addToSize size (key x).utf8ByteSize
      if size < maxSize then
        splitLoop order maxSize size remainder (toSend.emplace order x)
      else (x :: remainder, toSend)
    else (x :: remainder, toSend)

theorem splitLoop_suffix (order : HashOrder) (maxSize size : ℕ) (remainder : List α)
    (toSend : Unordered key) : (splitLoop order maxSize size remainder toSend).1 <:+ remainder := by
  induction remainder generalizing size toSend with
  | nil => exact List.suffix_refl _
  | cons x remainder ih =>
    simp only [splitLoop]
    split_ifs
    · exact (ih _ _).trans (List.suffix_cons x remainder)
    · exact List.suffix_refl _
    · exact List.suffix_refl _

/-- Moves a prefix of `remainder` into `toSend`, whose old content is dropped. -/
def splitRequestIds (order : HashOrder) (remainder _toSend : Unordered key) (maxSize : ℕ) :
    Unordered key × Unordered key :=
  let split := splitLoop order maxSize kReqFixedOverhead remainder.toList .empty
  (⟨split.1, ((splitLoop_suffix order maxSize _ remainder.toList .empty).sublist.map key).nodup
    remainder.nodup⟩, split.2)

/-- The ids put into the request. An `AckIDSet` is drained meanwhile, but no
caller reads the batch again. -/
def populateAckIds (c : Unordered key) : List AckID := c.keys

def Fits (maxSize : ℕ) (ackID : AckID) : Prop :=
  addToSize kReqFixedOverhead ackID.utf8ByteSize < maxSize

instance (maxSize : ℕ) (ackID : AckID) : Decidable (Fits maxSize ackID) :=
  inferInstanceAs (Decidable (_ < _))

theorem splitLoop_perm (order : HashOrder) (maxSize size : ℕ) (remainder : List α)
    (toSend : Unordered key) (hn : (remainder.map key).Nodup)
    (hd : ∀ x ∈ remainder, key x ∉ toSend.keys) :
    ((splitLoop order maxSize size remainder toSend).1 ++
      (splitLoop order maxSize size remainder toSend).2.toList).Perm
        (remainder ++ toSend.toList) := by
  induction remainder generalizing size toSend with
  | nil => exact List.Perm.refl _
  | cons x remainder ih =>
    obtain ⟨hx, hn⟩ := List.nodup_cons.mp hn
    have hfresh : key x ∉ toSend.keys := hd x List.mem_cons_self
    simp only [splitLoop]
    split_ifs
    · have hd' : ∀ y ∈ remainder, key y ∉ (toSend.emplace order x).keys := by
        intro y hy
        rw [Unordered.mem_keys_emplace]
        rintro (h | h)
        · exact hx (h ▸ List.mem_map_of_mem hy)
        · exact hd y (List.mem_cons_of_mem x hy) h
      refine (ih _ _ hn hd').trans ?_
      rw [Unordered.toList_emplace_of_not_mem order hfresh]
      exact ((order.perm _).append_left remainder).trans List.perm_middle
    · exact List.Perm.refl _
    · exact List.Perm.refl _

theorem splitRequestIds_perm (order : HashOrder) (remainder toSend : Unordered key)
    (maxSize : ℕ) :
    ((splitRequestIds order remainder toSend maxSize).1.toList ++
      (splitRequestIds order remainder toSend maxSize).2.toList).Perm remainder.toList := by
  have h := splitLoop_perm order maxSize kReqFixedOverhead remainder.toList .empty
    remainder.nodup (by simp)
  simpa [splitRequestIds] using h

theorem splitRequestIds_keys_perm (order : HashOrder) (remainder toSend : Unordered key)
    (maxSize : ℕ) :
    ((splitRequestIds order remainder toSend maxSize).1.keys ++
      (splitRequestIds order remainder toSend maxSize).2.keys).Perm remainder.keys := by
  simpa [Unordered.keys] using (splitRequestIds_perm order remainder toSend maxSize).map key

theorem splitLoop_fst_order (order order' : HashOrder) (maxSize size : ℕ) (remainder : List α)
    (toSend toSend' : Unordered key) :
    (splitLoop order maxSize size remainder toSend).1 =
      (splitLoop order' maxSize size remainder toSend').1 := by
  induction remainder generalizing size toSend toSend' with
  | nil => rfl
  | cons x remainder ih =>
    simp only [splitLoop]
    split_ifs
    · exact ih _ _ _
    · rfl
    · rfl

theorem splitRequestIds_fst_order (order order' : HashOrder)
    (remainder toSend toSend' : Unordered key) (maxSize : ℕ) :
    (splitRequestIds order remainder toSend maxSize).1 =
      (splitRequestIds order' remainder toSend' maxSize).1 :=
  Unordered.ext (splitLoop_fst_order order order' maxSize _ _ _ _)

theorem splitRequestIds_length_lt (order : HashOrder) {remainder toSend : Unordered key}
    {maxSize : ℕ} (hm : kReqFixedOverhead < maxSize) {x : α} {xs : List α}
    (hr : remainder.toList = x :: xs) (hx : Fits maxSize (key x)) :
    (splitRequestIds order remainder toSend maxSize).1.toList.length <
      remainder.toList.length := by
  have h := (splitLoop_suffix order maxSize (addToSize kReqFixedOverhead (key x).utf8ByteSize)
    xs ((Unordered.empty : Unordered key).emplace order x)).length_le
  have hx' : addToSize kReqFixedOverhead (key x).utf8ByteSize < maxSize := hx
  simp only [splitRequestIds, hr, splitLoop, if_pos hm, if_pos hx', List.length_cons]
  omega

theorem splitRequestIds_of_not_fits (order : HashOrder) {remainder toSend : Unordered key}
    {maxSize : ℕ} {x : α} {xs : List α}
    (hr : remainder.toList = x :: xs) (hx : ¬ Fits maxSize (key x)) :
    (splitRequestIds order remainder toSend maxSize).1 = remainder := by
  apply Unordered.ext
  simp only [splitRequestIds, hr, splitLoop]
  split_ifs with h h'
  · exact absurd h' hx
  · rfl
  · rfl

end Split

theorem mem_keys_eraseKeys {c : WatchDescrContainer} {what : AckIDSet} {ackID : AckID} :
    ackID ∈ (eraseKeys c what).keys ↔ ackID ∈ c.keys ∧ ackID ∉ what.keys := by
  rw [eraseKeys, Unordered.mem_keys_foldl_erase]
  simp only [Unordered.keys, List.map_id]

end Pubsuber
