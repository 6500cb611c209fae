import Mathlib.Data.Nat.Log
import Mathlib.Tactic

/-!
# Sizes of protobuf fields on the wire

Fields with a number below 16, so that a tag is one byte.
-/

namespace WireSize

/-- The number of base-128 digits. -/
def varint (n : ℕ) : ℕ := Nat.log 128 n + 1

/-- Tag, length and bytes. -/
def stringField (s : String) : ℕ := 1 + varint s.utf8ByteSize + s.utf8ByteSize

/-- A zero is not written; a negative number is extended to 64 bits. -/
def int32Field (value : ℤ) : ℕ := if value = 0 then 0 else 1 + varint (value % 2 ^ 64).toNat

def repeatedStringField (ss : List String) : ℕ := (ss.map stringField).sum

theorem varint_eq {n m : ℕ} (hlow : 128 ^ m ≤ n) (hhigh : n < 128 ^ (m + 1)) :
    varint n = m + 1 := by
  unfold varint
  rw [Nat.log_eq_of_pow_le_of_lt_pow hlow hhigh]

theorem varint_of_lt {n : ℕ} (h : n < 128) : varint n = 1 := by
  unfold varint
  rw [Nat.log_of_lt h]

theorem varint_mono {m n : ℕ} (h : m ≤ n) : varint m ≤ varint n :=
  Nat.add_le_add_right (Nat.log_mono_right h) 1

@[simp] theorem repeatedStringField_nil : repeatedStringField [] = 0 := rfl

@[simp] theorem repeatedStringField_cons (s : String) (ss : List String) :
    repeatedStringField (s :: ss) = stringField s + repeatedStringField ss := by
  simp [repeatedStringField]

theorem repeatedStringField_perm {ss ss' : List String} (h : ss.Perm ss') :
    repeatedStringField ss = repeatedStringField ss' :=
  (h.map stringField).sum_eq

theorem stringField_le_iff {s : String} {n : ℕ} (hn : n ≤ 129) :
    stringField s ≤ n ↔ s.utf8ByteSize + 2 ≤ n := by
  unfold stringField
  by_cases hs : s.utf8ByteSize < 128
  · rw [varint_of_lt hs]
    omega
  · have := varint_mono (Nat.zero_le s.utf8ByteSize)
    rw [varint_of_lt (n := 0) (by omega)] at this
    omega

end WireSize
