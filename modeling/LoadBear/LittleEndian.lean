import Mathlib.Data.List.Basic
import Mathlib.Data.Nat.Basic
import Mathlib.Algebra.Ring.Nat

/-!
# Little-endian fields

Numbers of a fixed width in a buffer of bytes, the lowest byte first.
-/
namespace LittleEndian

/-- The low bytes of a number, as many as asked for. -/
def toBytes : ℕ → ℕ → List UInt8
  | 0, _ => []
  | width + 1, value => UInt8.ofNat value :: toBytes width (value / 256)

/-- The number that some bytes denote. -/
def ofBytes : List UInt8 → ℕ
  | [] => 0
  | b :: bs => b.toNat + 256 * ofBytes bs

/-- The field of a width at an offset, if the buffer reaches that far. -/
def read (buffer : List UInt8) (width offset : ℕ) : Option ℕ :=
  if offset + width ≤ buffer.length then some (ofBytes ((buffer.drop offset).take width)) else none

@[simp] theorem length_toBytes (width value : ℕ) : (toBytes width value).length = width := by
  induction width generalizing value with
  | zero => rfl
  | succ width ih => rw [toBytes, List.length_cons, ih]

theorem ofBytes_toBytes (width value : ℕ) :
    ofBytes (toBytes width value) = value % 256 ^ width := by
  induction width generalizing value with
  | zero => rw [toBytes, ofBytes, pow_zero, Nat.mod_one]
  | succ width ih =>
    rw [toBytes, ofBytes, ih, pow_succ', Nat.mod_mul, UInt8.toNat_ofNat']

/-- What stands before a field moves it. -/
theorem read_append_left (before buffer : List UInt8) (width offset : ℕ) :
    read (before ++ buffer) width (before.length + offset) = read buffer width offset := by
  simp only [read, List.length_append, List.drop_length_add_append, Nat.add_assoc,
    Nat.add_le_add_iff_left]

/-- A field in front reads as the number written there. -/
theorem read_toBytes (width value : ℕ) (after : List UInt8) :
    read (toBytes width value ++ after) width 0 = some (value % 256 ^ width) := by
  have htake : (toBytes width value ++ after).take width = toBytes width value :=
    List.take_left' (length_toBytes width value)
  rw [read, if_pos (by simp), List.drop_zero, htake, ofBytes_toBytes]

end LittleEndian
