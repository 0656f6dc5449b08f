import Mathlib.Tactic

/-!
# Lossy UTF-8

Decoding is total: where no character starts, the longest beginning of one there is
replaced. The bytes of a text decode to that text.
-/
namespace LoadBear.Utf8

/-- The bytes of a text. -/
def bytes (text : List Char) : List UInt8 := text.flatMap String.utf8EncodeChar

def replacementChar : Char := Char.ofNat 0xFFFD

def isContinuation (b : UInt8) : Bool := 0x80 ≤ b ∧ b ≤ 0xBF

/-- Whether two bytes can begin a character of three or four. -/
def begins (first second : UInt8) : Bool :=
  (first = 0xE0 ∧ 0xA0 ≤ second ∧ second ≤ 0xBF) ∨
    (0xE1 ≤ first ∧ first ≤ 0xEC ∧ isContinuation second) ∨
    (first = 0xED ∧ 0x80 ≤ second ∧ second ≤ 0x9F) ∨
    (0xEE ≤ first ∧ first ≤ 0xEF ∧ isContinuation second) ∨
    (first = 0xF0 ∧ 0x90 ≤ second ∧ second ≤ 0xBF) ∨
    (0xF1 ≤ first ∧ first ≤ 0xF3 ∧ isContinuation second) ∨
    (first = 0xF4 ∧ 0x80 ≤ second ∧ second ≤ 0x8F)

/-- The bytes replaced where no character starts. -/
def invalidLength : List UInt8 → ℕ
  | first :: second :: third :: _ =>
    if begins first second then if 0xF0 ≤ first ∧ isContinuation third then 3 else 2 else 1
  | [first, second] => if begins first second then 2 else 1
  | _ => 1

/-- The text read after skipping some bytes. -/
def decodeFrom : ℕ → List UInt8 → List Char
  | _, [] => []
  | skip + 1, _ :: rest => decodeFrom skip rest
  | 0, b :: rest =>
    match (b :: rest).toByteArray.utf8DecodeChar? 0 with
    | some c => c :: decodeFrom (c.utf8Size - 1) rest
    | none => replacementChar :: decodeFrom (invalidLength (b :: rest) - 1) rest

/-- `String::from_utf8_lossy`. -/
def decodeLossy (bs : List UInt8) : List Char := decodeFrom 0 bs

@[simp] theorem bytes_cons (c : Char) (text : List Char) :
    bytes (c :: text) = String.utf8EncodeChar c ++ bytes text := rfl

lemma decodeFrom_append (skipped bs : List UInt8) :
    decodeFrom skipped.length (skipped ++ bs) = decodeFrom 0 bs := by
  induction skipped with
  | nil => rfl
  | cons b skipped ih => exact ih

lemma decodeFrom_encodeChar (c : Char) (bs : List UInt8) :
    decodeFrom 0 (String.utf8EncodeChar c ++ bs) = c :: decodeFrom 0 bs := by
  have hlength := String.length_utf8EncodeChar c
  have hdecode : (String.utf8EncodeChar c ++ bs).toByteArray.utf8DecodeChar? 0 = some c := by
    rw [List.toByteArray_append]
    exact ByteArray.utf8DecodeChar?_utf8EncodeChar_append
  cases hbytes : String.utf8EncodeChar c with
  | nil =>
    have hpos := c.utf8Size_pos
    rw [hbytes, List.length_nil] at hlength
    omega
  | cons b tail =>
    rw [hbytes] at hdecode hlength
    rw [List.cons_append] at hdecode ⊢
    have htail : c.utf8Size - 1 = tail.length := by
      rw [List.length_cons] at hlength
      omega
    rw [decodeFrom, hdecode]
    dsimp only
    rw [htail, decodeFrom_append]

/-- Nothing is lost on a text's own bytes. -/
theorem decodeLossy_bytes (text : List Char) : decodeLossy (bytes text) = text := by
  unfold decodeLossy
  induction text with
  | nil => rfl
  | cons c text ih => rw [bytes_cons, decodeFrom_encodeChar, ih]

/-- Every character comes from a byte of its own. -/
lemma length_decodeFrom_le (skip : ℕ) (bs : List UInt8) :
    (decodeFrom skip bs).length ≤ bs.length := by
  induction bs generalizing skip with
  | nil => cases skip <;> simp [decodeFrom]
  | cons b rest ih =>
    cases skip with
    | succ skip => exact (ih skip).trans (Nat.le_succ _)
    | zero =>
      rw [decodeFrom]
      split
      · exact Nat.succ_le_succ (ih _)
      · exact Nat.succ_le_succ (ih _)

/-- A stray continuation byte and a cut character are replaced by one mark each. -/
example : decodeLossy [0x41, 0x80, 0xE2, 0x82, 0x42] =
    ['A', replacementChar, replacementChar, 'B'] := by decide +kernel

end LoadBear.Utf8
