import LoadBear.ByteText

/-!
# JSON as it is written

A value and the texts that write it, with any white space and any legal escapes. A program
that searches such a text for quoted names sees it flat, as names with what follows their
colons, one after the other and at whatever depth.
-/
namespace LoadBear.JsonText

open ByteText

section Values

/-- One character of a string, or one escape. -/
inductive StringUnit
  | plain (c : Char) (legal : c ≠ '"' ∧ c ≠ '\\' ∧ 0x20 ≤ c.val)
  | escape (c : Char) (legal : c ∈ ['"', '\\', '/', 'b', 'f', 'n', 'r', 't'])
  | unicode (a b c d : Char) (legal : ∀ h ∈ [a, b, c, d], h ∈ "0123456789abcdefABCDEF".toList)

def StringUnit.text : StringUnit → List Char
  | plain c _ => [c]
  | escape c _ => ['\\', c]
  | unicode a b c d _ => ['\\', 'u', a, b, c, d]

/-- A string without its quotes. -/
def raw (units : List StringUnit) : List Char := units.flatMap StringUnit.text

/-- A string written without escapes. -/
def unescaped (text : List Char) (legal : ∀ c ∈ text, c ≠ '"' ∧ c ≠ '\\' ∧ 0x20 ≤ c.val) :
    List StringUnit :=
  text.pmap .plain legal

@[simp] lemma raw_unescaped {text : List Char}
    (legal : ∀ c ∈ text, c ≠ '"' ∧ c ≠ '\\' ∧ 0x20 ≤ c.val) :
    raw (unescaped text legal) = text := by
  induction text with
  | nil => rfl
  | cons c text ih =>
    exact congrArg (c :: ·) (ih fun d hd => legal d (List.mem_cons_of_mem _ hd))

/-- A number: its sign, its whole part without a leading zero, and what comes after it. -/
structure Number where
  negative : Bool
  whole : List Char
  fraction : List Char
  exponent : List Char
  whole_digits : ∀ c ∈ whole, c.isDigit
  whole_plain : whole = ['0'] ∨ ∃ c rest, whole = c :: rest ∧ c ≠ '0'
  fraction_legal : fraction = [] ∨ ∃ c rest, fraction = '.' :: c :: rest ∧
    ∀ d ∈ c :: rest, d.isDigit
  exponent_legal : exponent = [] ∨ ∃ e sign c rest, exponent = e :: (sign ++ c :: rest) ∧
    (e = 'e' ∨ e = 'E') ∧ (sign = [] ∨ sign = ['+'] ∨ sign = ['-']) ∧ ∀ d ∈ c :: rest, d.isDigit

def Number.text (n : Number) : List Char :=
  (if n.negative then ['-'] else []) ++ n.whole ++ n.fraction ++ n.exponent

inductive Literal
  | true
  | false
  | null
  deriving DecidableEq, Repr

def Literal.text : Literal → List Char
  | true => "true".toList
  | false => "false".toList
  | null => "null".toList

inductive Json
  | literal (word : Literal)
  | number (n : Number)
  | string (units : List StringUnit)
  | array (items : List Json)
  | object (members : List (List StringUnit × Json))

/-- A value, or what stands between the brackets of one. -/
inductive Part
  | value (j : Json)
  | items (items : List Json)
  | members (members : List (List StringUnit × Json))

end Values

section Meaning

def natOf (digits : List Char) : ℕ :=
  digits.foldl (fun n c => n * 10 + (c.toNat - '0'.toNat)) 0

def exponentOf : List Char → ℤ
  | [] => 0
  | _ :: '-' :: digits => -natOf digits
  | _ :: '+' :: digits => natOf digits
  | _ :: digits => natOf digits

def Number.value (n : Number) : ℚ :=
  let places := n.fraction.drop 1
  let magnitude := natOf (n.whole ++ places) * (10 : ℚ) ^ (exponentOf n.exponent - places.length)
  if n.negative then -magnitude else magnitude

def utf16 (c : Char) : List ℕ :=
  if c.toNat < 0x10000 then [c.toNat]
  else [0xD800 + (c.toNat - 0x10000) / 0x400, 0xDC00 + (c.toNat - 0x10000) % 0x400]

def hexValue (c : Char) : ℕ :=
  if c.isDigit then c.toNat - '0'.toNat
  else if c.isUpper then c.toNat - 'A'.toNat + 10
  else c.toNat - 'a'.toNat + 10

/-- The character that an escape stands for. -/
def escaped : Char → Char
  | 'b' => Char.ofNat 0x08
  | 'f' => Char.ofNat 0x0C
  | 'n' => '\n'
  | 'r' => '\r'
  | 't' => '\t'
  | c => c

/-- An escape may stand for half of a character, so strings are compared in UTF-16. -/
def StringUnit.codeUnits : StringUnit → List ℕ
  | plain c _ => utf16 c
  | escape c _ => utf16 (escaped c)
  | unicode a b c d _ => [((hexValue a * 16 + hexValue b) * 16 + hexValue c) * 16 + hexValue d]

/-- The string stands for the text. -/
def Spells (units : List StringUnit) (text : List Char) : Prop :=
  units.flatMap StringUnit.codeUnits = text.flatMap utf16

instance (units : List StringUnit) (text : List Char) : Decidable (Spells units text) :=
  inferInstanceAs (Decidable (_ = _))

end Meaning

section Writing

def IsSpace (c : Char) : Prop := c ∈ [' ', '\t', '\n', '\r']

/-- Nothing but white space. -/
def Blank (text : List Char) : Prop := ∀ c ∈ text, IsSpace c

def stringText (units : List StringUnit) : List Char := '"' :: (raw units ++ ['"'])

/-- The texts of a value, and of the inside of one. White space stands around colons only if
`spaced`. -/
inductive Writes (spaced : Bool) : Part → List Char → Prop
  | literal (word : Literal) : Writes spaced (.value (.literal word)) word.text
  | number (n : Number) : Writes spaced (.value (.number n)) n.text
  | string (units : List StringUnit) : Writes spaced (.value (.string units)) (stringText units)
  | array {items : List Json} {inner : List Char} (h : Writes spaced (.items items) inner) :
      Writes spaced (.value (.array items)) ('[' :: (inner ++ [']']))
  | object {members : List (List StringUnit × Json)} {inner : List Char}
      (h : Writes spaced (.members members) inner) :
      Writes spaced (.value (.object members)) ('{' :: (inner ++ ['}']))
  | noItems {space : List Char} (hspace : Blank space) : Writes spaced (.items []) space
  | lastItem {j : Json} {before text after : List Char} (hbefore : Blank before)
      (h : Writes spaced (.value j) text) (hafter : Blank after) :
      Writes spaced (.items [j]) (before ++ (text ++ after))
  | item {j next : Json} {items : List Json} {before text after rest : List Char}
      (hbefore : Blank before) (h : Writes spaced (.value j) text) (hafter : Blank after)
      (hrest : Writes spaced (.items (next :: items)) rest) :
      Writes spaced (.items (j :: next :: items)) (before ++ (text ++ (after ++ ',' :: rest)))
  | noMembers {space : List Char} (hspace : Blank space) : Writes spaced (.members []) space
  | lastMember {key : List StringUnit} {j : Json} {before left right text after : List Char}
      (hbefore : Blank before) (hleft : Blank left) (hright : Blank right)
      (hcolon : spaced = false → left = [] ∧ right = [])
      (h : Writes spaced (.value j) text) (hafter : Blank after) :
      Writes spaced (.members [(key, j)])
        (before ++ (stringText key ++ (left ++ ':' :: (right ++ (text ++ after)))))
  | member {key : List StringUnit} {j : Json} {next : List StringUnit × Json}
      {members : List (List StringUnit × Json)} {before left right text after rest : List Char}
      (hbefore : Blank before) (hleft : Blank left) (hright : Blank right)
      (hcolon : spaced = false → left = [] ∧ right = [])
      (h : Writes spaced (.value j) text) (hafter : Blank after)
      (hrest : Writes spaced (.members (next :: members)) rest) :
      Writes spaced (.members ((key, j) :: next :: members))
        (before ++ (stringText key ++ (left ++ ':' :: (right ++ (text ++ (after ++ ',' :: rest))))))

end Writing

section Compact

mutual
/-- A value written without white space. -/
def compact : Json → List Char
  | .literal word => word.text
  | .number n => n.text
  | .string units => stringText units
  | .array items => '[' :: (compactItems items ++ [']'])
  | .object members => '{' :: (compactMembers members ++ ['}'])

def compactItems : List Json → List Char
  | [] => []
  | [j] => compact j
  | j :: next :: items => compact j ++ ',' :: compactItems (next :: items)

def compactMembers : List (List StringUnit × Json) → List Char
  | [] => []
  | [(key, j)] => stringText key ++ ':' :: compact j
  | (key, j) :: next :: members =>
    stringText key ++ ':' :: (compact j ++ ',' :: compactMembers (next :: members))
end

lemma blank_nil : Blank [] := nofun

mutual
theorem writes_compact (spaced : Bool) (j : Json) : Writes spaced (.value j) (compact j) := by
  match j with
  | .literal word =>
    rw [compact]
    exact .literal word
  | .number n =>
    rw [compact]
    exact .number n
  | .string units =>
    rw [compact]
    exact .string units
  | .array items =>
    rw [compact]
    exact .array (writes_compactItems spaced items)
  | .object members =>
    rw [compact]
    exact .object (writes_compactMembers spaced members)

theorem writes_compactItems (spaced : Bool) (items : List Json) :
    Writes spaced (.items items) (compactItems items) := by
  match items with
  | [] =>
    rw [compactItems]
    exact .noItems blank_nil
  | [j] =>
    have hitem := Writes.lastItem blank_nil (writes_compact spaced j) blank_nil
    simpa [compactItems] using hitem
  | j :: next :: items =>
    have hitem := Writes.item blank_nil (writes_compact spaced j) blank_nil
      (writes_compactItems spaced (next :: items))
    simpa [compactItems] using hitem

theorem writes_compactMembers (spaced : Bool) (members : List (List StringUnit × Json)) :
    Writes spaced (.members members) (compactMembers members) := by
  match members with
  | [] =>
    rw [compactMembers]
    exact .noMembers blank_nil
  | [(key, j)] =>
    have hmember : Writes spaced (.members [(key, j)]) _ :=
      .lastMember blank_nil blank_nil blank_nil (fun _ => ⟨rfl, rfl⟩) (writes_compact spaced j)
        blank_nil
    simpa [compactMembers] using hmember
  | (key, j) :: next :: members =>
    have hmember : Writes spaced (.members ((key, j) :: next :: members)) _ :=
      .member blank_nil blank_nil blank_nil (fun _ => ⟨rfl, rfl⟩) (writes_compact spaced j)
        blank_nil (writes_compactMembers spaced (next :: members))
    simpa [compactMembers] using hmember
end

end Compact

section Characters

/-- Neither a quote nor a brace. -/
def Inert (c : Char) : Prop := c ≠ '"' ∧ c ≠ '{' ∧ c ≠ '}'

lemma Blank.inert {space : List Char} (h : Blank space) : ∀ c ∈ space, Inert c := by
  intro c hc
  have hspace := h c hc
  simp only [IsSpace, List.mem_cons, List.not_mem_nil, or_false] at hspace
  rcases hspace with rfl | rfl | rfl | rfl <;> simp [Inert]

/-- White space is trimmed. -/
lemma Blank.trimStart_append {space : List Char} (h : Blank space) (text : List Char) :
    trimStart (space ++ text) = trimStart text := by
  refine List.dropWhile_append_of_pos fun c hc => ?_
  have hspace := h c hc
  simp only [IsSpace, List.mem_cons, List.not_mem_nil, or_false] at hspace
  rcases hspace with rfl | rfl | rfl | rfl <;> decide

lemma inert_of_isDigit {c : Char} (h : c.isDigit) : Inert c := by
  refine ⟨?_, ?_, ?_⟩
  · rintro rfl
    simp at h
  · rintro rfl
    simp at h
  · rintro rfl
    simp at h

lemma Literal.inert (word : Literal) : ∀ c ∈ word.text, Inert c := by
  cases word <;> simp [Literal.text, Inert]

lemma Number.inert (n : Number) : ∀ c ∈ n.text, Inert c := by
  have hsign : ∀ c ∈ if n.negative then ['-'] else [], Inert c := by
    split_ifs <;> simp [Inert]
  have hfraction : ∀ c ∈ n.fraction, Inert c := by
    rcases n.fraction_legal with h | ⟨c, rest, h, hdigits⟩
    · simp [h]
    · rw [h]
      intro d hd
      rcases List.mem_cons.mp hd with rfl | hd
      · simp [Inert]
      · exact inert_of_isDigit (hdigits d hd)
  have hexponent : ∀ c ∈ n.exponent, Inert c := by
    rcases n.exponent_legal with h | ⟨e, sign, c, rest, h, he, hs, hdigits⟩
    · simp [h]
    · rw [h]
      intro d hd
      rcases List.mem_cons.mp hd with rfl | hd
      · rcases he with rfl | rfl <;> simp [Inert]
      · rcases List.mem_append.mp hd with hd | hd
        · rcases hs with rfl | rfl | rfl <;> simp_all [Inert]
        · exact inert_of_isDigit (hdigits d hd)
  intro c hc
  simp only [Number.text, List.mem_append] at hc
  rcases hc with ((hc | hc) | hc) | hc
  · exact hsign c hc
  · exact inert_of_isDigit (n.whole_digits c hc)
  · exact hfraction c hc
  · exact hexponent c hc

/-- A character that stands for itself in a string. -/
def IsPlain (c : Char) : Prop := c ≠ '"' ∧ c ≠ '\\'

lemma isPlain_of_hex {c : Char} (h : c ∈ "0123456789abcdefABCDEF".toList) : IsPlain c := by
  have hall : ∀ c ∈ "0123456789abcdefABCDEF".toList, c ≠ '"' ∧ c ≠ '\\' := by simp
  exact hall c h

end Characters
end LoadBear.JsonText
