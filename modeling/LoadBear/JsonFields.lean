import LoadBear.JsonText

/-!
# Fields in the order they are written

A search for a quoted name and a colon knows nothing of nesting. It sees the fields of a value
one after the other, at whatever depth, each with the digits that its value starts with.
-/
namespace LoadBear.JsonText

open ByteText

section Fields

/-- A field as a search sees it: its name from the last quote on, and the digits after it. -/
structure Field where
  name : List Char
  digits : List Char
  deriving DecidableEq, Repr

/-- A name as a search sees it. -/
def seenAs (raw : List Char) : List Char := raw.rtakeWhile (· ≠ '"')

/-- The digits that the text of a value starts with. -/
def leadingDigits : Json → List Char
  | .number n => if n.negative then [] else n.whole
  | _ => []

mutual
/-- The fields inside a value in the order they are written. -/
def fieldsOf : Json → List Field
  | .literal _ => []
  | .number _ => []
  | .string _ => []
  | .array items => fieldsOfItems items
  | .object members => fieldsOfMembers members

def fieldsOfItems : List Json → List Field
  | [] => []
  | j :: items => fieldsOf j ++ fieldsOfItems items

def fieldsOfMembers : List (List StringUnit × Json) → List Field
  | [] => []
  | (key, j) :: members =>
    ⟨seenAs (raw key), leadingDigits j⟩ :: (fieldsOf j ++ fieldsOfMembers members)
end

def Part.fields : Part → List Field
  | value j => fieldsOf j
  | items js => fieldsOfItems js
  | members ms => fieldsOfMembers ms

/-- The fields from the first of a name on. -/
def since (name : List Char) (fields : List Field) : List Field :=
  fields.dropWhile fun f => f.name ≠ name

end Fields

section Texts

/-- What may stand after a value. -/
def Follows (rest : List Char) : Prop := ∀ c ∈ rest.head?, c ∈ [',', ']', '}'] ∨ IsSpace c

/-- Every quote in a string is escaped. -/
def QuotesEscaped (raw : List Char) : Prop :=
  ∀ before after, raw = before ++ '"' :: after → ∃ start, before = start ++ ['\\']

/-- A text that consists of the given fields, of strings that name none, and of characters
that are no quotes. -/
inductive Flat : List Field → List Char → Prop
  | nil : Flat [] []
  | skip {c : Char} {fields : List Field} {rest : List Char} (hc : c ≠ '"')
      (h : Flat fields rest) : Flat fields (c :: rest)
  | string {raw rest : List Char} {fields : List Field} (hraw : QuotesEscaped raw)
      (hrest : Follows rest) (h : Flat fields rest) : Flat fields ('"' :: (raw ++ '"' :: rest))
  | field {raw rest : List Char} {fields : List Field} (hraw : QuotesEscaped raw)
      (hrest : trimStart rest = rest) (h : Flat fields rest) :
      Flat (⟨seenAs raw, rest.takeWhile Char.isDigit⟩ :: fields)
        ('"' :: (raw ++ '"' :: ':' :: rest))

end Texts

section Flattening
variable {fields : List Field} {rest : List Char}

lemma quotesEscaped_of_not_mem {raw : List Char} (h : '"' ∉ raw) : QuotesEscaped raw := by
  intro before after heq
  exact absurd (by simp [heq]) h

lemma StringUnit.quotesEscaped (u : StringUnit) : QuotesEscaped u.text := by
  cases u with
  | plain c legal => exact quotesEscaped_of_not_mem (by simpa [StringUnit.text] using legal.1.symm)
  | escape c legal =>
    intro before after heq
    match before with
    | [] => simp [StringUnit.text] at heq
    | [first] =>
      obtain ⟨rfl, -⟩ := List.cons_eq_cons.mp heq
      exact ⟨[], rfl⟩
    | first :: second :: before =>
      have hlength := congrArg List.length heq
      simp [StringUnit.text] at hlength
  | unicode a b c d legal =>
    apply quotesEscaped_of_not_mem
    intro hquote
    have hin : '"' ∈ [a, b, c, d] := by simpa [StringUnit.text] using hquote
    exact (isPlain_of_hex (legal _ hin)).1 rfl

lemma QuotesEscaped.append {a b : List Char} (ha : QuotesEscaped a) (hb : QuotesEscaped b) :
    QuotesEscaped (a ++ b) := by
  intro before after heq
  rcases List.append_eq_append_iff.mp heq with ⟨between, rfl, hb'⟩ | ⟨inside, rfl, hrest⟩
  · obtain ⟨start, rfl⟩ := hb between after hb'
    exact ⟨a ++ start, by simp⟩
  · cases inside with
    | nil =>
      obtain ⟨start, hstart⟩ := hb [] after (by simpa using hrest.symm)
      simp at hstart
    | cons c inside =>
      obtain ⟨rfl, -⟩ := List.cons_eq_cons.mp hrest
      exact ha before inside rfl

lemma quotesEscaped_raw (units : List StringUnit) : QuotesEscaped (raw units) := by
  induction units with
  | nil =>
    intro before after heq
    simp [raw] at heq
  | cons u units ih => exact u.quotesEscaped.append ih

lemma Blank.append_follows {space : List Char} (h : Blank space) (hrest : Follows rest) :
    Follows (space ++ rest) := by
  cases space with
  | nil => exact hrest
  | cons c space =>
    intro d hd
    obtain rfl := Option.some.inj hd
    exact .inr (h c (.head _))

lemma Flat.over {text : List Char} (h : ∀ c ∈ text, Inert c) (hflat : Flat fields rest) :
    Flat fields (text ++ rest) := by
  induction text with
  | nil => exact hflat
  | cons c text ih => exact .skip (h c (.head _)).1 (ih fun d hd => h d (.tail _ hd))

/-- What follows a value starts with no digit. -/
lemma Follows.takeWhile_isDigit (h : Follows rest) : rest.takeWhile Char.isDigit = [] := by
  cases rest with
  | nil => rfl
  | cons c rest =>
    have hc := h c rfl
    have hdigit : c.isDigit = false := by
      simp only [IsSpace, List.mem_cons, List.not_mem_nil, or_false] at hc
      rcases hc with (rfl | rfl | rfl) | rfl | rfl | rfl | rfl <;> decide
    simp [hdigit]

lemma Number.takeWhile_isDigit (n : Number) (h : Follows rest) :
    (n.text ++ rest).takeWhile Char.isDigit = leadingDigits (.number n) := by
  have htail : (n.fraction ++ (n.exponent ++ rest)).takeWhile Char.isDigit = [] := by
    rcases n.fraction_legal with hfraction | ⟨c, digits, hfraction, -⟩
    · rcases n.exponent_legal with hexponent | ⟨e, sign, c, digits, hexponent, he, -⟩
      · rw [hfraction, hexponent]
        exact h.takeWhile_isDigit
      · rw [hfraction, hexponent]
        rcases he with rfl | rfl <;> simp
    · rw [hfraction]
      simp
  rw [Number.text, leadingDigits]
  cases n.negative with
  | true => simp
  | false =>
    have hwhole : (n.whole ++ (n.fraction ++ (n.exponent ++ rest))).takeWhile Char.isDigit =
        n.whole := by
      rw [List.takeWhile_append_of_pos n.whole_digits, htail, List.append_nil]
    simpa using hwhole

/-- The digits after a field's colon are those of its value. -/
lemma Writes.takeWhile_isDigit {spaced : Bool} {j : Json} {text : List Char}
    (h : Writes spaced (.value j) text) (hrest : Follows rest) :
    (text ++ rest).takeWhile Char.isDigit = leadingDigits j := by
  cases h with
  | literal word => cases word <;> rfl
  | number n => exact n.takeWhile_isDigit hrest
  | string units => rfl
  | array h => rfl
  | object h => rfl

lemma Number.exists_cons (n : Number) : ∃ c rest, n.text = c :: rest ∧ (c = '-' ∨ c.isDigit) := by
  obtain ⟨c, rest, hwhole⟩ : ∃ c rest, n.whole = c :: rest := by
    rcases n.whole_plain with h | ⟨c, rest, h, -⟩
    · exact ⟨_, _, h⟩
    · exact ⟨_, _, h⟩
  have hdigit : c.isDigit := n.whole_digits c (by simp [hwhole])
  rw [Number.text, hwhole]
  cases n.negative with
  | true => exact ⟨'-', _, rfl, .inl rfl⟩
  | false => exact ⟨c, _, rfl, .inr hdigit⟩

lemma isWhitespace_of_isDigit {c : Char} (h : c.isDigit) : isWhitespace c = false := by
  simp only [Char.isDigit, Bool.and_eq_true, decide_eq_true_eq, ge_iff_le,
    UInt32.le_iff_toNat_le] at h
  simp only [isWhitespace, List.mem_cons, List.not_mem_nil, or_false, decide_eq_false_iff_not,
    UInt32.le_iff_toNat_le, ← UInt32.toNat_inj]
  simp at h ⊢
  omega

/-- No value starts with white space. -/
lemma Writes.trimStart {spaced : Bool} {j : Json} {text : List Char}
    (h : Writes spaced (.value j) text) (rest : List Char) :
    trimStart (text ++ rest) = text ++ rest := by
  obtain ⟨c, more, rfl, hc⟩ : ∃ c more, text = c :: more ∧ isWhitespace c = false := by
    cases h with
    | literal word => cases word <;> exact ⟨_, _, rfl, by decide⟩
    | number n =>
      obtain ⟨c, more, htext, hc⟩ := n.exists_cons
      refine ⟨c, more, htext, ?_⟩
      rcases hc with rfl | hc
      · decide
      · exact isWhitespace_of_isDigit hc
    | string units => exact ⟨_, _, rfl, by decide⟩
    | array h => exact ⟨_, _, rfl, by decide⟩
    | object h => exact ⟨_, _, rfl, by decide⟩
  exact trimStart_cons hc _

lemma follows_cons {c : Char} (h : c ∈ [',', ']', '}']) : Follows (c :: rest) := by
  intro d hd
  obtain rfl := Option.some.inj hd
  exact .inl h

lemma Flat.stringText (units : List StringUnit) (hrest : Follows rest) (hflat : Flat fields rest) :
    Flat fields (stringText units ++ rest) := by
  have hstring := Flat.string (quotesEscaped_raw units) hrest hflat
  simpa [JsonText.stringText] using hstring

/-- A member's name and colon name a field with the digits of its value. -/
lemma Flat.member (key : List StringUnit) {spaced : Bool} {j : Json} {text : List Char}
    (h : Writes spaced (.value j) text) (hrest : Follows rest)
    (hflat : Flat fields (text ++ rest)) :
    Flat (⟨seenAs (raw key), leadingDigits j⟩ :: fields)
      (JsonText.stringText key ++ ':' :: (text ++ rest)) := by
  have hfield := Flat.field (quotesEscaped_raw key) (h.trimStart rest) hflat
  rw [h.takeWhile_isDigit hrest] at hfield
  simpa [JsonText.stringText] using hfield

/-- The fields of a part stand before those of what follows it. -/
theorem Writes.flat {part : Part} {text : List Char} (h : Writes false part text)
    (hrest : Follows rest) (hflat : Flat fields rest) :
    Flat (part.fields ++ fields) (text ++ rest) := by
  induction h generalizing fields rest with
  | literal word => exact hflat.over word.inert
  | number n => exact hflat.over n.inert
  | string units => exact hflat.stringText units hrest
  | @array items inner h ih =>
    have hclose : Flat fields (']' :: rest) := .skip (by decide) hflat
    have hinner := ih (follows_cons (by simp)) hclose
    simpa [Part.fields, fieldsOf] using Flat.skip (c := '[') (by decide) hinner
  | @object members inner h ih =>
    have hclose : Flat fields ('}' :: rest) := .skip (by decide) hflat
    have hinner := ih (follows_cons (by simp)) hclose
    simpa [Part.fields, fieldsOf] using Flat.skip (c := '{') (by decide) hinner
  | noItems hspace => exact hflat.over hspace.inert
  | @lastItem j before text after hbefore h hafter ih =>
    have hvalue := ih (hafter.append_follows hrest) (hflat.over hafter.inert)
    simpa [Part.fields, fieldsOfItems] using hvalue.over hbefore.inert
  | @item j next items before text after more hbefore h hafter hmore ih ihmore =>
    have hcomma : Flat (fieldsOfItems (next :: items) ++ fields) (',' :: (more ++ rest)) :=
      .skip (by decide) (ihmore hrest hflat)
    have hvalue := ih (hafter.append_follows (follows_cons (by simp))) (hcomma.over hafter.inert)
    simpa [Part.fields, fieldsOfItems] using hvalue.over hbefore.inert
  | noMembers hspace => exact hflat.over hspace.inert
  | @lastMember key j before left right text after hbefore hleft hright hcolon h hafter ih =>
    obtain ⟨rfl, rfl⟩ := hcolon rfl
    have hfollows := hafter.append_follows hrest
    have hvalue := ih hfollows (hflat.over hafter.inert)
    have hmember := hvalue.member key h hfollows
    simpa [Part.fields, fieldsOfMembers] using hmember.over hbefore.inert
  | @member key j next members before left right text after more hbefore hleft hright hcolon h
      hafter hmore ih ihmore =>
    obtain ⟨rfl, rfl⟩ := hcolon rfl
    have hcomma : Flat (fieldsOfMembers (next :: members) ++ fields) (',' :: (more ++ rest)) :=
      .skip (by decide) (ihmore hrest hflat)
    have hmark : Follows (',' :: (more ++ rest)) := follows_cons (by simp)
    have hfollows := hafter.append_follows hmark
    have hvalue := ih hfollows (hcomma.over hafter.inert)
    have hmember := hvalue.member key h hfollows
    simpa [Part.fields, fieldsOfMembers] using hmember.over hbefore.inert

end Flattening

section Search
variable {name raw rest : List Char} {fields : List Field} {text : List Char}

/-- A name as it stands before its value. -/
def label (name : List Char) : List Char := '"' :: (name ++ ['"', ':'])

/-- A name that needs no escapes and is no mark between values. -/
structure IsPlainName (name : List Char) : Prop where
  plain : ∀ c ∈ name, IsPlain c
  start : ∀ c ∈ name.head?, c ∉ [',', ':', ']', '}'] ∧ ¬IsSpace c

lemma IsPlainName.quotesEscaped (h : IsPlainName name) : QuotesEscaped name :=
  quotesEscaped_of_not_mem fun hquote => (h.plain _ hquote).1 rfl

/-- A name without quotes is what follows the last one. -/
lemma seenAs_eq_iff (h : '"' ∉ name) :
    seenAs raw = name ↔ ∃ start, '"' :: raw = start ++ '"' :: name := by
  constructor
  · intro hseen
    have hraw : raw.rdropWhile (· ≠ '"') ++ name = raw := by
      rw [← hseen]
      exact List.rdropWhile_append_rtakeWhile
    by_cases hnil : raw.rdropWhile (· ≠ '"') = []
    · rw [hnil, List.nil_append] at hraw
      exact ⟨[], by simp [hraw]⟩
    · have hquote : (raw.rdropWhile (· ≠ '"')).getLast hnil = '"' := by
        simpa using List.rdropWhile_last_not (fun c : Char => decide (c ≠ '"')) raw hnil
      refine ⟨'"' :: (raw.rdropWhile (· ≠ '"')).dropLast, ?_⟩
      have hlast := List.dropLast_append_getLast hnil
      rw [hquote] at hlast
      nth_rewrite 1 [← hraw, ← hlast]
      simp
  · intro hsplit
    obtain ⟨start, hstart⟩ := hsplit
    have hall : ∀ c ∈ name, decide (c ≠ '"') = true := by
      intro c hc
      rw [decide_eq_true_eq]
      rintro rfl
      exact h hc
    cases start with
    | nil =>
      obtain rfl : raw = name := by simpa using hstart
      exact List.rtakeWhile_eq_self_iff.mpr hall
    | cons c start =>
      obtain rfl : raw = start ++ '"' :: name := by simpa using (List.cons_eq_cons.mp hstart).2
      rw [seenAs, List.rtakeWhile, List.reverse_append, List.reverse_cons, List.append_assoc,
        List.takeWhile_append_of_pos fun c hc => hall c (List.mem_reverse.mp hc)]
      simp

/-- Where a plain name starts after a quote of a string, no escaped quote ends it. -/
lemma IsPlainName.not_escaped (hname : IsPlainName name) (hraw : QuotesEscaped raw)
    (start after : List Char) : '"' :: raw ≠ start ++ '"' :: (name ++ '"' :: after) := by
  intro hsplit
  have hbackslash : '\\' ∈ '"' :: name := by
    cases start with
    | nil =>
      have heq : raw = name ++ '"' :: after := by simpa using hsplit
      obtain ⟨begun, hbegun⟩ := hraw _ _ heq
      simp [hbegun]
    | cons c start =>
      have heq : raw = (start ++ '"' :: name) ++ '"' :: after := by
        simpa using (List.cons_eq_cons.mp hsplit).2
      obtain ⟨begun, hbegun⟩ := hraw _ _ heq
      have hlast : ('"' :: name).getLast? = some '\\' := by
        have hboth := congrArg List.getLast? hbegun
        rwa [List.getLast?_append_of_ne_nil _ (List.cons_ne_nil _ _), List.getLast?_concat] at hboth
      exact List.mem_of_getLast? hlast
  rcases List.mem_cons.mp hbackslash with heq | hmem
  · exact absurd heq (by decide)
  · exact (hname.plain _ hmem).2 rfl

/-- No plain name follows the end of a string. -/
lemma IsPlainName.not_after (hname : IsPlainName name)
    (hrest : Follows rest ∨ rest.head? = some ':') (more : List Char) :
    rest ≠ name ++ '"' :: more := by
  rintro rfl
  cases name with
  | nil =>
    rcases hrest with hrest | hrest
    · simp [Follows, IsSpace] at hrest
    · simp at hrest
  | cons c name =>
    obtain ⟨hmark, hspace⟩ := hname.start c rfl
    rcases hrest with hrest | hrest
    · rcases hrest c rfl with hc | hc
      · simp_all
      · exact hspace hc
    · obtain rfl := Option.some.inj hrest
      simp at hmark

/-- A label that starts inside a string, its quotes included, ends where the string does, and a
colon follows. -/
lemma eq_of_label_start (hname : IsPlainName name) (hraw : QuotesEscaped raw)
    (hrest : Follows rest ∨ rest.head? = some ':') {start inside : List Char} {c : Char}
    (hsplit : '"' :: (raw ++ ['"']) = start ++ c :: inside)
    (h : label name <+: c :: (inside ++ rest)) :
    inside = name ++ ['"'] ∧ ∃ more, rest = ':' :: more := by
  obtain ⟨more, hmore⟩ := h
  rw [label, List.cons_append, List.cons_eq_cons] at hmore
  obtain ⟨rfl, hmore⟩ := hmore
  rcases List.eq_nil_or_concat inside with rfl | ⟨inner, last, rfl⟩
  · -- the label starts at the quote that closes the string
    exact absurd (by simpa using hmore.symm) (hname.not_after hrest (':' :: more))
  · have hclosed : ('"' :: raw) ++ ['"'] = (start ++ '"' :: inner) ++ [last] := by
      simpa using hsplit
    obtain ⟨hopened, hlast⟩ := List.append_inj' hclosed rfl
    obtain rfl : '"' = last := by simpa using hlast
    have hnames : name ++ '"' :: ':' :: more = inner ++ '"' :: rest := by simpa using hmore
    -- the quote after the name is the closing one, an earlier one or, past it, none at all
    rcases List.append_eq_append_iff.mp hnames with ⟨between, rfl, hb⟩ | ⟨between, rfl, hb⟩
    · cases between with
      | nil => exact ⟨by simp, more, by simpa using hb.symm⟩
      | cons d between =>
        obtain ⟨rfl, -⟩ := List.cons_eq_cons.mp hb
        exact absurd hopened (hname.not_escaped hraw start between)
    · cases between with
      | nil => exact ⟨by simp, more, by simpa using hb⟩
      | cons d between =>
        obtain ⟨rfl, -⟩ := List.cons_eq_cons.mp hb
        exact absurd rfl (hname.plain '"' (by simp)).1

lemma noStart_string (hname : IsPlainName name) (hraw : QuotesEscaped raw)
    (hrest : Follows rest) : NoStart (label name) ('"' :: (raw ++ ['"'])) rest := by
  intro start c inside hsplit h
  obtain ⟨-, more, rfl⟩ := eq_of_label_start hname hraw (.inl hrest) hsplit h
  simp [Follows, IsSpace] at hrest

/-- The label of a field starts at the quote before its name and nowhere earlier. -/
lemma start_of_field (hname : IsPlainName name) (hraw : QuotesEscaped raw)
    {start inside : List Char} {c : Char} (hsplit : '"' :: (raw ++ ['"']) = start ++ c :: inside)
    (h : label name <+: c :: (inside ++ ':' :: rest)) : '"' :: raw = start ++ '"' :: name := by
  obtain ⟨rfl, -⟩ := eq_of_label_start hname hraw (.inr rfl) hsplit h
  obtain ⟨more, hmore⟩ := h
  rw [label, List.cons_append, List.cons_eq_cons] at hmore
  obtain ⟨rfl, -⟩ := hmore
  have hclosed : ('"' :: raw) ++ ['"'] = (start ++ '"' :: name) ++ ['"'] := by simpa using hsplit
  exact (List.append_inj' hclosed rfl).1

lemma label_ne_nil (name : List Char) : label name ≠ [] := List.cons_ne_nil _ _

lemma noStart_mark {c : Char} (hc : c ≠ '"') : NoStart (label name) [c] rest := by
  intro start d inside hsplit h
  obtain ⟨more, hmore⟩ := h
  rw [label, List.cons_append, List.cons_eq_cons] at hmore
  obtain ⟨rfl, -⟩ := hmore
  have hmem : '"' ∈ [c] := by simp [hsplit]
  exact hc (List.mem_singleton.mp hmem).symm

lemma noStart_cons {passed : List Char} {c : Char} (hc : c ≠ '"')
    (h : NoStart (label name) passed rest) : NoStart (label name) (c :: passed) rest :=
  NoStart.append (noStart_mark hc : NoStart (label name) [c] (passed ++ rest)) h

lemma noStart_other (hname : IsPlainName name) (hraw : QuotesEscaped raw)
    (hother : seenAs raw ≠ name) (rest : List Char) :
    NoStart (label name) ('"' :: (raw ++ ['"'])) (':' :: rest) := by
  intro start c inside hsplit h
  have hsame := start_of_field hname hraw hsplit h
  exact hother ((seenAs_eq_iff fun hquote => (hname.plain _ hquote).1 rfl).mpr ⟨start, hsame⟩)

/-- A field of the name itself is found at the quote before the name. -/
lemma splitOnce_own (hname : IsPlainName name) (hraw : QuotesEscaped raw)
    (hown : seenAs raw = name) (rest : List Char) :
    ∃ before, splitOnce (label name) ('"' :: (raw ++ '"' :: ':' :: rest)) =
      some (before, rest) := by
  obtain ⟨before, hbefore⟩ := (seenAs_eq_iff fun hquote => (hname.plain _ hquote).1 rfl).mp hown
  refine ⟨before, ?_⟩
  have htext : '"' :: (raw ++ '"' :: ':' :: rest) = before ++ (label name ++ rest) := by
    rw [← List.cons_append, hbefore]
    simp [label]
  have hnoStart : NoStart (label name) before (label name ++ rest) := by
    -- an earlier start would have to end at the same closing quote
    intro start c inside hsplit h
    have hinside : '"' :: (raw ++ ['"']) = start ++ c :: (inside ++ '"' :: (name ++ ['"'])) := by
      rw [← List.cons_append, hbefore, hsplit]
      simp
    have hlabel : label name <+: c :: (inside ++ '"' :: (name ++ ['"']) ++ ':' :: rest) := by
      simpa [label] using h
    have hend := start_of_field hname hraw hinside hlabel
    have hlength := congrArg List.length (hbefore.symm.trans hend)
    rw [hsplit] at hlength
    simp at hlength
    omega
  rw [htext, splitOnce_over hnoStart, splitOnce_start (label_ne_nil name)]
  simp

lemma noStart_inert {passed : List Char} (h : ∀ c ∈ passed, Inert c) :
    NoStart (label name) passed rest := by
  intro start c inside hsplit hprefix
  obtain ⟨more, hmore⟩ := hprefix
  rw [label, List.cons_append, List.cons_eq_cons] at hmore
  obtain ⟨rfl, -⟩ := hmore
  exact (h '"' (by simp [hsplit])).1 rfl

/-- A search for a name passes over any part of a value that has no field so named. -/
theorem Writes.noStart {part : Part} (h : Writes false part text) (hname : IsPlainName name)
    (hnone : ∀ f ∈ part.fields, f.name ≠ name) (hrest : Follows rest) :
    NoStart (label name) text rest := by
  induction h generalizing rest with
  | literal word => exact noStart_inert word.inert
  | number n => exact noStart_inert n.inert
  | string units => exact noStart_string hname (quotesEscaped_raw units) hrest
  | @array items inner h ih =>
    have hinner : NoStart (label name) inner (']' :: rest) := ih hnone (follows_cons (by simp))
    have hclosed : NoStart (label name) (inner ++ [']']) rest :=
      hinner.append (noStart_mark (by decide))
    exact noStart_cons (by decide) hclosed
  | @object members inner h ih =>
    have hinner : NoStart (label name) inner ('}' :: rest) := ih hnone (follows_cons (by simp))
    have hclosed : NoStart (label name) (inner ++ ['}']) rest :=
      hinner.append (noStart_mark (by decide))
    exact noStart_cons (by decide) hclosed
  | noItems hspace => exact noStart_inert hspace.inert
  | @lastItem j before value after hbefore h hafter ih =>
    have hvalue := ih (by simpa [Part.fields, fieldsOfItems] using hnone)
      (hafter.append_follows hrest)
    exact (noStart_inert hbefore.inert).append (hvalue.append (noStart_inert hafter.inert))
  | @item j next items before value after more hbefore h hafter hmore ih ihmore =>
    simp only [Part.fields, fieldsOfItems, List.mem_append] at hnone ih ihmore
    have hmark : Follows (',' :: (more ++ rest)) := follows_cons (by simp)
    have hvalue := ih (fun f hf => hnone f (.inl hf)) (hafter.append_follows hmark)
    have hlater := ihmore (fun f hf => hnone f (.inr hf)) hrest
    have hcomma := noStart_cons (c := ',') (by decide) hlater
    exact (noStart_inert hbefore.inert).append (NoStart.append (by simpa using hvalue)
      ((noStart_inert hafter.inert).append hcomma))
  | noMembers hspace => exact noStart_inert hspace.inert
  | @lastMember key j before left right value after hbefore hleft hright hcolon h hafter ih =>
    obtain ⟨rfl, rfl⟩ := hcolon rfl
    simp only [Part.fields, fieldsOfMembers, List.mem_cons, List.append_nil, forall_eq_or_imp]
      at hnone
    have hvalue := ih hnone.2 (hafter.append_follows hrest)
    have hcolon := noStart_cons (c := ':') (by decide)
      (hvalue.append (noStart_inert hafter.inert))
    exact (noStart_inert hbefore.inert).append (NoStart.append
      (noStart_other hname (quotesEscaped_raw key) hnone.1 _) hcolon)
  | @member key j next members before left right value after more hbefore hleft hright hcolon h
      hafter hmore ih ihmore =>
    obtain ⟨rfl, rfl⟩ := hcolon rfl
    simp only [Part.fields] at hnone ih ihmore
    rw [fieldsOfMembers] at hnone
    simp only [List.mem_cons, List.mem_append, forall_eq_or_imp] at hnone
    have hmark : Follows (',' :: (more ++ rest)) := follows_cons (by simp)
    have hvalue := ih (fun f hf => hnone.2 f (.inl hf)) (hafter.append_follows hmark)
    have hlater := ihmore (fun f hf => hnone.2 f (.inr hf)) hrest
    have hcomma := noStart_cons (c := ',') (by decide) hlater
    have hmember := NoStart.append (by simpa using hvalue)
      ((noStart_inert hafter.inert).append hcomma)
    exact (noStart_inert hbefore.inert).append (NoStart.append
      (noStart_other hname (quotesEscaped_raw key) hnone.1 _) (noStart_cons (by decide) hmember))

/-- What a search for a name comes to in a text with the given fields. -/
inductive Finds (name : List Char) (fields : List Field) (text : List Char) : Prop
  | nothing (hsince : since name fields = []) (hsplit : splitOnce (label name) text = none)
  | first (later : List Field) (before after : List Char)
      (hsince : since name fields = ⟨name, after.takeWhile Char.isDigit⟩ :: later)
      (hsplit : splitOnce (label name) text = some (before, after))
      (hvalue : trimStart after = after)
      (hflat : Flat (⟨name, after.takeWhile Char.isDigit⟩ :: later) (label name ++ after))

lemma Finds.over {passed : List Char} (h : Finds name fields text)
    (hpassed : NoStart (label name) passed text) : Finds name fields (passed ++ text) := by
  have hover := splitOnce_over hpassed
  cases h with
  | nothing hsince hsplit =>
    apply Finds.nothing hsince
    rw [hover, hsplit]
    rfl
  | first later before after hsince hsplit hvalue hflat =>
    apply Finds.first later (passed ++ before) after hsince _ hvalue hflat
    rw [hover, hsplit]
    rfl

/-- Only the fields from the name on matter. -/
lemma Finds.congr {others : List Field} (h : Finds name fields text)
    (heq : since name others = since name fields) : Finds name others text := by
  cases h with
  | nothing hsince hsplit => exact .nothing (heq.trans hsince) hsplit
  | first later before after hsince hsplit hvalue hflat =>
    exact .first later before after (heq.trans hsince) hsplit hvalue hflat

/-- A text is split at the first of its fields that has the name. -/
theorem Flat.finds (h : Flat fields text) (hname : IsPlainName name) :
    Finds name fields text := by
  induction h with
  | nil => exact .nothing rfl (by simp [splitOnce, label])
  | @skip c fields rest hc h ih => exact ih.over (noStart_mark hc)
  | @string raw rest fields hraw hrest h ih =>
    simpa using ih.over (noStart_string hname hraw hrest)
  | @field raw rest fields hraw hrest h ih =>
    by_cases hseen : seenAs raw = name
    · obtain ⟨before, hsplit⟩ := splitOnce_own hname hraw hseen rest
      have hself : seenAs name = name :=
        List.rtakeWhile_eq_self_iff.mpr fun c hc => by simpa using (hname.plain c hc).1
      have hlabel := Flat.field hname.quotesEscaped hrest h
      rw [hself] at hlabel
      apply Finds.first fields before rest _ hsplit hrest
      · simpa [label] using hlabel
      · simp [since, hseen]
    · have hlater := (ih.over (noStart_mark (by decide : ':' ≠ '"'))).over
        (noStart_other hname hraw hseen rest)
      have hsince : since name (⟨seenAs raw, rest.takeWhile Char.isDigit⟩ :: fields) =
          since name fields := by
        simp [since, hseen]
      simpa using hlater.congr hsince

/-- The text of a member's value stands behind the member's label, before which no other member's
text holds one. -/
theorem Writes.exists_member {key : List StringUnit} {j : Json}
    {front back : List (List StringUnit × Json)}
    (h : Writes false (.members (front ++ (key, j) :: back)) text) (hname : IsPlainName name)
    (hkey : JsonText.raw key = name) (hnone : ∀ f ∈ fieldsOfMembers front, f.name ≠ name) :
    ∃ before value more, text = before ++ (label name ++ (value ++ more)) ∧
      Writes false (.value j) value ∧ (∀ rest, Follows rest → Follows (more ++ rest)) ∧
      ∀ rest, NoStart (label name) before (label name ++ (value ++ (more ++ rest))) := by
  induction front generalizing text with
  | nil =>
    rw [List.nil_append] at h
    cases h with
    | @lastMember key j before left right value after hbefore hleft hright hcolon h hafter =>
      obtain ⟨rfl, rfl⟩ := hcolon rfl
      refine ⟨before, value, after, ?_, h, fun rest => hafter.append_follows,
        fun rest => noStart_inert hbefore.inert⟩
      simp [JsonText.stringText, label, hkey]
    | @member key j next members before left right value after more hbefore hleft hright hcolon h
        hafter hmore =>
      obtain ⟨rfl, rfl⟩ := hcolon rfl
      refine ⟨before, value, after ++ ',' :: more, ?_, h, fun rest _ => ?_,
        fun rest => noStart_inert hbefore.inert⟩
      · simp [JsonText.stringText, label, hkey]
      · rw [List.append_assoc]
        exact hafter.append_follows (follows_cons (by simp))
  | cons first front ih =>
    obtain ⟨next, members, hnext⟩ : ∃ next members, front ++ (key, j) :: back = next :: members :=
      List.exists_cons_of_ne_nil (by simp)
    rw [List.cons_append, hnext] at h
    cases h with
    | @member other k next members before left right value after more hbefore hleft hright hcolon h
        hafter hmore =>
      have hfirst : Writes false (.members [(other, k)]) _ :=
        .lastMember hbefore hleft hright hcolon h hafter
      rw [← hnext] at hmore
      obtain ⟨passed, own, last, rfl, hown, hlast, hpassed⟩ := ih hmore fun f hf => hnone f (by
        rw [fieldsOfMembers]
        exact List.mem_cons_of_mem _ (List.mem_append_right _ hf))
      refine ⟨before ++
          (JsonText.stringText other ++ (left ++ ':' :: (right ++ (value ++ after)))) ++
        ([','] ++ passed), own, last, by simp, hown, hlast, fun rest => ?_⟩
      refine (hfirst.noStart hname (fun f hf => hnone f ?_) (follows_cons (by simp))).append
        ((noStart_mark (by decide)).append (hpassed rest))
      rw [fieldsOfMembers]
      simp only [Part.fields, fieldsOfMembers, List.append_nil] at hf
      rcases List.mem_cons.mp hf with rfl | hf
      · exact List.mem_cons_self
      · exact List.mem_cons_of_mem _ (List.mem_append_left _ hf)

end Search
end LoadBear.JsonText
