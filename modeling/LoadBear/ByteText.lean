import Mathlib.Data.List.DropRight
import Mathlib.Tactic

/-!
# Text indexed by bytes

A text is a list of characters, and a place in it is the number of bytes before it. Between
two characters a place cuts the text in two. Inside a character it cuts nothing, and a
program that slices there stops.
-/
namespace LoadBear.ByteText

/-- Why a program stops without an answer. -/
inductive Fault
  | slice
  | overflow
  | exhausted
  deriving DecidableEq, Repr

/-- The number of bytes of a text. -/
def size (text : List Char) : ℕ := (text.map Char.utf8Size).sum

@[simp] theorem size_nil : size [] = 0 := rfl

@[simp] theorem size_cons (c : Char) (text : List Char) :
    size (c :: text) = c.utf8Size + size text := by simp [size]

@[simp] theorem size_append (a b : List Char) : size (a ++ b) = size a + size b := by
  simp [size]

/-- Cut a text at a place. -/
def cut : ℕ → List Char → Except Fault (List Char × List Char)
  | 0, text => .ok ([], text)
  | _ + 1, [] => .error .slice
  | n + 1, c :: text =>
    if n + 1 < c.utf8Size then .error .slice
    else (cut (n + 1 - c.utf8Size) text).map fun (before, after) => (c :: before, after)

/-- What stands before the first occurrence of a separator and what stands after it. -/
def splitOnce (separator : List Char) : List Char → Option (List Char × List Char)
  | [] => if separator = [] then some ([], []) else none
  | c :: text =>
    if separator.isPrefixOf (c :: text) then some ([], (c :: text).drop separator.length)
    else (splitOnce separator text).map fun (before, after) => (c :: before, after)

/-- The place of the first occurrence of a pattern. -/
def find (pattern text : List Char) : Option ℕ :=
  (splitOnce pattern text).map fun (before, _) => size before

def contains (pattern text : List Char) : Bool := (splitOnce pattern text).isSome

def stripPrefix (start text : List Char) : Option (List Char) :=
  if start.isPrefixOf text then some (text.drop start.length) else none

/-- `text[..n]`. -/
def sliceTo (n : ℕ) (text : List Char) : Except Fault (List Char) := (cut n text).map Prod.fst

/-- `text[n..]`. -/
def sliceFrom (n : ℕ) (text : List Char) : Except Fault (List Char) := (cut n text).map Prod.snd

/-- `text[n..m]`. -/
def slice (n m : ℕ) (text : List Char) : Except Fault (List Char) :=
  if m < n then .error .slice else (sliceFrom n text).bind (sliceTo (m - n))

/-- `char::is_whitespace`. -/
def isWhitespace (c : Char) : Bool :=
  c.val ∈ [0x20, 0x85, 0xA0, 0x1680, 0x2028, 0x2029, 0x202F, 0x205F, 0x3000] ∨
    (0x09 ≤ c.val ∧ c.val ≤ 0x0D) ∨ (0x2000 ≤ c.val ∧ c.val ≤ 0x200A)

def trimStart (text : List Char) : List Char := text.dropWhile isWhitespace

def trim (text : List Char) : List Char := (trimStart text).rdropWhile isWhitespace

section Cut
variable {text before after : List Char} {n : ℕ}

/-- A text is cut at each place between two of its characters. -/
@[simp] theorem cut_append : cut (size before) (before ++ after) = .ok (before, after) := by
  induction before with
  | nil => cases after <;> rfl
  | cons c before ih =>
    have hpos := c.utf8Size_pos
    obtain ⟨n, hn⟩ : ∃ n, size (c :: before) = n + 1 :=
      ⟨c.utf8Size + size before - 1, by rw [size_cons]; omega⟩
    have hrest : n + 1 - c.utf8Size = size before := by
      rw [size_cons] at hn
      omega
    have hle : ¬n + 1 < c.utf8Size := by
      rw [size_cons] at hn
      omega
    rw [hn, List.cons_append, cut, if_neg hle, hrest, ih]
    rfl

lemma eq_append_of_cut (h : cut n text = .ok (before, after)) :
    text = before ++ after ∧ size before = n := by
  induction text generalizing n before with
  | nil =>
    cases n with
    | zero =>
      obtain ⟨rfl, rfl⟩ := Prod.mk.inj (Except.ok.inj h)
      simp
    | succ n => simp [cut] at h
  | cons c text ih =>
    cases n with
    | zero =>
      obtain ⟨rfl, rfl⟩ := Prod.mk.inj (Except.ok.inj h)
      simp
    | succ n =>
      rw [cut] at h
      split_ifs at h with hlt
      cases hcut : cut (n + 1 - c.utf8Size) text with
      | error e => simp [hcut, Except.map] at h
      | ok parts =>
        obtain ⟨inner, rest⟩ := parts
        rw [hcut] at h
        obtain ⟨rfl, rfl⟩ := Prod.mk.inj (Except.ok.inj h)
        obtain ⟨rfl, hsize⟩ := ih hcut
        refine ⟨rfl, ?_⟩
        rw [size_cons, hsize]
        omega

/-- Cutting stops for one reason only. -/
lemma cut_error {e : Fault} (h : cut n text = .error e) : e = .slice := by
  induction text generalizing n with
  | nil =>
    cases n with
    | zero => simp [cut] at h
    | succ n => exact (Except.error.inj h).symm
  | cons c text ih =>
    cases n with
    | zero => simp [cut] at h
    | succ n =>
      rw [cut] at h
      split_ifs at h with hlt
      · exact (Except.error.inj h).symm
      · cases hcut : cut (n + 1 - c.utf8Size) text with
        | error e' =>
          rw [hcut] at h
          obtain rfl := Except.error.inj h
          exact ih hcut
        | ok parts => simp [hcut, Except.map] at h

/-- A place that cuts nothing is one that no part of the text ends at. -/
lemma cut_eq_error_iff : (∃ e, cut n text = .error e) ↔
    ∀ before after, text = before ++ after → size before ≠ n := by
  constructor
  · rintro ⟨e, he⟩ before after rfl rfl
    simp at he
  · intro h
    cases hcut : cut n text with
    | error e => exact ⟨e, rfl⟩
    | ok parts =>
      obtain ⟨heq, hsize⟩ := eq_append_of_cut hcut
      exact absurd hsize (h _ _ heq)

@[simp] theorem sliceFrom_append : sliceFrom (size before) (before ++ after) = .ok after := by
  rw [sliceFrom, cut_append]
  rfl

@[simp] theorem sliceTo_append : sliceTo (size before) (before ++ after) = .ok before := by
  rw [sliceTo, cut_append]
  rfl

/-- The text between two places. -/
lemma slice_append (middle : List Char) :
    slice (size before) (size before + size middle) (before ++ (middle ++ after)) =
      .ok middle := by
  rw [slice, if_neg (by omega), sliceFrom_append, Nat.add_sub_cancel_left]
  exact sliceTo_append

end Cut

section Search
variable {separator start text before after : List Char} {n : ℕ}

lemma eq_of_splitOnce (h : splitOnce separator text = some (before, after)) :
    text = before ++ (separator ++ after) := by
  induction text generalizing before with
  | nil =>
    rw [splitOnce] at h
    split_ifs at h with hnil
    obtain ⟨rfl, rfl⟩ := Prod.mk.inj (Option.some.inj h)
    simp [hnil]
  | cons c text ih =>
    rw [splitOnce] at h
    split_ifs at h with hprefix
    · obtain ⟨rfl, rfl⟩ := Prod.mk.inj (Option.some.inj h)
      obtain ⟨rest, hrest⟩ := List.isPrefixOf_iff_prefix.mp hprefix
      simp [← hrest]
    · obtain ⟨⟨inner, rest⟩, hsplit, heq⟩ := Option.map_eq_some_iff.mp h
      obtain ⟨rfl, rfl⟩ := Prod.mk.inj heq
      rw [ih hsplit, List.cons_append]

/-- A pattern that is found stands there. -/
lemma eq_of_find (h : find separator text = some n) :
    ∃ before after, text = before ++ (separator ++ after) ∧ size before = n := by
  obtain ⟨⟨before, after⟩, hsplit, hn⟩ := Option.map_eq_some_iff.mp h
  exact ⟨before, after, eq_of_splitOnce hsplit, hn⟩

lemma eq_of_stripPrefix (h : stripPrefix start text = some after) : text = start ++ after := by
  unfold stripPrefix at h
  split_ifs at h with hprefix
  obtain rfl := Option.some.inj h
  obtain ⟨rest, rfl⟩ := List.isPrefixOf_iff_prefix.mp hprefix
  simp

/-- The white space that is trimmed stands before the rest. -/
lemma eq_append_trimStart (text : List Char) :
    text = text.takeWhile isWhitespace ++ trimStart text :=
  List.takeWhile_append_dropWhile.symm

end Search

section FirstPlace
variable {separator before after text : List Char}

/-- A separator put after a text is found there and not earlier. -/
def FirstAfter (separator before : List Char) : Prop :=
  ∀ start rest, before ++ separator = start ++ (separator ++ rest) → rest = []

lemma FirstAfter.tail {c : Char} (h : FirstAfter separator (c :: before)) :
    FirstAfter separator before := by
  intro start rest heq
  apply h (c :: start) rest
  rw [List.cons_append, heq, List.cons_append]

lemma firstAfter_singleton {c : Char} (h : c ∉ before) : FirstAfter [c] before := by
  intro start rest heq
  rcases List.append_eq_append_iff.mp heq with ⟨between, -, hrest⟩ | ⟨between, rfl, hrest⟩
  · have hlength := congrArg List.length hrest
    simp only [List.length_append] at hlength
    exact List.length_eq_zero_iff.mp (by omega)
  · cases between with
    | nil => simpa using hrest
    | cons d between =>
      obtain ⟨rfl, -⟩ := List.cons_eq_cons.mp hrest
      exact absurd (List.mem_append_right start (.head _)) h

/-- A text is split where the separator first stands. -/
theorem splitOnce_append (hne : separator ≠ []) (h : FirstAfter separator before)
    (after : List Char) : splitOnce separator (before ++ (separator ++ after)) =
      some (before, after) := by
  induction before with
  | nil =>
    obtain ⟨c, cs, rfl⟩ := List.exists_cons_of_ne_nil hne
    have hstart : (c :: cs).isPrefixOf (c :: (cs ++ after)) := by
      rw [List.isPrefixOf_iff_prefix, ← List.cons_append]
      exact List.prefix_append _ _
    rw [List.nil_append, List.cons_append, splitOnce, if_pos hstart]
    simp
  | cons c before ih =>
    have hstart : ¬separator.isPrefixOf (c :: (before ++ (separator ++ after))) := by
      rw [List.isPrefixOf_iff_prefix]
      intro hprefix
      have hown : separator <+: c :: (before ++ separator) := by
        apply List.prefix_of_prefix_length_le hprefix
        · rw [← List.append_assoc, ← List.cons_append]
          exact List.prefix_append _ _
        · simp
          omega
      obtain ⟨rest, hrest⟩ := hown
      obtain rfl := h [] rest hrest.symm
      have hlength := congrArg List.length hrest
      simp at hlength
      omega
    rw [List.cons_append, splitOnce, if_neg hstart, ih h.tail]
    rfl

/-- The separator does not start inside what stands before. -/
def NoStart (separator before rest : List Char) : Prop :=
  ∀ start c inside, before = start ++ c :: inside → ¬separator <+: c :: (inside ++ rest)

lemma NoStart.tail {c : Char} (h : NoStart separator (c :: before) after) :
    NoStart separator before after := by
  intro start d inside heq
  apply h (c :: start) d inside
  rw [heq, List.cons_append]

lemma NoStart.append {between : List Char} (h : NoStart separator before (between ++ after))
    (hbetween : NoStart separator between after) :
    NoStart separator (before ++ between) after := by
  intro start c inside heq
  rcases List.append_eq_append_iff.mp heq with ⟨passed, -, hrest⟩ | ⟨passed, rfl, hrest⟩
  · exact hbetween passed c inside hrest
  · cases passed with
    | nil => exact hbetween [] c inside (by simpa using hrest.symm)
    | cons d passed =>
      obtain ⟨rfl, rfl⟩ := List.cons_eq_cons.mp hrest
      simpa using h start c passed rfl

/-- What the separator does not start in is passed over. -/
theorem splitOnce_over (h : NoStart separator before after) :
    splitOnce separator (before ++ after) =
      (splitOnce separator after).map fun (inside, rest) => (before ++ inside, rest) := by
  induction before with
  | nil => simp
  | cons c before ih =>
    have hstart : ¬separator.isPrefixOf (c :: (before ++ after)) := by
      rw [List.isPrefixOf_iff_prefix]
      exact h [] c before rfl
    rw [List.cons_append, splitOnce, if_neg hstart, ih h.tail, Option.map_map]
    rfl

/-- A text that starts with the separator is split there. -/
lemma splitOnce_start (hne : separator ≠ []) (after : List Char) :
    splitOnce separator (separator ++ after) = some ([], after) := by
  have hfirst : FirstAfter separator [] := by
    intro start rest heq
    have hlength := congrArg List.length heq
    simp only [List.nil_append, List.length_append] at hlength
    exact List.length_eq_zero_iff.mp (by omega)
  simpa using splitOnce_append hne hfirst after

lemma firstAfter_of_splitOnce (h : splitOnce separator text = some (before, after)) :
    FirstAfter separator before := by
  induction text generalizing before with
  | nil =>
    rw [splitOnce] at h
    split_ifs at h with hnil
    obtain ⟨rfl, -⟩ := Prod.mk.inj (Option.some.inj h)
    intro start rest heq
    simp_all
  | cons c text ih =>
    have htext := eq_of_splitOnce h
    rw [splitOnce] at h
    split_ifs at h with hstart
    · obtain ⟨rfl, -⟩ := Prod.mk.inj (Option.some.inj h)
      intro start rest heq
      have hlength := congrArg List.length heq
      simp only [List.nil_append, List.length_append] at hlength
      exact List.length_eq_zero_iff.mp (by omega)
    · obtain ⟨⟨inner, last⟩, hsplit, heq⟩ := Option.map_eq_some_iff.mp h
      obtain ⟨rfl, rfl⟩ := Prod.mk.inj heq
      intro start rest hinner
      cases start with
      | nil =>
        rw [List.isPrefixOf_iff_prefix] at hstart
        refine absurd ⟨rest ++ last, ?_⟩ hstart
        rw [htext, ← List.append_assoc, ← List.append_assoc, hinner]
        simp
      | cons d start =>
        rw [List.cons_append, List.cons_append, List.cons_eq_cons] at hinner
        exact ih hsplit start rest hinner.2

/-- What stops before the first separator is complete is not split. -/
theorem splitOnce_eq_none (h : FirstAfter separator before) (hpart : text <+: before ++ separator)
    (hshort : text.length < (before ++ separator).length) : splitOnce separator text = none := by
  cases hsplit : splitOnce separator text with
  | none => rfl
  | some parts =>
    obtain ⟨rest, hrest⟩ := hpart
    have htext := eq_of_splitOnce hsplit
    have hnil : parts.2 ++ rest = [] := by
      apply h parts.1
      rw [← hrest, htext]
      simp
    rw [List.append_eq_nil_iff] at hnil
    rw [← hrest, hnil.2, List.append_nil] at hshort
    omega

/-- A pattern that stands somewhere is found. -/
lemma contains_append (start rest : List Char) : contains text (start ++ (text ++ rest)) := by
  unfold contains
  induction start with
  | nil =>
    cases text with
    | nil => cases rest <;> simp [splitOnce]
    | cons c text =>
      have hstart : (c :: text).isPrefixOf (c :: (text ++ rest)) := by
        rw [List.isPrefixOf_iff_prefix, ← List.cons_append]
        exact List.prefix_append _ _
      rw [List.nil_append, List.cons_append, splitOnce, if_pos hstart]
      rfl
  | cons c start ih =>
    rw [List.cons_append, splitOnce]
    split_ifs
    · rfl
    · rwa [Option.isSome_map]

lemma contains_iff : contains separator text ↔ separator <:+: text := by
  constructor
  · intro h
    obtain ⟨⟨before, after⟩, hsplit⟩ := Option.isSome_iff_exists.mp h
    refine ⟨before, after, ?_⟩
    rw [eq_of_splitOnce hsplit, List.append_assoc]
  · rintro ⟨start, rest, rfl⟩
    rw [List.append_assoc]
    exact contains_append start rest

/-- A pattern is not found in what its first character does not stand in. -/
lemma infix_append_iff {c : Char} {pattern : List Char} (hc : c ∉ before) (after : List Char) :
    c :: pattern <:+: before ++ after ↔ c :: pattern <:+: after := by
  induction before with
  | nil => rfl
  | cons d before ih =>
    obtain ⟨hd, hbefore⟩ := List.ne_and_not_mem_of_not_mem_cons hc
    rw [List.cons_append, List.infix_cons_iff, ih hbefore, List.cons_prefix_cons]
    simp [hd]

/-- A pattern is not found where its last character does not stand. -/
lemma infix_append_iff_left {c : Char} {pattern : List Char} (hc : c ∉ after)
    (before : List Char) : pattern ++ [c] <:+: before ++ after ↔ pattern ++ [c] <:+: before := by
  have hreverse : c :: pattern.reverse <:+: before.reverse ↔ pattern ++ [c] <:+: before := by
    rw [← List.reverse_infix, List.reverse_cons, List.reverse_reverse, List.reverse_reverse]
  rw [← List.reverse_infix, List.reverse_append, List.reverse_append, List.reverse_singleton,
    List.singleton_append, infix_append_iff (by simpa using hc), hreverse]

lemma stripPrefix_append (start rest : List Char) :
    stripPrefix start (start ++ rest) = some rest := by
  have hstart : start.isPrefixOf (start ++ rest) :=
    List.isPrefixOf_iff_prefix.mpr (List.prefix_append _ _)
  rw [stripPrefix, if_pos hstart, List.drop_left]

end FirstPlace

section Trim
variable {text blanks rest : List Char} {c : Char}

lemma trimStart_cons (hc : isWhitespace c = false) (rest : List Char) :
    trimStart (c :: rest) = c :: rest := by
  simp [trimStart, hc]

lemma rdropWhile_blanks (hblanks : ∀ c ∈ blanks, isWhitespace c) (text : List Char) :
    (text ++ blanks).rdropWhile isWhitespace = text.rdropWhile isWhitespace := by
  rw [List.rdropWhile, List.reverse_append,
    List.dropWhile_append_of_pos fun c hc => hblanks c (List.mem_reverse.mp hc)]
  rfl

lemma rdropWhile_cons (hc : isWhitespace c = false) (text rest : List Char) :
    (text ++ c :: rest).rdropWhile isWhitespace =
      text ++ c :: rest.rdropWhile isWhitespace := by
  induction rest using List.reverseRecOn with
  | nil => simp [hc]
  | append_singleton rest last ih =>
    have hassoc : text ++ c :: (rest ++ [last]) = (text ++ c :: rest) ++ [last] := by simp
    rw [hassoc, List.rdropWhile_concat, List.rdropWhile_concat, ih]
    split_ifs <;> simp

/-- Blanks around a text without any are trimmed. -/
lemma trim_append_blanks (htext : ∀ c ∈ text, isWhitespace c = false)
    (hblanks : ∀ c ∈ blanks, isWhitespace c) : trim (text ++ blanks) = text := by
  unfold trim
  cases text with
  | nil =>
    rw [List.nil_append, trimStart, List.dropWhile_eq_nil_iff.mpr hblanks]
    rfl
  | cons c text =>
    rw [List.cons_append, trimStart_cons (htext c (.head _)), ← List.cons_append,
      rdropWhile_blanks hblanks, List.rdropWhile_eq_self_iff]
    intro hne
    simp [htext _ (List.getLast_mem hne)]

end Trim
end LoadBear.ByteText
