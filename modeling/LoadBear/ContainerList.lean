import LoadBear.Docker
import LoadBear.JsonText

/-!
# The container list

The scanner that splits a list into its objects counts braces outside strings. Over any part
of a value that lies inside an object it comes back to where it was, so each object of the
list is cut out where it begins and ends.
-/
namespace LoadBear.Docker

open ByteText JsonText

section Lists

/-- The text of an object. -/
def IsObjectText (text : List Char) : Prop :=
  ∃ spaced members, Writes spaced (.value (.object members)) text

/-- The inside of an array of objects, and the texts of these. -/
inductive Elements : List (List Char) → List Char → Prop
  | none {space : List Char} (hspace : Blank space) : Elements [] space
  | last {text before after : List Char} (hbefore : Blank before) (h : IsObjectText text)
      (hafter : Blank after) : Elements [text] (before ++ (text ++ after))
  | more {text next before after rest : List Char} {texts : List (List Char)}
      (hbefore : Blank before) (h : IsObjectText text) (hafter : Blank after)
      (hrest : Elements (next :: texts) rest) :
      Elements (text :: next :: texts) (before ++ (text ++ (after ++ ',' :: rest)))

/-- A list of objects as it is sent. -/
def IsListText (texts : List (List Char)) (text : List Char) : Prop :=
  ∃ before inner after, Blank before ∧ Blank after ∧ Elements texts inner ∧
    text = before ++ '[' :: (inner ++ ']' :: after)

end Lists

section Scanning
variable {text : List Char} {s : Scan}

lemma Scan.run_append (i : ℕ) (a b : List Char) :
    Scan.run text s i (a ++ b) =
      (Scan.run text s i a).bind fun next => Scan.run text next (i + size a) b := by
  induction a generalizing s i with
  | nil => rfl
  | cons c a ih =>
    rw [List.cons_append, Scan.run, Scan.run, size_cons]
    cases s.step text i c with
    | error e => rfl
    | ok next =>
      simp only [bind, Except.bind]
      rw [ih, Nat.add_assoc]
      rfl

/-- A part that leaves the scan where it was can be passed over. -/
lemma Scan.run_over {i : ℕ} {a : List Char} {next : Scan} (h : Scan.run text s i a = .ok next)
    (b : List Char) : Scan.run text s i (a ++ b) = Scan.run text next (i + size a) b := by
  rw [Scan.run_append, h]
  rfl

/-- The scan stands outside every string. -/
structure Scan.Outside (s : Scan) : Prop where
  inString : s.inString = false
  escaped : s.escaped = false

lemma Scan.run_inert (h : s.Outside) (i : ℕ) {a : List Char} (ha : ∀ c ∈ a, Inert c) :
    Scan.run text s i a = .ok s := by
  induction a generalizing i with
  | nil => rfl
  | cons c a ih =>
    obtain ⟨hquote, hopen, hclose⟩ := ha c (.head _)
    have hstep : s.step text i c = .ok s := by
      simp [Scan.step, h.inString, h.escaped, hquote, hopen, hclose]
    rw [Scan.run, hstep]
    exact ih _ fun d hd => ha d (.tail _ hd)

lemma Scan.run_mark (h : s.Outside) (i : ℕ) {c : Char} (hc : Inert c) :
    Scan.run text s i [c] = .ok s :=
  Scan.run_inert h i (by simpa using hc)

/-- Inside a string nothing but its end counts. -/
lemma Scan.run_plain (hin : s.inString = true) (hescaped : s.escaped = false) (i : ℕ)
    {a : List Char} (ha : ∀ c ∈ a, IsPlain c) : Scan.run text s i a = .ok s := by
  induction a generalizing i with
  | nil => rfl
  | cons c a ih =>
    obtain ⟨hquote, hbackslash⟩ := ha c (.head _)
    have hstep : s.step text i c = .ok s := by
      simp [Scan.step, hin, hescaped, hquote, hbackslash]
    rw [Scan.run, hstep]
    exact ih _ fun d hd => ha d (.tail _ hd)

lemma Scan.run_escape (hin : s.inString = true) (hescaped : s.escaped = false) (i : ℕ) (c : Char) :
    Scan.run text s i ['\\', c] = .ok s := by
  obtain ⟨items, depth, start, inString, escaped⟩ := s
  subst hin hescaped
  simp [Scan.run, Scan.step, bind, Except.bind]

lemma Scan.run_unit (hin : s.inString = true) (hescaped : s.escaped = false) (i : ℕ)
    (u : StringUnit) : Scan.run text s i u.text = .ok s := by
  cases u with
  | plain c legal =>
    apply Scan.run_plain hin hescaped
    simpa [StringUnit.text, IsPlain] using ⟨legal.1, legal.2.1⟩
  | escape c legal => exact Scan.run_escape hin hescaped i c
  | unicode a b c d legal =>
    have hsplit : (StringUnit.unicode a b c d legal).text = ['\\', 'u'] ++ [a, b, c, d] := rfl
    rw [hsplit, Scan.run_over (Scan.run_escape hin hescaped i 'u')]
    exact Scan.run_plain hin hescaped _ fun h hh => isPlain_of_hex (legal h hh)

lemma Scan.run_raw (hin : s.inString = true) (hescaped : s.escaped = false) (i : ℕ)
    (units : List StringUnit) : Scan.run text s i (raw units) = .ok s := by
  induction units generalizing i with
  | nil => rfl
  | cons u units ih =>
    have hsplit : raw (u :: units) = u.text ++ raw units := rfl
    rw [hsplit, Scan.run_over (Scan.run_unit hin hescaped i u)]
    exact ih _

/-- A whole string leaves the scan where it was. -/
lemma Scan.run_stringText (h : s.Outside) (i : ℕ) (units : List StringUnit) :
    Scan.run text s i (stringText units) = .ok s := by
  obtain ⟨items, depth, start, inString, escaped⟩ := s
  obtain ⟨hin, hescaped⟩ := h
  dsimp only at hin hescaped
  subst hin hescaped
  have hopen : Scan.run text ⟨items, depth, start, false, false⟩ i ['"'] =
      .ok ⟨items, depth, start, true, false⟩ := by
    simp [Scan.run, Scan.step, bind, Except.bind]
  have hinside : Scan.run text ⟨items, depth, start, true, false⟩ (i + size ['"']) (raw units) =
      .ok ⟨items, depth, start, true, false⟩ := Scan.run_raw rfl rfl _ units
  have hsplit : stringText units = ['"'] ++ (raw units ++ ['"']) := rfl
  rw [hsplit, Scan.run_over hopen, Scan.run_over hinside]
  simp [Scan.run, Scan.step, bind, Except.bind]

/-- An opening brace inside an object goes one level down. -/
lemma Scan.run_open (h : s.Outside) (i : ℕ) (hinside : 1 ≤ s.depth) (hfits : s.depth + 1 < 2 ^ 31) :
    Scan.run text s i ['{'] = .ok { s with depth := s.depth + 1 } := by
  have hdepth : ¬s.depth = 0 := by omega
  simp [Scan.run, Scan.step, h.inString, h.escaped, checkedDepth_eq (by omega) hfits, hdepth, bind,
    Except.bind, pure, Except.pure]

/-- The brace that closes it comes back up. -/
lemma Scan.run_close (h : s.Outside) (i : ℕ) (hinside : 1 ≤ s.depth) (hfits : s.depth < 2 ^ 31) :
    Scan.run text { s with depth := s.depth + 1 } i ['}'] = .ok s := by
  obtain ⟨items, depth, start, inString, escaped⟩ := s
  obtain ⟨hin, hescaped⟩ := h
  dsimp only at hin hescaped hinside hfits
  subst hin hescaped
  have hdepth : ¬depth = 0 := by omega
  simp [Scan.run, Scan.step, checkedDepth_eq (by omega : -2 ^ 31 ≤ depth) hfits, hdepth, bind,
    Except.bind, pure, Except.pure]

/-- Inside an object every part of a value leaves the scan where it was. -/
theorem Scan.run_part {spaced : Bool} {part : Part} {a : List Char} (h : Writes spaced part a)
    {s : Scan} (i : ℕ) (hs : s.Outside) (hinside : 1 ≤ s.depth)
    (hfits : s.depth + a.length < 2 ^ 31) : Scan.run text s i a = .ok s := by
  induction h generalizing s i with
  | literal word => exact Scan.run_inert hs i word.inert
  | number n => exact Scan.run_inert hs i n.inert
  | string units => exact Scan.run_stringText hs i units
  | @array items inner h ih =>
    simp only [List.length_cons, List.length_append] at hfits
    have hinner : ∀ i, Scan.run text s i inner = .ok s := fun i => ih i hs hinside (by omega)
    have hsplit : '[' :: (inner ++ [']']) = ['['] ++ (inner ++ [']']) := rfl
    rw [hsplit, Scan.run_over (Scan.run_mark hs i (by simp [Inert])), Scan.run_over (hinner _),
      Scan.run_mark hs _ (by simp [Inert])]
  | @object members inner h ih =>
    simp only [List.length_cons, List.length_append, List.length_nil] at hfits
    push_cast at hfits
    -- the members are scanned one level down, where the invariant holds as well
    have hinner : ∀ i, Scan.run text { s with depth := s.depth + 1 } i inner =
        .ok { s with depth := s.depth + 1 } := by
      intro i
      have hdeeper : Scan.Outside { s with depth := s.depth + 1 } := ⟨hs.inString, hs.escaped⟩
      apply ih i hdeeper
      · show 1 ≤ s.depth + 1
        omega
      · show s.depth + 1 + inner.length < 2 ^ 31
        omega
    have hsplit : '{' :: (inner ++ ['}']) = ['{'] ++ (inner ++ ['}']) := rfl
    rw [hsplit, Scan.run_over (Scan.run_open hs i hinside (by omega)), Scan.run_over (hinner _),
      Scan.run_close hs _ hinside (by omega)]
  | noItems hspace => exact Scan.run_inert hs i hspace.inert
  | @lastItem j before value after hbefore h hafter ih =>
    simp only [List.length_append] at hfits
    have hvalue : ∀ i, Scan.run text s i value = .ok s := fun i => ih i hs hinside (by omega)
    rw [Scan.run_over (Scan.run_inert hs i hbefore.inert), Scan.run_over (hvalue _),
      Scan.run_inert hs _ hafter.inert]
  | @item j next items before value after rest hbefore h hafter hrest ih ihrest =>
    simp only [List.length_append, List.length_cons] at hfits
    have hvalue : ∀ i, Scan.run text s i value = .ok s := fun i => ih i hs hinside (by omega)
    have hsplit : after ++ ',' :: rest = after ++ ([','] ++ rest) := rfl
    rw [hsplit, Scan.run_over (Scan.run_inert hs i hbefore.inert), Scan.run_over (hvalue _),
      Scan.run_over (Scan.run_inert hs _ hafter.inert),
      Scan.run_over (Scan.run_mark hs _ (by simp [Inert]))]
    exact ihrest _ hs hinside (by omega)
  | noMembers hspace => exact Scan.run_inert hs i hspace.inert
  | @lastMember key j before left right value after hbefore hleft hright hcolon h hafter ih =>
    simp only [List.length_append, List.length_cons] at hfits
    have hvalue : ∀ i, Scan.run text s i value = .ok s := fun i => ih i hs hinside (by omega)
    have hsplit : left ++ ':' :: (right ++ (value ++ after)) =
        left ++ ([':'] ++ (right ++ (value ++ after))) := rfl
    rw [hsplit, Scan.run_over (Scan.run_inert hs i hbefore.inert),
      Scan.run_over (Scan.run_stringText hs _ key), Scan.run_over (Scan.run_inert hs _ hleft.inert),
      Scan.run_over (Scan.run_mark hs _ (by simp [Inert])),
      Scan.run_over (Scan.run_inert hs _ hright.inert),
      Scan.run_over (hvalue _), Scan.run_inert hs _ hafter.inert]
  | @member key j next members before left right value after rest hbefore hleft hright hcolon h
      hafter hrest ih ihrest =>
    simp only [List.length_append, List.length_cons] at hfits
    have hvalue : ∀ i, Scan.run text s i value = .ok s := fun i => ih i hs hinside (by omega)
    have hsplit : left ++ ':' :: (right ++ (value ++ (after ++ ',' :: rest))) =
        left ++ ([':'] ++ (right ++ (value ++ (after ++ ([','] ++ rest))))) := rfl
    rw [hsplit, Scan.run_over (Scan.run_inert hs i hbefore.inert),
      Scan.run_over (Scan.run_stringText hs _ key), Scan.run_over (Scan.run_inert hs _ hleft.inert),
      Scan.run_over (Scan.run_mark hs _ (by simp [Inert])),
      Scan.run_over (Scan.run_inert hs _ hright.inert),
      Scan.run_over (hvalue _), Scan.run_over (Scan.run_inert hs _ hafter.inert),
      Scan.run_over (Scan.run_mark hs _ (by simp [Inert]))]
    exact ihrest _ hs hinside (by omega)

end Scanning

section Splitting

/-- Between the elements of the list. -/
def Scan.ready (items : List (List Char)) : Scan := ⟨items, 0, none, false, false⟩

lemma Scan.outside_ready (items : List (List Char)) : (Scan.ready items).Outside := ⟨rfl, rfl⟩

/-- An object of the list is cut out where it begins and ends. -/
lemma Scan.run_object {object : List Char} (h : IsObjectText object)
    (hfits : object.length < 2 ^ 31) (items : List (List Char)) (before after : List Char) :
    Scan.run (before ++ (object ++ after)) (Scan.ready items) (size before) object =
      .ok (Scan.ready (items ++ [object])) := by
  obtain ⟨spaced, members, hwrites⟩ := h
  obtain ⟨inner, rfl, hmembers⟩ : ∃ inner, object = '{' :: (inner ++ ['}']) ∧
      Writes spaced (.members members) inner := by
    cases hwrites with
    | @object members inner hmembers => exact ⟨inner, rfl, hmembers⟩
  simp only [List.length_cons, List.length_append, List.length_nil] at hfits
  have hsplit : '{' :: (inner ++ ['}']) = ['{'] ++ (inner ++ ['}']) := rfl
  generalize htext : before ++ ('{' :: (inner ++ ['}']) ++ after) = text
  have hopen : Scan.run text (Scan.ready items) (size before) ['{'] =
      .ok ⟨items, 1, some (size before), false, false⟩ := by
    simp [Scan.run, Scan.step, Scan.ready, checkedDepth, bind, Except.bind, pure, Except.pure]
  have hinner : ∀ i, Scan.run text ⟨items, 1, some (size before), false, false⟩ i inner =
      .ok ⟨items, 1, some (size before), false, false⟩ := by
    intro i
    apply Scan.run_part hmembers i ⟨rfl, rfl⟩ le_rfl
    show (1 : ℤ) + inner.length < 2 ^ 31
    omega
  -- the depth is back at zero, so the text from the kept start on is an element
  have hclose : ∀ last, last + 1 = size before + size ('{' :: (inner ++ ['}'])) →
      Scan.run text ⟨items, 1, some (size before), false, false⟩ last ['}'] =
        .ok (Scan.ready (items ++ ['{' :: (inner ++ ['}'])])) := by
    intro last hlast
    have hslice : slice (size before) (last + 1) text = .ok ('{' :: (inner ++ ['}'])) := by
      rw [hlast, ← htext]
      exact slice_append _
    simp [Scan.run, Scan.step, Scan.ready, checkedDepth, hslice, bind, Except.bind, pure,
      Except.pure]
  have hend : size before + size ['{'] + size inner + 1 =
      size before + size ('{' :: (inner ++ ['}'])) := by
    have hbrace : size ['}'] = 1 := by decide
    rw [hsplit, size_append, size_append, hbrace]
    omega
  rw [hsplit, Scan.run_over hopen, Scan.run_over (hinner _), hclose _ hend]
  rfl

/-- The elements are cut out one after the other. -/
lemma Scan.run_elements {texts : List (List Char)} {inner : List Char} (h : Elements texts inner)
    (hfits : inner.length < 2 ^ 31) (items : List (List Char)) (before after : List Char) :
    Scan.run (before ++ (inner ++ after)) (Scan.ready items) (size before) inner =
      .ok (Scan.ready (items ++ texts)) := by
  induction h generalizing items before with
  | none hspace =>
    rw [Scan.run_inert (Scan.outside_ready items) _ hspace.inert, List.append_nil]
  | @last object left right hleft h hright =>
    simp only [List.length_append] at hfits
    have hobject := Scan.run_object h (by omega) items (before ++ left) (right ++ after)
    simp only [size_append, List.append_assoc] at hobject ⊢
    rw [Scan.run_over (Scan.run_inert (Scan.outside_ready items) _ hleft.inert),
      Scan.run_over hobject, Scan.run_inert (Scan.outside_ready _) _ hright.inert]
  | @more object next left right rest texts hleft h hright hrest ih =>
    simp only [List.length_append, List.length_cons] at hfits
    have hobject := Scan.run_object h (by omega) items (before ++ left)
      (right ++ ([','] ++ (rest ++ after)))
    have hlater := ih (by omega) (items ++ [object])
      (before ++ (left ++ (object ++ (right ++ [',']))))
    have hsplit : right ++ ',' :: rest = right ++ ([','] ++ rest) := rfl
    rw [hsplit]
    simp only [size_append, List.append_assoc] at hobject hlater ⊢
    rw [Scan.run_over (Scan.run_inert (Scan.outside_ready items) _ hleft.inert),
      Scan.run_over hobject, Scan.run_over (Scan.run_inert (Scan.outside_ready _) _ hright.inert),
      Scan.run_over (Scan.run_mark (Scan.outside_ready _) _ (by simp [Inert]))]
    simpa only [Nat.add_assoc, List.singleton_append] using hlater

/-- A list of objects comes apart into these. -/
lemma arrayItems_of_elements {texts : List (List Char)} {before inner after : List Char}
    (hbefore : Blank before) (hafter : Blank after) (helements : Elements texts inner)
    (hlength : inner.length < 2 ^ 31) :
    arrayItems (before ++ '[' :: (inner ++ ']' :: after)) = .ok texts := by
  have hready := Scan.outside_ready
  have hinner := Scan.run_elements helements hlength [] (before ++ ['[']) ([']'] ++ after)
  rw [size_append, List.append_assoc] at hinner
  have hsplit : before ++ '[' :: (inner ++ ']' :: after) =
      before ++ (['['] ++ (inner ++ ([']'] ++ after))) := rfl
  have hscan : Scan.run (before ++ (['['] ++ (inner ++ ([']'] ++ after)))) (Scan.ready []) 0
      (before ++ (['['] ++ (inner ++ ([']'] ++ after)))) = .ok (Scan.ready texts) := by
    rw [Scan.run_over (Scan.run_inert (hready []) _ hbefore.inert),
      Scan.run_over (Scan.run_mark (hready []) _ (by simp [Inert])), Nat.zero_add,
      Scan.run_over hinner, List.nil_append,
      Scan.run_over (Scan.run_mark (hready _) _ (by simp [Inert])),
      Scan.run_inert (hready _) _ hafter.inert]
  rw [arrayItems, hsplit]
  exact congrArg (Except.map Scan.items) hscan

/-- A list of objects is split into the texts of these. No answer read from the engine is as long
as the depth can count. -/
theorem arrayItems_listText {texts : List (List Char)} {text : List Char}
    (h : IsListText texts text) (hlength : text.length < 2 ^ 31) : arrayItems text = .ok texts := by
  obtain ⟨before, inner, after, hbefore, hafter, helements, rfl⟩ := h
  simp only [List.length_append, List.length_cons] at hlength
  exact arrayItems_of_elements hbefore hafter helements (by omega)

/-- A label that is a quote and a brace. -/
def braceLabel : Json :=
  .object [([.plain 'L' (by decide)], .string [.escape '"' (by decide), .plain '}' (by decide)])]

lemma isObjectText_compact (members : List (List StringUnit × Json)) :
    IsObjectText (compact (.object members)) :=
  ⟨false, members, writes_compact false _⟩

theorem labels_do_not_split :
    arrayItems "[\x7b\"L\":\"\\\"\x7d\"\x7d, \x7b\x7d]\n".toList =
      .ok ["\x7b\"L\":\"\\\"\x7d\"\x7d".toList, "\x7b\x7d".toList] := by
  have hlabel : IsObjectText (compact braceLabel) := isObjectText_compact _
  have hspace : Blank [' '] := by simp [Blank, IsSpace]
  have hend : Blank ['\n'] := by simp [Blank, IsSpace]
  have hempty : IsObjectText (compact (.object [])) := isObjectText_compact _
  have helements := Elements.more blank_nil hlabel blank_nil
    (Elements.last hspace hempty blank_nil)
  exact arrayItems_listText ⟨[], _, _, blank_nil, hend, helements, by decide⟩ (by decide)

end Splitting
end LoadBear.Docker
