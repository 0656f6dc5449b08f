import LoadBear.ByteText
import LoadBear.JsonText
import LoadBear.Types

/-!
# The base clock the machine reports

The operating system states a nominal frequency, and many parts carry one in their brand
string. Where both exist they must agree, and where they do not, neither is trusted. A
figure of the brand string that is not plausible counts as none at all.
-/
namespace LoadBear

open ByteText JsonText

/-- Plausible for anything claiming to be a base clock. -/
def plausibleBase (mhz : ℕ) : Bool := 400 ≤ mhz ∧ mhz ≤ 6000

/-- How far the two sources may disagree and still be believed. -/
def baseAgreementMhz : ℕ := 50

/-- `u32::abs_diff`. -/
def absDiff (a b : ℕ) : ℕ := max a b - min a b

/-- The nearest integer, a half away from zero, saturated to 32 bits. -/
def roundToU32 (q : ℚ) : ℕ := min ⌊q + 1 / 2⌋₊ (2 ^ 32 - 1)

section Source
variable (rt : Runtime)

/-- `f64::from_str`, of a text that holds digits and points only. -/
def parseF64 (text : List Char) : Option ℚ :=
  let whole := text.takeWhile Char.isDigit
  let fraction := (text.dropWhile Char.isDigit).drop 1
  if fraction.all Char.isDigit ∧ (whole ≠ [] ∨ fraction ≠ []) then
    some (rt.f64 (natOf whole + natOf fraction / 10 ^ fraction.length))
  else none

/-- A base frequency out of a brand string, if it states one. -/
def baseFromBrand (brand : String) : Option ℕ := do
  let tail := trim (← (brand.toList.splitOn '@')[1]?)
  let value ← parseF64 rt (tail.takeWhile fun c => c.isDigit || c = '.')
  let lower := tail.map Char.toLower
  let mhz ←
    if contains "ghz".toList lower then some (roundToU32 (rt.f64 (value * 1000)))
    else if contains "mhz".toList lower then some (roundToU32 value)
    else none
  if plausibleBase mhz then some mhz else none

/-- The base clock as the machine itself reports it, when it can be trusted. -/
def reportedBaseMhz (osNominalMhz : ℕ) (brand : Option String) : Option ℕ :=
  if !plausibleBase osNominalMhz then none
  else
    match brand.bind (baseFromBrand rt) with
    | some fromBrand =>
      if absDiff osNominalMhz fromBrand ≤ baseAgreementMhz then some osNominalMhz else none
    | none => some osNominalMhz

end Source

inductive FrequencyUnit
  | mhz
  | ghz
  deriving DecidableEq, Repr

namespace FrequencyUnit

def letters : FrequencyUnit → List Char
  | mhz => "mhz".toList
  | ghz => "ghz".toList

def inMhz : FrequencyUnit → ℚ
  | mhz => 1
  | ghz => 1000

end FrequencyUnit

/-- A brand string whose text after its first `@` states a frequency. -/
structure BaseStatement where
  before : List Char
  lead : List Char
  whole : List Char
  fraction : List Char
  gap : List Char
  unit : FrequencyUnit
  spelling : List Char
  rest : List Char
  first_at : '@' ∉ before
  lead_blank : ∀ c ∈ lead, isWhitespace c
  whole_digits : ∀ c ∈ whole, c.isDigit
  whole_ne_nil : whole ≠ []
  fraction_digits : ∀ c ∈ fraction, c.isDigit
  gap_blank : ∀ c ∈ gap, isWhitespace c
  unit_spelled : spelling.map Char.toLower = unit.letters

namespace BaseStatement
variable (s : BaseStatement)

/-- The digits, with a point before the fractional part if there is one. -/
def number : List Char := s.whole ++ if s.fraction = [] then [] else '.' :: s.fraction

def brand : String :=
  String.ofList (s.before ++ '@' :: (s.lead ++ (s.number ++ (s.gap ++ (s.spelling ++ s.rest)))))

/-- The decimal number that is stated. -/
def value : ℚ := natOf s.whole + natOf s.fraction / 10 ^ s.fraction.length

/-- The frequency that is stated, in whole MHz. -/
def mhz : ℕ := ⌊s.value * s.unit.inMhz + 1 / 2⌋₊

/-- A thousand times the number that is stated. -/
def thousandfold : ℕ := ⌊s.value * 1000 + 1 / 2⌋₊

/-- What comes after the unit, up to a second `@`. -/
def remark : List Char := s.rest.takeWhile (· ≠ '@')

/-- The frequency is in MHz, and a remark after it mentions GHz. -/
def Misread : Prop := s.unit = .mhz ∧ "ghz".toList <:+: s.remark.map Char.toLower

end BaseStatement

section Characters
variable {c : Char}

lemma isUpper_iff : c.isUpper ↔ 65 ≤ c.toNat ∧ c.toNat ≤ 90 :=
  decide_eq_true_iff.trans (and_congr UInt32.le_iff_toNat_le UInt32.le_iff_toNat_le)

lemma toLower_of_not_isUpper (h : ¬c.isUpper) : c.toLower = c := by
  unfold Char.toLower
  exact dif_neg fun hupper => h (isUpper_iff.mpr hupper)

lemma not_isUpper_of_isWhitespace (h : isWhitespace c) : ¬c.isUpper := by
  rw [isWhitespace, decide_eq_true_iff] at h
  simp only [isUpper_iff, List.mem_cons, List.not_mem_nil, or_false, ← UInt32.toNat_inj,
    UInt32.le_iff_toNat_le] at h ⊢
  simp at h
  omega

lemma not_isUpper_of_isDigit (h : c.isDigit) : ¬c.isUpper := by
  simp only [Char.isDigit, UInt32.le_iff_toNat_le, Bool.and_eq_true, decide_eq_true_iff,
    ge_iff_le] at h
  rw [isUpper_iff]
  simp at h
  omega

lemma isDigit_of_isWhitespace (h : isWhitespace c) : c.isDigit = false := by
  rw [isWhitespace, decide_eq_true_iff] at h
  simp only [Char.isDigit, List.mem_cons, List.not_mem_nil, or_false, ← UInt32.toNat_inj,
    UInt32.le_iff_toNat_le, Bool.and_eq_false_iff, decide_eq_false_iff_not, ge_iff_le] at h ⊢
  simp at h ⊢
  omega

/-- A character that a number is written with, or a blank. -/
def IsFigure (c : Char) : Prop := c.isDigit ∨ c = '.' ∨ isWhitespace c

lemma IsFigure.toLower (h : IsFigure c) : c.toLower = c := by
  apply toLower_of_not_isUpper
  rcases h with hdigit | rfl | hblank
  · exact not_isUpper_of_isDigit hdigit
  · decide
  · exact not_isUpper_of_isWhitespace hblank

lemma map_toLower_of_isFigure {text : List Char} (h : ∀ c ∈ text, IsFigure c) :
    text.map Char.toLower = text := by
  rw [List.map_congr_left fun c hc => (h c hc).toLower, List.map_id']

lemma not_mem_of_isFigure {text : List Char} (h : ∀ c ∈ text, IsFigure c)
    (hc : ¬IsFigure c) : c ∉ text := fun hmem => hc (h c hmem)

lemma not_isFigure : ¬IsFigure '@' ∧ ¬IsFigure 'g' ∧ ¬IsFigure 'z' := by
  unfold IsFigure
  decide

/-- The first part of a split text. -/
lemma splitOn_getElem?_zero (text : List Char) :
    (text.splitOn '@')[0]? = some (text.takeWhile (· ≠ '@')) := by
  induction text with
  | nil => rfl
  | cons d text ih =>
    rw [List.splitOn_cons_eq_if_modifyHead, List.takeWhile_cons]
    by_cases hd : d = '@'
    · simp [hd]
    · simp [hd, ih]

end Characters

namespace BaseStatement
variable (s : BaseStatement)

section Parts

lemma isDigit_or_point_of_mem_number : ∀ c ∈ s.number, c.isDigit ∨ c = '.' := by
  intro c hc
  unfold number at hc
  split_ifs at hc
  · rw [List.append_nil] at hc
    exact .inl (s.whole_digits c hc)
  · rcases List.mem_append.mp hc with hwhole | hfraction
    · exact .inl (s.whole_digits c hwhole)
    · rcases List.mem_cons.mp hfraction with rfl | hfraction
      · exact .inr rfl
      · exact .inl (s.fraction_digits c hfraction)

lemma number_isFigure : ∀ c ∈ s.number, IsFigure c := fun c hc =>
  (s.isDigit_or_point_of_mem_number c hc).imp_right .inl

lemma gap_isFigure : ∀ c ∈ s.gap, IsFigure c := fun c hc => .inr (.inr (s.gap_blank c hc))

lemma spelling_not_isFigure : ∀ c ∈ s.spelling, ¬IsFigure c := by
  intro c hc hfigure
  have hletter : c ∈ s.unit.letters := by
    rw [← s.unit_spelled]
    exact List.mem_map.mpr ⟨c, hc, hfigure.toLower⟩
  have hletters : ∀ unit : FrequencyUnit, ∀ d ∈ unit.letters, ¬IsFigure d := by
    intro unit
    cases unit <;> simp [FrequencyUnit.letters, IsFigure, isWhitespace]
  exact hletters s.unit c hletter hfigure

lemma exists_spelling : ∃ first between last, s.spelling = first :: (between ++ [last]) := by
  have hlength : s.spelling.length = 3 := by
    rw [← List.length_map (f := Char.toLower), s.unit_spelled]
    cases s.unit <;> rfl
  obtain ⟨a, b, c, habc⟩ := List.length_eq_three.mp hlength
  exact ⟨a, [b], c, habc⟩

end Parts

section Reading

/-- What is left of the remark when its text was trimmed. -/
def trimmedRemark : List Char := s.remark.rdropWhile isWhitespace

/-- The text after the first `@`, up to a second one. -/
lemma after_at : (s.brand.toList.splitOn '@')[1]? =
    some (s.lead ++ (s.number ++ (s.gap ++ (s.spelling ++ s.remark)))) := by
  have hat : ∀ text : List Char, (∀ c ∈ text, c ≠ '@') → ∀ after : List Char,
      (text ++ after).takeWhile (· ≠ '@') = text ++ after.takeWhile (· ≠ '@') := by
    intro text htext after
    exact List.takeWhile_append_of_pos fun c hc => decide_eq_true (htext c hc)
  have hfigure : ∀ c, IsFigure c → c ≠ '@' := by
    rintro c hc rfl
    exact not_isFigure.1 hc
  have hspelling : ∀ c ∈ s.spelling, c ≠ '@' := by
    rintro c hc rfl
    have hletter : '@' ∈ s.unit.letters := by
      rw [← s.unit_spelled]
      exact List.mem_map.mpr ⟨'@', hc, rfl⟩
    revert hletter
    cases s.unit <;> decide
  rw [brand, String.toList_ofList, List.splitOn_append_cons_self_of_not_mem s.first_at,
    List.getElem?_cons_succ, splitOn_getElem?_zero,
    hat s.lead fun c hc => hfigure c (.inr (.inr (s.lead_blank c hc))),
    hat s.number fun c hc => hfigure c (s.number_isFigure c hc),
    hat s.gap fun c hc => hfigure c (s.gap_isFigure c hc), hat s.spelling hspelling]
  rfl

lemma trim_after_at : trim (s.lead ++ (s.number ++ (s.gap ++ (s.spelling ++ s.remark)))) =
    s.number ++ (s.gap ++ (s.spelling ++ s.trimmedRemark)) := by
  obtain ⟨first, between, last, hspelling⟩ := s.exists_spelling
  obtain ⟨d, whole, hwhole⟩ := List.exists_cons_of_ne_nil s.whole_ne_nil
  have hd : isWhitespace d = false := by
    by_contra hblank
    have hdigit := s.whole_digits d (by rw [hwhole]; exact .head _)
    rw [isDigit_of_isWhitespace (by simpa using hblank)] at hdigit
    cases hdigit
  have hlast : isWhitespace last = false := by
    have hmem : last ∈ s.spelling := by simp [hspelling]
    by_contra hblank
    exact s.spelling_not_isFigure last hmem (.inr (.inr (by simpa using hblank)))
  have hstart : trimStart (s.lead ++ (s.number ++ (s.gap ++ (s.spelling ++ s.remark)))) =
      s.number ++ (s.gap ++ (s.spelling ++ s.remark)) := by
    rw [trimStart, List.dropWhile_append_of_pos s.lead_blank, number, hwhole]
    exact trimStart_cons hd _
  have hassoc : ∀ after, s.number ++ (s.gap ++ (s.spelling ++ after)) =
      (s.number ++ (s.gap ++ first :: between)) ++ last :: after := by
    intro after
    simp [hspelling]
  rw [trim, hstart, hassoc, rdropWhile_cons hlast, trimmedRemark, hassoc]

/-- The number ends where the gap or the unit begins. -/
lemma takeWhile_number (after : List Char) :
    (s.number ++ (s.gap ++ (s.spelling ++ after))).takeWhile (fun c => c.isDigit || c = '.') =
      s.number := by
  obtain ⟨first, between, last, hspelling⟩ := s.exists_spelling
  have hnumber : ∀ c ∈ s.number, (c.isDigit || c = '.') = true := fun c hc => by
    simpa using s.isDigit_or_point_of_mem_number c hc
  have hend : (s.gap ++ (s.spelling ++ after)).takeWhile (fun c => c.isDigit || c = '.') = [] := by
    cases hgap : s.gap with
    | nil =>
      have hfirst := s.spelling_not_isFigure first (by simp [hspelling])
      simp only [IsFigure, not_or] at hfirst
      simp [hspelling, hfirst]
    | cons d gap =>
      have hblank := s.gap_blank d (by simp [hgap])
      have hpoint : d ≠ '.' := by
        rintro rfl
        exact absurd hblank (by decide)
      simp [isDigit_of_isWhitespace hblank, hpoint]
  rw [List.takeWhile_append_of_pos hnumber, hend, List.append_nil]

lemma parseF64_number (lowercase : String → String) :
    parseF64 (.exact lowercase) s.number = some s.value := by
  have hwhole : ∀ after : List Char, (∀ c ∈ after.head?, c = '.') →
      (s.whole ++ after).takeWhile Char.isDigit = s.whole ∧
        (s.whole ++ after).dropWhile Char.isDigit = after := by
    intro after hafter
    rw [List.takeWhile_append_of_pos s.whole_digits, List.dropWhile_append_of_pos s.whole_digits]
    cases after with
    | nil => simp
    | cons c after =>
      obtain rfl := hafter c rfl
      simp
  have hpoint : ∀ c ∈ (if s.fraction = [] then [] else '.' :: s.fraction).head?, c = '.' := by
    split_ifs <;> simp
  have hfraction : (if s.fraction = [] then [] else '.' :: s.fraction).drop 1 = s.fraction := by
    split_ifs with hnone <;> simp [hnone]
  obtain ⟨htake, hdrop⟩ := hwhole _ hpoint
  unfold parseF64 number
  rw [htake, hdrop, hfraction]
  exact if_pos ⟨List.all_eq_true.mpr s.fraction_digits, .inl s.whole_ne_nil⟩

lemma map_toLower_tail :
    (s.number ++ (s.gap ++ (s.spelling ++ s.trimmedRemark))).map Char.toLower =
      (s.number ++ s.gap) ++ (s.unit.letters ++ s.trimmedRemark.map Char.toLower) := by
  rw [List.map_append, List.map_append, List.map_append, s.unit_spelled,
    map_toLower_of_isFigure s.number_isFigure, map_toLower_of_isFigure s.gap_isFigure,
    List.append_assoc]

lemma contains_unit (after : List Char) :
    contains s.unit.letters ((s.number ++ s.gap) ++ (s.unit.letters ++ after)) :=
  contains_append _ _

/-- What is trimmed from a remark does not matter to the unit. -/
lemma ghz_infix_trimmedRemark : "ghz".toList <:+: s.trimmedRemark.map Char.toLower ↔
    "ghz".toList <:+: s.remark.map Char.toLower := by
  have hblank : ∀ c ∈ s.remark.rtakeWhile isWhitespace, IsFigure c := fun c hc =>
    .inr (.inr (List.mem_rtakeWhile_imp hc))
  have hremark : s.remark.map Char.toLower =
      s.trimmedRemark.map Char.toLower ++ s.remark.rtakeWhile isWhitespace := by
    conv_lhs => rw [← List.rdropWhile_append_rtakeWhile (p := isWhitespace) (l := s.remark)]
    rw [List.map_append, map_toLower_of_isFigure hblank, trimmedRemark]
  rw [hremark, show "ghz".toList = ['g', 'h'] ++ ['z'] from rfl,
    infix_append_iff_left (not_mem_of_isFigure hblank not_isFigure.2.2)]

lemma contains_ghz_iff :
    contains "ghz".toList
        ((s.number ++ s.gap) ++ (s.unit.letters ++ s.trimmedRemark.map Char.toLower)) ↔
      s.unit = .ghz ∨ s.Misread := by
  cases hunit : s.unit with
  | ghz => simpa [hunit, FrequencyUnit.letters] using s.contains_unit _
  | mhz =>
    have hstated : 'g' ∉ (s.number ++ s.gap) ++ "mhz".toList := by
      have hnumber := not_mem_of_isFigure s.number_isFigure not_isFigure.2.1
      have hgap := not_mem_of_isFigure s.gap_isFigure not_isFigure.2.1
      simp [hnumber, hgap]
    rw [FrequencyUnit.letters, ← List.append_assoc, contains_iff,
      show "ghz".toList = 'g' :: ['h', 'z'] from rfl, infix_append_iff hstated]
    simpa [Misread, hunit] using s.ghz_infix_trimmedRemark

end Reading

section Answer
variable (lowercase : String → String)

lemma plausibleBase_roundToU32 (q : ℚ) :
    (if plausibleBase (roundToU32 q) then some (roundToU32 q) else none) =
      if plausibleBase ⌊q + 1 / 2⌋₊ then some ⌊q + 1 / 2⌋₊ else none := by
  unfold roundToU32
  by_cases hle : ⌊q + 1 / 2⌋₊ ≤ 2 ^ 32 - 1
  · rw [min_eq_left hle]
  · rw [if_neg, if_neg]
    · simp only [plausibleBase, decide_eq_true_eq]
      omega
    · rw [min_eq_right (not_le.mp hle).le]
      decide

/-- The unit is looked for anywhere in what was trimmed. -/
lemma baseFromBrand_brand : baseFromBrand (.exact lowercase) s.brand =
    if contains "ghz".toList
        ((s.number ++ s.gap) ++ (s.unit.letters ++ s.trimmedRemark.map Char.toLower)) then
      if plausibleBase s.thousandfold then some s.thousandfold else none
    else if contains "mhz".toList
        ((s.number ++ s.gap) ++ (s.unit.letters ++ s.trimmedRemark.map Char.toLower)) then
      if plausibleBase ⌊s.value + 1 / 2⌋₊ then some ⌊s.value + 1 / 2⌋₊ else none
    else none := by
  unfold baseFromBrand
  simp only [s.after_at, Option.bind_eq_bind, Option.bind_some, Option.bind_none, s.trim_after_at,
    s.takeWhile_number, s.parseF64_number, s.map_toLower_tail, Runtime.exact_f64,
    plausibleBase_roundToU32]
  rfl

/-- Where the remark does not mislead, the figure is the one that is stated. -/
theorem baseFromBrand_of_not_misread (h : ¬s.Misread) :
    baseFromBrand (.exact lowercase) s.brand =
      if plausibleBase s.mhz then some s.mhz else none := by
  rw [baseFromBrand_brand]
  have hghz := s.contains_ghz_iff
  have hown := s.contains_unit (s.trimmedRemark.map Char.toLower)
  cases hunit : s.unit with
  | ghz =>
    rw [hunit] at hghz
    rw [if_pos (hghz.mpr (.inl rfl)), mhz, hunit]
    rfl
  | mhz =>
    rw [hunit] at hghz hown
    have hnot : ¬(FrequencyUnit.mhz = .ghz ∨ s.Misread) := by simp [h]
    rw [if_neg (hghz.not.mpr hnot), if_pos (by exact hown), mhz, hunit, FrequencyUnit.inMhz,
      mul_one]

/-- A remark in GHz turns a figure in MHz into a thousandfold one. -/
theorem baseFromBrand_of_misread (h : s.Misread) :
    baseFromBrand (.exact lowercase) s.brand =
      if plausibleBase s.thousandfold then some s.thousandfold else none := by
  rw [baseFromBrand_brand, if_pos (s.contains_ghz_iff.mpr (.inr h))]

/-- A plausible thousandfold is that of a figure far too small. -/
lemma mhz_le_of_misread (h : s.Misread) (hrange : plausibleBase s.thousandfold) :
    s.mhz ≤ 6 := by
  have hthousand : ⌊s.value * 1000 + 1 / 2⌋₊ < 6001 := by
    have hle := (of_decide_eq_true hrange).2
    unfold thousandfold at hle
    omega
  have hlt := (Nat.floor_lt' (by decide)).mp hthousand
  have hmhz : ⌊s.value * s.unit.inMhz + 1 / 2⌋₊ < 7 := by
    rw [Nat.floor_lt' (by decide), h.1, FrequencyUnit.inMhz]
    push_cast at hlt ⊢
    linarith
  unfold mhz
  omega

end Answer

end BaseStatement

section CrossCheck

/-- The operating system's figure agrees with another one. -/
def BaseAgrees (osNominalMhz mhz : ℕ) : Prop := absDiff osNominalMhz mhz ≤ baseAgreementMhz

variable (lowercase : String → String) (osNominalMhz : ℕ) (s : BaseStatement)

/-- The operating system's figure is believed only where the brand string agrees, and it is
where both are plausible and agree. -/
structure RightlyBelieved : Prop where
  only : reportedBaseMhz (.exact lowercase) osNominalMhz (some s.brand) = some osNominalMhz →
    BaseAgrees osNominalMhz s.mhz
  whenever : plausibleBase osNominalMhz → plausibleBase s.mhz → BaseAgrees osNominalMhz s.mhz →
    reportedBaseMhz (.exact lowercase) osNominalMhz (some s.brand) = some osNominalMhz

/-- The figure of the brand string can be checked against: it is read in its own unit, and
is plausible or agrees anyway, or else it is mistaken for a figure in GHz that does no harm. -/
def Checkable : Prop :=
  (¬s.Misread ∧ (plausibleBase s.mhz ∨ BaseAgrees osNominalMhz s.mhz)) ∨
    (s.Misread ∧ plausibleBase s.thousandfold ∧ ¬BaseAgrees osNominalMhz s.thousandfold) ∨
    (s.Misread ∧ ¬plausibleBase s.thousandfold ∧ BaseAgrees osNominalMhz s.mhz)

lemma reportedBaseMhz_of_read (hos : plausibleBase osNominalMhz) {mhz : ℕ}
    (hread : baseFromBrand (.exact lowercase) s.brand =
      if plausibleBase mhz then some mhz else none) :
    reportedBaseMhz (.exact lowercase) osNominalMhz (some s.brand) = some osNominalMhz ↔
      (plausibleBase mhz → BaseAgrees osNominalMhz mhz) := by
  unfold reportedBaseMhz BaseAgrees
  rw [Option.bind_some, hread]
  by_cases hmhz : plausibleBase mhz
  · simp [hos, hmhz]
  · simp [hos, hmhz]

/-- A figure of a few MHz never agrees with a plausible one. -/
lemma not_baseAgrees_of_misread (hos : plausibleBase osNominalMhz) (h : s.Misread)
    (hrange : plausibleBase s.thousandfold) :
    ¬BaseAgrees osNominalMhz s.mhz ∧ ¬plausibleBase s.mhz := by
  have hsmall := s.mhz_le_of_misread h hrange
  simp only [plausibleBase, BaseAgrees, absDiff, baseAgreementMhz, decide_eq_true_eq] at hos ⊢
  omega

lemma rightlyBelieved_of_inRange (hos : plausibleBase osNominalMhz) :
    RightlyBelieved lowercase osNominalMhz s ↔ Checkable osNominalMhz s := by
  have hiff : RightlyBelieved lowercase osNominalMhz s ↔
      (reportedBaseMhz (.exact lowercase) osNominalMhz (some s.brand) = some osNominalMhz →
        BaseAgrees osNominalMhz s.mhz) ∧
      (plausibleBase s.mhz → BaseAgrees osNominalMhz s.mhz →
        reportedBaseMhz (.exact lowercase) osNominalMhz (some s.brand) = some osNominalMhz) :=
    ⟨fun h => ⟨h.only, h.whenever hos⟩, fun h => ⟨h.1, fun _ => h.2⟩⟩
  rw [hiff, Checkable]
  by_cases hmis : s.Misread
  · rw [reportedBaseMhz_of_read lowercase osNominalMhz s hos
      (s.baseFromBrand_of_misread lowercase hmis)]
    by_cases hrange : plausibleBase s.thousandfold
    · obtain ⟨hagrees, hmhz⟩ := not_baseAgrees_of_misread osNominalMhz s hos hmis hrange
      simp [hmis, hrange, hagrees, hmhz]
    · simp [hmis, hrange]
  · rw [reportedBaseMhz_of_read lowercase osNominalMhz s hos
      (s.baseFromBrand_of_not_misread lowercase hmis)]
    by_cases hrange : plausibleBase s.mhz
    · simp [hmis, hrange]
    · simp [hmis, hrange]

/-- The cross-check does its work exactly where the operating system's figure is refused by
itself, or the brand string's figure can be checked against. -/
theorem rightlyBelieved_iff : RightlyBelieved lowercase osNominalMhz s ↔
    ¬plausibleBase osNominalMhz ∨ Checkable osNominalMhz s := by
  by_cases hos : plausibleBase osNominalMhz
  · rw [rightlyBelieved_of_inRange lowercase osNominalMhz s hos]
    simp [hos]
  · have hnone : reportedBaseMhz (.exact lowercase) osNominalMhz (some s.brand) = none := by
      simp [reportedBaseMhz, hos]
    constructor
    · intro _
      exact .inl hos
    · intro _
      refine ⟨fun h => ?_, fun h => absurd h hos⟩
      rw [hnone] at h
      cases h

end CrossCheck

/-- A part that carries its boost clock for a marketing number. -/
def boostBrand : BaseStatement where
  before := "Intel(R) Core(TM) i9-14900KS CPU ".toList
  lead := " ".toList
  whole := "6".toList
  fraction := "20".toList
  gap := []
  unit := .ghz
  spelling := "GHz".toList
  rest := []
  first_at := by decide
  lead_blank := by simp [isWhitespace]
  whole_digits := by simp
  whole_ne_nil := by decide
  fraction_digits := by simp
  gap_blank := by simp
  unit_spelled := by decide

/-- Half the stated figure is believed, since that figure is not plausible itself. -/
theorem boost_brand_believed :
    boostBrand.brand = "Intel(R) Core(TM) i9-14900KS CPU @ 6.20GHz" ∧ boostBrand.mhz = 6200 ∧
      ¬RightlyBelieved id 3200 boostBrand := by
  have hmhz : boostBrand.mhz = 6200 := by decide +kernel
  refine ⟨by decide +kernel, hmhz, fun h => ?_⟩
  have hagrees := h.only (by decide +kernel)
  rw [hmhz] at hagrees
  exact absurd hagrees (by unfold BaseAgrees; decide)

end LoadBear
