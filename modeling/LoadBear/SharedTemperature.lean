import LoadBear.Temperature
import LoadBear.Utf8

/-!
# The shared temperature record

The helper publishes a record of fixed size: an absent figure is a NaN, the zones sit in
the first slots of an array, and a label is cut to its slot and padded with NULs. Readings
come back out through the accessors.
-/
namespace LoadBear

section Slots
variable {α : Type*} {n : ℕ}

/-- Write values one after the other from a place on. -/
def writeFrom (v : Vector α n) : ℕ → List α → Vector α n
  | _, [] => v
  | i, x :: xs => writeFrom (v.setIfInBounds i x) (i + 1) xs

lemma getElem_writeFrom (v : Vector α n) (i : ℕ) (xs : List α) (k : ℕ) (hk : k < n) :
    (writeFrom v i xs)[k] = if i ≤ k then xs.getD (k - i) v[k] else v[k] := by
  induction xs generalizing v i with
  | nil => simp [writeFrom]
  | cons x xs ih =>
    rw [writeFrom, ih, Vector.getElem_setIfInBounds hk]
    rcases lt_trichotomy i k with hlt | rfl | hgt
    · have hsub : k - i = k - (i + 1) + 1 := by omega
      simp [hlt.le, hlt.ne, Nat.succ_le_of_lt hlt, hsub]
    · simp
    · simp [hgt.not_ge, hgt.ne', (show ¬i + 1 ≤ k by omega)]

/-- Written from the start, the values stand at the front. -/
lemma toList_writeFrom (v : Vector α n) (xs : List α) (h : xs.length ≤ n) :
    (writeFrom v 0 xs).toList = xs ++ v.toList.drop xs.length := by
  apply List.ext_getElem
  · simp
    omega
  · intro k hk _
    rw [Vector.length_toList] at hk
    rw [Vector.getElem_toList, getElem_writeFrom v 0 xs k hk]
    rcases Nat.lt_or_ge k xs.length with hlt | hge
    · simp [List.getElem_append_left hlt, hlt]
    · simp [List.getElem_append_right hge, hge]

end Slots

def layoutVersion : ℕ := 4

def helperRevision : ℕ := 5

def maxZones : ℕ := 16

/-- The bytes of one label. -/
def labelWidth : ℕ := 8

def staleAfterMs : ℕ := 15000

/-- The published reading. -/
structure SharedTemperature where
  version : ℕ
  helperRevision : ℕ
  sequence : UInt32
  timestampMs : ℕ
  packageC : F32
  packageWatts : F32
  tjmaxC : F32
  zoneCount : ℕ
  zones : Vector F32 maxZones
  zoneLabels : Vector (Vector UInt8 labelWidth) maxZones
  deriving DecidableEq, Repr

/-- The value of a field that holds one. -/
def F32.present (value : F32) : Option F32 := if value.isNan then none else some value

namespace SharedTemperature

def default : SharedTemperature :=
  { version := layoutVersion
    helperRevision := LoadBear.helperRevision
    sequence := 0
    timestampMs := 0
    packageC := .nan
    packageWatts := .nan
    tjmaxC := .nan
    zoneCount := 0
    zones := Vector.replicate maxZones .nan
    zoneLabels := Vector.replicate maxZones (Vector.replicate labelWidth 0) }

def watts (s : SharedTemperature) : Option F32 := s.packageWatts.present

def tjmax (s : SharedTemperature) : Option F32 := s.tjmaxC.present

def package (s : SharedTemperature) : Option F32 := s.packageC.present

/-- Whether the publishing helper is the revision this build expects. -/
def helperIsCurrent (s : SharedTemperature) : Bool := LoadBear.helperRevision ≤ s.helperRevision

/-- Whether the reading is recent enough to show. -/
def isFresh (s : SharedTemperature) (nowMs : ℕ) : Bool :=
  s.version = layoutVersion ∧ nowMs - s.timestampMs ≤ staleAfterMs

/-- The text before the first NUL of a slot. -/
def labelText (slot : Vector UInt8 labelWidth) : String :=
  String.ofList (Utf8.decodeLossy (slot.toList.takeWhile (· ≠ 0)))

/-- Labelled zones actually present. -/
def zoneList (s : SharedTemperature) : List (String × F32) :=
  let present := ((List.finRange maxZones).take (min s.zoneCount maxZones)).filter fun i =>
    ¬s.zones[i].isNan
  present.map fun i => (labelText s.zoneLabels[i], s.zones[i])

/-- A label in its slot, truncated rather than spilled. -/
def setLabel (label : String) : Vector UInt8 labelWidth :=
  writeFrom (Vector.replicate labelWidth 0) 0 ((Utf8.bytes label.toList).take 7)

/-- The record the helper makes of one sample. -/
def ofSample (reading : TemperatureReading) (watts tjmax : Option F32) (nowMs : ℕ) :
    SharedTemperature :=
  let n := min reading.zones.length maxZones
  let zones := reading.zones.take n
  { default with
    timestampMs := nowMs
    packageC := reading.packageC.getD .nan
    packageWatts := watts.getD .nan
    tjmaxC := tjmax.getD .nan
    zoneCount := n
    zones := writeFrom default.zones 0 (zones.map TemperatureZone.celsius)
    zoneLabels := writeFrom default.zoneLabels 0 (zones.map fun z => setLabel z.label) }

/-- The record to write, stamped with the writing helper's version and revision. -/
def payload (reading : SharedTemperature) (sequence : UInt32) : SharedTemperature :=
  { reading with
    sequence := sequence
    version := layoutVersion
    helperRevision := LoadBear.helperRevision }

section Label

/-- The label fits its slot with the NUL after it. -/
def FitsSlot (label : String) : Prop :=
  (Utf8.bytes label.toList).length < labelWidth ∧ 0 ∉ Utf8.bytes label.toList

instance : DecidablePred FitsSlot := fun _ => inferInstanceAs (Decidable (_ ∧ _))

/-- A label that fits is read back as it was. -/
theorem labelText_setLabel {label : String} (h : FitsSlot label) :
    labelText (setLabel label) = label := by
  obtain ⟨hlength, hnul⟩ := h
  have hwhole : (Utf8.bytes label.toList).take 7 = Utf8.bytes label.toList :=
    List.take_of_length_le (Nat.le_of_lt_succ hlength)
  have hslot : (setLabel label).toList = Utf8.bytes label.toList ++
      List.replicate (labelWidth - (Utf8.bytes label.toList).length) 0 := by
    rw [setLabel, hwhole, toList_writeFrom _ _ hlength.le, Vector.toList_replicate,
      List.drop_replicate]
  have htext : ∀ b ∈ Utf8.bytes label.toList, decide (b ≠ 0) = true := by
    intro b hb
    exact decide_eq_true fun hzero => hnul (hzero ▸ hb)
  rw [labelText, hslot, List.takeWhile_append_of_pos htext]
  simp [Utf8.decodeLossy_bytes]

end Label

section RoundTrip
variable {reading : TemperatureReading} {wattage limit : Option F32} {nowMs : ℕ}

lemma present_getD {value : Option F32} (h : ∀ v ∈ value, v.isNan = false) :
    (value.getD .nan).present = value := by
  cases value with
  | none => rfl
  | some v => simp [F32.present, h v rfl]

/-- A reading whose values are numbers and whose labels fit. -/
structure Representable (reading : TemperatureReading) : Prop where
  package : ∀ c ∈ reading.packageC, c.isNan = false
  celsius : ∀ z ∈ reading.zones, z.celsius.isNan = false
  label : ∀ z ∈ reading.zones, FitsSlot z.label

variable (wattage limit nowMs)

/-- The first slots hold the zones in their order. -/
lemma slot_ofSample {i : ℕ} (hslot : i < maxZones) (hi : i < reading.zones.length) :
    (ofSample reading wattage limit nowMs).zones[i] = reading.zones[i].celsius ∧
      (ofSample reading wattage limit nowMs).zoneLabels[i] = setLabel reading.zones[i].label := by
  have htaken : i < (reading.zones.take (min reading.zones.length maxZones)).length := by
    rw [List.length_take]
    omega
  constructor <;> simp [ofSample, getElem_writeFrom, hi, hslot]

/-- The zones come back as they went in, as many as there are slots for. -/
theorem zoneList_ofSample (h : Representable reading) :
    (ofSample reading wattage limit nowMs).zoneList =
      (reading.zones.take maxZones).map fun z => (z.label, z.celsius) := by
  set n := min reading.zones.length maxZones with hn
  have hcount : min (ofSample reading wattage limit nowMs).zoneCount maxZones = n := by
    simp only [ofSample]
    omega
  have hslot : ∀ i ∈ (List.finRange maxZones).take n, (i : ℕ) < reading.zones.length := by
    intro i hi
    obtain ⟨k, hk, rfl⟩ := List.getElem_of_mem hi
    simp at hk ⊢
    omega
  have hall : ∀ i ∈ (List.finRange maxZones).take n,
      decide ¬(ofSample reading wattage limit nowMs).zones[i].isNan = true := by
    intro i hi
    rw [Fin.getElem_fin, (slot_ofSample wattage limit nowMs i.isLt (hslot i hi)).1]
    simpa using h.celsius _ (List.getElem_mem (hslot i hi))
  rw [zoneList, hcount, List.filter_eq_self.mpr hall]
  apply List.ext_getElem
  · simp
    omega
  · intro k hk hk'
    have hlt : k < reading.zones.length ∧ k < maxZones := by
      simp at hk'
      omega
    obtain ⟨hvalue, hlabel⟩ := slot_ofSample wattage limit nowMs hlt.2 hlt.1
    have htext := labelText_setLabel (h.label _ (List.getElem_mem hlt.1))
    simp [hvalue, hlabel, htext]

variable {wattage limit} (sequence : UInt32)

/-- What was measured comes out of the published record. -/
theorem decode_payload (h : Representable reading) (hwatts : ∀ v ∈ wattage, v.isNan = false)
    (htjmax : ∀ v ∈ limit, v.isNan = false) :
    let published := payload (ofSample reading wattage limit nowMs) sequence
    published.package = reading.packageC ∧ published.watts = wattage ∧ published.tjmax = limit ∧
      published.zoneList = (reading.zones.take maxZones).map fun z => (z.label, z.celsius) :=
  ⟨present_getD h.package, present_getD hwatts, present_getD htjmax,
    zoneList_ofSample wattage limit nowMs h⟩

/-- Whoever published the record before, the stamp is that of the writing helper. -/
theorem helperIsCurrent_payload (s : SharedTemperature) : (payload s sequence).helperIsCurrent :=
  decide_eq_true le_rfl

/-- A sample stays fresh for as long as a reading may be shown. -/
theorem isFresh_payload (laterMs : ℕ) :
    (payload (ofSample reading wattage limit nowMs) sequence).isFresh laterMs ↔
      laterMs ≤ nowMs + staleAfterMs := by
  simp only [isFresh, payload, ofSample, true_and, decide_eq_true_eq]
  omega

end RoundTrip
end SharedTemperature
end LoadBear
