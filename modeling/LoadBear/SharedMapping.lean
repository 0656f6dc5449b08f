import LoadBear.Seqlock
import LoadBear.SharedTemperature

/-!
# The mapping between helper and interface

The helper publishes into a mapping that the interface holds open, and both go through its
record field by field. While one helper publishes, the sequence number keeps a read from
mixing two records. A helper that starts again stores a default record over the mapping
with no odd number to mark it, and a read that it crosses can mix that with the last one.
-/
namespace LoadBear

open Seqlock

/-- The fields of the record in the mapping. -/
inductive MappingField where
  | version
  | helperRevision
  | sequence
  | timestampMs
  | packageC
  | packageWatts
  | tjmaxC
  | zoneCount
  | zones
  | zoneLabels
  deriving DecidableEq

namespace MappingField

def all : List MappingField :=
  [.version, .helperRevision, .sequence, .timestampMs, .packageC, .packageWatts, .tjmaxC,
    .zoneCount, .zones, .zoneLabels]

instance : Fintype MappingField where
  elems := ⟨all, by decide⟩
  complete i := by cases i <;> decide

abbrev Value : MappingField → Type
  | .version | .helperRevision | .timestampMs | .zoneCount => ℕ
  | .sequence => UInt32
  | .packageC | .packageWatts | .tjmaxC => F32
  | .zones => Vector F32 maxZones
  | .zoneLabels => Vector (Vector UInt8 labelWidth) maxZones

instance (i : MappingField) : DecidableEq i.Value :=
  match i with
  | .version | .helperRevision | .timestampMs | .zoneCount => inferInstanceAs (DecidableEq ℕ)
  | .sequence => inferInstanceAs (DecidableEq UInt32)
  | .packageC | .packageWatts | .tjmaxC => inferInstanceAs (DecidableEq F32)
  | .zones => inferInstanceAs (DecidableEq (Vector F32 maxZones))
  | .zoneLabels => inferInstanceAs (DecidableEq (Vector (Vector UInt8 labelWidth) maxZones))

def get : (i : MappingField) → SharedTemperature → i.Value
  | .version, r => r.version
  | .helperRevision, r => r.helperRevision
  | .sequence, r => r.sequence
  | .timestampMs, r => r.timestampMs
  | .packageC, r => r.packageC
  | .packageWatts, r => r.packageWatts
  | .tjmaxC, r => r.tjmaxC
  | .zoneCount, r => r.zoneCount
  | .zones, r => r.zones
  | .zoneLabels, r => r.zoneLabels

/-- The second record with one field of the first. -/
def copy (i : MappingField) (source target : SharedTemperature) : SharedTemperature :=
  match i with
  | .version => { target with version := source.version }
  | .helperRevision => { target with helperRevision := source.helperRevision }
  | .sequence => { target with sequence := source.sequence }
  | .timestampMs => { target with timestampMs := source.timestampMs }
  | .packageC => { target with packageC := source.packageC }
  | .packageWatts => { target with packageWatts := source.packageWatts }
  | .tjmaxC => { target with tjmaxC := source.tjmaxC }
  | .zoneCount => { target with zoneCount := source.zoneCount }
  | .zones => { target with zones := source.zones }
  | .zoneLabels => { target with zoneLabels := source.zoneLabels }

lemma eq_of_get {a b : SharedTemperature} (h : ∀ i, get i a = get i b) : a = b := by
  cases a
  cases b
  rw [SharedTemperature.mk.injEq]
  exact ⟨h .version, h .helperRevision, h .sequence, h .timestampMs, h .packageC,
    h .packageWatts, h .tjmaxC, h .zoneCount, h .zones, h .zoneLabels⟩

lemma get_copy_self (i : MappingField) (source target : SharedTemperature) :
    get i (copy i source target) = get i source := by
  cases i <;> rfl

lemma get_copy_of_ne {i j : MappingField} (h : j ≠ i) (source target : SharedTemperature) :
    get j (copy i source target) = get j target := by
  cases i <;> cases j <;> first | rfl | exact absurd rfl h

end MappingField

instance : SequencedRecord SharedTemperature where
  Cell := MappingField
  Value := MappingField.Value
  get := MappingField.get
  copy := MappingField.copy
  sequenceCell := .sequence
  sequence := SharedTemperature.sequence
  withSequence record word := { record with sequence := word }
  blank := .default
  payload := SharedTemperature.payload
  attempts := 8
  ext_get := MappingField.eq_of_get
  get_copy_self := MappingField.get_copy_self
  get_copy_of_ne := MappingField.get_copy_of_ne
  sequence_congr := id
  sequence_withSequence _ _ := rfl
  sequence_payload _ _ := rfl
  sequence_blank := rfl

instance (i : SequencedRecord.Cell SharedTemperature) : DecidableEq (SequencedRecord.Value i) :=
  inferInstanceAs (DecidableEq (MappingField.Value i))

/-- The mapping with the helper and the interface at work on it. -/
abbrev Mapping := State SharedTemperature

abbrev MappingAction := Action SharedTemperature

namespace Mapping

/-- A publish with nothing between its steps. -/
def publish (reading : SharedTemperature) : List MappingAction :=
  [.writer (.load reading), .writer .raise] ++
    MappingField.all.map (fun i => .writer (.store i)) ++ [.writer .settle]

/-- The steps of a read up to its second load of the number. -/
def readOnce : List MappingAction :=
  [.reader .read, .reader .check] ++ MappingField.all.map fun i => .reader (.copy i)

/-- The record of a warm processor under load. -/
def warm : SharedTemperature :=
  { SharedTemperature.default with packageC := .finite 60, packageWatts := .finite 45 }

/-- While one helper publishes, a read that meets fewer than half as many publishes as there
are sequence numbers returns the first record or one published whole, and the number is even
between publishes. -/
theorem read_untorn {first : SharedTemperature} (hfirst : first.sequence % 2 = 0) {s : Mapping}
    (hrun : Reaches Continues (start first) s) :
    (s.writer = .idle → s.memory.sequence % 2 = 0) ∧
      ∀ r, s.returns = some r → s.overlap < 2 ^ 31 → r = first ∨ r ∈ s.published := by
  have hs := continued_of_reaches hfirst hrun
  refine ⟨fun hidle => even_of_idle hs.sound hidle, fun r hr hoverlap => ?_⟩
  obtain ⟨hwhole, rfl⟩ := returns_whole hs.sound hr hoverlap
  rw [hwhole.resolve_right (by simp [hs.resets])]
  exact hs.current

/-- The default record under the last even sequence number. -/
def lastNumber : SharedTemperature := { SharedTemperature.default with sequence := 4294967294 }

/-- A publish takes the number round to zero, and its record is read. -/
def wrapped : Mapping :=
  (run Continues (start lastNumber) (publish warm ++ readOnce)).getD (start lastNumber)

theorem wrapped_untorn : wrapped.memory.sequence % 2 = 0 ∧ wrapped.returns = some warm ∧
    (warm = lastNumber ∨ warm ∈ wrapped.published) := by
  have hrun : Reaches Continues (start lastNumber) wrapped := reaches_getD_run (by decide +kernel)
  obtain ⟨heven, hread⟩ := read_untorn (by rfl) hrun
  have hreturns : wrapped.returns = some warm := by decide +kernel
  exact ⟨heven (by rfl), hreturns, hread warm hreturns (by decide +kernel)⟩

/-- A read that no start of a helper disturbs returns the record last published before the
present helper started, the default record or one that this helper published whole. -/
theorem read_untorn_of_undisturbed {first : SharedTemperature} (hfirst : first.sequence % 2 = 0)
    {s : Mapping} (hrun : Reaches Undisturbed (start first) s) {r : SharedTemperature}
    (hr : s.returns = some r) (hoverlap : s.overlap < 2 ^ 31) :
    r = s.inherited ∨ r = .default ∨ r ∈ s.published := by
  have hs : s.Sound ∧ s.Accounted :=
    hrun.keeps (P := fun s => s.Sound ∧ s.Accounted)
      (fun _ _ _ hs hcalm hstep => ⟨sound_step hs.1 hcalm hstep, accounted_step hs.2 hstep⟩)
      ⟨start_sound hfirst, .inl rfl⟩
  obtain ⟨hwhole, rfl⟩ := returns_whole hs.1 hr hoverlap
  rcases hwhole with hcurrent | ⟨-, hblank⟩
  · rw [hcurrent]
    exact hs.2
  · exact .inr (.inl hblank)

/-- The helper publishes and starts again, and what the default record leaves as it was is reset
while a read is between its two loads of the number. -/
def restart : List MappingAction :=
  publish warm ++ [.reader .read, .reader .check, .writer .create] ++
    [MappingField.version, .helperRevision, .timestampMs, .tjmaxC, .zoneCount].map
      (fun i => .writer (.reset i)) ++
    MappingField.all.map fun i => .reader (.copy i)

def restarted : Mapping :=
  (run Undisturbed (start SharedTemperature.default) restart).getD (start SharedTemperature.default)

/-- The read that the new start crosses still gets the last record of the old one. -/
theorem restarted_untorn : restarted.writer.resets = true ∧
    restarted.returns = some { warm with sequence := 2 } ∧
    ({ warm with sequence := 2 } = restarted.inherited ∨
      { warm with sequence := 2 } = SharedTemperature.default ∨
        { warm with sequence := 2 } ∈ restarted.published) := by
  have hreturns : restarted.returns = some { warm with sequence := 2 } := by decide +kernel
  have hrun : Reaches Undisturbed (start SharedTemperature.default) restarted :=
    reaches_getD_run (by decide +kernel)
  exact ⟨by decide +kernel, hreturns,
    read_untorn_of_undisturbed (by rfl) hrun hreturns (by decide +kernel)⟩

/-- The helper publishes and starts again, and the package temperature is reset while a read is
between its two loads of the number. -/
def cross : List MappingAction :=
  publish warm ++
    [.reader .read, .reader .check, .writer .create, .writer (.reset .packageC)] ++
    MappingField.all.map fun i => .reader (.copy i)

def crossed : Mapping :=
  (run (fun _ _ => True) (start SharedTemperature.default) cross).getD
    (start SharedTemperature.default)

/-- The read returns the new temperature, which is none, beside the old power. -/
theorem crossed_torn : Reaches (fun _ _ => True) (start SharedTemperature.default) crossed ∧
    crossed.overlap = 0 ∧ ∃ r, crossed.returns = some r ∧
      ¬(r = crossed.inherited ∨ r = SharedTemperature.default ∨ r ∈ crossed.published) := by
  have hreturns : crossed.returns =
      some { warm with sequence := 2, packageC := .nan } := by decide +kernel
  refine ⟨reaches_getD_run (by decide +kernel), by decide +kernel, _, hreturns, ?_⟩
  decide +kernel

end Mapping
end LoadBear
