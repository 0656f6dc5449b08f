import LoadBear.Temperature

/-!
# Core labels

The values of the power management table are filtered before they are numbered, so a core
without a value moves every later one down a place. A label is right as long as the values
present come first.
-/
namespace LoadBear

section Numbering
variable {α : Type*} (f : ℕ → Option α)

/-- The values present among the first `n`, in order. -/
def present (n : ℕ) : List α := (List.range n).filterMap f

lemma present_succ (n : ℕ) : present f (n + 1) = present f n ++ (f n).toList := by
  rw [present, List.range_succ, List.filterMap_append, ← present]
  cases h : f n <;> simp [h]

lemma length_present_mono {m n : ℕ} (h : m ≤ n) :
    (present f m).length ≤ (present f n).length := by
  induction n, h using Nat.le_induction with
  | base => exact le_rfl
  | succ n _ ih =>
    rw [present_succ, List.length_append]
    omega

lemma length_present_of_isSome (n : ℕ) (h : ∀ i < n, (f i).isSome) :
    (present f n).length = n := by
  induction n with
  | zero => rfl
  | succ n ih =>
    obtain ⟨value, hvalue⟩ := Option.isSome_iff_exists.mp (h n (Nat.lt_succ_self n))
    rw [present_succ, List.length_append, ih fun i hi => h i (by omega), hvalue]
    rfl

/-- Every value present is at its own place. -/
def InPlace (n : ℕ) : Prop := ∀ k, ∀ value ∈ (present f n)[k]?, f k = some value

/-- No place without a value precedes one that has it. -/
def Gapless (n : ℕ) : Prop := ∀ i j, i < j → j < n → (f j).isSome → (f i).isSome

variable {f}

lemma inPlace_of_gapless {n : ℕ} (h : Gapless f n) : InPlace f n := by
  induction n with
  | zero => simp [InPlace, present]
  | succ n ih =>
    have hbefore : InPlace f n := ih fun i j hij hj => h i j hij (by omega)
    intro k value hvalue
    rw [present_succ] at hvalue
    by_cases hk : k < (present f n).length
    · rw [List.getElem?_append_left hk] at hvalue
      exact hbefore k value hvalue
    · rw [List.getElem?_append_right (not_lt.mp hk)] at hvalue
      cases hn : f n with
      | none =>
        rw [hn] at hvalue
        simp at hvalue
      | some last =>
        -- the value is new, so no place before it is empty
        have hfull := length_present_of_isSome f n fun i hi =>
          h i n hi (Nat.lt_succ_self n) (by simp [hn])
        rw [hn, hfull] at hvalue
        rw [hfull] at hk
        obtain ⟨hzero, rfl⟩ : k - n = 0 ∧ last = value := by
          simpa [List.getElem?_singleton] using hvalue
        obtain rfl : k = n := by omega
        exact hn

lemma gapless_of_inPlace {n : ℕ} (h : InPlace f n) : Gapless f n := by
  intro i j hij hj hsome
  induction i using Nat.strong_induction_on with
  | h i ih =>
    -- all places before are full, and another value is present after them
    have hfull := length_present_of_isSome f i fun i' hi' => ih i' hi' (by omega)
    have hmore : i < (present f n).length := by
      obtain ⟨value, hvalue⟩ := Option.isSome_iff_exists.mp hsome
      have hbefore := length_present_mono f hij.le
      have hafter := length_present_mono f (Nat.succ_le_of_lt hj)
      rw [present_succ, hvalue, List.length_append, Option.toList_some,
        List.length_singleton] at hafter
      omega
    rw [h i _ (List.getElem?_eq_getElem hmore)]
    rfl

/-- Numbering the values present gives each its own place exactly when the empty places all
come last. -/
theorem inPlace_iff_gapless {n : ℕ} : InPlace f n ↔ Gapless f n :=
  ⟨gapless_of_inPlace, inPlace_of_gapless⟩

end Numbering

section Labels

/-- A number is read back from its digits. -/
lemma coreLabel_injective {i k : ℕ} (h : s!"Core {i}" = s!"Core {k}") : i = k := by
  have hdigits : Nat.toDigits 10 i = Nat.toDigits 10 k := by
    have hchars := congrArg String.toList h
    simpa [String.toList_append, Nat.toList_repr] using hchars
  exact toDigits_injective hdigits

lemma ccdLabel_ne_coreLabel (ccd i : ℕ) : s!"CCD{ccd}" ≠ s!"Core {i}" := by
  intro h
  have hchars := congrArg String.toList h
  simp [toString, String.toList_append] at hchars

variable (rt : Runtime)

lemma readCcds_label (execute : Executor) (count ccd : ℕ) :
    ∀ zone ∈ readCcds rt execute count ccd, ∃ k : ℕ, zone.label = s!"CCD{k}" := by
  induction count generalizing ccd with
  | zero => simp [readCcds]
  | succ count ih =>
    intro zone hzone
    unfold readCcds at hzone
    split at hzone
    · simp at hzone
    · rcases List.mem_append.mp hzone with hzone | hzone
      · obtain ⟨celsius, -, rfl⟩ := Option.mem_map.mp (Option.mem_toList.mp hzone)
        exact ⟨ccd, rfl⟩
      · exact ih (ccd + 1) zone hzone

lemma readAmdTemperature_label (pawn : PawnIo) :
    ∀ zone ∈ ((readAmdTemperature rt pawn).getD .default).zones,
      ∃ k : ℕ, zone.label = s!"CCD{k}" := by
  unfold readAmdTemperature
  cases pawn.execute "ioctl_read_smn" [smnTempBase] 1 with
  | none => simp [TemperatureReading.default]
  | some die => exact readCcds_label rt pawn.execute _ 0

end Labels

section Read

/-- The value of one core, if the table holds a plausible one. -/
def coreTemp (words : List UInt64) (core : ℕ) : Option F32 :=
  (floatAt words (coreTempIndex + core)).filter isPlausibleCelsius

/-- A zone of a core shows the float at its own index, and a core without a value has none. -/
structure LabelsHold (zones : List TemperatureZone) (words : List UInt64) : Prop where
  own : ∀ zone ∈ zones, ∀ i : ℕ, zone.label = s!"Core {i}" →
    floatAt words (coreTempIndex + i) = some zone.celsius
  absent : ∀ i, coreTemp words i = none → ∀ zone ∈ zones, zone.label ≠ s!"Core {i}"

/-- An AMD machine whose driver returns this table, on the verified layout. -/
structure ReturnsTable (w : WindowsTemperature) (words : List UInt64) : Prop where
  vendor : w.vendor = .amd
  device : w.device.isSome
  perCore : ∃ pc ∈ w.perCore, pc.supported ∧ (pc.pawn "ioctl_update_pm_table" [] 0).isSome ∧
    pc.pawn "ioctl_read_pm_table" [] tableWords = some words

/-- A core that is read has no value and one after it has. -/
def HasGap (words : List UInt64) (cores : ℕ) : Prop :=
  ∃ bad good, bad < good ∧ good < min cores coreTempCount ∧ coreTemp words bad = none ∧
    (coreTemp words good).isSome

variable {rt : Runtime} {w : WindowsTemperature} {words : List UInt64}

lemma filter_filterMap_eq_present (n : ℕ) :
    ((List.range n).filterMap fun i => floatAt words (coreTempIndex + i)).filter
      isPlausibleCelsius = present (coreTemp words) n := by
  rw [List.filter_filterMap]
  rfl

variable (rt) in
/-- The zones of cores are the values present, numbered from the first. -/
lemma coreLabel_mem_iff (h : ReturnsTable w words) (i : ℕ) (celsius : F32) :
    (∃ zone ∈ (w.read rt).zones, zone.label = s!"Core {i}" ∧ zone.celsius = celsius) ↔
      celsius ∈ (present (coreTemp words) (min w.cores coreTempCount))[i]? := by
  obtain ⟨device, hdevice⟩ := Option.isSome_iff_exists.mp h.device
  obtain ⟨pc, hpc, hsupported, hupdate, hread⟩ := h.perCore
  have hvalues : pc.read w.cores = present (coreTemp words) (min w.cores coreTempCount) := by
    obtain ⟨updated, hupdated⟩ := Option.isSome_iff_exists.mp hupdate
    simp [PerCoreTemperature.read, hsupported, hupdated, hread, filter_filterMap_eq_present]
  have hzones : (w.read rt).zones = ((readAmdTemperature rt device).getD .default).zones ++
      WindowsTemperature.coreZones (pc.read w.cores) := by
    rw [Option.mem_def] at hpc
    simp [WindowsTemperature.read, hdevice, h.vendor, hpc]
  rw [hzones, hvalues]
  constructor
  · intro hzone
    obtain ⟨zone, hmem, hlabel, rfl⟩ := hzone
    rcases List.mem_append.mp hmem with hccd | hcore
    · obtain ⟨k, hk⟩ := readAmdTemperature_label rt device zone hccd
      exact absurd (hk.symm.trans hlabel) (ccdLabel_ne_coreLabel k i)
    · obtain ⟨k, hk, rfl⟩ := List.mem_mapIdx.mp hcore
      obtain rfl := coreLabel_injective hlabel
      exact List.getElem?_eq_getElem hk
  · intro hvalue
    obtain ⟨hi, rfl⟩ := List.getElem?_eq_some_iff.mp hvalue
    refine ⟨_, List.mem_append_right _ (List.mem_mapIdx.mpr ⟨i, hi, rfl⟩), rfl, rfl⟩

/-- Every label belongs to its core, unless a core without a value precedes one with a value. -/
theorem labelsHold_iff (h : ReturnsTable w words) :
    LabelsHold (w.read rt).zones words ↔ ¬HasGap words w.cores := by
  constructor
  · intro hlabels hgap
    obtain ⟨bad, good, hlt, hgood, hbad, hsome⟩ := hgap
    have hplace : InPlace (coreTemp words) (min w.cores coreTempCount) := by
      intro i celsius hvalue
      obtain ⟨zone, hzone, hlabel, rfl⟩ := (coreLabel_mem_iff rt h i celsius).mpr hvalue
      have hplausible : zone.celsius ∈ present (coreTemp words) (min w.cores coreTempCount) :=
        List.mem_of_getElem? hvalue
      obtain ⟨k, -, hk⟩ := List.mem_filterMap.mp hplausible
      rw [coreTemp, hlabels.own zone hzone i hlabel, Option.filter_some,
        if_pos (Option.filter_eq_some_iff.mp hk).2]
    have hfull := inPlace_iff_gapless.mp hplace bad good hlt hgood hsome
    rw [hbad] at hfull
    simp at hfull
  · intro hgap
    have hplace : InPlace (coreTemp words) (min w.cores coreTempCount) := by
      apply inPlace_iff_gapless.mpr
      intro bad good hlt hgood hsome
      by_contra hbad
      exact hgap ⟨bad, good, hlt, hgood, by simpa using hbad, hsome⟩
    have hvalue : ∀ zone ∈ (w.read rt).zones, ∀ i : ℕ, zone.label = s!"Core {i}" →
        coreTemp words i = some zone.celsius := by
      intro zone hzone i hlabel
      exact hplace i _ ((coreLabel_mem_iff rt h i _).mp ⟨zone, hzone, hlabel, rfl⟩)
    constructor
    · intro zone hzone i hlabel
      exact (Option.filter_eq_some_iff.mp (hvalue zone hzone i hlabel)).1
    · intro i hnone zone hzone hlabel
      rw [hvalue zone hzone i hlabel] at hnone
      simp at hnone

end Read

section Examples

/-- A six-core machine whose driver returns the given table and nothing else. -/
def sixCores (words : List UInt64) : WindowsTemperature where
  device := some ⟨fun _ _ _ => none, fun _ => none⟩
  perCore := some ⟨fun _ _ _ => some words, true⟩
  cores := 6
  vendor := .amd

lemma returnsTable_sixCores (words : List UInt64) : ReturnsTable (sixCores words) words :=
  ⟨rfl, rfl, _, rfl, rfl, rfl, rfl⟩

/-- Every float from the first core on is fifty, apart from those of the words given first. -/
def fiftyAfter (first : List UInt64) : List UInt64 :=
  List.replicate 107 0 ++ first ++ List.replicate 4 0x4248000042480000

/-- Six cores at fifty degrees. -/
theorem six_cores_labelled :
    LabelsHold ((sixCores (fiftyAfter [0x4248000000000000])).read .ieee).zones
      (fiftyAfter [0x4248000000000000]) := by
  apply (labelsHold_iff (returnsTable_sixCores _)).mpr
  intro hgap
  obtain ⟨bad, good, hlt, hgood, hbad, -⟩ := hgap
  have hfull : ∀ i < 6, (coreTemp (fiftyAfter [0x4248000000000000]) i).isSome := by
    decide +kernel
  have hcores : min (sixCores (fiftyAfter [0x4248000000000000])).cores coreTempCount = 6 := rfl
  have hbadSome := hfull bad (by omega)
  rw [hbad] at hbadSome
  simp at hbadSome

/-- The first core reads zero, and the second core's fifty degrees are labelled as its own. -/
theorem second_core_labelled_first :
    ReturnsTable (sixCores (fiftyAfter [0])) (fiftyAfter [0]) ∧
      ¬LabelsHold ((sixCores (fiftyAfter [0])).read .ieee).zones (fiftyAfter [0]) := by
  refine ⟨returnsTable_sixCores _, ?_⟩
  intro hlabels
  have hown := hlabels.own ⟨s!"Core {0}", .finite 50⟩ (by decide +kernel) 0 rfl
  have hfirst : floatAt (fiftyAfter [0]) (coreTempIndex + 0) = some (.finite 0) := by
    decide +kernel
  rw [hfirst] at hown
  simp at hown

end Examples
end LoadBear
