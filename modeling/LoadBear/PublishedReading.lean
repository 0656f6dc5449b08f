import LoadBear.SharedTemperature

/-!
# What the interface gets of a reading

Every value the helper reads is plausible, so it is a number, and every label fits its
slot. The published record therefore loses nothing but the zones beyond its sixteenth,
which only a large Intel part has.
-/
namespace LoadBear

open SharedTemperature

variable {rt : Runtime}

section Readers

/-- A zone as the readers make one. -/
structure TemperatureZone.Sound (z : TemperatureZone) : Prop where
  inRange : isPlausibleCelsius z.celsius
  label : FitsSlot z.label

lemma isNan_of_isPlausibleCelsius {c : F32} (h : isPlausibleCelsius c) : c.isNan = false := by
  cases c with
  | nan => simp [isPlausibleCelsius] at h
  | infinite negative => rfl
  | finite q => rfl

lemma fitsSlot_ccd : ∀ k < renoirCcdCount, FitsSlot s!"CCD{k}" := by decide +kernel

lemma fitsSlot_core : ∀ k ≤ maxAffinityIndex, FitsSlot s!"Core {k}" := by decide +kernel

lemma ccdZone_sound {ccd : ℕ} (hccd : ccd < renoirCcdCount) {raw : UInt64} {z : TemperatureZone}
    (h : z ∈ ccdZone rt ccd raw) : z.Sound := by
  obtain ⟨celsius, hcelsius, rfl⟩ := Option.mem_map.mp h
  exact ⟨(Option.mem_filter_iff.mp hcelsius).2, fitsSlot_ccd ccd hccd⟩

lemma readCcds_sound (execute : Executor) (count ccd : ℕ) (h : ccd + count ≤ renoirCcdCount) :
    ∀ z ∈ readCcds rt execute count ccd, z.Sound := by
  induction count generalizing ccd with
  | zero => simp [readCcds]
  | succ count ih =>
    intro z hz
    unfold readCcds at hz
    split at hz
    · simp at hz
    · rcases List.mem_append.mp hz with hz | hz
      · exact ccdZone_sound (by omega) (Option.mem_toList.mp hz)
      · exact ih (ccd + 1) (by omega) z hz

lemma length_readCcds_le (execute : Executor) (count ccd : ℕ) :
    (readCcds rt execute count ccd).length ≤ count := by
  induction count generalizing ccd with
  | zero => simp [readCcds]
  | succ count ih =>
    unfold readCcds
    split
    · simp
    · rename_i raw _
      have hrest := ih (ccd + 1)
      rw [List.length_append]
      cases ccdZone rt ccd raw with
      | none => simp; omega
      | some zone => simp; omega

/-- The per-core values are the plausible ones of the table's block. -/
lemma perCore_read_cases (p : PerCoreTemperature) (coreCount : ℕ) :
    p.read coreCount = [] ∨ ∃ words, p.read coreCount =
      ((List.range (min coreCount coreTempCount)).filterMap fun i =>
        floatAt words (coreTempIndex + i)).filter isPlausibleCelsius := by
  unfold PerCoreTemperature.read
  split
  · exact .inl rfl
  · split
    · exact .inl rfl
    · split
      · exact .inl rfl
      · exact .inr ⟨_, rfl⟩

lemma isPlausibleCelsius_perCore (p : PerCoreTemperature) (coreCount : ℕ) :
    ∀ c ∈ p.read coreCount, isPlausibleCelsius c := by
  rcases perCore_read_cases p coreCount with h | ⟨words, h⟩
  · simp [h]
  · rw [h]
    exact fun c hc => (List.mem_filter.mp hc).2

lemma length_perCore_read_le (p : PerCoreTemperature) (coreCount : ℕ) :
    (p.read coreCount).length ≤ coreTempCount := by
  rcases perCore_read_cases p coreCount with h | ⟨words, h⟩
  · simp [h]
  · rw [h]
    calc _ ≤ _ := List.length_filter_le _ _
      _ ≤ (List.range (min coreCount coreTempCount)).length := List.length_filterMap_le _ _
      _ ≤ coreTempCount := by simp

lemma coreZones_sound {values : List F32} (hvalues : ∀ c ∈ values, isPlausibleCelsius c)
    (hlength : values.length ≤ maxAffinityIndex) :
    ∀ z ∈ WindowsTemperature.coreZones values, z.Sound := by
  intro z hz
  obtain ⟨i, hi, rfl⟩ := List.mem_mapIdx.mp hz
  exact ⟨hvalues _ (List.getElem_mem hi), fitsSlot_core i (by omega)⟩

lemma isPlausibleCelsius_of_readout {raw : UInt64} {tjmax : ℚ} {c : F32}
    (h : c ∈ decodeDigitalReadout rt raw tjmax) : isPlausibleCelsius c := by
  unfold decodeDigitalReadout at h
  split at h
  · simp at h
  · exact (Option.mem_filter_iff.mp h).2

lemma coreZone_sound {pawn : PawnIo} {tjmax : ℚ} {i : ℕ} {z : TemperatureZone}
    (h : z ∈ coreZone rt pawn tjmax i) : z.Sound := by
  obtain ⟨raw, hraw, h⟩ := Option.bind_eq_some_iff.mp h
  obtain ⟨celsius, hcelsius, h⟩ := Option.bind_eq_some_iff.mp h
  obtain rfl := Option.some.inj h
  have hi : i ≤ maxAffinityIndex := by
    by_contra hlt
    simp [onProcessor, not_le.mp hlt] at hraw
  exact ⟨isPlausibleCelsius_of_readout hcelsius, fitsSlot_core i hi⟩

end Readers

section Read
variable (rt)

/-- A reading whose values are plausible and whose zones are sound. -/
structure TemperatureReading.Sound (reading : TemperatureReading) : Prop where
  package : ∀ c ∈ reading.packageC, isPlausibleCelsius c
  zones : ∀ z ∈ reading.zones, z.Sound

lemma default_sound : TemperatureReading.default.Sound :=
  ⟨by simp [TemperatureReading.default], by simp [TemperatureReading.default]⟩

lemma readAmdTemperature_sound (pawn : PawnIo) :
    ((readAmdTemperature rt pawn).getD .default).Sound := by
  unfold readAmdTemperature
  cases pawn.execute "ioctl_read_smn" [smnTempBase] 1 with
  | none => exact default_sound
  | some die =>
    exact ⟨fun c hc => (Option.mem_filter_iff.mp hc).2, readCcds_sound pawn.execute _ 0 le_rfl⟩

lemma readIntelTemperature_sound (pawn : PawnIo) (logicalProcessors : ℕ) :
    (readIntelTemperature rt pawn logicalProcessors).Sound := by
  unfold readIntelTemperature
  split
  · exact default_sound
  · refine ⟨fun c hc => ?_, fun z hz => ?_⟩
    · obtain ⟨raw, -, hdecode⟩ := Option.bind_eq_some_iff.mp hc
      exact isPlausibleCelsius_of_readout hdecode
    · obtain ⟨i, -, hzone⟩ := List.mem_filterMap.mp hz
      exact coreZone_sound hzone

/-- Whatever the driver answers, a reading is sound. -/
theorem read_sound (w : WindowsTemperature) : (w.read rt).Sound := by
  unfold WindowsTemperature.read
  cases w.device with
  | none => exact default_sound
  | some device =>
    cases w.vendor with
    | intel => exact readIntelTemperature_sound rt device w.cores
    | other => exact default_sound
    | amd =>
      have hdie := readAmdTemperature_sound rt device
      refine ⟨hdie.package, fun z hz => ?_⟩
      rcases List.mem_append.mp hz with hz | hz
      · exact hdie.zones z hz
      · cases hcore : w.perCore with
        | none => simp [hcore] at hz
        | some pc =>
          have hcount := length_perCore_read_le pc w.cores
          simp only [hcore, Option.map_some, Option.getD_some] at hz
          exact coreZones_sound (isPlausibleCelsius_perCore pc w.cores)
            (hcount.trans (by decide)) z hz

lemma length_readAmdTemperature_le (pawn : PawnIo) :
    ((readAmdTemperature rt pawn).getD .default).zones.length ≤ renoirCcdCount := by
  unfold readAmdTemperature
  cases pawn.execute "ioctl_read_smn" [smnTempBase] 1 with
  | none => simp [TemperatureReading.default]
  | some die => exact length_readCcds_le pawn.execute renoirCcdCount 0

lemma length_readIntelTemperature_le (pawn : PawnIo) (logicalProcessors : ℕ) :
    (readIntelTemperature rt pawn logicalProcessors).zones.length ≤ logicalProcessors := by
  unfold readIntelTemperature
  split
  · simp [TemperatureReading.default]
  · calc _ ≤ (List.range logicalProcessors).length := List.length_filterMap_le _ _
      _ = logicalProcessors := List.length_range

/-- Only an Intel part of more than sixteen processors has more zones than slots. -/
theorem length_zones_le (w : WindowsTemperature) (h : w.vendor ≠ .intel ∨ w.cores ≤ maxZones) :
    (w.read rt).zones.length ≤ maxZones := by
  unfold WindowsTemperature.read
  cases w.device with
  | none => simp [TemperatureReading.default]
  | some device =>
    cases hvendor : w.vendor with
    | other => simp [TemperatureReading.default]
    | intel =>
      have hcores : w.cores ≤ maxZones := h.resolve_left (not_not.mpr hvendor)
      exact (length_readIntelTemperature_le rt device w.cores).trans hcores
    | amd =>
      have hcores : ((w.perCore.map fun pc =>
          WindowsTemperature.coreZones (pc.read w.cores)).getD []).length ≤ coreTempCount := by
        cases w.perCore with
        | none => simp
        | some pc => simpa [WindowsTemperature.coreZones] using length_perCore_read_le pc w.cores
      rw [List.length_append]
      exact Nat.add_le_add (length_readAmdTemperature_le rt device) hcores

lemma TemperatureReading.Sound.representable {reading : TemperatureReading} (h : reading.Sound) :
    Representable reading :=
  ⟨fun c hc => isNan_of_isPlausibleCelsius (h.package c hc),
    fun z hz => isNan_of_isPlausibleCelsius (h.zones z hz).inRange,
    fun z hz => (h.zones z hz).label⟩

end Read

/-- Package, power and junction limit reach the interface, and so do the first sixteen
zones with their labels and values in their order. Only a large Intel part has more. -/
theorem published_reading (rt : Runtime) (w : WindowsTemperature) (watts tjmax : Option F32)
    (nowMs : ℕ) (sequence : UInt32) (hwatts : ∀ v ∈ watts, v.isNan = false)
    (htjmax : ∀ v ∈ tjmax, v.isNan = false) :
    let published := payload (ofSample (w.read rt) watts tjmax nowMs) sequence
    let zones := (w.read rt).zones.map fun z => (z.label, z.celsius)
    published.package = (w.read rt).packageC ∧ published.watts = watts ∧
      published.tjmax = tjmax ∧ published.zoneList = zones.take maxZones ∧
      (published.zoneList = zones ↔ (w.read rt).zones.length ≤ maxZones) ∧
      (w.vendor ≠ .intel ∨ w.cores ≤ maxZones → (w.read rt).zones.length ≤ maxZones) := by
  intro published zones
  obtain ⟨hpackage, hpower, hlimit, hzones⟩ :=
    decode_payload nowMs sequence (read_sound rt w).representable hwatts htjmax
  rw [List.map_take] at hzones
  refine ⟨hpackage, hpower, hlimit, hzones, ?_, length_zones_le rt w⟩
  rw [hzones, List.take_eq_self_iff, List.length_map]

/-- An Intel part whose processors all read thirty degrees below a limit of a hundred. -/
def coolIntel (cores : ℕ) : WindowsTemperature :=
  let execute : Executor := fun _ input _ =>
    if input = [msrTemperatureTarget] then some [(100 : UInt64) <<< 16]
    else some [((30 : UInt64) <<< 16) ||| thermStatusValid]
  { device := some { execute := execute, pinned := fun _ => some execute }
    perCore := none
    cores := cores
    vendor := .intel }

/-- Of seventeen processors the last is dropped. -/
theorem seventeenth_zone_dropped :
    (payload (ofSample ((coolIntel 17).read .ieee) none (coolIntel 17).tjmaxC 1000) 1).zoneList ≠
      ((coolIntel 17).read .ieee).zones.map fun z => (z.label, z.celsius) := by
  decide +kernel

/-- Two processors reach the interface. -/
theorem two_zones_published :
    (payload (ofSample ((coolIntel 2).read .ieee) (some (.finite 9)) (coolIntel 2).tjmaxC 1000)
      1).zoneList = [("Core 0", .finite 70), ("Core 1", .finite 70)] := by
  have htjmax : ∀ v ∈ (coolIntel 2).tjmaxC, v.isNan = false := by decide +kernel
  obtain ⟨-, -, -, -, hall, hfew⟩ := published_reading .ieee (coolIntel 2) (some (.finite 9))
    (coolIntel 2).tjmaxC 1000 1 (by decide) htjmax
  rw [hall.mpr (hfew (.inr (by decide)))]
  decide +kernel

end LoadBear
