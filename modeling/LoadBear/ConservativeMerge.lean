import LoadBear.Verdict

/-!
# Judging an ambiguous processor

The merge takes each field on its own, and the checks combine fields: a missing
cTDP bound falls back to the TDP, a missing TjMax to no check. A merged record is
judged no harder than every candidate exactly when no measured figure falls into
a gap that one of these fallbacks opens.
-/
namespace LoadBear

section Extremum
variable {α : Type*} [LinearOrder α] {P : α → Prop} {l : List α}

/-- A property kept by smaller elements holds of the maximum iff it holds of all. -/
lemma exists_max?_iff (hP : ∀ x y, x ≤ y → P y → P x) :
    (∃ m ∈ l.max?, P m) ↔ l ≠ [] ∧ ∀ x ∈ l, P x := by
  constructor
  · rintro ⟨m, hm, hPm⟩
    obtain ⟨hmem, hle⟩ := List.max?_eq_some_iff.mp hm
    exact ⟨List.ne_nil_of_mem hmem, fun x hx => hP x m (hle x hx) hPm⟩
  · rintro ⟨hne, hall⟩
    obtain ⟨m, hm⟩ := Option.isSome_iff_exists.mp (List.isSome_max?_of_mem (List.head_mem hne))
    exact ⟨m, hm, hall m (List.max?_mem hm)⟩

/-- A property kept by larger elements holds of the minimum iff it holds of all. -/
lemma exists_min?_iff (hP : ∀ x y, x ≤ y → P x → P y) :
    (∃ m ∈ l.min?, P m) ↔ l ≠ [] ∧ ∀ x ∈ l, P x := by
  constructor
  · rintro ⟨m, hm, hPm⟩
    obtain ⟨hmem, hle⟩ := List.min?_eq_some_iff.mp hm
    exact ⟨List.ne_nil_of_mem hmem, fun x hx => hP m x (hle x hx) hPm⟩
  · rintro ⟨hne, hall⟩
    obtain ⟨m, hm⟩ := Option.isSome_iff_exists.mp (List.isSome_min?_of_mem (List.head_mem hne))
    exact ⟨m, hm, hall m (List.min?_mem hm)⟩

/-- The minimum of a nonempty list is one of its elements and below all of them. -/
lemma min?_getD_spec {l : List ℕ} (hl : l ≠ []) :
    l.min?.getD 0 ∈ l ∧ ∀ x ∈ l, l.min?.getD 0 ≤ x := by
  obtain ⟨m, hm⟩ := Option.isSome_iff_exists.mp (List.isSome_min?_of_mem (List.head_mem hl))
  obtain ⟨hmem, hle⟩ := List.min?_eq_some_iff.mp hm
  rw [hm]
  exact ⟨hmem, hle⟩

end Extremum

section Merge
variable (first : CpuSpec) (others : List CpuSpec)

lemma conservative_baseMhz : (conservative first others).baseMhz =
    ((first :: others).map CpuSpec.baseMhz).min?.getD 0 := by
  unfold conservative
  split_ifs with h <;> simp [h]

lemma conservative_tdpWatts : (conservative first others).tdpWatts =
    ((first :: others).map CpuSpec.tdpWatts).min?.getD 0 := by
  unfold conservative
  split_ifs with h <;> simp [h]

lemma conservative_ctdpMinWatts : (conservative first others).ctdpMinWatts =
    ((first :: others).filterMap CpuSpec.ctdpMinWatts).min? := by
  unfold conservative
  split_ifs with h
  · cases hc : first.ctdpMinWatts <;> simp [h, hc]
  · rfl

lemma conservative_ctdpMaxWatts : (conservative first others).ctdpMaxWatts =
    ((first :: others).filterMap CpuSpec.ctdpMaxWatts).max? := by
  unfold conservative
  split_ifs with h
  · cases hc : first.ctdpMaxWatts <;> simp [h, hc]
  · rfl

lemma conservative_tjmaxC : (conservative first others).tjmaxC =
    ((first :: others).filterMap CpuSpec.tjmaxC).max? := by
  unfold conservative
  split_ifs with h
  · cases hc : first.tjmaxC <;> simp [h, hc]
  · rfl

end Merge

lemma filterMap_ne_nil {α β : Type*} {f : α → Option β} {l : List α} :
    l.filterMap f ≠ [] ↔ ∃ c ∈ l, ∃ x, f c = some x := by
  simp [List.filterMap_eq_nil_iff, Option.ne_none_iff_exists']

lemma forall_mem_filterMap {α β : Type*} {f : α → Option β} {l : List α} {P : β → Prop} :
    (∀ x ∈ l.filterMap f, P x) ↔ ∀ c ∈ l, ∀ x, f c = some x → P x := by
  simp only [List.mem_filterMap]
  exact ⟨fun h c hc x hx => h x ⟨c, hc, hx⟩, fun h x ⟨c, hc, hx⟩ => h c hc x hx⟩

variable (rt : Runtime)

/-- The merged thermal limit fires only where every published one would. -/
lemma conservative_thermal_iff (first : CpuSpec) (others : List CpuSpec) (temp : ℚ) :
    (∃ tjmax ∈ (conservative first others).tjmaxC, rt.f32 (tjmax - temp) ≤ thermalHeadroomLowC) ↔
      (∃ c ∈ first :: others, ∃ limit, c.tjmaxC = some limit) ∧
      ∀ c ∈ first :: others, ∀ limit, c.tjmaxC = some limit →
        rt.f32 (limit - temp) ≤ thermalHeadroomLowC := by
  rw [conservative_tjmaxC, exists_max?_iff, filterMap_ne_nil, forall_mem_filterMap]
  intro x y hxy hy
  exact (rt.f32.mono (by linarith)).trans hy

/-- The merged ceiling is the highest published maximum or, where none is
published, the lowest TDP. -/
lemma conservative_ceiling_iff (first : CpuSpec) (others : List CpuSpec) (watts : ℚ) :
    powerCeiling rt (conservative first others) < watts ↔
      ((∃ c ∈ first :: others, ∃ w, c.ctdpMaxWatts = some w) ∧
        ∀ c ∈ first :: others, ∀ w, c.ctdpMaxWatts = some w → rt.f32 w < watts) ∨
      ((∀ c ∈ first :: others, c.ctdpMaxWatts = none) ∧
        ∃ c ∈ first :: others, rt.f32 c.tdpWatts < watts) := by
  have hmono : ∀ x y : ℕ, x ≤ y → rt.f32 y < watts → rt.f32 x < watts := fun x y hxy hy =>
    (rt.f32.mono (by exact_mod_cast hxy)).trans_lt hy
  unfold powerCeiling
  rw [conservative_ctdpMaxWatts, conservative_tdpWatts]
  cases hmax : ((first :: others).filterMap CpuSpec.ctdpMaxWatts).max? with
  | some m =>
    have hiff := exists_max?_iff (l := (first :: others).filterMap CpuSpec.ctdpMaxWatts) hmono
    rw [hmax, filterMap_ne_nil, forall_mem_filterMap] at hiff
    have hpub : ¬∀ c ∈ first :: others, c.ctdpMaxWatts = none := by
      rw [← List.filterMap_eq_nil_iff]
      exact List.ne_nil_of_mem (List.max?_mem hmax)
    simpa only [hpub, false_and, or_false, Option.getD_some, Option.mem_def, Option.some.injEq,
      exists_eq_left'] using hiff
  | none =>
    have hnone : ∀ c ∈ first :: others, c.ctdpMaxWatts = none := by
      rw [← List.filterMap_eq_nil_iff]
      exact List.max?_eq_none_iff.mp hmax
    obtain ⟨hmem, hle⟩ := min?_getD_spec (l := (first :: others).map CpuSpec.tdpWatts) (by simp)
    have hpub : ¬∃ c ∈ first :: others, ∃ w, c.ctdpMaxWatts = some w := by
      rintro ⟨c, hc, w, hw⟩
      simp [hnone c hc] at hw
    simp only [hpub, false_and, false_or, Option.getD_none]
    constructor
    · intro h
      obtain ⟨c, hc, heq⟩ := List.mem_map.mp hmem
      exact ⟨hnone, c, hc, heq ▸ h⟩
    · rintro ⟨-, c, hc, h⟩
      exact hmono _ _ (hle _ (List.mem_map_of_mem hc)) h

/-- The merged floor is the lowest published minimum or, where none is
published, the lowest TDP. -/
lemma conservative_floor_iff (first : CpuSpec) (others : List CpuSpec) (watts : ℚ) :
    watts < powerFloor rt (conservative first others) ↔
      ((∃ c ∈ first :: others, ∃ w, c.ctdpMinWatts = some w) ∧
        ∀ c ∈ first :: others, ∀ w, c.ctdpMinWatts = some w → watts < rt.f32 w) ∨
      ((∀ c ∈ first :: others, c.ctdpMinWatts = none) ∧
        ∀ c ∈ first :: others, watts < rt.f32 c.tdpWatts) := by
  have hmono : ∀ x y : ℕ, x ≤ y → watts < rt.f32 x → watts < rt.f32 y := fun x y hxy hx =>
    hx.trans_le (rt.f32.mono (by exact_mod_cast hxy))
  unfold powerFloor
  rw [conservative_ctdpMinWatts, conservative_tdpWatts]
  cases hmin : ((first :: others).filterMap CpuSpec.ctdpMinWatts).min? with
  | some m =>
    have hiff := exists_min?_iff (l := (first :: others).filterMap CpuSpec.ctdpMinWatts) hmono
    rw [hmin, filterMap_ne_nil, forall_mem_filterMap] at hiff
    have hpub : ¬∀ c ∈ first :: others, c.ctdpMinWatts = none := by
      rw [← List.filterMap_eq_nil_iff]
      exact List.ne_nil_of_mem (List.min?_mem hmin)
    simpa only [hpub, false_and, or_false, Option.getD_some, Option.mem_def, Option.some.injEq,
      exists_eq_left'] using hiff
  | none =>
    have hnone : ∀ c ∈ first :: others, c.ctdpMinWatts = none := by
      rw [← List.filterMap_eq_nil_iff]
      exact List.min?_eq_none_iff.mp hmin
    obtain ⟨hmem, hle⟩ := min?_getD_spec (l := (first :: others).map CpuSpec.tdpWatts) (by simp)
    have hpub : ¬∃ c ∈ first :: others, ∃ w, c.ctdpMinWatts = some w := by
      rintro ⟨c, hc, w, hw⟩
      simp [hnone c hc] at hw
    simp only [hpub, false_and, false_or, Option.getD_none]
    constructor
    · intro h
      exact ⟨hnone, fun c hc => hmono _ _ (hle _ (List.mem_map_of_mem hc)) h⟩
    · rintro ⟨-, h⟩
      obtain ⟨c, hc, heq⟩ := List.mem_map.mp hmem
      exact heq ▸ h c hc

lemma lt_conservative_baseMhz {first : CpuSpec} {others : List CpuSpec} {mhz : ℕ}
    (h : mhz < (conservative first others).baseMhz) : ∀ c ∈ first :: others, mhz < c.baseMhz := by
  intro c hc
  rw [conservative_baseMhz] at h
  exact h.trans_le ((min?_getD_spec (by simp)).2 _ (List.mem_map_of_mem hc))

/-- The reading as the application fills it in: TjMax from the silicon first and
the specification second. -/
def withTjmax (reading : Reading) (silicon : Option ℚ) (spec : CpuSpec) : Reading :=
  { reading with cpu := { reading.cpu with tjmaxC := silicon.or spec.tjmaxC } }

/-- The kinds of verdict the application reaches against a specification. -/
def judgedKinds (reading : Reading) (silicon : Option ℚ) (spec : CpuSpec) : List VerdictKind :=
  (evaluate rt (withTjmax reading silicon spec) (some spec)).map Verdict.kind

/-- Every verdict against the merged record is one against every candidate. -/
def JudgedNoHarder (candidates : List CpuSpec) (merged : CpuSpec) (reading : Reading)
    (silicon : Option ℚ) : Prop :=
  ∀ kind ∈ judgedKinds rt reading silicon merged,
    ∀ c ∈ candidates, kind ∈ judgedKinds rt reading silicon c

/-- The silicon reports no TjMax, a candidate publishes none, and the measured
temperature is within the low headroom of every one that is published. -/
def TjmaxGap (candidates : List CpuSpec) (reading : Reading) (silicon : Option ℚ) : Prop :=
  silicon = none ∧ ∃ temp ∈ reading.cpu.packageTempC,
    (∃ c ∈ candidates, c.tjmaxC = none) ∧ (∃ c ∈ candidates, ∃ limit, c.tjmaxC = some limit) ∧
    ∀ c ∈ candidates, ∀ limit, c.tjmaxC = some limit →
      rt.f32 (limit - temp) ≤ thermalHeadroomLowC

/-- A candidate without a cTDP maximum allows the measured power by its TDP, while
it exceeds every maximum the others publish or, if none does, another's TDP. -/
def CeilingGap (candidates : List CpuSpec) (reading : Reading) : Prop :=
  ∃ watts ∈ reading.cpu.packageWatts,
    (∃ c ∈ candidates, c.ctdpMaxWatts = none ∧ watts ≤ rt.f32 c.tdpWatts) ∧
    (((∃ c ∈ candidates, ∃ w, c.ctdpMaxWatts = some w) ∧
        ∀ c ∈ candidates, ∀ w, c.ctdpMaxWatts = some w → rt.f32 w < watts) ∨
      ((∀ c ∈ candidates, c.ctdpMaxWatts = none) ∧ ∃ c ∈ candidates, rt.f32 c.tdpWatts < watts))

/-- Under demand, a candidate without a cTDP minimum draws its TDP, while the
measured power is below every minimum the others publish. -/
def FloorGap (candidates : List CpuSpec) (reading : Reading) : Prop :=
  underDemand reading ∧ ∃ watts ∈ reading.cpu.packageWatts,
    (∃ c ∈ candidates, c.ctdpMinWatts = none ∧ rt.f32 c.tdpWatts ≤ watts) ∧
    (∃ c ∈ candidates, ∃ w, c.ctdpMinWatts = some w) ∧
    ∀ c ∈ candidates, ∀ w, c.ctdpMinWatts = some w → watts < rt.f32 w

section Judged
variable {rt} {reading : Reading} {silicon : Option ℚ} {spec : CpuSpec}

lemma throttling_mem_judgedKinds :
    .throttling ∈ judgedKinds rt reading silicon spec ↔ reading.cpu.throttle.asserted := by
  rw [judgedKinds, mem_kinds_evaluate]
  rfl

lemma thermal_mem_judgedKinds :
    .thermalHeadroomLow ∈ judgedKinds rt reading silicon spec ↔
      ∃ temp ∈ reading.cpu.packageTempC, ∃ tjmax ∈ silicon.or spec.tjmaxC,
        rt.f32 (tjmax - temp) ≤ thermalHeadroomLowC := by
  rw [judgedKinds, mem_kinds_evaluate]
  rfl

lemma clock_mem_judgedKinds :
    .belowBaseClock ∈ judgedKinds rt reading silicon spec ↔
      underDemand reading ∧ ∃ mhz ∈ reading.cpu.allCoreMhz, mhz < spec.baseMhz := by
  rw [judgedKinds, mem_kinds_evaluate]
  simp [Fires, baseClock, withTjmax, underDemand]

lemma ceiling_mem_judgedKinds :
    .powerOutsideBand ∈ judgedKinds rt reading silicon spec ↔
      ∃ watts ∈ reading.cpu.packageWatts, powerCeiling rt spec < watts := by
  rw [judgedKinds, mem_kinds_evaluate]
  simp [Fires, withTjmax]

lemma floor_mem_judgedKinds :
    .powerBelowRating ∈ judgedKinds rt reading silicon spec ↔
      underDemand reading ∧ ∃ watts ∈ reading.cpu.packageWatts, watts < powerFloor rt spec := by
  rw [judgedKinds, mem_kinds_evaluate]
  simp [Fires, withTjmax, underDemand]

end Judged

section Gaps
variable {rt} {first : CpuSpec} {others : List CpuSpec} {reading : Reading}
  {silicon : Option ℚ}

lemma not_tjmaxGap (h : JudgedNoHarder rt (first :: others) (conservative first others)
    reading silicon) : ¬TjmaxGap rt (first :: others) reading silicon := by
  rintro ⟨rfl, temp, htemp, ⟨c, hc, hnone⟩, hpub, hall⟩
  have hmerged : .thermalHeadroomLow ∈ judgedKinds rt reading none (conservative first others) :=
    thermal_mem_judgedKinds.mpr
      ⟨temp, htemp, (conservative_thermal_iff rt first others temp).mpr ⟨hpub, hall⟩⟩
  obtain ⟨_, _, tjmax, htjmax, _⟩ := thermal_mem_judgedKinds.mp (h _ hmerged c hc)
  simp [hnone] at htjmax

lemma not_ceilingGap (h : JudgedNoHarder rt (first :: others) (conservative first others)
    reading silicon) : ¬CeilingGap rt (first :: others) reading := by
  rintro ⟨watts, hwatts, ⟨c, hc, hnone, hle⟩, hmerge⟩
  have hmerged : .powerOutsideBand ∈ judgedKinds rt reading silicon (conservative first others) :=
    ceiling_mem_judgedKinds.mpr
      ⟨watts, hwatts, (conservative_ceiling_iff rt first others watts).mpr hmerge⟩
  obtain ⟨w, hw, hlt⟩ := ceiling_mem_judgedKinds.mp (h _ hmerged c hc)
  obtain rfl := Option.mem_unique hw hwatts
  rw [powerCeiling, hnone, Option.getD_none] at hlt
  exact absurd hle (not_le.mpr hlt)

lemma not_floorGap (h : JudgedNoHarder rt (first :: others) (conservative first others)
    reading silicon) : ¬FloorGap rt (first :: others) reading := by
  rintro ⟨hdemand, watts, hwatts, ⟨c, hc, hnone, hle⟩, hpub, hall⟩
  have hmerged : .powerBelowRating ∈ judgedKinds rt reading silicon (conservative first others) :=
    floor_mem_judgedKinds.mpr ⟨hdemand, watts, hwatts,
      (conservative_floor_iff rt first others watts).mpr (.inl ⟨hpub, hall⟩)⟩
  obtain ⟨-, w, hw, hlt⟩ := floor_mem_judgedKinds.mp (h _ hmerged c hc)
  obtain rfl := Option.mem_unique hw hwatts
  rw [powerFloor, hnone, Option.getD_none] at hlt
  exact absurd hle (not_le.mpr hlt)

lemma thermal_of_merged (hgap : ¬TjmaxGap rt (first :: others) reading silicon) {c : CpuSpec}
    (hc : c ∈ first :: others)
    (h : .thermalHeadroomLow ∈ judgedKinds rt reading silicon (conservative first others)) :
    .thermalHeadroomLow ∈ judgedKinds rt reading silicon c := by
  obtain ⟨temp, htemp, hfire⟩ := thermal_mem_judgedKinds.mp h
  refine thermal_mem_judgedKinds.mpr ⟨temp, htemp, ?_⟩
  cases silicon with
  | some t => simpa using hfire
  | none =>
    rw [Option.none_or] at hfire ⊢
    obtain ⟨hpub, hall⟩ := (conservative_thermal_iff rt first others temp).mp hfire
    cases hlimit : c.tjmaxC with
    | some limit => exact ⟨limit, rfl, hall c hc limit hlimit⟩
    | none => exact absurd ⟨rfl, temp, htemp, ⟨c, hc, hlimit⟩, hpub, hall⟩ hgap

lemma ceiling_of_merged (hgap : ¬CeilingGap rt (first :: others) reading) {c : CpuSpec}
    (hc : c ∈ first :: others)
    (h : .powerOutsideBand ∈ judgedKinds rt reading silicon (conservative first others)) :
    .powerOutsideBand ∈ judgedKinds rt reading silicon c := by
  obtain ⟨watts, hwatts, hfire⟩ := ceiling_mem_judgedKinds.mp h
  refine ceiling_mem_judgedKinds.mpr ⟨watts, hwatts, ?_⟩
  have hmerge := (conservative_ceiling_iff rt first others watts).mp hfire
  cases hw : c.ctdpMaxWatts with
  | some w =>
    rcases hmerge with ⟨-, hall⟩ | ⟨hnone, -⟩
    · rw [powerCeiling, hw]
      exact hall c hc w hw
    · simp [hnone c hc] at hw
  | none =>
    by_contra hle
    rw [powerCeiling, hw, Option.getD_none, not_lt] at hle
    exact hgap ⟨watts, hwatts, ⟨c, hc, hw, hle⟩, hmerge⟩

lemma floor_of_merged (hgap : ¬FloorGap rt (first :: others) reading) {c : CpuSpec}
    (hc : c ∈ first :: others)
    (h : .powerBelowRating ∈ judgedKinds rt reading silicon (conservative first others)) :
    .powerBelowRating ∈ judgedKinds rt reading silicon c := by
  obtain ⟨hdemand, watts, hwatts, hfire⟩ := floor_mem_judgedKinds.mp h
  refine floor_mem_judgedKinds.mpr ⟨hdemand, watts, hwatts, ?_⟩
  have hmerge := (conservative_floor_iff rt first others watts).mp hfire
  cases hw : c.ctdpMinWatts with
  | some w =>
    rcases hmerge with ⟨-, hall⟩ | ⟨hnone, -⟩
    · rw [powerFloor, hw]
      exact hall c hc w hw
    · simp [hnone c hc] at hw
  | none =>
    rw [powerFloor, hw, Option.getD_none]
    rcases hmerge with ⟨hpub, hall⟩ | ⟨-, hall⟩
    · by_contra hle
      exact hgap ⟨hdemand, watts, hwatts, ⟨c, hc, hw, not_lt.mp hle⟩, hpub, hall⟩
    · exact hall c hc

/-- The merge judges no harder than its candidates outside the three gaps, and
only there. -/
theorem conservative_judgedNoHarder_iff :
    JudgedNoHarder rt (first :: others) (conservative first others) reading silicon ↔
      ¬TjmaxGap rt (first :: others) reading silicon ∧
      ¬CeilingGap rt (first :: others) reading ∧ ¬FloorGap rt (first :: others) reading := by
  constructor
  · intro h
    exact ⟨not_tjmaxGap h, not_ceilingGap h, not_floorGap h⟩
  · rintro ⟨htjmax, hceiling, hfloor⟩ kind hkind c hc
    cases kind with
    | throttling => exact throttling_mem_judgedKinds.mpr (throttling_mem_judgedKinds.mp hkind)
    | thermalHeadroomLow => exact thermal_of_merged htjmax hc hkind
    | belowBaseClock =>
      obtain ⟨hdemand, mhz, hmhz, hlt⟩ := clock_mem_judgedKinds.mp hkind
      exact clock_mem_judgedKinds.mpr ⟨hdemand, mhz, hmhz, lt_conservative_baseMhz hlt c hc⟩
    | powerOutsideBand => exact ceiling_of_merged hceiling hc hkind
    | powerBelowRating => exact floor_of_merged hfloor hc hkind

end Gaps

lemma resolve_eq_some_iff {db : SpecDb} {key : CpuKey} {threads : ℕ} {m : SpecMatch} :
    db.resolve key threads = some m ↔ ∃ first others,
      db.candidates key threads = first :: others ∧
        m = ⟨conservative first others, others.length + 1⟩ := by
  unfold SpecDb.resolve
  cases db.candidates key threads with
  | nil => simp
  | cons first others => simp [eq_comm]

/-- A resolved processor is judged no harder than any product it could be exactly
when the measured figures fall into none of the gaps between its candidates. -/
theorem resolve_judgedNoHarder_iff (db : SpecDb) (key : CpuKey) (threads : ℕ) (m : SpecMatch)
    (hm : db.resolve key threads = some m) (reading : Reading) (silicon : Option ℚ) :
    JudgedNoHarder rt (db.candidates key threads) m.spec reading silicon ↔
      ¬TjmaxGap rt (db.candidates key threads) reading silicon ∧
      ¬CeilingGap rt (db.candidates key threads) reading ∧
      ¬FloorGap rt (db.candidates key threads) reading := by
  obtain ⟨first, others, hcandidates, rfl⟩ := resolve_eq_some_iff.mp hm
  rw [hcandidates]
  exact conservative_judgedNoHarder_iff

/-- Two parts of one family and model with as many threads: a 15 W and a 28 W one,
neither with a published cTDP band. -/
def lowAndHighPower : SpecDb where
  entries :=
    let part (name : String) (tdp : ℕ) : CpuSpec :=
      { vendor := .amd, family := 23, model := 96, stepping := 1, name := name, baseMhz := 2000
        boostMhz := none, tdpWatts := tdp, ctdpMinWatts := none, ctdpMaxWatts := none
        tjmaxC := some 105, cores := 8, threads := 16, source := "product page" }
    [part "15 W part" 15, part "28 W part" 28]

def renoirKey : CpuKey := ⟨.amd, 23, 96, 1⟩

/-- A busy machine drawing 20 W, cool and above its base clock. -/
def twentyWatts : Reading where
  timestampMs := 0
  stall := ⟨0, 0, none⟩
  cpu :=
    { allCoreMhz := some 2400, utilizationPct := some 95, reportedBaseMhz := some 2000
      packageWatts := some 20, packageTempC := some 70, tjmaxC := none
      throttle := ⟨false, none⟩ }
  processes := []
  containers := []

/-- The lower TDP is the merged ceiling, so 20 W is out of band for a machine that
may be the 28 W part. -/
theorem merged_ceiling_judges_harder :
    ∃ m, lowAndHighPower.resolve renoirKey 16 = some m ∧
      ¬JudgedNoHarder .ieee (lowAndHighPower.candidates renoirKey 16) m.spec twentyWatts none := by
  refine ⟨_, rfl, ?_⟩
  unfold JudgedNoHarder
  decide +kernel

/-- At 20 W the pair is in the ceiling gap: the 28 W part allows it by its TDP and
the 15 W part does not. -/
theorem resolve_judgedNoHarder_iff_at_twenty_watts :
    ∃ m, lowAndHighPower.resolve renoirKey 16 = some m ∧
      CeilingGap .ieee (lowAndHighPower.candidates renoirKey 16) twentyWatts ∧
      ¬JudgedNoHarder .ieee (lowAndHighPower.candidates renoirKey 16) m.spec twentyWatts none := by
  have hlow : Runtime.ieee.f32 (15 : ℕ) < 20 := by decide +kernel
  have hhigh : (20 : ℚ) ≤ Runtime.ieee.f32 (28 : ℕ) := by decide +kernel
  have hgap : CeilingGap .ieee (lowAndHighPower.candidates renoirKey 16) twentyWatts := by
    refine ⟨20, rfl, ⟨_, .tail _ (.head _), rfl, hhigh⟩, .inr ⟨?_, _, .head _, hlow⟩⟩
    decide +kernel
  refine ⟨_, rfl, hgap, fun h => ?_⟩
  exact ((resolve_judgedNoHarder_iff .ieee lowAndHighPower renoirKey 16 _ rfl twentyWatts none).mp
    h).2.1 hgap

end LoadBear
