import LoadBear.Verdict

/-!
# Verdicts and the figures they rest on

Each kind of verdict names an authority, and is to be emitted only where that authority speaks.
The band a temperature falls in is written apart from the check on it, and the two are to be
one event. A limit published as zero has no band and is still checked, and a part without a
configurable floor is held to its rated power under the floor's name.
-/
namespace LoadBear
namespace ThermalBand

variable (rt : Runtime)

/-- The bands of a limit that is published, by headroom. -/
def ofHeadroom (headroom : ℚ) : ThermalBand :=
  if headroomNormalC < headroom then normal
  else if headroomWarmC < headroom then warm
  else if thermalHeadroomLowC < headroom then hot
  else atLimit

lemma thermalBand_none (tempC : ℚ) : thermalBand rt tempC none = none := rfl

lemma thermalBand_some (tempC limit : ℚ) :
    thermalBand rt tempC (some limit) =
      if limit ≤ 0 then none else some (ofHeadroom (rt.f32 (limit - tempC))) := rfl

lemma ofHeadroom_eq_atLimit (headroom : ℚ) :
    ofHeadroom headroom = atLimit ↔ headroom ≤ thermalHeadroomLowC := by
  unfold ofHeadroom headroomNormalC headroomWarmC thermalHeadroomLowC
  constructor
  · intro h
    by_contra hroom
    split_ifs at h
    all_goals exact absurd (by linarith) hroom
  · intro hroom
    rw [if_neg (by linarith), if_neg (by linarith), if_neg (by linarith)]

lemma ofHeadroom_antitone {less more : ℚ} (h : less ≤ more) :
    (ofHeadroom more).rank ≤ (ofHeadroom less).rank := by
  unfold ofHeadroom
  split_ifs
  all_goals first
    | decide
    | linarith

/-- A hotter reading never falls in a cooler band, and both have one or neither has. -/
def Rises (tjmaxC : Option ℚ) : Prop :=
  ∀ cooler hotter, cooler ≤ hotter → Option.Rel (fun low high => low.rank ≤ high.rank)
    (thermalBand rt cooler tjmaxC) (thermalBand rt hotter tjmaxC)

theorem rises (tjmaxC : Option ℚ) : Rises rt tjmaxC := by
  intro cooler hotter hle
  cases tjmaxC with
  | none => exact Option.Rel.none
  | some limit =>
    rw [thermalBand_some, thermalBand_some]
    split_ifs with hlimit
    · exact Option.Rel.none
    · apply Option.Rel.some
      apply ofHeadroom_antitone
      apply rt.f32.mono
      linarith

end ThermalBand

section Events
variable (rt : Runtime) (reading : Reading) (spec : Option CpuSpec)

/-- A red tile and a thermal finding come together, at every temperature read. -/
def SameThermalEvent : Prop :=
  ∀ tempC ∈ reading.cpu.packageTempC,
    thermalBand rt tempC reading.cpu.tjmaxC = some .atLimit ↔
      .thermalHeadroomLow ∈ (evaluate rt reading spec).map Verdict.kind

/-- The limit is given as zero or less and the temperature is within reach of it. -/
def HotAtNoLimit : Prop :=
  ∃ tempC ∈ reading.cpu.packageTempC, ∃ limit ∈ reading.cpu.tjmaxC,
    limit ≤ 0 ∧ rt.f32 (limit - tempC) ≤ thermalHeadroomLowC

lemma thermalBand_eq_atLimit (tempC : ℚ) (tjmaxC : Option ℚ) :
    thermalBand rt tempC tjmaxC = some .atLimit ↔
      ∃ limit ∈ tjmaxC, 0 < limit ∧ rt.f32 (limit - tempC) ≤ thermalHeadroomLowC := by
  cases tjmaxC with
  | none => simp [ThermalBand.thermalBand_none]
  | some limit =>
    rw [ThermalBand.thermalBand_some]
    by_cases hlimit : limit ≤ 0
    · simp [hlimit]
    · simp [hlimit, not_le.mp hlimit, ThermalBand.ofHeadroom_eq_atLimit]

/-- The tile and the finding agree, and the bands rise with the temperature, exactly when no
limit of zero or less is within reach. -/
theorem sameThermalEvent_iff :
    (SameThermalEvent rt reading spec ∧ ThermalBand.Rises rt reading.cpu.tjmaxC) ↔
      ¬HotAtNoLimit rt reading := by
  have hfires : .thermalHeadroomLow ∈ (evaluate rt reading spec).map Verdict.kind ↔
      ∃ tempC ∈ reading.cpu.packageTempC, ∃ limit ∈ reading.cpu.tjmaxC,
        rt.f32 (limit - tempC) ≤ thermalHeadroomLowC :=
    mem_kinds_evaluate rt reading spec .thermalHeadroomLow
  constructor
  · intro hsame hhot
    obtain ⟨tempC, htemp, limit, hlimit, hzero, hroom⟩ := hhot
    have hband := (hsame.1 tempC htemp).mpr (hfires.mpr ⟨tempC, htemp, limit, hlimit, hroom⟩)
    obtain ⟨limit', hlimit', hpos, -⟩ := (thermalBand_eq_atLimit rt tempC _).mp hband
    obtain rfl : limit = limit' := Option.some.inj (hlimit.symm.trans hlimit')
    exact absurd hzero (not_le.mpr hpos)
  · intro hcold
    refine ⟨fun tempC htemp => ?_, ThermalBand.rises rt _⟩
    rw [thermalBand_eq_atLimit, hfires]
    constructor
    · intro hband
      obtain ⟨limit, hlimit, -, hroom⟩ := hband
      exact ⟨tempC, htemp, limit, hlimit, hroom⟩
    · intro hfire
      obtain ⟨tempC', htemp', limit, hlimit, hroom⟩ := hfire
      obtain rfl : tempC = tempC' := Option.some.inj (htemp.symm.trans htemp')
      refine ⟨limit, hlimit, ?_, hroom⟩
      by_contra hpos
      exact hcold ⟨tempC, htemp, limit, hlimit, not_lt.mp hpos, hroom⟩

end Events

section Authority
variable (rt : Runtime) (reading : Reading) (spec : Option CpuSpec)

/-- What each kind of verdict says it rests on, in the figures as they were measured and
published. -/
def Authority : VerdictKind → Prop
  | .throttling => reading.cpu.throttle.asserted
  | .thermalHeadroomLow => reading.cpu.packageTempC.isSome ∧ reading.cpu.tjmaxC.isSome
  | .belowBaseClock => (∃ used ∈ reading.cpu.utilizationPct, 80 ≤ used) ∧
      ∃ mhz ∈ reading.cpu.allCoreMhz, (∃ s ∈ spec, mhz < s.baseMhz) ∨
        (spec = none ∧ ∃ base ∈ reading.cpu.reportedBaseMhz, mhz < base)
  | .powerOutsideBand => ∃ s ∈ spec, ∃ watts ∈ reading.cpu.packageWatts,
      ((s.ctdpMaxWatts.getD s.tdpWatts : ℕ) : ℚ) < watts
  | .powerBelowRating => (∃ used ∈ reading.cpu.utilizationPct, 80 ≤ used) ∧
      ∃ s ∈ spec, ∃ floor ∈ s.ctdpMinWatts, ∃ watts ∈ reading.cpu.packageWatts, watts < (floor : ℕ)

/-- No kind is emitted twice, and each only where its authority speaks. -/
structure RestsOnAuthority : Prop where
  nodup : ((evaluate rt reading spec).map Verdict.kind).Nodup
  authority : ∀ kind ∈ (evaluate rt reading spec).map Verdict.kind, Authority reading spec kind

/-- A busy package draws less than the rated power of a part without a published floor. -/
def BorrowsFloor : Prop :=
  underDemand reading ∧ ∃ s ∈ spec, s.ctdpMinWatts = none ∧
    ∃ watts ∈ reading.cpu.packageWatts, watts < rt.f32 s.tdpWatts

lemma underDemand_iff :
    underDemand reading ↔ ∃ used ∈ reading.cpu.utilizationPct, 80 ≤ used := by
  unfold underDemand minUtilizationForBaseClockPct
  cases reading.cpu.utilizationPct <;> simp

/-- The kinds in the order the checks are made. -/
def checkOrder : List VerdictKind :=
  [.throttling, .thermalHeadroomLow, .belowBaseClock, .powerOutsideBand, .powerBelowRating]

lemma kinds_throttleCheck_sublist :
    ((throttleCheck reading).map Verdict.kind).Sublist [.throttling] := by
  unfold throttleCheck
  split_ifs <;> simp

lemma kinds_thermalCheck_sublist :
    ((thermalCheck rt reading).map Verdict.kind).Sublist [.thermalHeadroomLow] := by
  unfold thermalCheck
  split
  · dsimp only
    split_ifs <;> simp
  · simp

lemma kinds_clockCheck_sublist :
    ((clockCheck reading spec).map Verdict.kind).Sublist [.belowBaseClock] := by
  unfold clockCheck
  split
  · dsimp only
    split_ifs <;> simp
  · simp

lemma kinds_ceilingCheck_sublist (watts : ℚ) (s : CpuSpec) :
    ((ceilingCheck rt watts s).map Verdict.kind).Sublist [.powerOutsideBand] := by
  unfold ceilingCheck
  dsimp only
  split_ifs <;> simp

lemma kinds_floorCheck_sublist (watts : ℚ) (s : CpuSpec) :
    ((floorCheck rt reading watts s).map Verdict.kind).Sublist [.powerBelowRating] := by
  unfold floorCheck
  dsimp only
  split_ifs <;> simp

/-- Every check emits at most one verdict, and the checks are made in one order. -/
lemma kinds_evaluate_sublist :
    ((evaluate rt reading spec).map Verdict.kind).Sublist checkOrder := by
  have hmachine : ((throttleCheck reading ++ thermalCheck rt reading ++
      clockCheck reading spec).map Verdict.kind).Sublist
        [.throttling, .thermalHeadroomLow, .belowBaseClock] := by
    rw [List.map_append, List.map_append]
    exact ((kinds_throttleCheck_sublist reading).append
      (kinds_thermalCheck_sublist rt reading)).append (kinds_clockCheck_sublist reading spec)
  unfold evaluate
  dsimp only
  split
  · rename_i s watts hwatts
    have hpower : ((ceilingCheck rt watts s ++ floorCheck rt reading watts s).map
        Verdict.kind).Sublist [.powerOutsideBand, .powerBelowRating] := by
      rw [List.map_append]
      exact (kinds_ceilingCheck_sublist rt watts s).append
        (kinds_floorCheck_sublist rt reading watts s)
    rw [List.append_assoc, List.map_append]
    exact hmachine.append hpower
  · apply hmachine.trans
    exact List.sublist_append_left _ [VerdictKind.powerOutsideBand, .powerBelowRating]

variable {rt reading spec}

lemma baseClock_iff (mhz : ℕ) :
    (∃ base ∈ baseClock reading spec, mhz < base.1) ↔ (∃ s ∈ spec, mhz < s.baseMhz) ∨
      (spec = none ∧ ∃ base ∈ reading.cpu.reportedBaseMhz, mhz < base) := by
  unfold baseClock
  cases spec <;> simp

/-- A figure above a whole number that was rounded is above the number itself. -/
lemma lt_of_rounded_lt {watts : ℚ} {figure : ℕ} (hwatts : rt.f32 watts = watts)
    (h : rt.f32 figure < watts) : (figure : ℚ) < watts := by
  by_contra hle
  have hround := rt.f32.mono (not_lt.mp hle)
  rw [hwatts] at hround
  exact absurd h (not_lt.mpr hround)

lemma lt_of_lt_rounded {watts : ℚ} {figure : ℕ} (hwatts : rt.f32 watts = watts)
    (h : watts < rt.f32 figure) : watts < (figure : ℚ) := by
  by_contra hle
  have hround := rt.f32.mono (not_lt.mp hle)
  rw [hwatts] at hround
  exact absurd h (not_lt.mpr hround)

/-- A firing check has its authority, the floor apart. -/
lemma authority_of_fires (hmeasured : ∀ watts ∈ reading.cpu.packageWatts, rt.f32 watts = watts)
    (hfloor : ¬BorrowsFloor rt reading spec) (kind : VerdictKind)
    (h : Fires rt reading spec kind) : Authority reading spec kind := by
  cases kind with
  | throttling => exact h
  | thermalHeadroomLow =>
    obtain ⟨tempC, htemp, tjmax, htjmax, -⟩ := h
    constructor
    · exact Option.isSome_iff_exists.mpr ⟨tempC, htemp⟩
    · exact Option.isSome_iff_exists.mpr ⟨tjmax, htjmax⟩
  | belowBaseClock =>
    obtain ⟨hdemand, mhz, hmhz, hbase⟩ := h
    exact ⟨(underDemand_iff reading).mp hdemand, mhz, hmhz, (baseClock_iff mhz).mp hbase⟩
  | powerOutsideBand =>
    obtain ⟨s, hs, watts, hw, hceiling⟩ := h
    exact ⟨s, hs, watts, hw, lt_of_rounded_lt (hmeasured watts hw) hceiling⟩
  | powerBelowRating =>
    obtain ⟨hdemand, s, hs, watts, hw, hbelow⟩ := h
    refine ⟨(underDemand_iff reading).mp hdemand, s, hs, ?_⟩
    unfold powerFloor at hbelow
    cases hmin : s.ctdpMinWatts with
    | none =>
      rw [hmin] at hbelow
      exact absurd ⟨hdemand, s, hs, hmin, watts, hw, hbelow⟩ hfloor
    | some floor =>
      rw [hmin] at hbelow
      exact ⟨floor, rfl, watts, hw, lt_of_lt_rounded (hmeasured watts hw) hbelow⟩

/-- Every verdict rests on what it says, unless a busy part without a published floor draws
less than its rated power. -/
theorem restsOnAuthority_iff
    (hmeasured : ∀ watts ∈ reading.cpu.packageWatts, rt.f32 watts = watts) :
    RestsOnAuthority rt reading spec ↔ ¬BorrowsFloor rt reading spec := by
  constructor
  · intro hrests hborrows
    obtain ⟨hdemand, s, hs, hmin, watts, hw, hbelow⟩ := hborrows
    have hfires : Fires rt reading spec .powerBelowRating := by
      refine ⟨hdemand, s, hs, watts, hw, ?_⟩
      rw [powerFloor, hmin]
      exact hbelow
    obtain ⟨-, s', hs', floor, hfloor, -⟩ :=
      hrests.authority .powerBelowRating ((mem_kinds_evaluate rt reading spec _).mpr hfires)
    obtain rfl : s = s' := Option.some.inj (hs.symm.trans hs')
    rw [hmin] at hfloor
    simp at hfloor
  · intro hborrows
    constructor
    · have horder : checkOrder.Nodup := by decide
      exact (kinds_evaluate_sublist rt reading spec).nodup horder
    · intro kind hkind
      exact authority_of_fires hmeasured hborrows kind
        ((mem_kinds_evaluate rt reading spec kind).mp hkind)

end Authority

section Examples

/-- A busy processor at 50 degrees, drawing the given power. -/
def busyAt (watts : ℚ) (tjmaxC : Option ℚ) : Reading where
  timestampMs := 0
  stall := ⟨0, 0, none⟩
  cpu :=
    { allCoreMhz := some 2400, utilizationPct := some 95, reportedBaseMhz := some 2000
      packageWatts := some watts, packageTempC := some 50, tjmaxC := tjmaxC
      throttle := ⟨false, none⟩ }
  processes := []
  containers := []

/-- A part of 15 W, with the floor it publishes. -/
def fifteenWatts (ctdpMinWatts : Option ℕ) : CpuSpec where
  vendor := .amd
  family := 25
  model := 80
  stepping := 0
  name := "Ryzen 5 5625U"
  baseMhz := 2300
  boostMhz := some 4300
  tdpWatts := 15
  ctdpMinWatts := ctdpMinWatts
  ctdpMaxWatts := some 25
  tjmaxC := some 95
  cores := 6
  threads := 12
  source := "vendor product page"

/-- A limit of zero colours no tile and is found to be exceeded at 50 degrees. -/
theorem zero_limit_is_exceeded : ¬SameThermalEvent .ieee (busyAt 10 (some 0)) none := by
  intro hsame
  have hband := (hsame 50 rfl).mpr (by decide +kernel)
  have hnone : thermalBand .ieee 50 (some 0) = none := by decide +kernel
  exact absurd (hnone.symm.trans hband) (by decide)

/-- Eight watts are found to be too few, against a published floor of ten. -/
theorem published_floor_is_kept :
    (evaluate .ieee (busyAt 8 none) (some (fifteenWatts (some 10)))).map Verdict.kind =
        [.powerBelowRating] ∧
      RestsOnAuthority .ieee (busyAt 8 none) (some (fifteenWatts (some 10))) := by
  refine ⟨by decide +kernel, (restsOnAuthority_iff ?_).mpr ?_⟩
  · intro watts hw
    obtain rfl : 8 = watts := Option.some.inj hw
    decide +kernel
  · intro hborrows
    obtain ⟨-, s, hs, hmin, -⟩ := hborrows
    obtain rfl : fifteenWatts (some 10) = s := Option.some.inj hs
    simp [fifteenWatts] at hmin

/-- Twelve watts against the rated fifteen of a part that publishes no floor, which the
verdict says it does. -/
theorem rated_power_is_called_a_floor :
    ¬RestsOnAuthority .ieee (busyAt 12 none) (some (fifteenWatts none)) := by
  intro hrests
  obtain ⟨-, s, hs, floor, hfloor, -⟩ := hrests.authority .powerBelowRating (by decide +kernel)
  obtain rfl : fifteenWatts none = s := Option.some.inj hs
  simp [fifteenWatts] at hfloor

end Examples
end LoadBear
