import LoadBear.Spec

/-!
# Absolute checks

Each check compares a measured figure with a published one and is skipped when
either is absent. The texts carry the figures and the authority they rest on.
-/
namespace LoadBear

inductive Severity
  | ok
  | degraded
  | outOfSpec
  deriving DecidableEq, Repr

/-- The derived order of the variants. -/
def Severity.rank : Severity → ℕ
  | ok => 0
  | degraded => 1
  | outOfSpec => 2

/-- The derived `Debug` name. -/
def Severity.name : Severity → String
  | ok => "Ok"
  | degraded => "Degraded"
  | outOfSpec => "OutOfSpec"

inductive VerdictKind
  | belowBaseClock
  | throttling
  | powerOutsideBand
  | powerBelowRating
  | thermalHeadroomLow
  deriving DecidableEq, Repr

/-- A single judgement about machine state. -/
structure Verdict where
  kind : VerdictKind
  severity : Severity
  detail : String
  basis : String
  deriving DecidableEq, Repr

def thermalHeadroomLowC : ℚ := 5

/-- How much room is left below the vendor's own limit. -/
inductive ThermalBand
  | normal
  | warm
  | hot
  | atLimit
  deriving DecidableEq, Repr

/-- From plenty of room to none. -/
def ThermalBand.rank : ThermalBand → ℕ
  | normal => 0
  | warm => 1
  | hot => 2
  | atLimit => 3

def headroomNormalC : ℚ := 25

def headroomWarmC : ℚ := 15

def minUtilizationForBaseClockPct : ℚ := 80

/-- Whether the machine is measured to be asking for performance. -/
def underDemand (reading : Reading) : Bool :=
  reading.cpu.utilizationPct.any (minUtilizationForBaseClockPct ≤ ·)

def throttleCheck (reading : Reading) : List Verdict :=
  if reading.cpu.throttle.asserted then
    let reason := (reading.cpu.throttle.reason.map ThrottleReason.name).getD "unspecified"
    [{ kind := .throttling
       severity := .outOfSpec
       detail := s!"The hardware is asserting a throttle signal. Reason: {reason}."
       basis := "Hardware status bit, read directly. Not inferred from temperature." }]
  else []

variable (rt : Runtime)

/-- Which band a reading falls in. A part that publishes no limit, or zero for one, has none. -/
def thermalBand (tempC : ℚ) (tjmaxC : Option ℚ) : Option ThermalBand :=
  match tjmaxC with
  | none => none
  | some tjmax =>
    if tjmax ≤ 0 then none
    else
      let headroom := rt.f32 (tjmax - tempC)
      some (if headroomNormalC < headroom then .normal
        else if headroomWarmC < headroom then .warm
        else if thermalHeadroomLowC < headroom then .hot
        else .atLimit)

def thermalCheck (reading : Reading) : List Verdict :=
  match reading.cpu.packageTempC, reading.cpu.tjmaxC with
  | some temp, some tjmax =>
    let headroom := rt.f32 (tjmax - temp)
    if headroom ≤ thermalHeadroomLowC then
      [{ kind := .thermalHeadroomLow
         severity := .degraded
         detail := s!"{fixed 1 headroom} degrees C of headroom below the limit of {fixed 0 tjmax}."
         basis := "TjMax as reported by the processor or the specification database. Running at the limit is by design on modern parts." }]
    else []
  | _, _ => []

/-- The published base clock, or failing that the machine's own. -/
def baseClock (reading : Reading) (spec : Option CpuSpec) : Option (ℕ × String) :=
  match spec with
  | some s => some (s.baseMhz, s!"{s.name} publishes")
  | none => reading.cpu.reportedBaseMhz.map fun m => (m, "This processor reports")

def clockCheck (reading : Reading) (spec : Option CpuSpec) : List Verdict :=
  match reading.cpu.allCoreMhz, baseClock reading spec, underDemand reading with
  | some mhz, some (baseMhz, authority), true =>
    if mhz < baseMhz then
      let utilization := reading.cpu.utilizationPct.getD 0
      [{ kind := .belowBaseClock
         severity := .outOfSpec
         detail := s!"Every processor is busy, and the clock is {mhz} MHz against a guaranteed {baseMhz} MHz. Busy and slow at the same time means something is holding the clock down rather than the machine running out of work."
         basis := s!"{authority} {baseMhz} MHz as its base clock, which is guaranteed at the rated TDP. Measured at {fixed 0 utilization} percent utilization, so the processor is being asked for it." }]
    else []
  | _, _, _ => []

/-- The most a package may draw, as the power check compares it. -/
def powerCeiling (spec : CpuSpec) : ℚ := rt.f32 (spec.ctdpMaxWatts.getD spec.tdpWatts : ℕ)

/-- The least a busy package is rated to draw, as the power check compares it. -/
def powerFloor (spec : CpuSpec) : ℚ := rt.f32 (spec.ctdpMinWatts.getD spec.tdpWatts : ℕ)

def ceilingCheck (watts : ℚ) (spec : CpuSpec) : List Verdict :=
  let ceiling := powerCeiling rt spec
  if ceiling < watts then
    [{ kind := .powerOutsideBand
       severity := .degraded
       detail := s!"Package power is {fixed 1 watts} W against a ceiling of {fixed 0 ceiling} W."
       basis := "Rated TDP and configurable TDP band as published for this model." }]
  else []

def floorCheck (reading : Reading) (watts : ℚ) (spec : CpuSpec) : List Verdict :=
  let floor := powerFloor rt spec
  if underDemand reading ∧ watts < floor then
    [{ kind := .powerBelowRating
       severity := .degraded
       detail := s!"Every processor is busy and the package is drawing {fixed 1 watts} W, below the {fixed 0 floor} W this processor is rated to draw. It is being supplied less power than it is built to use."
       basis := s!"{spec.name} publishes a configurable TDP floor of {fixed 0 floor} W. Package power read from the processor's own energy counters." }]
  else []

/-- Evaluate every absolute check that the available data supports. -/
def evaluate (reading : Reading) (spec : Option CpuSpec) : List Verdict :=
  let verdicts := throttleCheck reading ++ thermalCheck rt reading ++ clockCheck reading spec
  match spec, reading.cpu.packageWatts with
  | some spec, some watts =>
    verdicts ++ ceilingCheck rt watts spec ++ floorCheck rt reading watts spec
  | _, _ => verdicts

/-- The comparison behind each verdict, without its texts. -/
def Fires (reading : Reading) (spec : Option CpuSpec) : VerdictKind → Prop
  | .throttling => reading.cpu.throttle.asserted
  | .thermalHeadroomLow => ∃ temp ∈ reading.cpu.packageTempC, ∃ tjmax ∈ reading.cpu.tjmaxC,
      rt.f32 (tjmax - temp) ≤ thermalHeadroomLowC
  | .belowBaseClock => underDemand reading ∧ ∃ mhz ∈ reading.cpu.allCoreMhz,
      ∃ base ∈ baseClock reading spec, mhz < base.1
  | .powerOutsideBand => ∃ s ∈ spec, ∃ watts ∈ reading.cpu.packageWatts,
      powerCeiling rt s < watts
  | .powerBelowRating => underDemand reading ∧ ∃ s ∈ spec,
      ∃ watts ∈ reading.cpu.packageWatts, watts < powerFloor rt s

lemma mem_kinds_throttleCheck (reading : Reading) (k : VerdictKind) :
    k ∈ (throttleCheck reading).map Verdict.kind ↔
      k = .throttling ∧ reading.cpu.throttle.asserted := by
  unfold throttleCheck
  split_ifs with h <;> simp [h]

lemma mem_kinds_thermalCheck (reading : Reading) (k : VerdictKind) :
    k ∈ (thermalCheck rt reading).map Verdict.kind ↔
      k = .thermalHeadroomLow ∧ ∃ temp ∈ reading.cpu.packageTempC,
        ∃ tjmax ∈ reading.cpu.tjmaxC, rt.f32 (tjmax - temp) ≤ thermalHeadroomLowC := by
  unfold thermalCheck
  split
  · rename_i temp tjmax htemp htjmax
    dsimp only
    split_ifs with h <;> simp [htemp, htjmax, h]
  · rename_i hnone
    simp only [List.map_nil, List.not_mem_nil, false_iff]
    rintro ⟨-, temp, htemp, tjmax, htjmax, -⟩
    exact hnone temp tjmax htemp htjmax

lemma mem_kinds_clockCheck (reading : Reading) (spec : Option CpuSpec) (k : VerdictKind) :
    k ∈ (clockCheck reading spec).map Verdict.kind ↔
      k = .belowBaseClock ∧ underDemand reading ∧ ∃ mhz ∈ reading.cpu.allCoreMhz,
        ∃ base ∈ baseClock reading spec, mhz < base.1 := by
  unfold clockCheck
  split
  · rename_i mhz base authority hmhz hbase hdemand
    dsimp only
    split_ifs with h <;> simp [hmhz, hbase, hdemand, h]
  · rename_i hnone
    simp only [List.map_nil, List.not_mem_nil, false_iff]
    rintro ⟨-, hdemand, mhz, hmhz, base, hbase, -⟩
    exact hnone mhz base.1 base.2 hmhz hbase hdemand

lemma mem_kinds_ceilingCheck (watts : ℚ) (spec : CpuSpec) (k : VerdictKind) :
    k ∈ (ceilingCheck rt watts spec).map Verdict.kind ↔
      k = .powerOutsideBand ∧ powerCeiling rt spec < watts := by
  unfold ceilingCheck
  dsimp only
  split_ifs with h <;> simp [h]

lemma mem_kinds_floorCheck (reading : Reading) (watts : ℚ) (spec : CpuSpec) (k : VerdictKind) :
    k ∈ (floorCheck rt reading watts spec).map Verdict.kind ↔
      k = .powerBelowRating ∧ underDemand reading ∧ watts < powerFloor rt spec := by
  unfold floorCheck
  dsimp only
  split_ifs with h <;> simp [h]

/-- A verdict of each kind is emitted exactly when its comparison fires. -/
theorem mem_kinds_evaluate (reading : Reading) (spec : Option CpuSpec) (k : VerdictKind) :
    k ∈ (evaluate rt reading spec).map Verdict.kind ↔ Fires rt reading spec k := by
  unfold evaluate
  dsimp only
  cases spec with
  | none =>
    simp only [List.map_append, List.mem_append, mem_kinds_throttleCheck,
      mem_kinds_thermalCheck, mem_kinds_clockCheck]
    cases k <;> simp [Fires]
  | some s =>
    cases hwatts : reading.cpu.packageWatts with
    | none =>
      simp only [List.map_append, List.mem_append, mem_kinds_throttleCheck,
        mem_kinds_thermalCheck, mem_kinds_clockCheck]
      cases k <;> simp [Fires, hwatts]
    | some watts =>
      simp only [List.map_append, List.mem_append, mem_kinds_throttleCheck,
        mem_kinds_thermalCheck, mem_kinds_clockCheck, mem_kinds_ceilingCheck,
        mem_kinds_floorCheck]
      cases k <;> simp [Fires, hwatts]

end LoadBear
