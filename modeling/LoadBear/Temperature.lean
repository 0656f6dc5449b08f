import LoadBear.Spec

/-!
# Temperature

What the processor's registers say, decoded and kept only where it is plausible. The
driver is a parameter: it answers a call with words or with nothing, and from a given
processor only while the thread is seen there.
-/
namespace LoadBear

/-- A single precision value with its specials. -/
inductive F32
  | nan
  | infinite (negative : Bool)
  | finite (q : ℚ)
  deriving DecidableEq, Repr

namespace F32

def isNan : F32 → Bool
  | nan => true
  | _ => false

def isFinite : F32 → Bool
  | finite _ => true
  | _ => false

/-- The value with these bits. -/
def ofBits (bits : UInt32) : F32 :=
  let negative : Bool := bits >>> 31 = 1
  let exponent := ((bits >>> 23) &&& 0xFF).toNat
  let mantissa := (bits &&& 0x7FFFFF).toNat
  let sign : ℚ := if negative then -1 else 1
  if exponent = 255 then if mantissa = 0 then infinite negative else nan
  else if exponent = 0 then finite (sign * mantissa / 2 ^ 149)
  else finite (sign * (2 ^ 23 + mantissa) * 2 ^ exponent / 2 ^ 150)

end F32

/-- One labelled temperature sensor. -/
structure TemperatureZone where
  label : String
  celsius : F32
  deriving DecidableEq, Repr

structure TemperatureReading where
  packageC : Option F32
  zones : List TemperatureZone
  deriving DecidableEq, Repr

def TemperatureReading.default : TemperatureReading := ⟨none, []⟩

/-- Reject values that cannot be a running processor's temperature. -/
def isPlausibleCelsius : F32 → Bool
  | .finite q => 5 ≤ q ∧ q ≤ 125
  | _ => false

/-- The words a driver call returns, or nothing on an error. -/
abbrev Executor := String → List UInt64 → ℕ → Option (List UInt64)

/-- The driver with a module loaded: called from wherever the thread runs, or pinned
to one processor, where it answers only if the thread is seen there. -/
structure PawnIo where
  execute : Executor
  pinned : ℕ → Option Executor

def maxAffinityIndex : ℕ := 63

/-- Run a call pinned to one logical processor. -/
def onProcessor {α : Type} (pawn : PawnIo) (index : ℕ) (f : Executor → α) : Option α :=
  if maxAffinityIndex < index then none else (pawn.pinned index).map f

variable (rt : Runtime)

section Amd

def smnTempBase : UInt64 := 0x00059800

def renoirCcdOffset : UInt64 := 0x154

def renoirCcdCount : ℕ := 8

def curTempRangeSel : UInt32 := (1 : UInt32) <<< 19

def curTempTjSel : UInt32 := (0b11 : UInt32) <<< 16

def ccdTempValid : UInt32 := (1 : UInt32) <<< 11

def ccdTempMask : UInt32 := 0x7FF

/-- Thousandths of a degree as degrees. -/
def degrees (millideg : ℤ) : F32 := .finite (rt.f32 (rt.f32 millideg / 1000))

/-- The die temperature register. -/
def decodeDieTemp (regval : UInt32) : F32 :=
  let millideg : ℤ := (regval >>> 21).toNat * 125
  if regval &&& curTempRangeSel ≠ 0 ∨ regval &&& curTempTjSel = curTempTjSel then
    degrees rt (millideg - 49000)
  else degrees rt millideg

/-- A core complex die temperature register, gated on its valid bit. -/
def decodeCcdTemp (regval : UInt32) : Option F32 :=
  if regval &&& ccdTempValid = 0 then none
  else some (degrees rt ((regval &&& ccdTempMask).toNat * 125 - 49000))

/-- The zone of a core complex die, if its register holds a plausible temperature. -/
def ccdZone (ccd : ℕ) (raw : UInt64) : Option TemperatureZone :=
  ((decodeCcdTemp rt raw.toUInt32).filter isPlausibleCelsius).map fun celsius =>
    { label := s!"CCD{ccd}", celsius := celsius }

/-- The dies from `ccd` on, up to the first that does not answer. -/
def readCcds (execute : Executor) : ℕ → ℕ → List TemperatureZone
  | 0, _ => []
  | count + 1, ccd =>
    match (execute "ioctl_read_smn" [smnTempBase + renoirCcdOffset + ccd.toUInt64 * 4] 1).bind
        List.head? with
    | none => []
    | some raw => (ccdZone rt ccd raw).toList ++ readCcds execute count (ccd + 1)

/-- Read AMD Zen temperature, or nothing when the die does not answer. -/
def readAmdTemperature (pawn : PawnIo) : Option TemperatureReading := do
  let die ← pawn.execute "ioctl_read_smn" [smnTempBase] 1
  return {
    packageC := (die.head?.map fun raw => decodeDieTemp rt raw.toUInt32).filter isPlausibleCelsius
    zones := readCcds rt pawn.execute renoirCcdCount 0 }

end Amd

section PmTable

def coreTempIndex : ℕ := 215

def coreTempCount : ℕ := 8

def tableWords : ℕ := 1024

/-- One float of a table of words, two to a word and the low half first. -/
def floatAt (words : List UInt64) (floatIndex : ℕ) : Option F32 := do
  let word ← words[floatIndex / 2]?
  let bits := (word >>> (32 * (floatIndex % 2).toUInt64)).toUInt32
  (some (F32.ofBits bits)).filter F32.isFinite

/-- The power management table, when its layout is the verified one. -/
structure PerCoreTemperature where
  pawn : Executor
  supported : Bool

/-- Per-core temperatures, in the order of the table. -/
def PerCoreTemperature.read (p : PerCoreTemperature) (coreCount : ℕ) : List F32 :=
  if ¬p.supported then []
  else if (p.pawn "ioctl_update_pm_table" [] 0).isNone then []
  else
    match p.pawn "ioctl_read_pm_table" [] tableWords with
    | none => []
    | some words =>
      let n := min coreCount coreTempCount
      ((List.range n).filterMap fun i => floatAt words (coreTempIndex + i)).filter
        isPlausibleCelsius

end PmTable

section Intel

def msrThermStatus : UInt64 := 0x19C

def msrPackageThermStatus : UInt64 := 0x1B1

def msrTemperatureTarget : UInt64 := 0x1A2

def thermStatusValid : UInt64 := (1 : UInt64) <<< 31

def minPlausibleTjmaxC : ℚ := 85

def readMsr (execute : Executor) (msr : UInt64) : Option UInt64 :=
  (execute "ioctl_read_msr" [msr] 1).bind List.head?

def tjmaxFromMsr (raw : UInt64) : Option ℚ :=
  let value : ℚ := ((raw >>> 16) &&& 0xFF).toNat
  if minPlausibleTjmaxC ≤ value then some value else none

/-- The distance below the junction limit, as a temperature. -/
def decodeDigitalReadout (raw : UInt64) (tjmaxC : ℚ) : Option F32 :=
  if raw &&& thermStatusValid = 0 then none
  else
    let below : ℚ := ((raw >>> 16) &&& 0x7F).toNat
    (some (F32.finite (rt.f32 (tjmaxC - below)))).filter isPlausibleCelsius

def readTjmax (pawn : PawnIo) : Option ℚ :=
  (readMsr pawn.execute msrTemperatureTarget).bind tjmaxFromMsr

/-- The zone of one logical processor, if it can be reached and answers plausibly. -/
def coreZone (pawn : PawnIo) (tjmax : ℚ) (i : ℕ) : Option TemperatureZone := do
  let raw ← (onProcessor pawn i fun execute => readMsr execute msrThermStatus).join
  let celsius ← decodeDigitalReadout rt raw tjmax
  return { label := s!"Core {i}", celsius := celsius }

/-- Read package and per-core temperature, one zone a processor that answers. -/
def readIntelTemperature (pawn : PawnIo) (logicalProcessors : ℕ) : TemperatureReading :=
  match readTjmax pawn with
  | none => .default
  | some tjmax =>
    { packageC := (readMsr pawn.execute msrPackageThermStatus).bind fun raw =>
        decodeDigitalReadout rt raw tjmax
      zones := (List.range logicalProcessors).filterMap (coreZone rt pawn tjmax) }

end Intel

/-- The temperature source of one machine. -/
structure WindowsTemperature where
  device : Option PawnIo
  perCore : Option PerCoreTemperature
  cores : ℕ
  vendor : Vendor

namespace WindowsTemperature

/-- The junction limit, when the part publishes one. -/
def tjmaxC (w : WindowsTemperature) : Option F32 :=
  match w.vendor with
  | .intel => (w.device.bind readTjmax).map F32.finite
  | .amd | .other => none

/-- The per-core zones, labelled by their place in the list. -/
def coreZones (values : List F32) : List TemperatureZone :=
  values.mapIdx fun i celsius => { label := s!"Core {i}", celsius := celsius }

/-- Read temperature, or return an empty reading. -/
def read (w : WindowsTemperature) : TemperatureReading :=
  match w.device with
  | none => .default
  | some device =>
    match w.vendor with
    | .amd =>
      let r := (readAmdTemperature rt device).getD .default
      let cores := (w.perCore.map fun pc => coreZones (pc.read w.cores)).getD []
      { r with zones := r.zones ++ cores }
    | .intel => readIntelTemperature rt device w.cores
    | .other => .default

end WindowsTemperature
end LoadBear
