import LoadBear.Rounding

/-!
# Readings and the runtime they are judged on

The observation types of the diagnosis engine. Machine integers are naturals and
saturate or wrap explicitly where the code does. A finite float is the rational
it denotes; a missing figure is `none`, since every backend turns a NaN into one.
-/
namespace LoadBear

/-- What the code takes from its standard library: Unicode lowercasing of a
name, and the rounding of `f32` and `f64` arithmetic. -/
structure Runtime where
  lowercase : String → String
  f32 : Rounding
  f64 : Rounding

namespace Runtime

/-- Floating-point arithmetic read as exact. -/
def exact (lowercase : String → String) : Runtime := ⟨lowercase, .exact, .exact⟩

@[simp] theorem exact_f32 (lowercase : String → String) (q : ℚ) :
    (exact lowercase).f32 q = q := rfl

@[simp] theorem exact_f64 (lowercase : String → String) (q : ℚ) :
    (exact lowercase).f64 q = q := rfl

/-- IEEE arithmetic, for names in the ASCII range. -/
def ieee : Runtime := ⟨String.map Char.toLower, .binary32, .binary64⟩

end Runtime

def u64Max : ℕ := 2 ^ 64 - 1

/-- `u64::saturating_add`. -/
def saturatingAdd (a b : ℕ) : ℕ := min (a + b) u64Max

/-- The formatting `{:.digits}` of a finite float. -/
def fixed (digits : ℕ) (q : ℚ) : String :=
  let scaled := (Rounding.halfEven (|q| * 10 ^ digits)).toNat
  let sign := if q < 0 then "-" else ""
  let whole := toString (scaled / 10 ^ digits)
  let fraction := toString (scaled % 10 ^ digits)
  if digits = 0 then sign ++ whole
  else sign ++ whole ++ "." ++ "".pushn '0' (digits - fraction.length) ++ fraction

/-- A number is told by its decimal digits. -/
lemma toDigits_injective {a b : ℕ} (h : Nat.toDigits 10 a = Nat.toDigits 10 b) : a = b := by
  calc a = Nat.ofDigitChars 10 (Nat.toDigits 10 a) 0 := Nat.ofDigitChars_ten_toDigits.symm
    _ = Nat.ofDigitChars 10 (Nat.toDigits 10 b) 0 := by rw [h]
    _ = b := Nat.ofDigitChars_ten_toDigits

/-- Which resource a stall is attributed to. -/
inductive Resource
  | cpu
  | memory
  | io
  deriving DecidableEq, Repr

/-- Share of the sampling window spent waiting on each resource. The disk has
none until the machine has said what its own disk normally does. -/
structure StallSignal where
  cpu : ℚ
  memory : ℚ
  io : Option ℚ
  deriving DecidableEq, Repr

/-- The resource under the most pressure, ties in the order cpu, memory, io. -/
def StallSignal.worst (s : StallSignal) : Resource × ℚ :=
  let worst := if s.cpu < s.memory then (Resource.memory, s.memory) else (Resource.cpu, s.cpu)
  match s.io with
  | some io => if worst.2 < io then (Resource.io, io) else worst
  | none => worst

inductive ThrottleReason
  | thermal
  | power
  | electrical
  | other
  deriving DecidableEq, Repr

/-- The derived `Debug` name. -/
def ThrottleReason.name : ThrottleReason → String
  | thermal => "Thermal"
  | power => "Power"
  | electrical => "Electrical"
  | other => "Other"

structure ThrottleState where
  asserted : Bool
  reason : Option ThrottleReason
  deriving DecidableEq, Repr

/-- CPU state at a point in time. -/
structure CpuReading where
  allCoreMhz : Option ℕ
  utilizationPct : Option ℚ
  reportedBaseMhz : Option ℕ
  packageWatts : Option ℚ
  packageTempC : Option ℚ
  tjmaxC : Option ℚ
  throttle : ThrottleState
  deriving DecidableEq, Repr

/-- A single process. `cpuPercent` is a share of the whole machine. -/
structure ProcessReading where
  pid : ℕ
  name : String
  displayName : Option String
  workingSetBytes : ℕ
  hardFaultsPerSec : Option ℚ
  cpuPercent : ℚ
  deriving DecidableEq, Repr

/-- A single container, as the container runtime reports it. -/
structure ContainerReading where
  id : String
  name : String
  cpuPercent : ℚ
  memoryBytes : ℕ
  memoryLimitBytes : Option ℕ
  deriving DecidableEq, Repr

/-- One normalized observation of machine state. -/
structure Reading where
  timestampMs : ℕ
  stall : StallSignal
  cpu : CpuReading
  processes : List ProcessReading
  containers : List ContainerReading
  deriving DecidableEq, Repr

end LoadBear
