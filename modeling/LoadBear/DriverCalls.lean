import LoadBear.Dialogue
import LoadBear.PackagePower
import LoadBear.PciGuard
import LoadBear.SharedTemperature

/-!
# Calls to the driver

The helper reaches the processor's registers through a library that the user installs, and that
may be absent, incomplete, or unwilling. The calls it makes to the library and to Windows are
spelled out here, from the search for the library to the last handle it closes.
-/
namespace LoadBear.Driver

open Dialogue Pci

abbrev Handle := ℤ

/-- Compiled modules, which the driver runs. -/
inductive Module
  | amd17
  | intelMsr
  | ryzenSmu
  deriving DecidableEq, Repr

/-- A loaded library, by the functions it exports. -/
structure Library where
  exports : List String
  deriving DecidableEq, Repr

/-- What is asked of Windows and of the library. -/
inductive Call
  | environment (var : String)
  | loadLibrary (path : List String)
  | openExecutor (lib : Library)
  | load (handle : Handle) (blob : Module)
  | execute (handle : Handle) (name : String) (input : List UInt64) (capacity : ℕ)
  | close (handle : Handle)
  | acquirePci
  | dropPci (guard : PciGuard)
  | setThreadAffinityMask (mask : UInt64)
  | currentProcessorNumber
  | detectTopology
  | availableParallelism
  | now

/-- What comes back. The library answers with an `HRESULT`, and an executed function leaves the
words it wrote in a buffer of the caller's, with their number. -/
abbrev Answer : Call → Type
  | .environment _ => Option String
  | .loadLibrary _ => Option Library
  | .openExecutor _ => Int32 × Handle
  | .load _ _ => Int32
  | .execute _ _ _ capacity => Int32 × Vector UInt64 capacity × ℕ
  | .close _ => Unit
  | .acquirePci => PciGuard
  | .dropPci _ => Unit
  | .setThreadAffinityMask _ => UInt64
  | .currentProcessorNumber => UInt32
  | .detectTopology => Option ℕ
  | .availableParallelism => Option ℕ
  | .now => ℕ

abbrev Talk := Dialogue Call Answer

abbrev Event := Sigma Answer

abbrev request (c : Call) : Talk (Answer c) := ask c

inductive PawnIoError
  | notInstalled
  | accessDenied
  | libraryIncomplete
  | moduleLoadFailed
  | functionUnavailable (name : String)
  | unexpectedResponse
  deriving DecidableEq, Repr

def PawnIoError.message : PawnIoError → String
  | .notInstalled => "the PawnIO driver is not installed on this machine"
  | .accessDenied => "access to PawnIO was refused"
  | .libraryIncomplete => "the PawnIO installation is present but incomplete"
  | .moduleLoadFailed => "the PawnIO module could not be loaded"
  | .functionUnavailable name =>
    "the PawnIO function '" ++ name ++ "' is not available in the loaded module"
  | .unexpectedResponse => "PawnIO returned an unexpected response"

def eAccessDenied : Int32 := (0x80070005 : UInt32).toInt32

def fromHresult (hr : Int32) : PawnIoError :=
  if hr = eAccessDenied then .accessDenied else .unexpectedResponse

def libName : String := "PawnIOLib.dll"

/-- The variables that name a directory of programs. -/
def programVars : List String := ["ProgramFiles", "ProgramFiles(x86)", "ProgramW6432"]

/-- Where PawnIO installs the library, and last wherever Windows searches for it. -/
def candidatePaths : Talk (List (List String)) := do
  let dirs ← programVars.mapM fun var => request (.environment var)
  return (dirs.filterMap id).map (fun dir => [dir, "PawnIO", libName]) ++ [[libName]]

/-- The first of some paths that loads. -/
def firstLibrary : List (List String) → Talk (Option Library)
  | [] => return none
  | path :: paths => do
    match ← request (.loadLibrary path) with
    | some lib => return some lib
    | none => firstLibrary paths

/-- An open executor, with the library kept alive alongside its handle. -/
structure PawnIo where
  lib : Library
  handle : Handle
  deriving DecidableEq, Repr

namespace PawnIo

/-- Open an executor. -/
def «open» : Talk (Except PawnIoError PawnIo) := do
  match ← firstLibrary (← candidatePaths) with
  | none => return .error .notInstalled
  | some lib =>
    if "pawnio_open" ∈ lib.exports then
      let answer ← request (.openExecutor lib)
      return if answer.1 ≠ 0 then .error (fromHresult answer.1) else .ok ⟨lib, answer.2⟩
    else return .error .libraryIncomplete

/-- Load a compiled module into the executor. -/
def loadModule (pawn : PawnIo) (blob : Module) : Talk (Except PawnIoError Unit) :=
  if "pawnio_load" ∈ pawn.lib.exports then do
    let hr ← request (.load pawn.handle blob)
    return if hr ≠ 0 then .error .moduleLoadFailed else .ok ()
  else return .error .libraryIncomplete

/-- What came back of a call, read off its answer. -/
def outcome (name : String) {capacity : ℕ} (answer : Int32 × Vector UInt64 capacity × ℕ) :
    Except PawnIoError (List UInt64) :=
  if answer.1 ≠ 0 then .error (.functionUnavailable name)
  else if capacity < answer.2.2 then .error .unexpectedResponse
  else .ok (answer.2.1.toList.take answer.2.2)

/-- Execute a named function of the loaded module. -/
@[irreducible] def execute (pawn : PawnIo) (name : String) (input : List UInt64) (capacity : ℕ) :
    Talk (Except PawnIoError (List UInt64)) :=
  if '\x00' ∈ name.toList then return .error (.functionUnavailable name)
  else if "pawnio_execute" ∈ pawn.lib.exports then do
    let answer ← request (.execute pawn.handle name input capacity)
    return outcome name answer
  else return .error .libraryIncomplete

/-- The handle is closed with the executor, unless there is nothing to close or no way to. -/
def drop (pawn : PawnIo) : Talk Unit :=
  if pawn.handle = 0 ∨ "pawnio_close" ∉ pawn.lib.exports then return ()
  else request (.close pawn.handle)

end PawnIo

/-- Run `f` if the thread has landed where it was asked to. -/
def whenLanded {α : Type} (landed : Bool) (f : Talk α) : Talk (Option α) :=
  if landed then some <$> f else return none

/-- Run `f` pinned to one logical processor, then restore the previous affinity. -/
def onProcessor {α : Type} (index : ℕ) (f : Talk α) : Talk (Option α) :=
  if maxAffinityIndex < index then return none
  else do
    let previous ← request (.setThreadAffinityMask ((1 : UInt64) <<< index.toUInt64))
    if previous = 0 then return none
    else do
      let number ← request .currentProcessorNumber
      let result ← whenLanded (number.toNat = index) f
      let _ ← request (.setThreadAffinityMask previous)
      return result

def readMsr (pawn : PawnIo) (msr : UInt64) : Talk (Option UInt64) := do
  return (← pawn.execute "ioctl_read_msr" [msr] 1).toOption.bind List.head?

variable (rt : Runtime)

section Amd

/-- The dies from `ccd` on, up to the first that does not answer. -/
def readCcds (pawn : PawnIo) : ℕ → ℕ → Talk (List TemperatureZone)
  | 0, _ => return []
  | count + 1, ccd => do
    let out ← pawn.execute "ioctl_read_smn"
      [smnTempBase + renoirCcdOffset + ccd.toUInt64 * 4] 1
    match out.toOption.bind List.head? with
    | none => return []
    | some raw => return (ccdZone rt ccd raw).toList ++ (← readCcds pawn count (ccd + 1))

/-- The registers read under the guard. -/
def readDies (pawn : PawnIo) : Talk (Except PawnIoError TemperatureReading) := do
  match ← pawn.execute "ioctl_read_smn" [smnTempBase] 1 with
  | .error e => return .error e
  | .ok die =>
    let zones ← readCcds rt pawn renoirCcdCount 0
    return .ok {
      packageC :=
        (die.head?.map fun raw => decodeDieTemp rt raw.toUInt32).filter isPlausibleCelsius
      zones := zones }

/-- Read AMD Zen temperature. The guard is dropped on every way out. -/
def readAmdTemperature (pawn : PawnIo) : Talk (Except PawnIoError TemperatureReading) := do
  let guard ← request .acquirePci
  let reading ← readDies rt pawn
  let _ ← request (.dropPci guard)
  return reading

end Amd

section PmTable

/-- The one layout of the table that was verified. -/
def pmTableRenoir : UInt64 := 0x00370005

/-- An executor for the table, and whether its layout is the verified one. -/
structure PerCoreTemperature where
  pawn : PawnIo
  supported : Bool

namespace PerCoreTemperature

/-- Load the module into an open executor and check the layout. -/
def check (pawn : PawnIo) : Talk (Except PawnIoError PerCoreTemperature) := do
  match ← pawn.loadModule .ryzenSmu with
  | .error e => return .error e
  | .ok () =>
    match ← pawn.execute "ioctl_resolve_pm_table" [] 2 with
    | .error e => return .error e
    | .ok resolved => return .ok ⟨pawn, resolved.head?.getD 0 = pmTableRenoir⟩

/-- Open an executor of its own, which an error drops again. -/
def new : Talk (Except PawnIoError PerCoreTemperature) := do
  match ← PawnIo.open with
  | .error e => return .error e
  | .ok pawn =>
    match ← check pawn with
    | .error e => do
      pawn.drop
      return .error e
    | .ok perCore => return .ok perCore

/-- Read per-core temperatures, after the table was brought up to date. -/
def read (p : PerCoreTemperature) (coreCount : ℕ) : Talk (List F32) :=
  if ¬p.supported then return []
  else do
    match ← p.pawn.execute "ioctl_update_pm_table" [] 0 with
    | .error _ => return []
    | .ok _ =>
      match ← p.pawn.execute "ioctl_read_pm_table" [] tableWords with
      | .error _ => return []
      | .ok words =>
        let n := min coreCount coreTempCount
        return ((List.range n).filterMap fun i => floatAt words (coreTempIndex + i)).filter
          isPlausibleCelsius

end PerCoreTemperature

end PmTable

section Intel

def readTjmax (pawn : PawnIo) : Talk (Option ℚ) := do
  return (← readMsr pawn msrTemperatureTarget).bind tjmaxFromMsr

/-- The zone of one logical processor, if it can be reached and answers plausibly. -/
def coreZone (pawn : PawnIo) (tjmax : ℚ) (i : ℕ) : Talk (Option TemperatureZone) := do
  let raw ← onProcessor i (readMsr pawn msrThermStatus)
  return (raw.join.bind (decodeDigitalReadout rt · tjmax)).map fun celsius =>
    { label := s!"Core {i}", celsius := celsius }

/-- Read package and per-core temperature, one read a processor. -/
def readIntelTemperature (pawn : PawnIo) (logicalProcessors : ℕ) : Talk TemperatureReading := do
  match ← readTjmax pawn with
  | none => return .default
  | some tjmax =>
    let package ← readMsr pawn msrPackageThermStatus
    let zones ← (List.range logicalProcessors).mapM (coreZone rt pawn tjmax)
    return {
      packageC := package.bind (decodeDigitalReadout rt · tjmax)
      zones := zones.filterMap id }

end Intel

section Power

/-- A driver that has one word to say. -/
def saying (raw : Option UInt64) : Executor := fun _ _ _ => raw.map fun word => [word]

/-- The energy unit is read when the first figure is asked for. -/
def newPower (pawn : PawnIo) : Talk (Option PackagePower) := do
  return PackagePower.new (saying (← readMsr pawn msrRaplPowerUnit))

/-- The energy counter, differenced with the one before. -/
def readPower (pawn : PawnIo) (p : PackagePower) (nowMs : ℕ) :
    Talk (Option ℚ × PackagePower) := do
  return p.read rt (saying (← readMsr pawn msrPkgEnergyStatus)) nowMs

end Power

/-- What the user can do about temperature being unavailable. -/
inductive Remedy
  | installDriver (url : String)
  | none
  deriving DecidableEq, Repr

inductive TemperatureStatus
  | available
  | unavailable (reason : String) (remedy : Remedy)
  deriving DecidableEq, Repr

def pawnioUrl : String := "https://pawnio.eu"

/-- The module that reads this vendor's registers. -/
def moduleOf : Vendor → Option Module
  | .amd => some .amd17
  | .intel => some .intelMsr
  | .other => none

/-- The temperature source, over the driver handles it holds. -/
structure WindowsTemperature where
  device : Option PawnIo
  power : Option PackagePower
  perCore : Option PerCoreTemperature
  cores : ℕ
  status : TemperatureStatus
  vendor : Vendor

namespace WindowsTemperature

/-- A source without a device. -/
def absent (cores : ℕ) (vendor : Vendor) (reason : String) (remedy : Remedy) :
    WindowsTemperature :=
  ⟨none, none, none, cores, .unavailable reason remedy, vendor⟩

/-- The machine's processors, not this process's affinity. -/
def processors : Talk ℕ := do
  match ← request .detectTopology with
  | some n => return n
  | none => return (← request .availableParallelism).getD 8

/-- Per-core is a bonus: an executor whose table is not the verified one is dropped. -/
def openPerCore : Talk (Option PerCoreTemperature) := do
  match ← PerCoreTemperature.new with
  | .error _ => return none
  | .ok perCore =>
    if perCore.supported then return some perCore
    else do
      perCore.pawn.drop
      return none

/-- Prepare a source for the given CPU. Everything after this is a read. -/
def new (key : Option CpuKey) : Talk WindowsTemperature := do
  let vendor := (key.map CpuKey.vendor).getD .other
  let cores ← processors
  match ← PawnIo.open with
  | .error .notInstalled =>
    return absent cores vendor
      ("LoadBear does not ship a kernel driver. Install PawnIO to " ++
        "enable temperature monitoring.") (.installDriver pawnioUrl)
  | .error e => return absent cores vendor e.message .none
  | .ok device =>
    match moduleOf vendor with
    | none => do
      device.drop
      return absent cores vendor "This processor vendor is not supported for temperature." .none
    | some blob =>
      match ← device.loadModule blob with
      | .error e => do
        device.drop
        return absent cores vendor
          ("No temperature module supports this processor. " ++ e.message) .none
      | .ok () => do
        let perCore ← if vendor = .amd then openPerCore else pure none
        return ⟨some device, none, perCore, cores, .available, vendor⟩

/-- The source of power, created on the first read. -/
def lazyPower (t : WindowsTemperature) (device : PawnIo) : Talk (Option PackagePower) :=
  match t.power with
  | some p => return some p
  | none => newPower device

/-- Average package power since the previous call, over the same driver handle. -/
def packageWatts (t : WindowsTemperature) (nowMs : ℕ) :
    Talk (Option ℚ × WindowsTemperature) := do
  match t.device with
  | none => return (none, t)
  | some device =>
    match ← t.lazyPower device with
    | none => return (none, { t with power := none })
    | some p =>
      let r ← readPower rt device p nowMs
      return (r.1, { t with power := some r.2 })

/-- The junction limit, when the part publishes one. -/
def tjmaxC (t : WindowsTemperature) : Talk (Option F32) := do
  match t.device with
  | none => return none
  | some device =>
    match t.vendor with
    | .intel => return (← readTjmax device).map F32.finite
    | .amd | .other => return none

/-- The zones that the table adds to a reading. -/
def readPerCore (t : WindowsTemperature) : Talk (List TemperatureZone) := do
  match t.perCore with
  | none => return []
  | some perCore => return LoadBear.WindowsTemperature.coreZones (← perCore.read t.cores)

/-- Read temperature, or return an empty reading. -/
def read (t : WindowsTemperature) : Talk TemperatureReading := do
  match t.device with
  | none => return .default
  | some device =>
    match t.vendor with
    | .amd =>
      let r := (← readAmdTemperature rt device).toOption.getD .default
      return { r with zones := r.zones ++ (← t.readPerCore) }
    | .intel => readIntelTemperature rt device t.cores
    | .other => return .default

/-- The executors of a source, in the order of its fields. -/
def executors (t : WindowsTemperature) : List PawnIo :=
  t.device.toList ++ (t.perCore.map PerCoreTemperature.pawn).toList

/-- The fields are dropped in order. -/
def drop (t : WindowsTemperature) : Talk Unit := t.executors.forM PawnIo.drop

end WindowsTemperature

/-- One pass of the helper, up to the record it publishes. -/
def pass (tjmax : Option F32) (t : WindowsTemperature) :
    Talk (SharedTemperature × WindowsTemperature) := do
  let now ← request .now
  let reading ← t.read rt
  let r ← t.packageWatts rt now
  return (SharedTemperature.ofSample reading (r.1.map .finite) tjmax now, r.2)

/-- So many passes, with the records published. -/
def passes (tjmax : Option F32) :
    ℕ → WindowsTemperature → Talk (List SharedTemperature × WindowsTemperature)
  | 0, t => return ([], t)
  | n + 1, t => do
    let first ← pass rt tjmax t
    let later ← passes tjmax n first.2
    return (first.1 :: later.1, later.2)

/-- The helper's whole dealings with the driver, when it is stopped after so many passes. -/
def life (key : Option CpuKey) (n : ℕ) : Talk (List SharedTemperature) := do
  let t ← WindowsTemperature.new key
  let tjmax ← t.tjmaxC
  let r ← passes rt tjmax n t
  r.2.drop
  return r.1

end LoadBear.Driver
