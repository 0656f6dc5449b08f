import LoadBear.Application
import LoadBear.BaselineMedian
import LoadBear.ProcessSampler
import LoadBear.RunningList
import LoadBear.SharedTemperature
import LoadBear.StatusTool
import LoadBear.Topology

/-!
# The sampling loop

The interface samples twice a second. A pass reads the counters and what the helper published,
judges the window, feeds the tracker and replaces the status. Around that the loop enumerates
processes every fourth pass, records a point of the graph every second one, repaints the icon
when the tier moves, and writes the disk baseline out about once a minute.
-/
namespace LoadBear

def processEvery : UInt32 := 4

def historyEvery : UInt32 := 2

def baselineSaveEvery : UInt32 := 120

def historyPoints : ℕ := 300

/-- One tick of the graph. -/
structure HistoryPoint where
  utilization : ℚ
  cpu : ℚ
  memory : ℚ
  io : Option ℚ
  tier : ℕ
  deriving DecidableEq, Repr

/-- One temperature tile. -/
structure ZoneView where
  label : String
  celsius : F32
  band : Option String
  deriving DecidableEq, Repr

/-- What the window shows: the part about the tier, and everything beside it. -/
structure Panel extends Status where
  brand : Option String
  cores : ℕ
  threads : ℕ
  baseMhz : Option ℕ
  tdpWatts : Option ℕ
  mhz : Option ℕ
  logical : ℕ
  utilization : ℚ
  watts : Option ℚ
  ctdpMinWatts : ℕ
  queue : ℚ
  availableMb : ℚ
  totalMb : ℚ
  hardFaults : ℚ
  diskMs : ℚ
  diskQueue : ℚ
  stallCpu : ℚ
  stallMemory : ℚ
  stallIo : Option ℚ
  history : List HistoryPoint
  running : List Contributor
  tempAvailable : Bool
  tempOfferable : Bool
  tempZones : List ZoneView
  tempReason : String
  deriving DecidableEq, Repr

/-- What the window shows before the first pass. -/
def Panel.default : Panel :=
  { tier := "Easy", verdicts := [], driver := "", reason := "Starting up."
    brand := none, cores := 0, threads := 0, baseMhz := none, tdpWatts := none, mhz := none
    logical := 1, utilization := 0, watts := none, ctdpMinWatts := 0, queue := 0
    availableMb := 0, totalMb := 0, hardFaults := 0, diskMs := 0, diskQueue := 0
    stallCpu := 0, stallMemory := 0, stallIo := none, history := [], running := []
    tempAvailable := false, tempOfferable := false, tempZones := [], tempReason := "" }

/-- What the loop takes from the machine before its first pass. -/
structure Station where
  brand : Option String
  logical : ℕ
  spec : Option CpuSpec
  topology : Option Topology.Counts
  totalMb : ℚ

/-- The product is resolved against the thread count, not looked up by its identifier alone. -/
def Station.of (db : SpecDb) (key : Option CpuKey) (brand : Option String) (logical : ℕ)
    (topology : Option Topology.Counts) (totalMb : Option ℚ) : Station :=
  { brand := brand
    logical := logical
    spec := (key.bind fun k => db.resolve k (min logical 255)).map SpecMatch.spec
    topology := topology
    totalMb := totalMb.getD 0 }

/-- What one pass is answered: the counters, whether the baseline can be written and the mapping
opened, what the mapping then gives, whether the helper service runs, the processes and the
containers, with the clock when the record is checked and when the reading is taken. -/
structure Inputs where
  raw : CounterSample
  saves : Bool
  opens : Bool
  version : ℕ
  record : Option SharedTemperature
  readMs : ℕ
  serviceRunning : Bool
  nowMs : ℕ
  processes : List RawProcess
  containers : List ContainerReading

/-- The sampling thread: its variables, the store of the baseline, the flag that asks it to open
the mapping again, the icon as it was last painted and how often, and the status shown. -/
structure SamplingLoop where
  tick : UInt32
  window : SampleWindow
  processSampler : ProcessSampler
  tracker : TierTracker
  history : List HistoryPoint
  processes : List ProcessReading
  diskBaseline : DiskBaseline
  store : BaselineStore
  reader : Bool
  reprobe : Bool
  lastTier : Tier
  icon : Tier
  painted : ℕ
  shown : Panel

/-- The finite value of a single precision figure. -/
def F32.value : F32 → Option ℚ
  | .finite q => some q
  | _ => none

def CounterSample.diskFigures (s : CounterSample) : DiskFigures :=
  ⟨.finite s.diskSecondsPerTransfer, .finite s.diskQueueLength⟩

/-- The derived `Debug` name in lowercase. -/
def ThermalBand.word : ThermalBand → String
  | normal => "normal"
  | warm => "warm"
  | hot => "hot"
  | atLimit => "atlimit"

/-- What is said of the temperature: whether it is available, whether the user is offered the
helper, and why. -/
def temperatureState (layoutMismatch : Bool) (published : Option SharedTemperature)
    (serviceRunning : Bool) : Bool × Bool × String :=
  if layoutMismatch then
    (false, true, "The background helper is out of date and needs updating.")
  else
    match published with
    | some s =>
      if ¬s.helperIsCurrent then
        (true, true, "An update is available for the background helper.")
      else (true, false, "")
    | none =>
      if serviceRunning then
        (false, false, "The helper is running but has not published a reading yet.")
      else
        (false, true,
          "Temperature needs a small background helper, which runs with" ++
            "                              system access so LoadBear itself never has to.")

namespace SamplingLoop

section Pass
variable (rt : Runtime) (fileDescription : String → Option String) (st : Station)

/-- The stall signal against a saturation point in double precision. Against an infinite one
the disk has none of its share. -/
def stall (s : CounterSample) (saturation : Option F64) : StallSignal :=
  match saturation with
  | some (.finite p) => toStall rt s st.logical (some p)
  | some (.infinite false) => { toStall rt s st.logical none with io := some 0 }
  | _ => toStall rt s st.logical none

variable (l : SamplingLoop) (a : Inputs)

def sampledWindow : SampleWindow := l.window.push a.raw

def learned : DiskBaseline := l.diskBaseline.observe a.raw.diskFigures

/-- The mapping is opened again after an install, and as long as it is not open. -/
def reopened : Bool := if l.reprobe ∨ ¬l.reader then a.opens else l.reader

/-- A helper publishing a layout this build does not know. -/
def layoutMismatch : Bool := l.reopened a ∧ a.version ≠ layoutVersion

/-- The record read, if it is fresh. -/
def fresh : Option SharedTemperature :=
  if l.reopened a then a.record.filter (·.isFresh a.readMs) else none

/-- The processes enumerated now, or those of an earlier pass. -/
def enumerated : List ProcessReading × ProcessSampler :=
  if (l.tick + 1) % processEvery = 0 ∨ l.processes = [] then
    l.processSampler.sample rt fileDescription a.processes a.nowMs
  else (l.processes, l.processSampler)

/-- The reading of a pass. The junction limit is the silicon's before the database's. -/
def reading : Reading :=
  let window := l.sampledWindow a
  let judged := Sampler.judged rt window a.raw
  let published := l.fresh a
  { timestampMs := a.nowMs
    stall := stall rt st judged ((l.learned a).saturationPoint rt)
    cpu :=
      { allCoreMhz := judged.actualMhz rt
        utilizationPct := some (rt.f32 judged.processorTimePct)
        reportedBaseMhz := reportedBaseMhz rt (roundToU32 judged.processorFrequencyMhz) st.brand
        packageWatts := (published.bind SharedTemperature.watts).bind F32.value
        packageTempC := (published.bind SharedTemperature.package).bind F32.value
        tjmaxC := ((published.bind SharedTemperature.tjmax).bind F32.value).or
          (st.spec.bind CpuSpec.tjmaxC)
        throttle := ⟨false, none⟩ }
    processes := (enumerated rt fileDescription l a).1
    containers := a.containers }

/-- The pass as the tracker and the status see it. -/
def tickOf : Tick :=
  { reading := reading rt fileDescription st l a
    settled := (l.sampledWindow a).isSettled }

/-- The tracker with the pass observed, and the status of the pass about the tier. -/
def judge : TierTracker × Status :=
  LoadBear.sample rt st.spec l.tracker (tickOf rt fileDescription st l a)

/-- The graph shows the sample itself beside the means of the window. -/
def point : HistoryPoint :=
  let sample := ((l.sampledWindow a).average rt).getD a.raw
  let displayed := stall rt st sample ((l.learned a).saturationPoint rt)
  { utilization := rt.f32 a.raw.processorTimePct
    cpu := displayed.cpu
    memory := displayed.memory
    io := displayed.io
    tier := (judge rt fileDescription st l a).1.current.tier.rank }

/-- A point more at the end, and as many fewer at the front as are over. -/
def pushPoint (history : List HistoryPoint) (p : HistoryPoint) : List HistoryPoint :=
  (history ++ [p]).drop ((history ++ [p]).length - historyPoints)

def recorded : List HistoryPoint :=
  if (l.tick + 1) % historyEvery = 0 then pushPoint l.history (point rt fileDescription st l a)
  else l.history

/-- The baseline after its minute's write, and its store. -/
def saved : DiskBaseline × BaselineStore :=
  if (l.tick + 1) % baselineSaveEvery = 0 then ((l.learned a).saveIfChanged l.store a.saves).2
  else (l.learned a, l.store)

def zoneView (tjmax : Option ℚ) (zone : String × F32) : ZoneView :=
  { label := zone.1
    celsius := zone.2
    band := (zone.2.value.bind fun celsius => thermalBand rt celsius tjmax).map ThermalBand.word }

/-- The status that replaces the last one. -/
def panel : Panel :=
  let r := reading rt fileDescription st l a
  let sample := ((l.sampledWindow a).average rt).getD a.raw
  let (tracker, status) := judge rt fileDescription st l a
  let (tempAvailable, tempOfferable, tempReason) :=
    temperatureState (l.layoutMismatch a) (l.fresh a) a.serviceRunning
  { status with
    brand := st.brand
    cores := (st.topology.map Topology.Counts.physicalCores).getD 0
    threads := (st.topology.map Topology.Counts.logicalProcessors).getD st.logical
    baseMhz := (st.spec.map CpuSpec.baseMhz).or r.cpu.reportedBaseMhz
    tdpWatts := st.spec.map CpuSpec.tdpWatts
    mhz := r.cpu.allCoreMhz
    logical := st.logical
    utilization := sample.processorTimePct
    watts := r.cpu.packageWatts
    ctdpMinWatts := (st.spec.bind CpuSpec.ctdpMinWatts).getD 0
    queue := sample.processorQueueLength
    availableMb := sample.availableMbytes
    totalMb := st.totalMb
    hardFaults := sample.pagesInputPerSec
    diskMs := rt.f64 (sample.diskSecondsPerTransfer * 1000)
    diskQueue := sample.diskQueueLength
    stallCpu := r.stall.cpu
    stallMemory := r.stall.memory
    stallIo := r.stall.io
    history := recorded rt fileDescription st l a
    running := runningList rt r tracker.current
    tempAvailable := tempAvailable
    tempOfferable := tempOfferable
    tempZones := ((l.fresh a).map SharedTemperature.zoneList).getD [] |>.map
      (zoneView rt r.cpu.tjmaxC)
    tempReason := tempReason }

/-- One pass of the loop. -/
def pass : SamplingLoop :=
  let (processes, processSampler) := enumerated rt fileDescription l a
  let tracker := (judge rt fileDescription st l a).1
  let tier := tracker.current.tier
  { tick := l.tick + 1
    window := l.sampledWindow a
    processSampler := processSampler
    tracker := tracker
    history := recorded rt fileDescription st l a
    processes := processes
    diskBaseline := (l.saved a).1
    store := (l.saved a).2
    reader := l.reopened a
    reprobe := false
    lastTier := tier
    icon := if tier ≠ l.lastTier then tier else l.icon
    painted := if tier ≠ l.lastTier then l.painted + 1 else l.painted
    shown := panel rt fileDescription st l a }

@[simp] lemma pass_tick : (pass rt fileDescription st l a).tick = l.tick + 1 := rfl

@[simp] lemma pass_history : (pass rt fileDescription st l a).history =
    recorded rt fileDescription st l a := rfl

@[simp] lemma pass_processes : (pass rt fileDescription st l a).processes =
    (enumerated rt fileDescription l a).1 := rfl

@[simp] lemma pass_diskBaseline : (pass rt fileDescription st l a).diskBaseline =
    (l.saved a).1 := rfl

@[simp] lemma pass_store : (pass rt fileDescription st l a).store = (l.saved a).2 := rfl

end Pass

/-- What can happen to the loop: the counters cannot be sampled, an install asks for the mapping
to be opened again, or a pass. -/
inductive Event where
  | missed
  | enabled
  | pass (a : Inputs)

/-- The thread before its first pass. -/
def start (logical : ℕ) (store : BaselineStore) (reader : Bool) : SamplingLoop :=
  { tick := 0
    window := .default
    processSampler := .new logical
    tracker := .default
    history := []
    processes := []
    diskBaseline := .load store
    store := store
    reader := reader
    reprobe := false
    lastTier := .easy
    icon := .easy
    painted := 0
    shown := .default }

section Run
variable (rt : Runtime) (fileDescription : String → Option String) (st : Station)

def step (l : SamplingLoop) : Event → SamplingLoop
  | .missed => l
  | .enabled => { l with reprobe := true }
  | .pass a => pass rt fileDescription st l a

def run (l : SamplingLoop) (events : List Event) : SamplingLoop :=
  events.foldl (step rt fileDescription st) l

end Run

end SamplingLoop
end LoadBear
