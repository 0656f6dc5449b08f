import LoadBear.Grouping
import LoadBear.Ranking
import LoadBear.Tier

/-!
# Naming what is causing the overload

Processes sharing a name are ranked as one contributor, and the leader is named
only when the evidence carries it. Docker is resolved further to one container.
-/
namespace LoadBear

open Ranking

inductive CauseKind
  | process (pid : ℕ)
  | container (id : String)
  | systemService
  | powerState
  deriving DecidableEq, Repr

structure Cause where
  label : String
  kind : CauseKind
  deriving DecidableEq, Repr

/-- What the user can actually do about it. -/
inductive Remediation
  | stop
  | reconfigureLimit
  | addExclusion
  | defer
  | changePowerState
  | physical
  deriving DecidableEq, Repr

/-- A verdict, what caused it, and what to do about it. -/
structure Finding where
  verdict : Verdict
  cause : Option Cause
  remediation : Option Remediation
  deriving DecidableEq, Repr

/-- Several processes sharing a name, treated as one contributor. -/
structure ProcessGroup where
  name : String
  display : Option String
  representativePid : ℕ
  count : ℕ
  cpuPercent : ℚ
  workingSetBytes : ℕ
  deriving DecidableEq, Repr

/-- How the group should be described to a person. -/
def ProcessGroup.label (g : ProcessGroup) : String :=
  let name := g.display.getD g.name
  if 1 < g.count then s!"{name} ({g.count} processes)" else name

def dominance : ℚ := 3 / 2

def minCpuSharePct : ℚ := 20

def dockerProcesses : List String :=
  ["vmmem", "vmmemwsl", "vmmemdocker", "docker desktop", "com.docker.backend"]

def systemProcesses : List (String × Remediation) :=
  [("msmpeng", .addExclusion), ("antimalware service executable", .addExclusion),
    ("searchindexer", .defer), ("searchprotocolhost", .defer), ("tiworker", .defer),
    ("trustedinstaller", .defer)]

variable (rt : Runtime)

def minMemoryShare : ℚ := rt.f32 (3 / 10)

def minCoverage : ℚ := rt.f32 (3 / 5)

/-- Whether the runner-up is too close for the leader to be named. -/
def tooClose (leader second : ℚ) : Bool := 0 < second ∧ leader < rt.f32 (second * dominance)

/-- A group of one process. -/
def ProcessGroup.single (p : ProcessReading) : ProcessGroup :=
  { name := p.name
    display := p.displayName
    representativePid := p.pid
    count := 1
    cpuPercent := p.cpuPercent
    workingSetBytes := p.workingSetBytes }

/-- One more process of the name. The representative is the last one above the
average of the group so far. -/
def ProcessGroup.add (g : ProcessGroup) (p : ProcessReading) : ProcessGroup :=
  let count := g.count + 1
  let workingSetBytes := saturatingAdd g.workingSetBytes p.workingSetBytes
  { g with
    count := count
    display := g.display.or p.displayName
    cpuPercent := rt.f32 (g.cpuPercent + p.cpuPercent)
    workingSetBytes := workingSetBytes
    representativePid :=
      if workingSetBytes / count < p.workingSetBytes then p.pid else g.representativePid }

/-- Processes are grouped by their lowercased name. -/
def processGrouping : Grouping ProcessReading ProcessGroup String where
  keyOf p := rt.lowercase p.name
  groupKey g := rt.lowercase g.name
  start := .single
  join := .add rt
  groupKey_start _ := rfl
  groupKey_join _ _ := rfl

/-- Collapse a process list into groups sharing a name. -/
def groupByName (processes : List ProcessReading) : List ProcessGroup :=
  (processGrouping rt).groups processes

/-- Share of the machine's measured activity that the visible processes account for. -/
def cpuCoverage (processes : List ProcessReading) (machineUtilizationPct : Option ℚ) :
    Option ℚ :=
  machineUtilizationPct.map fun machine =>
    if machine ≤ 0 then 1
    else
      let observed := processes.foldl (fun sum p => rt.f32 (sum + p.cpuPercent)) 0
      max 0 (min 1 (rt.f32 (observed / machine)))

/-- The group responsible for CPU pressure, if one can honestly be named. -/
def cpuLeader (reading : Reading) : Option ProcessGroup :=
  match cpuCoverage rt reading.processes reading.cpu.utilizationPct with
  | none => none
  | some coverage =>
    if coverage < minCoverage rt then none
    else
      leader ProcessGroup.cpuPercent (fun g => g.cpuPercent < minCpuSharePct)
        (fun g second => tooClose rt g.cpuPercent second.cpuPercent)
        (groupByName rt reading.processes)

/-- The group responsible for memory pressure, if one can honestly be named. -/
def memoryLeader (reading : Reading) : Option ProcessGroup :=
  let groups := groupByName rt reading.processes
  let total : ℕ := (groups.map ProcessGroup.workingSetBytes).sum % 2 ^ 64
  let bytes (g : ProcessGroup) : ℚ := rt.f32 g.workingSetBytes
  if total = 0 then none
  else
    leader ProcessGroup.workingSetBytes
      (fun g => rt.f32 (bytes g / rt.f32 total) < minMemoryShare rt)
      (fun g second => 0 < second.workingSetBytes ∧ bytes g < rt.f32 (bytes second * dominance))
      groups

/-- The process responsible for I/O pressure, where hard faults are reported at all. -/
def ioLeader (reading : Reading) : Option ProcessGroup :=
  let rate (p : ProcessReading) : ℚ := p.hardFaultsPerSec.getD 0
  (leader rate (rate · ≤ 0) (fun p second => tooClose rt (rate p) (rate second))
    (reading.processes.filter (·.hardFaultsPerSec.isSome))).map .single

/-- The process layer's answer for a resource. -/
def processLeader (reading : Reading) : Resource → Option ProcessGroup
  | .cpu => cpuLeader rt reading
  | .memory => memoryLeader rt reading
  | .io => ioLeader rt reading

def isDocker (name : String) : Bool :=
  dockerProcesses.any fun d => (rt.lowercase name).startsWith d

def systemRemediation (name : String) : Option Remediation :=
  (systemProcesses.find? fun entry => (rt.lowercase name).startsWith entry.1).map Prod.snd

/-- The figure containers are ranked by. -/
def ContainerReading.figure (c : ContainerReading) : Resource → ℚ
  | .cpu => c.cpuPercent
  | .memory | .io => c.memoryBytes

/-- That figure as the dominance test compares it: bytes as an `f32`. -/
def measured (resource : Resource) (figure : ℚ) : ℚ :=
  match resource with
  | .cpu => figure
  | .memory | .io => rt.f32 figure

/-- Resolve Docker down to the container actually responsible. -/
def resolveContainer (containers : List ContainerReading) (resource : Resource) :
    Option ContainerReading :=
  let figure (c : ContainerReading) : ℚ := measured rt resource (c.figure resource)
  leader (·.figure resource) (fun _ => false)
    (fun c second => tooClose rt (figure c) (figure second)) containers

/-- A container at its own limit needs the limit changed. One merely using a lot
needs stopping. -/
def containerRemediation (c : ContainerReading) : Remediation :=
  match c.memoryLimitBytes with
  | some limit =>
    if 0 < limit ∧ rt.f32 (rt.f32 limit * rt.f32 (19 / 20)) ≤ rt.f32 c.memoryBytes then
      .reconfigureLimit
    else .stop
  | none => .stop

def containerCause (c : ContainerReading) : Cause × Remediation :=
  (⟨c.name, .container c.id⟩, containerRemediation rt c)

/-- Docker is responsible, but which container is unknown. -/
def dockerCause (leader : ProcessGroup) : Cause × Remediation :=
  (⟨"Docker", .process leader.representativePid⟩, .reconfigureLimit)

/-- What is said about the leader of the process layer. -/
def answerFor (reading : Reading) (resource : Resource) (leader : ProcessGroup) :
    Cause × Remediation :=
  if isDocker rt leader.name then
    match resolveContainer rt reading.containers resource with
    | some c => containerCause rt c
    | none => dockerCause leader
  else
    match systemRemediation rt leader.name with
    | some remediation => (⟨leader.label, .systemService⟩, remediation)
    | none => (⟨leader.label, .process leader.representativePid⟩, .stop)

/-- Name what is responsible for pressure on a given resource. -/
def Reading.attribute (reading : Reading) (resource : Resource) : Option (Cause × Remediation) :=
  (processLeader rt reading resource).map (answerFor rt reading resource)

/-- Which resource a verdict should be attributed against. -/
def resourceFor (reading : Reading) (verdict : Verdict) : Option Resource :=
  let (worst, level) := reading.stall.worst
  if stallBraced rt ≤ level then some worst
  else
    match verdict.kind with
    | .belowBaseClock | .throttling | .powerOutsideBand | .thermalHeadroomLow => some .cpu
    | .powerBelowRating => none

/-- The finding for one verdict, with a cause wherever one can be named. -/
def finding (reading : Reading) (verdict : Verdict) : Finding :=
  if verdict.kind = .powerBelowRating then
    { verdict := verdict
      cause := some ⟨"The power being supplied to this machine", .powerState⟩
      remediation := some .changePowerState }
  else
    match (resourceFor rt reading verdict).bind (Reading.attribute rt reading) with
    | some (cause, remediation) =>
      { verdict := verdict, cause := some cause, remediation := some remediation }
    | none => { verdict := verdict, cause := none, remediation := none }

/-- Turn verdicts into findings, one each and in order. -/
def diagnose (reading : Reading) (verdicts : List Verdict) : List Finding :=
  verdicts.map (finding rt reading)

@[simp] theorem map_verdict_diagnose (reading : Reading) (verdicts : List Verdict) :
    (diagnose rt reading verdicts).map Finding.verdict = verdicts := by
  have hverdict : ∀ v, (finding rt reading v).verdict = v := by
    intro v
    unfold finding
    split_ifs
    · rfl
    · split <;> rfl
  simp [diagnose, Function.comp_def, hverdict]

section Answers
variable (reading : Reading) (resource : Resource)

/-- What may be said about the leader of the process layer. -/
inductive Answers (leader : ProcessGroup) : Cause → Remediation → Prop
  | container (c : ContainerReading) (hdocker : isDocker rt leader.name)
      (hc : resolveContainer rt reading.containers resource = some c) :
      Answers leader ⟨c.name, .container c.id⟩ (containerRemediation rt c)
  | docker (hdocker : isDocker rt leader.name)
      (hnone : resolveContainer rt reading.containers resource = none) :
      Answers leader ⟨"Docker", .process leader.representativePid⟩ .reconfigureLimit
  | systemService (remedy : Remediation) (hdocker : ¬isDocker rt leader.name)
      (hsystem : systemRemediation rt leader.name = some remedy) :
      Answers leader ⟨leader.label, .systemService⟩ remedy
  | process (hdocker : ¬isDocker rt leader.name)
      (hsystem : systemRemediation rt leader.name = none) :
      Answers leader ⟨leader.label, .process leader.representativePid⟩ .stop

variable {rt reading resource} {leader : ProcessGroup} {cause : Cause} {remedy : Remediation}

variable (rt reading resource leader) in
lemma answers_answerFor :
    Answers rt reading resource leader (answerFor rt reading resource leader).1
      (answerFor rt reading resource leader).2 := by
  unfold answerFor
  by_cases hdocker : isDocker rt leader.name
  · rw [if_pos hdocker]
    cases hc : resolveContainer rt reading.containers resource with
    | none => exact .docker hdocker hc
    | some c => exact .container c hdocker hc
  · rw [if_neg hdocker]
    cases hsystem : systemRemediation rt leader.name with
    | none => exact .process hdocker hsystem
    | some remedy => exact .systemService remedy hdocker hsystem

lemma leader_answers_of_attribute (h : reading.attribute rt resource = some (cause, remedy)) :
    ∃ leader, processLeader rt reading resource = some leader ∧
      Answers rt reading resource leader cause remedy := by
  obtain ⟨leader, hleader, hanswer⟩ := Option.map_eq_some_iff.mp h
  refine ⟨leader, hleader, ?_⟩
  have hsaid := answers_answerFor rt reading resource leader
  rwa [hanswer] at hsaid

end Answers

end LoadBear
