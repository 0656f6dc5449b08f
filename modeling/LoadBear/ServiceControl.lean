import LoadBear.Transitions
import Mathlib.Logic.Function.Basic
import Mathlib.Tactic

/-!
# Registering and removing the helper

Setup stops and deregisters a helper that is there, copies the program that lies beside the
caller to where helpers are installed, registers it and starts it. Each call to the system can
fail, the old process ends when it likes, and a registration lingers until its last handle is
closed. A setup that reports success has registered and run the program it came with.

The steps of the machine follow what Windows documents. `DeleteService` only marks a service,
which goes away when it is stopped and its last handle is closed (`mark`, `forget`); how long that
takes is open (`vanishes`). `CreateService` fails while a service of the name is there, marked or
not (`register`). `StartService` fails for a service that has a process or is marked (`launch`,
`revives`; the one that setup starts it has just created, and nobody has marked it). The program
of a process can be neither written nor removed (`holds`). `QueryServiceStatus`, where it answers,
gives the state at that time (`Answers`). Any call may fail for reasons that are not modelled.
`ControlService` is left out: all that a stop request does is that the process may end, which it
may at any time (`exits`).
-/
namespace LoadBear.ServiceControl

open Transitions

inductive ServiceError
  | executableMissing
  | accessDenied
  | registerFailed
  | startFailed
  deriving DecidableEq, Repr

def ServiceError.message : ServiceError → String
  | executableMissing => "the helper program could not be found next to LoadBear"
  | accessDenied => "administrator rights are needed to set up temperature monitoring"
  | registerFailed => "the helper service could not be registered"
  | startFailed => "the helper service could not be started"

/-- The service as the system holds it: what it is registered to run, the programs its processes
have run, the last one first, whether there is a process, and whether it is marked for
deletion. -/
structure Registration where
  path : String
  ran : List (List UInt8)
  running : Bool
  deleted : Bool

/-- What lies at each path, and the service of the helper's name. -/
structure Machine where
  files : String → Option (List UInt8)
  service : Option Registration

namespace Machine
variable (m : Machine)

def isRunning : Bool := m.service.any (·.running)

/-- A file that a process runs cannot be written to. -/
def holds (path : String) : Bool := m.service.any fun r => r.running && r.path == path

def write (path : String) (contents : Option (List UInt8)) : Machine :=
  { m with files := Function.update m.files path contents }

def mark : Machine := { m with service := m.service.map fun r => { r with deleted := true } }

def register (path : String) : Machine := { m with service := some ⟨path, [], false, false⟩ }

/-- A process of the service begins, with what lies at its path then. -/
def launch : Option Machine :=
  m.service.bind fun r =>
    (m.files r.path).bind fun program =>
      if r.running then none
      else some { m with service := some { r with ran := program :: r.ran, running := true } }

def halt : Machine := { m with service := m.service.map fun r => { r with running := false } }

/-- A registration that is marked goes away when nothing needs it any more. -/
def forget : Option Machine :=
  if m.service.any fun r => r.deleted && !r.running then some { m with service := none } else none

end Machine

section Calls
variable {m m' : Machine}

lemma Machine.launch_cases (h : m.launch = some m') : ∃ r program, m.service = some r ∧
    m.files r.path = some program ∧
    m' = { m with service := some { r with ran := program :: r.ran, running := true } } := by
  obtain ⟨r, hr, hlaunch⟩ := Option.bind_eq_some_iff.mp h
  obtain ⟨program, hprogram, hstart⟩ := Option.bind_eq_some_iff.mp hlaunch
  rw [Option.ite_none_left_eq_some] at hstart
  exact ⟨r, program, hr, hprogram, (Option.some.inj hstart.2).symm⟩

lemma Machine.forget_cases (h : m.forget = some m') :
    (∃ r ∈ m.service, r.deleted = true) ∧ m' = { m with service := none } := by
  obtain ⟨hmarked, hgone⟩ := Option.ite_none_right_eq_some.mp h
  obtain ⟨r, hr, hdeleted⟩ := (Option.any_eq_true _ _).mp hmarked
  exact ⟨⟨r, hr, (Bool.and_eq_true_iff.mp hdeleted).1⟩, (Option.some.inj hgone).symm⟩

end Calls

/-- Whether the helper is being installed or taken off. -/
inductive Goal
  | install
  | remove
  deriving DecidableEq

/-- The next call to the system. -/
inductive Phase
  | looking
  | connecting
  | opening
  | querying
  | waiting (slices : ℕ)
  | deleting
  | copying
  | creating
  | confirming
  | starting
  | erasing
  | finished (result : Except ServiceError Unit)

structure Setup where
  phase : Phase
  machine : Machine

/-- How a call comes back, or what the machine does on its own: the process of the service ends,
a registration goes away, somebody else starts the service. -/
inductive Action
  | looked (found : Bool)
  | connected (granted : Bool)
  | opened (found : Bool)
  | queried (running : Option Bool)
  | polled (running : Option Bool)
  | deleted (done : Bool)
  | copied
  | uncopied (left : Option (List UInt8))
  | created (done : Bool)
  | confirmed (running : Bool)
  | started (done : Bool)
  | erased (gone : Bool)
  | exits
  | vanishes
  | revives

def stopSlices : ℕ := 20

section Step
variable (beside installed : String) (goal : Goal)

def start (m : Machine) : Setup :=
  ⟨match goal with
    | .install => .looking
    | .remove => .connecting, m⟩

/-- Behind the service, the program. -/
def afterService : Phase :=
  match goal with
  | .install => if beside = installed then .creating else .copying
  | .remove => .erasing

/-- A status that is given is the true one. -/
def Answers (m : Machine) (running : Option Bool) : Prop := ∀ r ∈ running, r = m.isRunning

instance (m : Machine) (running : Option Bool) : Decidable (Answers m running) :=
  inferInstanceAs (Decidable (∀ r ∈ running, r = m.isRunning))

def step (s : Setup) (a : Action) : Option Setup :=
  let m := s.machine
  match s.phase, a with
  | _, .exits => some { s with machine := m.halt }
  | _, .vanishes => m.forget.map fun m => { s with machine := m }
  | _, .revives =>
    if m.service.any (·.deleted) then none else m.launch.map fun m => { s with machine := m }
  | .looking, .looked found =>
    if found then if (m.files beside).isSome then some ⟨.connecting, m⟩ else none
    else some ⟨.finished (.error .executableMissing), m⟩
  | .connecting, .connected granted =>
    if granted then some ⟨.opening, m⟩ else some ⟨.finished (.error .accessDenied), m⟩
  | .opening, .opened found =>
    if found then if m.service.isSome then some ⟨.querying, m⟩ else none
    else some ⟨afterService beside installed goal, m⟩
  | .querying, .queried running =>
    if Answers m running then
      some ⟨if running = some true then .waiting stopSlices else .deleting, m⟩
    else none
  | .waiting slices, .polled running =>
    if Answers m running then
      some ⟨if running = some true ∧ 1 < slices then .waiting (slices - 1) else .deleting, m⟩
    else none
  | .deleting, .deleted done =>
    some ⟨afterService beside installed goal, if done then m.mark else m⟩
  | .copying, .copied =>
    if m.holds installed then none
    else (m.files beside).map fun program => ⟨.creating, m.write installed (some program)⟩
  | .copying, .uncopied left =>
    some ⟨.finished (.error .executableMissing), m.write installed left⟩
  | .creating, .created done =>
    if done then if m.service.isSome then none else some ⟨.confirming, m.register installed⟩
    else some ⟨.finished (.error .registerFailed), m⟩
  | .confirming, .confirmed running =>
    if running then if m.isRunning then some ⟨.finished (.ok ()), m⟩ else none
    else some ⟨.starting, m⟩
  | .starting, .started done =>
    if done then m.launch.map fun m => ⟨.finished (.ok ()), m⟩
    else some ⟨.finished (.error .startFailed), m⟩
  | .erasing, .erased gone =>
    if gone then
      if m.holds installed then none else some ⟨.finished (.ok ()), m.write installed none⟩
    else some ⟨.finished (.ok ()), m⟩
  | _, _ => none

/-- What a step does. -/
inductive Step (s : Setup) : Action → Setup → Prop
  | exits : Step s .exits { s with machine := s.machine.halt }
  | vanishes {m} (hforget : s.machine.forget = some m) : Step s .vanishes { s with machine := m }
  | revives {m} (hlive : s.machine.service.any (·.deleted) = false)
    (hlaunch : s.machine.launch = some m) : Step s .revives { s with machine := m }
  | found (hphase : s.phase = .looking) (hfile : (s.machine.files beside).isSome) :
    Step s (.looked true) ⟨.connecting, s.machine⟩
  | missing (hphase : s.phase = .looking) :
    Step s (.looked false) ⟨.finished (.error .executableMissing), s.machine⟩
  | connected (hphase : s.phase = .connecting) : Step s (.connected true) ⟨.opening, s.machine⟩
  | denied (hphase : s.phase = .connecting) :
    Step s (.connected false) ⟨.finished (.error .accessDenied), s.machine⟩
  | opened (hphase : s.phase = .opening) (hservice : s.machine.service.isSome) :
    Step s (.opened true) ⟨.querying, s.machine⟩
  | unopened (hphase : s.phase = .opening) :
    Step s (.opened false) ⟨afterService beside installed goal, s.machine⟩
  | queried {running} (hphase : s.phase = .querying) :
    Step s (.queried running)
      ⟨if running = some true then .waiting stopSlices else .deleting, s.machine⟩
  | polled {slices running} (hphase : s.phase = .waiting slices) :
    Step s (.polled running)
      ⟨if running = some true ∧ 1 < slices then .waiting (slices - 1) else .deleting, s.machine⟩
  | deleted {done} (hphase : s.phase = .deleting) :
    Step s (.deleted done)
      ⟨afterService beside installed goal, if done then s.machine.mark else s.machine⟩
  | copied {program} (hphase : s.phase = .copying) (hfree : s.machine.holds installed = false)
    (hfile : s.machine.files beside = some program) :
    Step s .copied ⟨.creating, s.machine.write installed (some program)⟩
  | uncopied {left} (hphase : s.phase = .copying) :
    Step s (.uncopied left)
      ⟨.finished (.error .executableMissing), s.machine.write installed left⟩
  | created (hphase : s.phase = .creating) (hfree : s.machine.service = none) :
    Step s (.created true) ⟨.confirming, s.machine.register installed⟩
  | uncreated (hphase : s.phase = .creating) :
    Step s (.created false) ⟨.finished (.error .registerFailed), s.machine⟩
  | confirmed (hphase : s.phase = .confirming) (hrunning : s.machine.isRunning) :
    Step s (.confirmed true) ⟨.finished (.ok ()), s.machine⟩
  | unconfirmed (hphase : s.phase = .confirming) : Step s (.confirmed false) ⟨.starting, s.machine⟩
  | started {m} (hphase : s.phase = .starting) (hlaunch : s.machine.launch = some m) :
    Step s (.started true) ⟨.finished (.ok ()), m⟩
  | unstarted (hphase : s.phase = .starting) :
    Step s (.started false) ⟨.finished (.error .startFailed), s.machine⟩
  | erased (hphase : s.phase = .erasing) (hfree : s.machine.holds installed = false) :
    Step s (.erased true) ⟨.finished (.ok ()), s.machine.write installed none⟩
  | unerased (hphase : s.phase = .erasing) :
    Step s (.erased false) ⟨.finished (.ok ()), s.machine⟩

variable {beside installed goal} {s t : Setup} {a : Action}

lemma step_cases (h : step beside installed goal s a = some t) :
    Step beside installed goal s a t := by
  unfold step at h
  dsimp only at h
  split at h
  case h_1 =>
    obtain rfl := Option.some.inj h
    exact .exits
  case h_2 =>
    obtain ⟨m, hforget, rfl⟩ := Option.map_eq_some_iff.mp h
    exact .vanishes hforget
  case h_3 =>
    split at h
    · cases h
    · rename_i hlive
      obtain ⟨m, hlaunch, rfl⟩ := Option.map_eq_some_iff.mp h
      exact .revives (by simpa using hlive) hlaunch
  case h_4 found hphase =>
    cases found with
    | false => exact Option.some.inj h ▸ .missing hphase
    | true =>
      rw [if_pos rfl, Option.ite_none_right_eq_some] at h
      exact Option.some.inj h.2 ▸ .found hphase h.1
  case h_5 granted hphase =>
    cases granted with
    | false => exact Option.some.inj h ▸ .denied hphase
    | true => exact Option.some.inj h ▸ .connected hphase
  case h_6 found hphase =>
    cases found with
    | false => exact Option.some.inj h ▸ .unopened hphase
    | true =>
      rw [if_pos rfl, Option.ite_none_right_eq_some] at h
      exact Option.some.inj h.2 ▸ .opened hphase h.1
  case h_7 running hphase =>
    rw [Option.ite_none_right_eq_some] at h
    exact Option.some.inj h.2 ▸ .queried hphase
  case h_8 slices running hphase =>
    rw [Option.ite_none_right_eq_some] at h
    exact Option.some.inj h.2 ▸ .polled hphase
  case h_9 done hphase => exact Option.some.inj h ▸ .deleted hphase
  case h_10 hphase =>
    rw [Option.ite_none_left_eq_some, Bool.not_eq_true] at h
    obtain ⟨program, hfile, rfl⟩ := Option.map_eq_some_iff.mp h.2
    exact .copied hphase h.1 hfile
  case h_11 left hphase => exact Option.some.inj h ▸ .uncopied hphase
  case h_12 done hphase =>
    cases done with
    | false => exact Option.some.inj h ▸ .uncreated hphase
    | true =>
      rw [if_pos rfl, Option.ite_none_left_eq_some, Option.not_isSome_iff_eq_none] at h
      exact Option.some.inj h.2 ▸ .created hphase h.1
  case h_13 running hphase =>
    cases running with
    | false => exact Option.some.inj h ▸ .unconfirmed hphase
    | true =>
      rw [if_pos rfl, Option.ite_none_right_eq_some] at h
      exact Option.some.inj h.2 ▸ .confirmed hphase h.1
  case h_14 done hphase =>
    cases done with
    | false => exact Option.some.inj h ▸ .unstarted hphase
    | true =>
      obtain ⟨m, hlaunch, rfl⟩ := Option.map_eq_some_iff.mp h
      exact .started hphase hlaunch
  case h_15 gone hphase =>
    cases gone with
    | false => exact Option.some.inj h ▸ .unerased hphase
    | true =>
      rw [if_pos rfl, Option.ite_none_left_eq_some, Bool.not_eq_true] at h
      exact Option.some.inj h.2 ▸ .erased hphase h.1
  case h_16 => cases h

end Step

section Installing
variable {beside installed : String} {program : Option (List UInt8)} {s t : Setup} {a : Action}

/-- The program is where helpers are installed. -/
def Phase.Copied : Phase → Prop
  | .creating | .confirming | .starting | .finished (.ok ()) => True
  | _ => False

/-- The service is the one that setup registered. -/
def Phase.Registered : Phase → Prop
  | .confirming | .starting | .finished (.ok ()) => True
  | _ => False

/-- A service that is registered to run the installed program, and has run nothing else. -/
structure Fresh (installed : String) (program : Option (List UInt8)) (r : Registration) : Prop where
  path : r.path = installed
  live : r.deleted = false
  ran : r.running = true → r.ran ≠ []
  only : ∀ image ∈ r.ran, some image = program

lemma Fresh.halt {r : Registration} (h : Fresh installed program r) :
    Fresh installed program { r with running := false } := ⟨h.path, h.live, by simp, h.only⟩

/-- What setup has done, by how far it has come. -/
structure Sound (beside installed : String) (program : Option (List UInt8)) (s : Setup) :
    Prop where
  installs : s.phase ≠ .erasing
  source : s.machine.files beside = program
  copying : s.phase = .copying → beside ≠ installed
  copied : s.phase.Copied → s.machine.files installed = program
  fresh : s.phase.Registered → ∃ r ∈ s.machine.service, Fresh installed program r
  ran : s.phase = .finished (.ok ()) →
    ∃ r ∈ s.machine.service, r.ran ≠ []

/-- Before the program is copied there is nothing to keep but the program itself. -/
lemma Sound.early {m : Machine} {phase : Phase} (hsource : m.files beside = program)
    (herasing : phase ≠ .erasing) (hcopying : phase ≠ .copying) (hcopied : ¬phase.Copied)
    (hregistered : ¬phase.Registered) : Sound beside installed program ⟨phase, m⟩ :=
  ⟨herasing, hsource, fun h => absurd h hcopying, fun h => absurd h hcopied,
    fun h => absurd h hregistered, fun h => absurd (by simp_all [Phase.Registered]) hregistered⟩

lemma Sound.afterService {m : Machine} (hsource : m.files beside = program) :
    Sound beside installed program ⟨afterService beside installed .install, m⟩ := by
  unfold ServiceControl.afterService
  dsimp only
  split_ifs with hsame
  · refine ⟨by simp, hsource, by simp, fun _ => hsame ▸ hsource, fun h => h.elim, by simp⟩
  · exact ⟨by simp, hsource, fun _ => hsame, fun h => h.elim, fun h => h.elim, by simp⟩

lemma Phase.Registered.copied {phase : Phase} (h : phase.Registered) : phase.Copied := by
  cases phase with
  | confirming | starting => trivial
  | finished result =>
    cases result with
    | ok _ => trivial
    | error _ => exact h.elim
  | _ => exact h.elim

/-- A process that begins once the service is registered runs the program. -/
lemma Sound.launch {m : Machine} (hs : Sound beside installed program s)
    (hregistered : s.phase.Registered) (h : s.machine.launch = some m) :
    m.files = s.machine.files ∧
      ∃ r ∈ m.service, Fresh installed program r ∧ r.ran ≠ [] := by
  obtain ⟨r, hr, hfresh⟩ := hs.fresh hregistered
  obtain ⟨r', image, hr', hfile, rfl⟩ := s.machine.launch_cases h
  obtain rfl := Option.some.inj (hr'.symm.trans hr)
  have himage : some image = program := by
    rw [← hfile, hfresh.path]
    exact hs.copied hregistered.copied
  have honly : ∀ p ∈ image :: r'.ran, some p = program := by
    intro p hp
    rcases List.mem_cons.mp hp with rfl | hearlier
    · exact himage
    · exact hfresh.only p hearlier
  exact ⟨rfl, _, rfl, ⟨hfresh.path, hfresh.live, fun _ => List.cons_ne_nil _ _, honly⟩,
    List.cons_ne_nil _ _⟩

lemma Sound.exits (hs : Sound beside installed program s) :
    Sound beside installed program { s with machine := s.machine.halt } := by
  refine ⟨hs.installs, hs.source, hs.copying, hs.copied, fun hregistered => ?_, fun hover => ?_⟩
  · obtain ⟨r, hr, hfresh⟩ := hs.fresh hregistered
    exact ⟨_, Option.map_eq_some_iff.mpr ⟨r, hr, rfl⟩, hfresh.halt⟩
  · obtain ⟨r, hr, hran⟩ := hs.ran hover
    exact ⟨_, Option.map_eq_some_iff.mpr ⟨r, hr, rfl⟩, hran⟩

/-- The service that setup registered does not go away. -/
lemma Sound.vanishes {m : Machine} (hs : Sound beside installed program s)
    (h : s.machine.forget = some m) :
    Sound beside installed program { s with machine := m } := by
  obtain ⟨⟨r, hr, hdeleted⟩, rfl⟩ := s.machine.forget_cases h
  have hnot : ¬s.phase.Registered := by
    intro hregistered
    obtain ⟨r', hr', hfresh⟩ := hs.fresh hregistered
    obtain rfl := Option.some.inj (hr.symm.trans hr')
    simp [hfresh.live] at hdeleted
  exact ⟨hs.installs, hs.source, hs.copying, hs.copied, fun h => absurd h hnot,
    fun hover => absurd (by rw [hover]; trivial) hnot⟩

lemma Sound.revives {m : Machine} (hs : Sound beside installed program s)
    (h : s.machine.launch = some m) :
    Sound beside installed program { s with machine := m } := by
  have hfiles : m.files = s.machine.files := by
    obtain ⟨r, image, -, -, rfl⟩ := s.machine.launch_cases h
    rfl
  refine ⟨hs.installs, hfiles ▸ hs.source, hs.copying, fun hcopied => hfiles ▸ hs.copied hcopied,
    fun hregistered => ?_, fun hover => ?_⟩
  · obtain ⟨-, r, hr, hfresh, -⟩ := hs.launch hregistered h
    exact ⟨r, hr, hfresh⟩
  · have hregistered : s.phase.Registered := by
      have hphase : s.phase = .finished (.ok ()) := hover
      rw [hphase]
      trivial
    obtain ⟨-, r, hr, -, hran⟩ := hs.launch hregistered h
    exact ⟨r, hr, hran⟩

lemma Sound.step (hs : Sound beside installed program s)
    (h : Step beside installed .install s a t) : Sound beside installed program t := by
  cases h with
  | exits => exact hs.exits
  | vanishes hforget => exact hs.vanishes hforget
  | revives _ hlaunch => exact hs.revives hlaunch
  | found | missing | connected | denied | opened | uncreated | unstarted =>
    exact .early hs.source (by simp) (by simp) id id
  | unopened => exact .afterService hs.source
  | queried =>
    split_ifs
    · exact .early hs.source (by simp) (by simp) id id
    · exact .early hs.source (by simp) (by simp) id id
  | polled =>
    split_ifs
    · exact .early hs.source (by simp) (by simp) id id
    · exact .early hs.source (by simp) (by simp) id id
  | @deleted done _ =>
    cases done with
    | false => exact .afterService hs.source
    | true => exact .afterService hs.source
  | copied hphase _ hfile =>
    have hother := hs.copying hphase
    refine ⟨by simp, ?_, by simp, fun _ => ?_, fun h => h.elim, by simp⟩
    · exact (Function.update_of_ne hother _ _).trans hs.source
    · rw [← hs.source, hfile]
      exact Function.update_self ..
  | uncopied hphase =>
    have hother := hs.copying hphase
    exact .early ((Function.update_of_ne hother _ _).trans hs.source) (by simp) (by simp) id id
  | created hphase _ =>
    refine ⟨by simp, hs.source, by simp, fun _ => hs.copied (by rw [hphase]; trivial), fun _ => ?_,
      by simp⟩
    exact ⟨_, rfl, rfl, rfl, by simp, by simp⟩
  | confirmed hphase hrunning =>
    obtain ⟨r, hr, hfresh⟩ := hs.fresh (by rw [hphase]; trivial)
    have hprocess : r.running = true := by
      rw [Machine.isRunning, hr] at hrunning
      exact hrunning
    exact ⟨by simp, hs.source, by simp, fun _ => hs.copied (by rw [hphase]; trivial),
      fun _ => ⟨r, hr, hfresh⟩, fun _ => ⟨r, hr, hfresh.ran hprocess⟩⟩
  | unconfirmed hphase =>
    exact ⟨by simp, hs.source, by simp, fun _ => hs.copied (by rw [hphase]; trivial),
      fun _ => hs.fresh (by rw [hphase]; trivial), by simp⟩
  | started hphase hlaunch =>
    obtain ⟨hfiles, r, hr, hfresh, hran⟩ := hs.launch (by rw [hphase]; trivial) hlaunch
    exact ⟨by simp, hfiles ▸ hs.source, by simp,
      fun _ => hfiles ▸ hs.copied (by rw [hphase]; trivial), fun _ => ⟨r, hr, hfresh⟩,
      fun _ => ⟨r, hr, hran⟩⟩
  | erased hphase _ => exact absurd hphase hs.installs
  | unerased hphase => exact absurd hphase hs.installs

lemma Sound.start {m : Machine} (h : m.files beside = program) :
    Sound beside installed program (start .install m) :=
  .early h (by simp) (by simp) id id

/-- What stands when setup reports success. -/
structure Reported (beside installed : String) (m : Machine) (s : Setup) (program : List UInt8) :
    Prop where
  source : m.files beside = some program
  copied : s.machine.files installed = some program
  registered : ∃ r ∈ s.machine.service,
    r.path = installed ∧ r.deleted = false ∧ r.ran ≠ [] ∧ ∀ image ∈ r.ran, image = program

lemma reported_of_run {m : Machine} {actions : List Action}
    (h : run (step beside installed .install) (start .install m) actions = some s)
    (hover : s.phase = .finished (.ok ())) : ∃ program, Reported beside installed m s program := by
  have hs : Sound beside installed (m.files beside) s :=
    run_keeps (P := Sound beside installed (m.files beside))
      (fun _ _ _ hs hstep => hs.step (step_cases hstep)) (.start rfl) h
  obtain ⟨r, hr, hran⟩ := hs.ran hover
  obtain ⟨r', hr', hfresh⟩ := hs.fresh (by rw [hover]; trivial)
  obtain rfl := Option.some.inj (hr.symm.trans hr')
  obtain ⟨program, hmem⟩ := List.exists_mem_of_ne_nil _ hran
  have hprogram : m.files beside = some program := (hfresh.only program hmem).symm
  refine ⟨program, hprogram, ?_, r, hr, hfresh.path, hfresh.live, hran, fun image himage => ?_⟩
  · rw [hs.copied (by rw [hover]; trivial), hprogram]
  · exact Option.some.inj ((hfresh.only image himage).trans hprogram)

/-- Whatever lingers of the old service, a setup that reports success has left the program it
came with installed, and registered a service that is not about to go away, has run, and has run
no other program. -/
theorem registered_of_finished (beside installed : String) (m : Machine) {actions : List Action}
    {s : Setup} (h : run (step beside installed .install) (start .install m) actions = some s)
    (hover : s.phase = .finished (.ok ())) :
    ∃ program, m.files beside = some program ∧ s.machine.files installed = some program ∧
      ∃ r ∈ s.machine.service, r.path = installed ∧ r.deleted = false ∧
        r.ran ≠ [] ∧ ∀ image ∈ r.ran, image = program := by
  obtain ⟨program, hreported⟩ := reported_of_run h hover
  exact ⟨program, hreported.source, hreported.copied, hreported.registered⟩

/-- An old helper runs, and a new one lies beside the caller. -/
def oldMachine : Machine where
  files path := if path = "new" then some [2] else if path = "installed" then some [1] else none
  service := some ⟨"installed", [[1]], true, false⟩

/-- The old process ends while setup waits for it, and the new one ends and is started again
after setup is over. -/
def upgradeActions : List Action :=
  [.looked true, .connected true, .opened true, .queried (some true), .polled (some true), .exits,
    .polled (some false), .deleted true, .vanishes, .copied, .created true, .confirmed false,
    .started true, .exits, .revives]

def upgraded : Setup :=
  (run (step "new" "installed" .install) (start .install oldMachine) upgradeActions).getD
    (start .install oldMachine)

lemma run_upgradeActions :
    run (step "new" "installed" .install) (start .install oldMachine) upgradeActions =
      some upgraded := by rfl

theorem upgraded_registered :
    ∃ program, oldMachine.files "new" = some program ∧
      upgraded.machine.files "installed" = some program ∧
      ∃ r ∈ upgraded.machine.service, r.path = "installed" ∧ r.deleted = false ∧
        r.ran ≠ [] ∧ ∀ image ∈ r.ran, image = program :=
  registered_of_finished "new" "installed" oldMachine run_upgradeActions (by rfl)

end Installing

section Recovering
variable (beside installed : String) {m : Machine} {program : List UInt8}

/-- With the program in place and the name free, setup succeeds if the system lets it. -/
lemma reaches_of_creating (hfile : m.files installed = some program) (hfree : m.service = none) :
    ∃ s, Reaches (step beside installed .install) ⟨.creating, m⟩ s ∧
      s.phase = .finished (.ok ()) := by
  refine ⟨⟨.finished (.ok ()),
    { m with service := some ⟨installed, [program], true, false⟩ }⟩,
    ⟨[.created true, .confirmed false, .started true], ?_⟩, rfl⟩
  simp [run, step, hfree, Machine.register, Machine.launch, hfile]

lemma reaches_of_afterService (hfile : m.files beside = some program) (hfree : m.service = none) :
    ∃ s, Reaches (step beside installed .install)
        ⟨afterService beside installed .install, m⟩ s ∧ s.phase = .finished (.ok ()) := by
  by_cases hsame : beside = installed
  · have hphase : afterService beside installed .install = .creating := if_pos hsame
    rw [hphase]
    exact reaches_of_creating beside installed (hsame ▸ hfile) hfree
  · have hphase : afterService beside installed .install = .copying := if_neg hsame
    have hcopied : Reaches (step beside installed .install) ⟨.copying, m⟩
        ⟨.creating, m.write installed (some program)⟩ :=
      ⟨[.copied], by simp [run, step, Machine.holds, hfree, hfile]⟩
    obtain ⟨s, hs, hover⟩ := reaches_of_creating beside installed
      (m := m.write installed (some program)) (Function.update_self ..) hfree
    rw [hphase]
    exact ⟨s, hcopied.trans hs, hover⟩

/-- Whatever an earlier setup or somebody else has left of the service, a setup can succeed. -/
theorem setup_recovers (beside installed : String) (m : Machine)
    (hfile : (m.files beside).isSome) :
    ∃ s, Reaches (step beside installed .install) (start .install m) s ∧
      s.phase = .finished (.ok ()) := by
  obtain ⟨program, hprogram⟩ := Option.isSome_iff_exists.mp hfile
  have hcleared : Reaches (step beside installed .install) (start .install m)
      ⟨afterService beside installed .install, { m with service := none }⟩ := by
    cases hservice : m.service with
    | none =>
      refine ⟨[.looked true, .connected true, .opened false], ?_⟩
      simp [run, step, start, hprogram, ← hservice]
    | some r =>
      refine ⟨[.looked true, .connected true, .opened true, .exits, .queried (some false),
        .deleted true, .vanishes], ?_⟩
      simp [run, step, start, hprogram, hservice, Machine.halt, Answers, Machine.isRunning,
        Machine.mark, Machine.forget]
  obtain ⟨s, hs, hover⟩ := reaches_of_afterService beside installed
    (m := { m with service := none }) hprogram rfl
  exact ⟨s, hcleared.trans hs, hover⟩

theorem oldMachine_recovers :
    ∃ s, Reaches (step "new" "installed" .install) (start .install oldMachine) s ∧
      s.phase = .finished (.ok ()) :=
  setup_recovers "new" "installed" oldMachine (by decide)

end Recovering

section Removing
variable {beside installed : String} {m : Machine} {s t : Setup} {a : Action}

/-- The places of a removal. -/
def Phase.Removes : Phase → Prop
  | .connecting | .opening | .querying | .waiting _ | .deleting | .erasing | .finished _ => True
  | _ => False

/-- The service is at its end. -/
def Phase.Marked : Phase → Prop
  | .erasing | .finished (.ok ()) => True
  | _ => False

/-- What a removal has done, if every call succeeded. -/
structure Cleared (installed : String) (m : Machine) (s : Setup) : Prop where
  removes : s.phase.Removes
  absent : m.service = none → s.machine.service = none
  marked : s.phase.Marked → ∀ r ∈ s.machine.service, r.deleted = true
  erased : s.phase = .finished (.ok ()) → s.machine.files installed = none

lemma Cleared.start : Cleared installed m (start .remove m) :=
  ⟨trivial, id, fun h => h.elim, by simp [ServiceControl.start]⟩

lemma Cleared.exits (hs : Cleared installed m s) :
    Cleared installed m { s with machine := s.machine.halt } := by
  refine ⟨hs.removes, fun hnone => ?_, fun hmarked r hr => ?_, hs.erased⟩
  · rw [Machine.halt, hs.absent hnone]
    rfl
  · obtain ⟨r', hr', rfl⟩ := Option.map_eq_some_iff.mp hr
    exact hs.marked hmarked r' hr'

/-- A service that is at its end is not started by anybody. -/
lemma Cleared.revives {m' : Machine} (hs : Cleared installed m s)
    (hlive : s.machine.service.any (·.deleted) = false) (h : s.machine.launch = some m') :
    Cleared installed m { s with machine := m' } := by
  obtain ⟨r, program, hr, -, rfl⟩ := s.machine.launch_cases h
  refine ⟨hs.removes, fun hnone => ?_, fun hmarked => ?_, hs.erased⟩
  · rw [hs.absent hnone] at hr
    cases hr
  · rw [hr, Option.any_some, hs.marked hmarked r hr] at hlive
    cases hlive

lemma Cleared.step (hs : Cleared installed m s) (h : Step beside installed .remove s a t)
    (hopened : a = .opened false → m.service = none) (hdeleted : a ≠ .deleted false)
    (herased : a ≠ .erased false) : Cleared installed m t := by
  cases h with
  | exits => exact hs.exits
  | vanishes hforget =>
    obtain ⟨-, rfl⟩ := s.machine.forget_cases hforget
    exact ⟨hs.removes, fun _ => rfl, fun _ r hr => (by cases hr), hs.erased⟩
  | revives hlive hlaunch => exact hs.revives hlive hlaunch
  | connected | denied | opened => exact ⟨trivial, hs.absent, fun h => h.elim, by simp⟩
  | unopened =>
    refine ⟨trivial, hs.absent, fun _ r hr => ?_, by simp [afterService]⟩
    rw [hs.absent (hopened rfl)] at hr
    cases hr
  | queried | polled =>
    split_ifs
    · exact ⟨trivial, hs.absent, fun h => h.elim, by simp⟩
    · exact ⟨trivial, hs.absent, fun h => h.elim, by simp⟩
  | @deleted done _ =>
    cases done with
    | false => exact absurd rfl hdeleted
    | true =>
      refine ⟨trivial, fun hnone => ?_, fun _ r hr => ?_, by simp [afterService]⟩
      · change s.machine.service.map _ = none
        rw [hs.absent hnone]
        rfl
      · obtain ⟨r', -, rfl⟩ := Option.map_eq_some_iff.mp hr
        rfl
  | erased hphase _ =>
    exact ⟨trivial, hs.absent, fun _ => hs.marked (by rw [hphase]; trivial),
      fun _ => Function.update_self ..⟩
  | unerased => exact absurd rfl herased
  | found hphase | missing hphase | copied hphase | uncopied hphase | created hphase
  | uncreated hphase | confirmed hphase | unconfirmed hphase | started hphase
  | unstarted hphase =>
    have hplace := hs.removes
    rw [hphase] at hplace
    exact hplace.elim

/-- A removal whose calls succeed leaves no program, and of the service no more than a
registration that is about to go away, which nobody can start again. -/
theorem removed_of_finished (beside installed : String) (m : Machine) {actions : List Action}
    {s : Setup} (h : run (step beside installed .remove) (start .remove m) actions = some s)
    (hover : s.phase = .finished (.ok ()))
    (hopened : .opened false ∈ actions → m.service = none)
    (hdeleted : .deleted false ∉ actions) (herased : .erased false ∉ actions) :
    s.machine.files installed = none ∧ (∀ r ∈ s.machine.service, r.deleted = true) ∧
      step beside installed .remove s .revives = none := by
  have hs : Cleared installed m s := by
    refine run_traces (P := fun actions s => (.opened false ∈ actions → m.service = none) →
      .deleted false ∉ actions → .erased false ∉ actions → Cleared installed m s)
      (fun _ _ _ => .start) ?_ h hopened hdeleted herased
    intro actions u a t hu hstep hopened hdeleted herased
    have hbefore := hu (fun h => hopened (List.mem_append_left _ h))
      (fun h => hdeleted (List.mem_append_left _ h)) (fun h => herased (List.mem_append_left _ h))
    refine hbefore.step (step_cases hstep) (fun heq => hopened (by simp [heq])) ?_ ?_
    · rintro rfl
      exact hdeleted (by simp)
    · rintro rfl
      exact herased (by simp)
  have hmarked := hs.marked (by rw [hover]; trivial)
  refine ⟨hs.erased hover, hmarked, ?_⟩
  cases hservice : s.machine.service with
  | none => simp [step, hservice, Machine.launch]
  | some r => simp [step, hservice, hmarked r hservice]

/-- The old process ends only after the removal has marked the service. -/
def removalActions : List Action :=
  [.connected true, .opened true, .queried none, .deleted true, .exits, .erased true]

theorem oldMachine_removed :
    ∃ s, run (step "new" "installed" .remove) (start .remove oldMachine) removalActions = some s ∧
      s.machine.files "installed" = none ∧ (∀ r ∈ s.machine.service, r.deleted = true) ∧
      step "new" "installed" .remove s .revives = none := by
  obtain ⟨s, hs⟩ : ∃ s, run (step "new" "installed" .remove) (start .remove oldMachine)
    removalActions = some s := ⟨_, rfl⟩
  have hover : s.phase = .finished (.ok ()) := by
    obtain rfl := Option.some.inj hs
    rfl
  exact ⟨s, hs, removed_of_finished "new" "installed" oldMachine hs hover
    (by simp [removalActions]) (by simp [removalActions]) (by simp [removalActions])⟩

end Removing

end LoadBear.ServiceControl
