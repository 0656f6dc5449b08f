import LoadBear.Types

/-!
# Shares of the processor

The sampler keeps one counter for each process identifier it could open and differences
against it at the next sample. An identifier may by then belong to another process, which
started later, so what its counter shows beyond the old one was used since.
-/
namespace LoadBear

/-- One process as the operating system reports it, before any differencing. -/
structure RawProcess where
  pid : ℕ
  name : String
  path : String
  cpu100ns : ℕ
  workingSetBytes : ℕ
  deriving DecidableEq, Repr

/-- Turns cumulative processor time into a share of the machine. -/
structure ProcessSampler where
  previous : ℕ → Option ℕ
  lastSampleMs : Option ℕ
  logicalCpus : ℕ
  names : String → Option (Option String)
  logicalCpus_pos : 0 < logicalCpus

namespace ProcessSampler

def new (logicalCpus : ℕ) : ProcessSampler :=
  ⟨fun _ => none, none, max logicalCpus 1, fun _ => none, by omega⟩

section Sample
variable (rt : Runtime) (fileDescription : String → Option String) (s : ProcessSampler)

def elapsedMs (nowMs : ℕ) : ℕ := (s.lastSampleMs.map (nowMs - ·)).getD 0

/-- The processor time of an interval, as a percentage of the whole machine. -/
def shareOfMachine (p : RawProcess) (elapsedMs : ℕ) : ℚ :=
  if elapsedMs = 0 then 0
  else
    match s.previous p.pid with
    | none => 0
    | some previous =>
      let delta100ns := rt.f64 (p.cpu100ns - previous : ℕ)
      let elapsed100ns := rt.f64 (rt.f64 elapsedMs * 10000)
      let cores := rt.f64 s.logicalCpus
      rt.f32 (max 0 (min 100 (rt.f64 (rt.f64 (rt.f64 (delta100ns / elapsed100ns) / cores) * 100))))

/-- The friendly name of an executable, read once and kept. -/
def describe (names : String → Option (Option String)) (path : String) :
    Option String × (String → Option (Option String)) :=
  match names path with
  | some cached => (cached, names)
  | none => (fileDescription path, Function.update names path (some (fileDescription path)))

/-- The readings of a list of processes with their shares, and the names known after them. -/
def readings (names : String → Option (Option String)) :
    List (RawProcess × ℚ) → List ProcessReading × (String → Option (Option String))
  | [] => ([], names)
  | (p, cpuPercent) :: rest =>
    let (displayName, names) := describe fileDescription names p.path
    let (others, names) := readings names rest
    ({ pid := p.pid
       name := p.name
       displayName := displayName
       workingSetBytes := p.workingSetBytes
       hardFaultsPerSec := none
       cpuPercent := cpuPercent } :: others, names)

/-- The counters of a list, the last one where an identifier occurs twice. -/
def counters (raw : List RawProcess) (pid : ℕ) : Option ℕ :=
  (raw.reverse.find? (·.pid = pid)).map RawProcess.cpu100ns

/-- Report the share of every process that could be opened. -/
def sample (raw : List RawProcess) (nowMs : ℕ) : List ProcessReading × ProcessSampler :=
  let shares := raw.map fun p => s.shareOfMachine rt p (s.elapsedMs nowMs)
  let (result, names) := readings fileDescription s.names (raw.zip shares)
  (result, { s with
    previous := counters raw
    lastSampleMs := some nowMs
    names := names })

end Sample

section Machine

/-- A process from its start to its exit: what it has used, and how much of that before the
last sample. -/
structure Incarnation where
  used : ℕ
  usedBefore : ℕ
  le_used : usedBefore ≤ used

namespace Incarnation

def start : Incarnation := ⟨0, 0, le_rfl⟩

/-- The processor time used since the last sample. -/
def spent (x : Incarnation) : ℕ := x.used - x.usedBefore

def run (x : Incarnation) (amount : ℕ) : Incarnation :=
  ⟨x.used + amount, x.usedBefore, x.le_used.trans (Nat.le_add_right _ _)⟩

def sampled (x : Incarnation) : Incarnation := ⟨x.used, x.used, le_rfl⟩

end Incarnation

/-- The processes that are running, the sampler, and what all processes together have used
since the last sample. -/
structure Machine where
  live : ℕ → Option Incarnation
  sampler : ProcessSampler
  spent : ℕ

namespace Machine

def boot (logicalCpus : ℕ) : Machine := ⟨fun _ => none, new logicalCpus, 0⟩

/-- What was opened: at most one entry an identifier, with the counter of the process that
has it. -/
structure Opened (m : Machine) (raw : List RawProcess) : Prop where
  pids : (raw.map RawProcess.pid).Nodup
  counter : ∀ p ∈ raw, ∃ x ∈ m.live p.pid, p.cpu100ns = x.used

def starting (m : Machine) (pid : ℕ) : Machine :=
  { m with live := Function.update m.live pid (some .start) }

def running (m : Machine) (pid : ℕ) (x : Incarnation) (amount : ℕ) : Machine :=
  { m with
    live := Function.update m.live pid (some (x.run amount))
    spent := m.spent + amount }

def exiting (m : Machine) (pid : ℕ) : Machine :=
  { m with live := Function.update m.live pid none }

variable (rt : Runtime)

def sampling (m : Machine) (fileDescription : String → Option String) (raw : List RawProcess)
    (nowMs : ℕ) : Machine :=
  { live := fun pid => (m.live pid).map Incarnation.sampled
    sampler := (m.sampler.sample rt fileDescription raw nowMs).2
    spent := 0 }

/-- What can happen on a machine. Any process may start, run, exit or refuse to open. -/
inductive Step : Machine → Machine → Prop
  | start (m : Machine) (pid : ℕ) (hfree : m.live pid = none) : Step m (m.starting pid)
  | run (m : Machine) (pid amount : ℕ) (x : Incarnation) (hx : m.live pid = some x) :
      Step m (m.running pid x amount)
  | exit (m : Machine) (pid : ℕ) : Step m (m.exiting pid)
  | sample (m : Machine) (fileDescription : String → Option String) (raw : List RawProcess)
      (nowMs : ℕ) (hopened : m.Opened raw) (htime : ∀ last ∈ m.sampler.lastSampleMs, last ≤ nowMs) :
      Step m (m.sampling rt fileDescription raw nowMs)

/-- The machines that can come about from the start of the sampler. -/
def Reachable (logicalCpus : ℕ) (m : Machine) : Prop :=
  Relation.ReflTransGen (Step rt) (boot logicalCpus) m

/-- What the process of an identifier has used since the last sample. -/
def spentBy (m : Machine) (pid : ℕ) : ℕ := ((m.live pid).map Incarnation.spent).getD 0

/-- The processor time the machine has in an interval, in units of 100 ns. -/
def capacity (m : Machine) (nowMs : ℕ) : ℚ :=
  m.sampler.elapsedMs nowMs * 10000 * m.sampler.logicalCpus

/-- A counter that was kept is at least what the process now having the identifier had used by
then, and the machine's total covers all its processes. -/
structure Sound (m : Machine) : Prop where
  baseline : ∀ pid, ∀ previous ∈ m.sampler.previous pid, ∀ x ∈ m.live pid, x.usedBefore ≤ previous
  covered : ∀ pids : Finset ℕ, ∑ pid ∈ pids, m.spentBy pid ≤ m.spent

end Machine
end Machine

section Spec
variable (rt : Runtime) (fileDescription : String → Option String) (s : ProcessSampler)

lemma map_readings (names : String → Option (Option String)) (l : List (RawProcess × ℚ)) :
    (readings fileDescription names l).1.map (fun r => (r.pid, r.cpuPercent)) =
      l.map fun e => (e.1.pid, e.2) := by
  induction l generalizing names with
  | nil => rfl
  | cons e rest ih =>
    obtain ⟨p, cpuPercent⟩ := e
    simp [readings, ih]

/-- A reading for each process that was opened, with its share. -/
lemma map_sample (raw : List RawProcess) (nowMs : ℕ) :
    (s.sample rt fileDescription raw nowMs).1.map (fun r => (r.pid, r.cpuPercent)) =
      raw.map fun p => (p.pid, s.shareOfMachine rt p (s.elapsedMs nowMs)) := by
  unfold sample
  dsimp only
  rw [map_readings, ← List.map_prod_left_eq_zip, List.map_map]
  rfl

lemma exists_of_mem_counters {raw : List RawProcess} {pid counter : ℕ}
    (h : counter ∈ counters raw pid) : ∃ p ∈ raw, p.pid = pid ∧ p.cpu100ns = counter := by
  obtain ⟨p, hfound, rfl⟩ := Option.map_eq_some_iff.mp h
  refine ⟨p, List.mem_reverse.mp (List.mem_of_find?_eq_some hfound), ?_, rfl⟩
  simpa using List.find?_some hfound

lemma shareOfMachine_mem (p : RawProcess) (elapsedMs : ℕ) :
    0 ≤ s.shareOfMachine rt p elapsedMs ∧ s.shareOfMachine rt p elapsedMs ≤ 100 := by
  unfold shareOfMachine
  split_ifs
  · norm_num
  · split
    · norm_num
    · have hhundred : rt.f32 100 = 100 := by
        simpa using rt.f32.intCast 100 (by norm_num)
      constructor
      · refine rt.f32.zero.ge.trans (rt.f32.mono ?_)
        exact le_max_left _ _
      · refine (rt.f32.mono ?_).trans hhundred.le
        exact max_le (by norm_num) (min_le_left _ _)

end Spec

namespace Machine
section Steps
variable {rt : Runtime} {m m' : Machine} {logicalCpus : ℕ}

lemma sound_boot (logicalCpus : ℕ) : Sound (boot logicalCpus) := by
  constructor
  · simp [boot, new]
  · simp [boot, spentBy]

lemma spentBy_update (live : ℕ → Option Incarnation) (sampler : ProcessSampler) (spent pid : ℕ)
    (x : Option Incarnation) (other : ℕ) :
    spentBy ⟨Function.update live pid x, sampler, spent⟩ other =
      if other = pid then (x.map Incarnation.spent).getD 0
      else spentBy ⟨live, sampler, spent⟩ other := by
  by_cases h : other = pid
  · subst h
    simp [spentBy]
  · simp [spentBy, h]

lemma spent_run (x : Incarnation) (amount : ℕ) : (x.run amount).spent = x.spent + amount := by
  have hle := x.le_used
  simp only [Incarnation.spent, Incarnation.run]
  omega

lemma spent_sampled (x : Incarnation) : x.sampled.spent = 0 := Nat.sub_self _

lemma spentBy_eq {pid : ℕ} {x : Incarnation} (hx : x ∈ m.live pid) : m.spentBy pid = x.spent := by
  rw [spentBy, Option.mem_def.mp hx]
  rfl

/-- A step that lowers what is counted for each process keeps it covered. -/
lemma covered_of_le (hm : Sound m) (hspent : m'.spent = m.spent)
    (hle : ∀ pid, m'.spentBy pid ≤ m.spentBy pid) (pids : Finset ℕ) :
    ∑ pid ∈ pids, m'.spentBy pid ≤ m'.spent := by
  calc ∑ pid ∈ pids, m'.spentBy pid ≤ ∑ pid ∈ pids, m.spentBy pid :=
        Finset.sum_le_sum fun pid _ => hle pid
    _ ≤ m.spent := hm.covered pids
    _ = m'.spent := hspent.symm

lemma sound_starting (hm : Sound m) (pid : ℕ) : Sound (m.starting pid) := by
  unfold starting
  constructor
  · intro other previous hprevious x hx
    by_cases hother : other = pid
    · subst hother
      obtain rfl : Incarnation.start = x := by simpa using hx
      exact Nat.zero_le _
    · exact hm.baseline other previous hprevious x (by simpa [hother] using hx)
  · refine covered_of_le hm rfl fun other => ?_
    rw [spentBy_update]
    split_ifs with hother
    · exact Nat.zero_le _
    · exact le_rfl

lemma sound_running {pid : ℕ} {x : Incarnation} (hm : Sound m) (hx : x ∈ m.live pid)
    (amount : ℕ) : Sound (m.running pid x amount) := by
  constructor
  · intro other previous hprevious y hy
    by_cases hother : other = pid
    · subst hother
      obtain rfl : x.run amount = y := by simpa [running] using hy
      exact hm.baseline other previous hprevious x hx
    · exact hm.baseline other previous hprevious y (by simpa [running, hother] using hy)
  · intro pids
    have hgrown : ∀ other, (m.running pid x amount).spentBy other =
        m.spentBy other + if pid = other then amount else 0 := by
      intro other
      rw [running, spentBy_update]
      by_cases hother : other = pid
      · subst hother
        rw [if_pos rfl, if_pos rfl, spentBy_eq hx]
        exact spent_run x amount
      · rw [if_neg hother, if_neg (Ne.symm hother)]
        rfl
    simp only [hgrown, Finset.sum_add_distrib, Finset.sum_ite_eq]
    have hcovered := hm.covered pids
    have htotal : (m.running pid x amount).spent = m.spent + amount := rfl
    split_ifs <;> omega

lemma sound_exiting (hm : Sound m) (pid : ℕ) : Sound (m.exiting pid) := by
  unfold exiting
  constructor
  · intro other previous hprevious x hx
    by_cases hother : other = pid
    · subst hother
      simp at hx
    · exact hm.baseline other previous hprevious x (by simpa [hother] using hx)
  · refine covered_of_le hm rfl fun other => ?_
    rw [spentBy_update]
    split_ifs with hother
    · exact Nat.zero_le _
    · exact le_rfl

/-- The counters a sample keeps are those of the processes that are running, so they show what
had been used by then. -/
lemma sound_sampling {raw : List RawProcess} (hopened : m.Opened raw)
    (fileDescription : String → Option String) (nowMs : ℕ) :
    Sound (m.sampling rt fileDescription raw nowMs) := by
  unfold sampling
  constructor
  · intro pid previous hprevious y hy
    obtain ⟨p, hp, rfl, rfl⟩ := exists_of_mem_counters hprevious
    obtain ⟨x, hx, hcounter⟩ := hopened.counter p hp
    obtain ⟨x', hx', rfl⟩ := Option.map_eq_some_iff.mp hy
    obtain rfl : x = x' := Option.some.inj (hx.symm.trans hx')
    exact hcounter.ge
  · intro pids
    apply le_of_eq
    apply Finset.sum_eq_zero
    intro pid _
    cases hlive : m.live pid with
    | none => simp [spentBy, hlive]
    | some x => simp [spentBy, hlive, spent_sampled]

/-- Every step keeps the counters behind what was really used. -/
theorem sound_of_step (h : Step rt m m') (hm : Sound m) : Sound m' := by
  cases h with
  | start pid hfree => exact sound_starting hm pid
  | run pid amount x hx => exact sound_running hm hx amount
  | exit pid => exact sound_exiting hm pid
  | sample fileDescription raw nowMs hopened htime =>
    exact sound_sampling hopened fileDescription nowMs

theorem sound_of_reachable (h : Reachable rt logicalCpus m) : Sound m := by
  induction h with
  | refl => exact sound_boot logicalCpus
  | tail _ hstep ih => exact sound_of_step hstep ih

end Steps

section Credit
variable {lowercase : String → String} {m : Machine} {raw : List RawProcess} {nowMs : ℕ}

/-- No process is credited with more than it used since the last sample, and the shares
together stay within the machine as long as what was used does. -/
structure CreditsUse (m : Machine) (nowMs : ℕ) (readings : List ProcessReading) : Prop where
  each : ∀ r ∈ readings, ∃ x ∈ m.live r.pid, 0 ≤ r.cpuPercent ∧ r.cpuPercent ≤ 100 ∧
    r.cpuPercent ≤ 100 * x.spent / m.capacity nowMs
  total : m.spent ≤ m.capacity nowMs → (readings.map ProcessReading.cpuPercent).sum ≤ 100

/-- In exact arithmetic a share is at most what was used, over what the machine has. -/
lemma shareOfMachine_le (hm : Sound m) {p : RawProcess} {x : Incarnation} (hx : x ∈ m.live p.pid)
    (hcounter : p.cpu100ns = x.used) :
    m.sampler.shareOfMachine (.exact lowercase) p (m.sampler.elapsedMs nowMs) ≤
      100 * x.spent / m.capacity nowMs := by
  have hnonneg : 0 ≤ 100 * (x.spent : ℚ) / m.capacity nowMs := by
    unfold capacity
    positivity
  unfold shareOfMachine
  split_ifs with helapsed
  · exact hnonneg
  · split
    · exact hnonneg
    · rename_i previous hprevious
      have hbefore := hm.baseline p.pid previous hprevious x hx
      have hdelta : p.cpu100ns - previous ≤ x.spent := by
        rw [hcounter, Incarnation.spent]
        omega
      simp only [Runtime.exact_f32, Runtime.exact_f64]
      refine max_le hnonneg ((min_le_right _ _).trans ?_)
      rw [div_div, div_mul_eq_mul_div, mul_comm _ (100 : ℚ)]
      unfold capacity
      gcongr

lemma sum_share_le (hm : Sound m) (hopened : m.Opened raw) :
    (raw.map fun p => m.sampler.shareOfMachine (.exact lowercase) p
      (m.sampler.elapsedMs nowMs)).sum ≤ 100 * m.spent / m.capacity nowMs := by
  have hspent : (raw.map fun p => m.spentBy p.pid).sum ≤ m.spent := by
    have hcovered := hm.covered (raw.map RawProcess.pid).toFinset
    rw [List.sum_toFinset _ hopened.pids, List.map_map] at hcovered
    exact hcovered
  have hcapacity : 0 ≤ m.capacity nowMs := by
    unfold capacity
    positivity
  calc (raw.map fun p => m.sampler.shareOfMachine (.exact lowercase) p
        (m.sampler.elapsedMs nowMs)).sum
      ≤ (raw.map fun p => 100 / m.capacity nowMs * (m.spentBy p.pid : ℚ)).sum := by
        apply List.sum_le_sum
        intro p hp
        obtain ⟨x, hx, hcounter⟩ := hopened.counter p hp
        rw [spentBy_eq hx, div_mul_eq_mul_div]
        exact shareOfMachine_le hm hx hcounter
    _ = 100 / m.capacity nowMs * ((raw.map fun p => m.spentBy p.pid).sum : ℕ) := by
        rw [List.sum_map_mul_left, Nat.cast_list_sum, List.map_map]
        rfl
    _ ≤ 100 / m.capacity nowMs * m.spent := by
        gcongr
    _ = 100 * m.spent / m.capacity nowMs := div_mul_eq_mul_div _ _ _

end Credit
end Machine

/-- Whatever started, ran, exited or refused to open before, no process is credited with more
than it used. -/
theorem sample_creditsUse (lowercase : String → String) {logicalCpus : ℕ} {m : Machine}
    (hm : m.Reachable (.exact lowercase) logicalCpus) (fileDescription : String → Option String)
    {raw : List RawProcess} (hopened : m.Opened raw) (nowMs : ℕ) :
    m.CreditsUse nowMs (m.sampler.sample (.exact lowercase) fileDescription raw nowMs).1 := by
  have hsound := Machine.sound_of_reachable hm
  have hmap := map_sample (.exact lowercase) fileDescription m.sampler raw nowMs
  constructor
  · intro r hr
    have hpair : (r.pid, r.cpuPercent) ∈ raw.map fun p =>
        (p.pid, m.sampler.shareOfMachine (.exact lowercase) p (m.sampler.elapsedMs nowMs)) := by
      rw [← hmap]
      exact List.mem_map_of_mem hr
    obtain ⟨p, hp, heq⟩ := List.mem_map.mp hpair
    obtain ⟨hpid, hshare⟩ := Prod.mk.inj heq
    obtain ⟨x, hx, hcounter⟩ := hopened.counter p hp
    rw [← hpid, ← hshare]
    obtain ⟨hlow, hhigh⟩ :=
      shareOfMachine_mem (.exact lowercase) m.sampler p (m.sampler.elapsedMs nowMs)
    exact ⟨x, hx, hlow, hhigh, Machine.shareOfMachine_le hsound hx hcounter⟩
  · intro hspent
    have hshares := congrArg (List.map Prod.snd) hmap
    simp only [List.map_map, Function.comp_def] at hshares
    rw [hshares]
    refine (Machine.sum_share_le hsound hopened).trans ?_
    exact div_le_of_le_mul₀ (m.spent.cast_nonneg.trans hspent) (by norm_num) (by linarith)

section Example

/-- A process as it is opened with this counter. -/
def rustc (cpu100ns : ℕ) : RawProcess := ⟨7, "rustc", "rustc.exe", cpu100ns, 0⟩

/-- Four processors, with a process sampled once at its start. -/
def firstSampled : Machine :=
  (((Machine.boot 4).starting 7).running 7 .start 100).sampling (.exact id) (fun _ => none)
    [rustc 100] 0

/-- The process has then used a fifth of a second. -/
def compiling : Machine := firstSampled.running 7 ⟨100, 100, le_rfl⟩ 2000000

lemma reachable_compiling : compiling.Reachable (.exact id) 4 := by
  have hstart : (Machine.boot 4).Reachable (.exact id) 4 := .refl
  have hsampled : firstSampled.Reachable (.exact id) 4 :=
    ((hstart.tail (.start _ 7 rfl)).tail (.run _ 7 100 .start rfl)).tail
      (.sample _ _ [rustc 100] 0 ⟨by simp, by simp [rustc, Machine.running, Incarnation.run,
        Incarnation.start]⟩ (by simp [Machine.running, Machine.starting, Machine.boot, new]))
  exact hsampled.tail (.run _ 7 2000000 ⟨100, 100, le_rfl⟩ rfl)

/-- A fifth of a second of one processor in four is five percent of a second. -/
theorem rustc_credited :
    (compiling.sampler.sample (.exact id) (fun _ => none) [rustc 2000100] 1000).1.map
        ProcessReading.cpuPercent = [5] ∧
      compiling.CreditsUse 1000
        (compiling.sampler.sample (.exact id) (fun _ => none) [rustc 2000100] 1000).1 := by
  refine ⟨by decide +kernel, ?_⟩
  apply sample_creditsUse id reachable_compiling (fun _ => none)
  exact ⟨by simp, by simp [rustc, compiling, Machine.running, Incarnation.run]⟩

end Example

end ProcessSampler
end LoadBear
