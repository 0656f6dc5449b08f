import LoadBear.AtomicRegister
import LoadBear.PackagePower
import LoadBear.PublishedReading
import LoadBear.SharedMapping
import LoadBear.Transitions

/-!
# The helper at work

The helper samples the driver, publishes the sample and sleeps in slices, until it finds the
stop flag set. The interface reads the mapping at any moment meanwhile. What a read returns is
one whole pass, the last one published, with the power over the time since the pass before.
-/
namespace LoadBear

open Seqlock SharedTemperature

/-- What the clock and the driver answer in one pass. -/
structure Pass where
  nowMs : ℕ
  source : WindowsTemperature

namespace Helper

section Sample
variable (rt : Runtime) (tjmax : Option F32)

/-- Average package power since the previous call, over the same driver handle. The energy unit
is read when the first figure is asked for. -/
def packageWatts (power : Option PackagePower) (w : WindowsTemperature) (nowMs : ℕ) :
    Option ℚ × Option PackagePower :=
  match w.device with
  | none => (none, power)
  | some device =>
    match power.or (PackagePower.new device.execute) with
    | none => (none, none)
    | some p =>
      let (watts, p) := p.read rt device.execute nowMs
      (watts, some p)

/-- The record of one pass, and the energy counter as it was left. -/
def sample (power : Option PackagePower) (pass : Pass) :
    SharedTemperature × Option PackagePower :=
  let reading := pass.source.read rt
  let (watts, power) := packageWatts rt power pass.source pass.nowMs
  (ofSample reading (watts.map .finite) tjmax pass.nowMs, power)

/-- The energy counter after some passes, the last one first. -/
def powerAfter : List Pass → Option PackagePower
  | [] => none
  | pass :: earlier => (packageWatts rt (powerAfter earlier) pass.source pass.nowMs).2

/-- The power a pass publishes after the ones before it. -/
def watts (earlier : List Pass) (pass : Pass) : Option F32 :=
  (packageWatts rt (powerAfter rt earlier) pass.source pass.nowMs).1.map .finite

/-- The record of the last of some passes, or the one the mapping is created with. -/
def latest : List Pass → SharedTemperature
  | [] => .default
  | pass :: earlier => ofSample (pass.source.read rt) (watts rt earlier pass) tjmax pass.nowMs

end Sample

/-- What the service manager can ask for. -/
inductive ServiceControl where
  | stop
  | shutdown
  | interrogate
  | other
  deriving DecidableEq, Repr

def ServiceControl.stops : ServiceControl → Bool
  | .stop | .shutdown => true
  | .interrogate | .other => false

/-- Where the loop stands. Of the slices of a sleep, `polling` has yet to begin so many, and
`sleeping` so many after the present one. -/
inductive Phase where
  | head
  | sampling
  | publishing (pass : Pass)
  | polling (left : ℕ)
  | sleeping (left : ℕ)
  | returned

/-- Whether a publish is on its way. -/
def Phase.publishes : Phase → Bool
  | .publishing _ => true
  | _ => false

/-- Slices in the sleep after a pass. -/
def slices : ℕ := 15

/-- The helper over its mapping: the flag that the control handler sets, the loop, the passes
published and the slices slept through. -/
structure System where
  stop : Bool
  phase : Phase
  power : Option PackagePower
  mapping : Mapping
  settled : List Pass
  slept : ℕ

/-- `loop` is a step of the loop between its passes. A pass samples the driver and begins its
publish, which `raise`, `store` and `settle` carry out. -/
inductive SystemAction where
  | control (c : ServiceControl)
  | loop
  | pass (p : Pass)
  | raise
  | store (i : MappingField)
  | settle
  | read (a : ReaderAction SharedTemperature)

/-- The mapping created, and nothing published. -/
def start : System :=
  { stop := false
    phase := .head
    power := none
    mapping := Seqlock.start .default
    settled := []
    slept := 0 }

section Step
variable (rt : Runtime) (tjmax : Option F32)

def step (s : System) : SystemAction → Option System
  | .control c => some { s with stop := s.stop || c.stops }
  | .loop =>
    match s.phase with
    | .head => some { s with phase := if s.stop then .returned else .sampling }
    | .polling 0 => some { s with phase := .head }
    | .polling (left + 1) => some { s with phase := if s.stop then .returned else .sleeping left }
    | .sleeping left => some { s with phase := .polling left, slept := s.slept + 1 }
    | _ => none
  | .pass p =>
    match s.phase with
    | .sampling =>
      let (out, power) := sample rt tjmax s.power p
      (writerStep s.mapping (.load out)).map fun mapping =>
        { s with mapping := mapping, power := power, phase := .publishing p }
    | _ => none
  | .raise =>
    match s.phase with
    | .publishing _ =>
      (writerStep s.mapping .raise).map fun mapping => { s with mapping := mapping }
    | _ => none
  | .store i =>
    match s.phase with
    | .publishing _ =>
      (writerStep s.mapping (.store i)).map fun mapping => { s with mapping := mapping }
    | _ => none
  | .settle =>
    match s.phase with
    | .publishing p =>
      (writerStep s.mapping .settle).map fun mapping =>
        { s with mapping := mapping, phase := .polling slices, settled := p :: s.settled }
    | _ => none
  | .read a => (readerStep s.mapping a).map fun mapping => { s with mapping := mapping }

end Step

section Inversion
variable {rt : Runtime} {tjmax : Option F32} {s t : System}

lemma step_pass {p : Pass} : step rt tjmax s (.pass p) = some t ↔
    s.phase = .sampling ∧ ∃ mapping,
      writerStep s.mapping (.load (sample rt tjmax s.power p).1) = some mapping ∧
      { s with
        mapping := mapping
        power := (sample rt tjmax s.power p).2
        phase := .publishing p } = t := by
  cases hp : s.phase <;> simp [step, hp]

lemma step_settle : step rt tjmax s .settle = some t ↔
    ∃ p mapping, s.phase = .publishing p ∧ writerStep s.mapping .settle = some mapping ∧
      { s with
        mapping := mapping
        phase := .polling slices
        settled := p :: s.settled } = t := by
  cases hp : s.phase <;> simp [step, hp]

/-- The other steps on the mapping leave the loop where it is. -/
lemma step_raise : step rt tjmax s .raise = some t ↔
    ∃ p mapping, s.phase = .publishing p ∧ writerStep s.mapping .raise = some mapping ∧
      { s with mapping := mapping } = t := by
  cases hp : s.phase <;> simp [step, hp]

lemma step_store {i : MappingField} : step rt tjmax s (.store i) = some t ↔
    ∃ p mapping, s.phase = .publishing p ∧ writerStep s.mapping (.store i) = some mapping ∧
      { s with mapping := mapping } = t := by
  cases hp : s.phase <;> simp [step, hp]

lemma step_read {a : ReaderAction SharedTemperature} : step rt tjmax s (.read a) = some t ↔
    ∃ mapping, readerStep s.mapping a = some mapping ∧ { s with mapping := mapping } = t := by
  simp [step]

/-- What the loop does between passes. -/
lemma step_loop : step rt tjmax s .loop = some t ↔
    (s.phase = .head ∧ { s with phase := if s.stop then .returned else .sampling } = t) ∨
    (s.phase = .polling 0 ∧ { s with phase := .head } = t) ∨
    (∃ left, s.phase = .polling (left + 1) ∧
      { s with phase := if s.stop then .returned else .sleeping left } = t) ∨
    ∃ left, s.phase = .sleeping left ∧
      { s with phase := .polling left, slept := s.slept + 1 } = t := by
  cases hp : s.phase with
  | polling left => cases left <;> simp [step, hp]
  | _ => simp [step, hp]

end Inversion

section Link
variable (rt : Runtime) (tjmax : Option F32)

/-- The record but for its number. -/
def unnumbered (r : SharedTemperature) : SharedTemperature := { r with sequence := 0 }

/-- The writer is on its way with the record of the pass that the loop is publishing. -/
def Carries (writer : Writer SharedTemperature) (out : SharedTemperature) : Prop :=
  ∃ record, unnumbered record = out ∧
    (writer = .loaded record ∨ ∃ pending, writer = .writing record pending)

lemma carries_loaded {record out : SharedTemperature} :
    Carries (.loaded record) out ↔ unnumbered record = out := by
  simp [Carries]

lemma carries_writing {record out : SharedTemperature} {pending : Finset MappingField} :
    Carries (.writing record pending) out ↔ unnumbered record = out := by
  simp [Carries]

/-- What the phase of the loop says of its writer and of the energy counter. -/
def Writes (s : System) : Prop :=
  match s.phase with
  | .publishing p =>
    Carries s.mapping.writer (latest rt tjmax (p :: s.settled)) ∧
      s.power = powerAfter rt (p :: s.settled)
  | _ => s.mapping.writer = .idle ∧ s.power = powerAfter rt s.settled

/-- The settled record is the one of the last pass published. -/
structure Linked (s : System) : Prop where
  continued : s.mapping.Continued .default
  writes : Writes rt tjmax s
  current : unnumbered s.mapping.current = latest rt tjmax s.settled

variable {rt tjmax} {s t : System}

lemma linked_start : Linked rt tjmax start :=
  ⟨continued_of_reaches rfl .refl, ⟨rfl, rfl⟩, rfl⟩

/-- Steps of the reader leave the writer and the settled record. -/
lemma linked_read {a : ReaderAction SharedTemperature} (hs : Linked rt tjmax s)
    (h : step rt tjmax s (.read a) = some t) : Linked rt tjmax t := by
  obtain ⟨mapping, hread, rfl⟩ := step_read.mp h
  have hcontinued := continued_step (a := .reader a) hs.continued trivial hread
  have hwrites := hs.writes
  unfold Writes at hwrites
  refine ⟨hcontinued, ?_, ?_⟩
  · unfold Writes
    rw [readerStep_frame hread]
    exact hwrites
  · rw [readerStep_frame hread]
    exact hs.current

/-- A pass puts its own record on the way. -/
lemma linked_pass {p : Pass} (hs : Linked rt tjmax s)
    (h : step rt tjmax s (.pass p) = some t) : Linked rt tjmax t := by
  obtain ⟨hphase, mapping, hload, rfl⟩ := step_pass.mp h
  have hcontinued := continued_step (a := .writer (.load _)) hs.continued trivial hload
  have hwrites := hs.writes
  simp only [Writes, hphase] at hwrites
  obtain ⟨-, rfl⟩ := writerStep_load.mp hload
  refine ⟨hcontinued, ⟨⟨_, ?_, .inl rfl⟩, ?_⟩, hs.current⟩
  · simp only [hwrites.2]
    rfl
  · simp only [hwrites.2]
    rfl

lemma linked_raise (hs : Linked rt tjmax s) (h : step rt tjmax s .raise = some t) :
    Linked rt tjmax t := by
  obtain ⟨p, mapping, hphase, hraise, rfl⟩ := step_raise.mp h
  have hcontinued := continued_step (a := .writer .raise) hs.continued trivial hraise
  have hwrites := hs.writes
  simp only [Writes, hphase] at hwrites
  obtain ⟨record, hloaded, rfl⟩ := writerStep_raise.mp hraise
  rw [hloaded, carries_loaded] at hwrites
  refine ⟨hcontinued, ?_, hs.current⟩
  simp only [Writes, hphase]
  exact ⟨carries_writing.mpr hwrites.1, hwrites.2⟩

lemma linked_store {i : MappingField} (hs : Linked rt tjmax s)
    (h : step rt tjmax s (.store i) = some t) : Linked rt tjmax t := by
  obtain ⟨p, mapping, hphase, hstore, rfl⟩ := step_store.mp h
  have hcontinued : mapping.Continued .default :=
    continued_step (a := .writer (.store (R := SharedTemperature) i)) hs.continued trivial hstore
  have hwrites := hs.writes
  simp only [Writes, hphase] at hwrites
  obtain ⟨record, pending, hwriting, -, rfl⟩ := writerStep_store.mp hstore
  rw [hwriting, carries_writing] at hwrites
  refine ⟨hcontinued, ?_, hs.current⟩
  simp only [Writes, hphase]
  exact ⟨carries_writing.mpr hwrites.1, hwrites.2⟩

/-- The settled record is then the one of the pass. -/
lemma linked_settle (hs : Linked rt tjmax s) (h : step rt tjmax s .settle = some t) :
    Linked rt tjmax t := by
  obtain ⟨p, mapping, hphase, hsettle, rfl⟩ := step_settle.mp h
  have hcontinued := continued_step (a := .writer .settle) hs.continued trivial hsettle
  have hwrites := hs.writes
  simp only [Writes, hphase] at hwrites
  obtain ⟨record, hwriting, rfl⟩ := writerStep_settle.mp hsettle
  rw [hwriting, carries_writing] at hwrites
  exact ⟨hcontinued, ⟨rfl, hwrites.2⟩, hwrites.1⟩

lemma writes_of_not_publishes (h : s.phase.publishes = false) :
    Writes rt tjmax s ↔ s.mapping.writer = .idle ∧ s.power = powerAfter rt s.settled := by
  cases hphase : s.phase <;> simp_all [Writes, Phase.publishes]

lemma linked_loop (hs : Linked rt tjmax s) (h : step rt tjmax s .loop = some t) :
    Linked rt tjmax t := by
  have hwrites := hs.writes
  rcases step_loop.mp h with ⟨hphase, rfl⟩ | ⟨hphase, rfl⟩ | ⟨left, hphase, rfl⟩ |
    ⟨left, hphase, rfl⟩ <;> simp only [Writes, hphase] at hwrites
  · refine ⟨hs.continued, (writes_of_not_publishes ?_).mpr hwrites, hs.current⟩
    dsimp only
    split <;> rfl
  · exact ⟨hs.continued, hwrites, hs.current⟩
  · refine ⟨hs.continued, (writes_of_not_publishes ?_).mpr hwrites, hs.current⟩
    dsimp only
    split <;> rfl
  · exact ⟨hs.continued, hwrites, hs.current⟩

lemma linked_step {a : SystemAction} (hs : Linked rt tjmax s) (h : step rt tjmax s a = some t) :
    Linked rt tjmax t := by
  cases a with
  | control c =>
    obtain rfl := Option.some.inj h
    exact ⟨hs.continued, hs.writes, hs.current⟩
  | loop => exact linked_loop hs h
  | pass p => exact linked_pass hs h
  | raise => exact linked_raise hs h
  | store i => exact linked_store hs h
  | settle => exact linked_settle hs h
  | read a => exact linked_read hs h

end Link

section Reads
variable (rt : Runtime)

/-- What the interface takes from a record. -/
structure Figures where
  package : Option F32
  watts : Option F32
  tjmax : Option F32
  zones : List (String × F32)
  deriving DecidableEq, Repr

def figures (r : SharedTemperature) : Figures := ⟨r.package, r.watts, r.tjmax, r.zoneList⟩

/-- What the last of some passes measured, as far as there are slots for it. -/
def measured (tjmax : Option F32) : List Pass → Figures
  | [] => ⟨none, none, none, []⟩
  | pass :: earlier =>
    { package := (pass.source.read rt).packageC
      watts := watts rt earlier pass
      tjmax := tjmax
      zones := ((pass.source.read rt).zones.take maxZones).map fun z => (z.label, z.celsius) }

/-- When the last of some passes was taken. -/
def takenMs : List Pass → ℕ
  | [] => 0
  | pass :: _ => pass.nowMs

lemma isNan_watts {earlier : List Pass} {pass : Pass} :
    ∀ v ∈ watts rt earlier pass, v.isNan = false := by
  intro v hv
  obtain ⟨q, -, rfl⟩ := Option.mem_map.mp hv
  rfl

lemma isNan_tjmaxC (boot : WindowsTemperature) : ∀ v ∈ boot.tjmaxC, v.isNan = false := by
  intro v hv
  unfold WindowsTemperature.tjmaxC at hv
  split at hv
  · obtain ⟨q, -, rfl⟩ := Option.mem_map.mp hv
    rfl
  · simp at hv
  · simp at hv

lemma figures_latest {tjmax : Option F32} (htjmax : ∀ v ∈ tjmax, v.isNan = false)
    (passes : List Pass) (sequence : UInt32) :
    figures { latest rt tjmax passes with sequence := sequence } = measured rt tjmax passes := by
  cases passes with
  | nil => rfl
  | cons pass earlier =>
    obtain ⟨hpackage, hwatts, hlimit, hzones⟩ := decode_payload pass.nowMs sequence
      (read_sound rt pass.source).representable (isNan_watts rt) htjmax
    exact congr (congr (congr (congrArg Figures.mk hpackage) hwatts) hlimit) hzones

lemma isFresh_latest (tjmax : Option F32) (passes : List Pass) (sequence : UInt32) (nowMs : ℕ) :
    isFresh { latest rt tjmax passes with sequence := sequence } nowMs ↔
      nowMs ≤ takenMs passes + staleAfterMs := by
  cases passes with
  | nil =>
    simp [latest, isFresh, SharedTemperature.default, takenMs, layoutVersion]
  | cons pass earlier => exact isFresh_payload pass.nowMs sequence nowMs

lemma helperIsCurrent_latest (tjmax : Option F32) (passes : List Pass) (sequence : UInt32) :
    helperIsCurrent { latest rt tjmax passes with sequence := sequence } = true := by
  cases passes with
  | nil => rfl
  | cons pass earlier => exact helperIsCurrent_payload sequence _

lemma version_latest (tjmax : Option F32) (passes : List Pass) :
    (latest rt tjmax passes).version = layoutVersion := by
  cases passes <;> rfl

/-- The layout version is never stored with another value. -/
lemma version_step {tjmax : Option F32} {s t : System} {a : SystemAction}
    (hs : Linked rt tjmax s) (hversion : s.mapping.memory.version = layoutVersion)
    (h : step rt tjmax s a = some t) : t.mapping.memory.version = layoutVersion := by
  cases a with
  | control c =>
    obtain rfl := Option.some.inj h
    exact hversion
  | loop =>
    rcases step_loop.mp h with ⟨-, rfl⟩ | ⟨-, rfl⟩ | ⟨left, -, rfl⟩ | ⟨left, -, rfl⟩ <;>
      exact hversion
  | pass p =>
    obtain ⟨-, mapping, hload, rfl⟩ := step_pass.mp h
    obtain ⟨-, rfl⟩ := writerStep_load.mp hload
    exact hversion
  | raise =>
    obtain ⟨p, mapping, -, hraise, rfl⟩ := step_raise.mp h
    obtain ⟨record, -, rfl⟩ := writerStep_raise.mp hraise
    exact hversion
  | store i =>
    obtain ⟨p, mapping, hphase, hstore, rfl⟩ := step_store.mp h
    obtain ⟨record, pending, hwriting, -, rfl⟩ := writerStep_store.mp hstore
    have hwrites := hs.writes
    simp only [Writes, hphase, hwriting, carries_writing] at hwrites
    have hrecord : record.version = layoutVersion :=
      (congrArg SharedTemperature.version hwrites.1).trans (version_latest rt tjmax _)
    -- the version is the record's where its own field is stored, and untouched elsewhere
    cases i with
    | version => exact hrecord
    | _ => exact hversion
  | settle =>
    obtain ⟨p, mapping, -, hsettle, rfl⟩ := step_settle.mp h
    obtain ⟨record, -, rfl⟩ := writerStep_settle.mp hsettle
    exact hversion
  | read b =>
    obtain ⟨mapping, hread, rfl⟩ := step_read.mp h
    rw [readerStep_frame hread]
    exact hversion

lemma version_of_reaches {tjmax : Option F32} {s : System}
    (h : Transitions.Reaches (step rt tjmax) start s) :
    s.mapping.memory.version = layoutVersion :=
  (h.keeps (P := fun s => Linked rt tjmax s ∧ s.mapping.memory.version = layoutVersion)
    (fun _ _ _ hs hstep => ⟨linked_step hs.1 hstep, version_step rt hs.1 hs.2 hstep⟩)
    ⟨linked_start, rfl⟩).2

/-- A read returns the record of the pass published last under some number. -/
theorem read_latest (boot : WindowsTemperature) {s : System}
    (h : Transitions.Reaches (step rt boot.tjmaxC) start s) {r : SharedTemperature}
    (hr : s.mapping.returns = some r) (hoverlap : s.mapping.overlap < 2 ^ 31) :
    r = { latest rt boot.tjmaxC s.settled with sequence := r.sequence } := by
  have hs : Linked rt boot.tjmaxC s := h.keeps (fun _ _ _ => linked_step) linked_start
  obtain ⟨hwhole, rfl⟩ := returns_whole hs.continued.sound hr hoverlap
  have hcurrent : s.mapping.memory = s.mapping.current :=
    hwhole.resolve_right (by simp [hs.continued.resets])
  rw [hcurrent, ← hs.current]
  rfl

lemma figures_of_returns (boot : WindowsTemperature) {s : System}
    (h : Transitions.Reaches (step rt boot.tjmaxC) start s) {r : SharedTemperature}
    (hr : s.mapping.returns = some r) (hoverlap : s.mapping.overlap < 2 ^ 31) :
    figures r = measured rt boot.tjmaxC s.settled := by
  rw [read_latest rt boot h hr hoverlap]
  exact figures_latest rt (isNan_tjmaxC boot) s.settled _

lemma isFresh_of_returns (boot : WindowsTemperature) {s : System}
    (h : Transitions.Reaches (step rt boot.tjmaxC) start s) {r : SharedTemperature}
    (hr : s.mapping.returns = some r) (hoverlap : s.mapping.overlap < 2 ^ 31) (nowMs : ℕ) :
    r.isFresh nowMs ↔ nowMs ≤ takenMs s.settled + staleAfterMs := by
  rw [read_latest rt boot h hr hoverlap]
  exact isFresh_latest rt _ s.settled _ nowMs

/-- Whenever the interface reads, what it gets is what the last published pass measured, all of
it and of no other pass, and it is stale fifteen seconds after that pass. -/
theorem read_measured (boot : WindowsTemperature) {s : System}
    (h : Transitions.Reaches (step rt boot.tjmaxC) start s) {r : SharedTemperature}
    (hr : s.mapping.returns = some r) (hoverlap : s.mapping.overlap < 2 ^ 31) :
    figures r = measured rt boot.tjmaxC s.settled ∧
      ∀ nowMs, r.isFresh nowMs ↔ nowMs ≤ takenMs s.settled + staleAfterMs :=
  ⟨figures_of_returns rt boot h hr hoverlap, isFresh_of_returns rt boot h hr hoverlap⟩

end Reads

/-- A pass over a processor with two cores, at a time. -/
def coolPass (nowMs : ℕ) : Pass := ⟨nowMs, coolIntel 2⟩

/-- The steps of one publish. -/
def publishing : List SystemAction :=
  .raise :: MappingField.all.map .store ++ [.settle]

/-- A pass is published, the next is on its way, and a read ends before it raises the number. -/
def readBetween : List SystemAction :=
  [.loop, .pass (coolPass 20000)] ++ publishing ++ [.read .read, .read .check] ++
    (List.replicate 32 .loop) ++ [.pass (coolPass 21500)] ++
    MappingField.all.map fun i => .read (.copy i)

def between : System :=
  (Transitions.run (step .ieee (coolIntel 2).tjmaxC) start readBetween).getD start

theorem between_measured : ∃ r, between.mapping.returns = some r ∧
    figures r = ⟨some (.finite 70), none, some (.finite 100),
      [("Core 0", .finite 70), ("Core 1", .finite 70)]⟩ ∧
    r.isFresh 35000 ∧ ¬r.isFresh 35001 := by
  have hrun : Transitions.Reaches (step .ieee (coolIntel 2).tjmaxC) start between :=
    Transitions.reaches_getD (by decide +kernel)
  obtain ⟨r, hr⟩ := Option.isSome_iff_exists.mp
    (show between.mapping.returns.isSome by decide +kernel)
  obtain ⟨hfigures, hfresh⟩ := read_measured .ieee (coolIntel 2) hrun hr (by decide +kernel)
  have htaken : takenMs between.settled = 20000 := by decide +kernel
  refine ⟨r, hr, ?_, ?_, ?_⟩
  · rw [hfigures]
    decide +kernel
  · rw [hfresh, htaken]
    decide
  · rw [hfresh, htaken]
    decide

section Pace
variable {rt : Runtime} {tjmax : Option F32}

/-- The slices that the sleep after the last pass has left. -/
def Phase.left : Phase → ℕ
  | .polling left => left
  | .sleeping left => left + 1
  | _ => 0

/-- What the loop still does after a stop request, of passes and slices. -/
def Phase.owes : Phase → ℕ
  | .sampling | .publishing _ | .sleeping _ => 1
  | _ => 0

/-- While the loop runs it has slept all its slices after each pass but the last, and it ends
only on a request. -/
structure Paced (s : System) : Prop where
  slept : s.phase ≠ .returned → s.slept + s.phase.left = slices * s.settled.length
  stop : s.phase = .returned → s.stop = true

variable {s t : System}

/-- The steps of a publish but the last, and those of a read, leave the loop as it is. -/
lemma step_frame {a : SystemAction} (h : step rt tjmax s a = some t)
    (ha : a = .raise ∨ (∃ i, a = .store i) ∨ ∃ b, a = .read b) :
    t.phase = s.phase ∧ t.stop = s.stop ∧ t.slept = s.slept ∧ t.settled = s.settled := by
  rcases ha with rfl | ⟨i, rfl⟩ | ⟨b, rfl⟩
  · obtain ⟨p, mapping, -, -, rfl⟩ := step_raise.mp h
    exact ⟨rfl, rfl, rfl, rfl⟩
  · obtain ⟨p, mapping, -, -, rfl⟩ := step_store.mp h
    exact ⟨rfl, rfl, rfl, rfl⟩
  · obtain ⟨mapping, -, rfl⟩ := step_read.mp h
    exact ⟨rfl, rfl, rfl, rfl⟩

lemma Paced.congr (hs : Paced s)
    (h : t.phase = s.phase ∧ t.stop = s.stop ∧ t.slept = s.slept ∧ t.settled = s.settled) :
    Paced t := by
  obtain ⟨hphase, hstop, hslept, hsettled⟩ := h
  refine ⟨?_, ?_⟩
  · rw [hphase, hslept, hsettled]
    exact hs.slept
  · rw [hphase, hstop]
    exact hs.stop

lemma paced_start : Paced start := ⟨fun _ => rfl, nofun⟩

lemma paced_loop (hs : Paced s) (h : step rt tjmax s .loop = some t) : Paced t := by
  have hslept := hs.slept
  rcases step_loop.mp h with ⟨hphase, rfl⟩ | ⟨hphase, rfl⟩ | ⟨left, hphase, rfl⟩ |
    ⟨left, hphase, rfl⟩ <;> simp only [hphase, Phase.left, ne_eq, reduceCtorEq, not_false_eq_true,
      true_imp_iff] at hslept
  · by_cases hstop : s.stop
    · exact ⟨fun hreturned => by simp [hstop] at hreturned, fun _ => hstop⟩
    · refine ⟨fun _ => ?_, by simp [hstop]⟩
      simpa [hstop, Phase.left] using hslept
  · exact ⟨fun _ => hslept, nofun⟩
  · by_cases hstop : s.stop
    · exact ⟨fun hreturned => by simp [hstop] at hreturned, fun _ => hstop⟩
    · refine ⟨fun _ => ?_, by simp [hstop]⟩
      simpa [hstop, Phase.left] using hslept
  · refine ⟨fun _ => ?_, nofun⟩
    simp only [Phase.left]
    omega

lemma paced_step {a : SystemAction} (hs : Paced s) (h : step rt tjmax s a = some t) :
    Paced t := by
  have hslept := hs.slept
  cases a with
  | control c =>
    obtain rfl := Option.some.inj h
    exact ⟨hs.slept, fun hphase => by simp [hs.stop hphase]⟩
  | loop => exact paced_loop hs h
  | pass p =>
    obtain ⟨hphase, mapping, -, rfl⟩ := step_pass.mp h
    refine ⟨fun _ => ?_, nofun⟩
    simpa [hphase, Phase.left] using hslept
  | settle =>
    obtain ⟨p, mapping, hphase, -, rfl⟩ := step_settle.mp h
    refine ⟨fun _ => ?_, nofun⟩
    simp only [hphase, Phase.left, ne_eq, reduceCtorEq, not_false_eq_true, true_imp_iff] at hslept
    simp only [Phase.left, List.length_cons, slices] at hslept ⊢
    omega
  | raise => exact hs.congr (step_frame h (.inl rfl))
  | store i => exact hs.congr (step_frame h (.inr (.inl ⟨i, rfl⟩)))
  | read b => exact hs.congr (step_frame h (.inr (.inr ⟨b, rfl⟩)))

/-- What the helper has done and still does, once it is to stop. -/
def System.work (s : System) : ℕ := s.slept + s.settled.length + s.phase.owes

/-- A stop request stays, and nothing is begun after it. -/
lemma work_step {a : SystemAction} (hstop : s.stop = true) (h : step rt tjmax s a = some t) :
    t.stop = true ∧ t.work ≤ s.work := by
  have hframed : ∀ t : System, (t.phase = s.phase ∧ t.stop = s.stop ∧ t.slept = s.slept ∧
      t.settled = s.settled) → t.stop = true ∧ t.work ≤ s.work := by
    rintro t ⟨hphase, hflag, hslept, hsettled⟩
    simp [System.work, hphase, hflag, hslept, hsettled, hstop]
  cases a with
  | control c =>
    obtain rfl := Option.some.inj h
    exact ⟨by simp [hstop], le_rfl⟩
  | loop =>
    rcases step_loop.mp h with ⟨hphase, rfl⟩ | ⟨hphase, rfl⟩ | ⟨left, hphase, rfl⟩ |
      ⟨left, hphase, rfl⟩
    all_goals
      simp [System.work, hphase, hstop, Phase.owes]
    omega
  | pass p =>
    obtain ⟨hphase, mapping, -, rfl⟩ := step_pass.mp h
    simp [System.work, hphase, hstop, Phase.owes]
  | settle =>
    obtain ⟨p, mapping, hphase, -, rfl⟩ := step_settle.mp h
    simp only [System.work, hphase, hstop, Phase.owes, List.length_cons, true_and]
    omega
  | raise => exact hframed t (step_frame h (.inl rfl))
  | store i => exact hframed t (step_frame h (.inr (.inl ⟨i, rfl⟩)))
  | read b => exact hframed t (step_frame h (.inr (.inr ⟨b, rfl⟩)))

/-- A pass begins after fifteen slices for each pass before it, the loop ends only when told to,
and from then on it finishes what it is at and no more: one pass or one slice. -/
theorem loop_paced (rt : Runtime) (tjmax : Option F32) {s : System}
    (h : Transitions.Reaches (step rt tjmax) start s) :
    (s.phase = .sampling → s.slept = slices * s.settled.length) ∧
      (s.phase = .returned → s.stop = true) ∧
      ∀ t, s.stop = true → Transitions.Reaches (step rt tjmax) s t →
        t.slept + t.settled.length ≤ s.slept + s.settled.length + 1 := by
  have hs : Paced s := h.keeps (fun _ _ _ => paced_step) paced_start
  refine ⟨fun hphase => ?_, hs.stop, fun t hstop hlater => ?_⟩
  · simpa [hphase, Phase.left] using hs.slept
  · have hwork := hlater.keeps (P := fun u => u.stop = true ∧ u.work ≤ s.work)
      (fun u a v hu hstep => ⟨(work_step hu.1 hstep).1, (work_step hu.1 hstep).2.trans hu.2⟩)
      ⟨hstop, le_rfl⟩
    have howes : s.phase.owes ≤ 1 := by
      cases s.phase <;> simp [Phase.owes]
    have hbound := hwork.2
    simp only [System.work] at hbound
    omega

/-- Told to stop within the first slice after a pass, the helper ends that slice and returns. -/
def stopInSlice : List SystemAction :=
  [.loop, .pass (coolPass 20000)] ++ publishing ++ [.loop, .control .stop]

def slicing : System := (Transitions.run (step .ieee none) start stopInSlice).getD start

def stopped : System := (Transitions.run (step .ieee none) slicing [.loop, .loop]).getD start

theorem stopped_paced : stopped.phase.left = 0 ∧ stopped.slept = 1 ∧
    stopped.slept + stopped.settled.length ≤ slicing.slept + slicing.settled.length + 1 := by
  have hrun : Transitions.Reaches (step .ieee none) start slicing :=
    Transitions.reaches_getD (by decide +kernel)
  have hlater : Transitions.Reaches (step .ieee none) slicing stopped :=
    ⟨[.loop, .loop], by rfl⟩
  obtain ⟨-, -, hbound⟩ := loop_paced .ieee none hrun
  exact ⟨by decide +kernel, by decide +kernel, hbound stopped (by decide +kernel) hlater⟩

end Pace

end Helper
end LoadBear
