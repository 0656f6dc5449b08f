import LoadBear.ConservativeMerge
import LoadBear.Counters
import LoadBear.ReportedBase

/-!
# The terminal readout

A tool beside the application evaluates the same checks on the same samples. It must not
show something the application would never see, yet it reduces the window to its mean and
takes the first entry of the database with the processor's exact key, where the application
takes the median and every product the processor could be.
-/
namespace LoadBear

/-- What is known about the machine before its first sample. -/
structure Machine where
  db : SpecDb
  key : CpuKey
  brand : Option String
  logicalCpus : ℕ

/-- What a reading takes besides the counters. -/
structure Surroundings where
  nowMs : ℕ
  diskSaturation : Option ℚ
  processes : List ProcessReading
  containers : List ContainerReading

variable (rt : Runtime) (m : Machine)

/-- Actual sustained all-core frequency. -/
def CounterSample.actualMhz (s : CounterSample) : Option ℕ :=
  if s.processorFrequencyMhz ≤ 0 then none
  else some (roundToU32
    (rt.f64 (rt.f64 (s.processorFrequencyMhz * s.processorPerformancePct) / 100)))

/-- The machine's own base clock, by a sample's nominal frequency. -/
def Machine.reportedBase (s : CounterSample) : Option ℕ :=
  reportedBaseMhz rt (roundToU32 s.processorFrequencyMhz) m.brand

/-- The reading of a sample, without temperature and package power. -/
def counterReading (around : Surroundings) (s : CounterSample) (spec : Option CpuSpec) :
    Reading where
  timestampMs := around.nowMs
  stall := toStall rt s m.logicalCpus around.diskSaturation
  cpu :=
    { allCoreMhz := s.actualMhz rt
      utilizationPct := some (rt.f32 s.processorTimePct)
      reportedBaseMhz := m.reportedBase rt s
      packageWatts := none
      packageTempC := none
      tjmaxC := spec.bind CpuSpec.tjmaxC
      throttle := ⟨false, none⟩ }
  processes := around.processes
  containers := around.containers

/-- One pass of the terminal tool: the window it leaves and the kinds of verdict it shows. -/
def statusPass (window : SampleWindow) (around : Surroundings) (raw : CounterSample) :
    SampleWindow × List VerdictKind :=
  let window : SampleWindow := window.push raw
  let sample := (window.average rt).getD raw
  let spec := m.db.lookup m.key
  let reading := counterReading rt m { around with nowMs := 0, containers := [] } sample spec
  (window, (evaluate rt reading spec).map Verdict.kind)

/-- One pass of the application's sampling loop, as far as its verdicts. -/
def applicationPass (window : SampleWindow) (around : Surroundings) (raw : CounterSample) :
    SampleWindow × List VerdictKind :=
  let window : SampleWindow := window.push raw
  let judged := Sampler.judged rt window raw
  let spec := (m.db.resolve m.key (min m.logicalCpus 255)).map SpecMatch.spec
  (window, (evaluate rt (counterReading rt m around judged spec) spec).map Verdict.kind)

/-- A sample that both programs take, each in its own surroundings. -/
structure SharedSample where
  raw : CounterSample
  atTool : Surroundings
  atApplication : Surroundings

/-- The window of the tool after some samples. -/
def statusWindow (run : List SharedSample) : SampleWindow :=
  run.foldl (fun window s => (statusPass rt m window s.atTool s.raw).1) .default

/-- The window of the application after some samples. -/
def applicationWindow (run : List SharedSample) : SampleWindow :=
  run.foldl (fun window s => (applicationPass rt m window s.atApplication s.raw).1) .default

/-- The kinds of verdict the tool shows for a sample after those before it. -/
def statusKinds (before : List SharedSample) (s : SharedSample) : List VerdictKind :=
  (statusPass rt m (statusWindow rt m before) s.atTool s.raw).2

/-- The kinds of verdict the application reaches there. -/
def applicationKinds (before : List SharedSample) (s : SharedSample) : List VerdictKind :=
  (applicationPass rt m (applicationWindow rt m before) s.atApplication s.raw).2

/-- Whatever the tool shows in the run, the application reaches on the same sample. -/
def ReadoutWithin (run : List SharedSample) : Prop :=
  ∀ before s after, run = before ++ s :: after →
    statusKinds rt m before s ⊆ applicationKinds rt m before s

/-- The samples a window holds at the end of a run. -/
def heldSamples (run : List SharedSample) : List CounterSample :=
  (run.map SharedSample.raw).rtake windowSamples

/-- Busy, with a clock below a base. -/
def CounterSample.Slow (s : CounterSample) (baseMhz : ℕ) : Prop :=
  minUtilizationForBaseClockPct ≤ rt.f32 s.processorTimePct ∧
    ∃ mhz ∈ s.actualMhz rt, mhz < baseMhz

/-- The mean of some samples is slow for the first entry with the exact key, or without
one for the base the machine reports. -/
def MeanSlow (samples : List CounterSample) : Prop :=
  let mean := .fieldwise fun f => averageOf rt (samples.map f)
  ∃ base ∈ ((m.db.lookup m.key).map CpuSpec.baseMhz).or (m.reportedBase rt mean),
    mean.Slow rt base

/-- The median of some samples is slow for every product the processor could be, or
without any for the base the machine reports. -/
def MedianSlow (samples : List CounterSample) : Prop :=
  let median := .fieldwise fun f => pick rt (samples.map f)
  let candidates := m.db.candidates m.key (min m.logicalCpus 255)
  (candidates = [] → ∃ base ∈ m.reportedBase rt median, median.Slow rt base) ∧
    ∀ c ∈ candidates, median.Slow rt c.baseMhz

variable {rt m}

lemma statusWindow_eq (run : List SharedSample) :
    statusWindow rt m run = (run.map SharedSample.raw).foldl .push .default := by
  rw [List.foldl_map]
  rfl

lemma applicationWindow_eq (run : List SharedSample) :
    applicationWindow rt m run = (run.map SharedSample.raw).foldl .push .default := by
  rw [List.foldl_map]
  rfl

/-- Either program pushes a sample before it looks at the window. -/
lemma push_samples_eq_held (before : List SharedSample) (s : SharedSample) :
    (((before.map SharedSample.raw).foldl .push SampleWindow.default).push s.raw).samples =
      heldSamples (before ++ [s]) := by
  have hheld :=
    OrderStatistic.Window.foldl_push_samples ((before ++ [s]).map SharedSample.raw) windowSamples
  rw [List.map_append, List.map_singleton, List.foldl_concat] at hheld
  rw [heldSamples, List.map_append, List.map_singleton]
  exact hheld

lemma heldSamples_concat_ne_nil (before : List SharedSample) (s : SharedSample) :
    heldSamples (before ++ [s]) ≠ [] := by
  rw [heldSamples, windowSamples, List.map_append, List.map_singleton, List.rtake_concat_succ]
  simp

/-- Without temperature and power the clock check alone can have something to say. -/
lemma mem_kinds_counterReading (around : Surroundings) (s : CounterSample)
    (spec : Option CpuSpec) (kind : VerdictKind) :
    kind ∈ (evaluate rt (counterReading rt m around s spec) spec).map Verdict.kind ↔
      kind = .belowBaseClock ∧
        ∃ base ∈ (spec.map CpuSpec.baseMhz).or (m.reportedBase rt s), s.Slow rt base := by
  rw [mem_kinds_evaluate]
  cases kind with
  | belowBaseClock =>
    cases spec with
    | some spec => simp [Fires, counterReading, baseClock, underDemand, CounterSample.Slow]
    | none =>
      simp only [Fires, counterReading, baseClock, underDemand, CounterSample.Slow]
      simp only [Option.any_some, decide_eq_true_iff, Option.mem_def, Option.map_eq_some_iff,
        Option.map_none, Option.none_or, true_and]
      constructor
      · rintro ⟨hbusy, mhz, hmhz, _, ⟨base, hbase, rfl⟩, hlt⟩
        exact ⟨base, hbase, hbusy, mhz, hmhz, hlt⟩
      · rintro ⟨base, hbase, hbusy, mhz, hmhz, hlt⟩
        exact ⟨hbusy, mhz, hmhz, _, ⟨base, hbase, rfl⟩, hlt⟩
  | throttling | powerOutsideBand | powerBelowRating | thermalHeadroomLow =>
    simp [Fires, counterReading]

/-- Slow for the merged record is slow for everything it was merged from. -/
lemma slow_conservative_iff (s : CounterSample) (first : CpuSpec) (others : List CpuSpec) :
    s.Slow rt (conservative first others).baseMhz ↔
      ∀ c ∈ first :: others, s.Slow rt c.baseMhz := by
  constructor
  · rintro ⟨hbusy, mhz, hmhz, hlt⟩ c hc
    exact ⟨hbusy, mhz, hmhz, lt_conservative_baseMhz hlt c hc⟩
  · intro h
    obtain ⟨hmem, -⟩ := min?_getD_spec (l := (first :: others).map CpuSpec.baseMhz) (by simp)
    obtain ⟨c, hc, hbase⟩ := List.mem_map.mp hmem
    rw [conservative_baseMhz, ← hbase]
    exact h c hc

lemma mem_statusKinds (before : List SharedSample) (s : SharedSample) (kind : VerdictKind) :
    kind ∈ statusKinds rt m before s ↔
      kind = .belowBaseClock ∧ MeanSlow rt m (heldSamples (before ++ [s])) := by
  have haverage : SampleWindow.average rt ((statusWindow rt m before).push s.raw) =
      some (.fieldwise fun f => averageOf rt ((heldSamples (before ++ [s])).map f)) := by
    rw [statusWindow_eq, SampleWindow.average, push_samples_eq_held,
      if_neg (heldSamples_concat_ne_nil before s)]
  unfold statusKinds statusPass
  dsimp only
  rw [haverage, mem_kinds_counterReading]
  rfl

lemma mem_applicationKinds (before : List SharedSample) (s : SharedSample)
    (kind : VerdictKind) : kind ∈ applicationKinds rt m before s ↔
      kind = .belowBaseClock ∧ MedianSlow rt m (heldSamples (before ++ [s])) := by
  have hmedian : Sampler.judged rt ((applicationWindow rt m before).push s.raw) s.raw =
      .fieldwise fun f => pick rt ((heldSamples (before ++ [s])).map f) := by
    rw [applicationWindow_eq, Sampler.judged, SampleWindow.median, push_samples_eq_held,
      if_neg (heldSamples_concat_ne_nil before s)]
    rfl
  unfold applicationKinds applicationPass
  dsimp only
  rw [hmedian, mem_kinds_counterReading, SpecDb.resolve, MedianSlow]
  cases m.db.candidates m.key (min m.logicalCpus 255) with
  | nil => simp
  | cons first others => simp [slow_conservative_iff]

/-- The readout stays within the application exactly where no mean of a window is slow
without its median being slow. -/
theorem readoutWithin_iff (run : List SharedSample) : ReadoutWithin rt m run ↔
    ∀ before s after, run = before ++ s :: after →
      MeanSlow rt m (heldSamples (before ++ [s])) →
        MedianSlow rt m (heldSamples (before ++ [s])) := by
  constructor
  · intro h before s after hrun hmean
    have hshown := (mem_statusKinds before s .belowBaseClock).mpr ⟨rfl, hmean⟩
    have hreached := h before s after hrun hshown
    exact ((mem_applicationKinds before s .belowBaseClock).mp hreached).2
  · intro h before s after hrun kind hshown
    obtain ⟨rfl, hmean⟩ := (mem_statusKinds before s kind).mp hshown
    exact (mem_applicationKinds before s _).mpr ⟨rfl, h before s after hrun hmean⟩

section Separation
variable (rt m) in
/-- The base clocks that the application judges a sample by. -/
def Machine.judgedBases (s : CounterSample) : List ℕ :=
  match m.db.candidates m.key (min m.logicalCpus 255) with
  | [] => (m.reportedBase rt s).toList
  | first :: others => (first :: others).map CpuSpec.baseMhz

lemma medianSlow_iff (samples : List CounterSample) : MedianSlow rt m samples ↔
    let median := .fieldwise fun f => pick rt (samples.map f)
    m.judgedBases rt median ≠ [] ∧ ∀ base ∈ m.judgedBases rt median, median.Slow rt base := by
  unfold MedianSlow Machine.judgedBases
  cases m.db.candidates m.key (min m.logicalCpus 255) with
  | nil => cases hbase : m.reportedBase rt (.fieldwise fun f => pick rt (samples.map f)) <;>
      simp [hbase]
  | cons first others => simp

lemma mean_self {k : ℤ} (hk : |2 * k| < 2 ^ 24) : mean rt (k : ℚ) k = k := by
  have hsum : (k : ℚ) + k = ((2 * k : ℤ) : ℚ) := by
    push_cast
    ring
  have hsmall : |k| < 2 ^ 24 := by
    rw [abs_mul] at hk
    have hnonneg := abs_nonneg k
    norm_num at hk
    omega
  rw [mean, hsum, rt.f64.intCast _ hk]
  push_cast
  rw [mul_div_cancel_left₀ _ (by norm_num), rt.f64.intCast _ hsmall]

/-- A median is no smaller than most of the values are. -/
lemma le_pick_of_majority {k : ℤ} (hk : |2 * k| < 2 ^ 24) {values : List ℚ}
    (h : values.length < 2 * values.countP ((k : ℚ) ≤ ·)) : (k : ℚ) ≤ pick rt values := by
  refine pick_of_majority (p := fun v => (k : ℚ) ≤ v) (fun _ _ hab ha => ha.trans hab)
    (fun _ _ hab ha => ha.trans hab) (fun a ha => ⟨ha, ?_⟩) h
  calc (k : ℚ) = mean rt k k := (mean_self hk).symm
    _ ≤ mean rt a a := mean_mono ha ha

/-- What the application misses while the tool may show it: half of the samples are below the
threshold of the load or have no clock, or the clock of the median is not below every base clock
that the processor may be held to, or there is none. -/
theorem not_medianSlow_cases {samples : List CounterSample} (h : ¬MedianSlow rt m samples) :
    let median := .fieldwise fun f => pick rt (samples.map f)
    samples.length ≤ 2 * samples.countP (·.processorTimePct < 80) ∨
      samples.length ≤ 2 * samples.countP (·.processorFrequencyMhz < 1) ∨
      m.judgedBases rt median = [] ∨
      ∃ base ∈ m.judgedBases rt median, ∃ mhz ∈ median.actualMhz rt, base ≤ mhz := by
  intro median
  have hmost (f : CounterSample → ℚ) (k : ℤ) (hk : |2 * k| < 2 ^ 24)
      (hfew : 2 * samples.countP (f · < k) < samples.length) :
      (k : ℚ) ≤ pick rt (samples.map f) := by
    refine le_pick_of_majority hk ?_
    have hsplit := List.length_eq_countP_add_countP (fun s => decide ((k : ℚ) ≤ f s)) (l := samples)
    rw [List.length_map, List.countP_map]
    simp only [decide_eq_true_eq, not_le] at hsplit
    change samples.length < 2 * samples.countP fun s => decide ((k : ℚ) ≤ f s)
    omega
  by_contra hnone
  push Not at hnone
  obtain ⟨hbusy, hclocked, hbases, hbelow⟩ := hnone
  have htime : minUtilizationForBaseClockPct ≤ rt.f32 median.processorTimePct := by
    have heighty : rt.f32 (80 : ℤ) = (80 : ℤ) := rt.f32.intCast _ (by norm_num)
    have hmedian := hmost CounterSample.processorTimePct 80 (by norm_num) (by simpa using hbusy)
    exact (heighty.symm.trans_le (rt.f32.mono hmedian) :)
  have hfrequency : (0 : ℚ) < median.processorFrequencyMhz := by
    have hmedian := hmost CounterSample.processorFrequencyMhz 1 (by norm_num)
      (by simpa using hclocked)
    exact lt_of_lt_of_le (by norm_num) hmedian
  refine h ((medianSlow_iff samples).mpr ⟨hbases, fun base hbase => ⟨htime, ?_⟩⟩)
  obtain ⟨mhz, hmhz⟩ : ∃ mhz, median.actualMhz rt = some mhz := by
    unfold CounterSample.actualMhz
    rw [if_neg (not_le.mpr hfrequency)]
    exact ⟨_, rfl⟩
  exact ⟨mhz, hmhz, hbelow base hbase mhz hmhz⟩

end Separation

/-- The machine that may be either of two parts. -/
def renoirMachine : Machine := ⟨lowAndHighPower, renoirKey, none, 16⟩

/-- At half the base clock, as busy as it says. -/
def halfClock (timePct : ℚ) : SharedSample where
  raw :=
    { CounterSample.default with
      processorPerformancePct := 50
      processorFrequencyMhz := 2000
      processorTimePct := timePct }
  atTool := ⟨0, none, [], []⟩
  atApplication := ⟨0, none, [], []⟩

/-- One fully busy sample after three at 75 percent brings the mean over the threshold, and
leaves the median below it. -/
theorem busy_sample_shown_by_readout_only :
    statusKinds .ieee renoirMachine [halfClock 75, halfClock 75, halfClock 75] (halfClock 100) =
        [.belowBaseClock] ∧
      applicationKinds .ieee renoirMachine [halfClock 75, halfClock 75, halfClock 75]
        (halfClock 100) = [] ∧
      ¬ReadoutWithin .ieee renoirMachine
        [halfClock 75, halfClock 75, halfClock 75, halfClock 100] := by
  have hshown : statusKinds .ieee renoirMachine [halfClock 75, halfClock 75, halfClock 75]
      (halfClock 100) = [.belowBaseClock] := by decide +kernel
  have hreached : applicationKinds .ieee renoirMachine
      [halfClock 75, halfClock 75, halfClock 75] (halfClock 100) = [] := by decide +kernel
  refine ⟨hshown, hreached, fun h => ?_⟩
  have hwithin := h [halfClock 75, halfClock 75, halfClock 75] (halfClock 100) [] rfl
  rw [hshown, hreached] at hwithin
  exact absurd hwithin (by simp)

end LoadBear
