import LoadBear.Counters
import LoadBear.RegularClock

/-!
# Bursts of load between quiet samples

The median stretches a burst over more ticks than it lasted, and the tracker asks for
four of them. A burst of three samples moves the tier exactly when each of them is
heavy and two more ticks follow it.
-/
namespace LoadBear

open TierTracker OrderStatistic

section Pattern
variable {queue : ℕ → ℚ} {n i : ℕ}

/-- Loaded samples come in bursts of at most three, with at least four quiet ones
before each. -/
def InBursts (queue : ℕ → ℚ) (n : ℕ) : Prop :=
  ∀ i < n, queue i ≠ 0 → ∃ first, 4 ≤ first ∧ first ≤ i ∧ i < first + 3 ∧
    ∀ k, first ≤ k + 4 → k < first → queue k = 0

lemma InBursts.quiet_start (h : InBursts queue n) (hi : i < n) (hstart : i < 4) : queue i = 0 := by
  by_contra hload
  obtain ⟨first, hfour, hle, -⟩ := h i hi hload
  omega

/-- Three loaded samples in a row are a whole burst. -/
lemma InBursts.whole (h : InBursts queue n) (hi : i + 2 < n) (h₀ : queue i ≠ 0)
    (h₂ : queue (i + 2) ≠ 0) : 4 ≤ i ∧ (∀ k, i ≤ k + 4 → k < i → queue k = 0) ∧
      ∀ k, i + 2 < k → k ≤ i + 4 → k < n → queue k = 0 := by
  obtain ⟨first, hfour, hle, hlt, hquiet⟩ := h (i + 2) hi h₂
  have hfirst : first = i := by
    by_contra hne
    exact h₀ (hquiet i (by omega) (by omega))
  subst hfirst
  refine ⟨hfour, hquiet, fun k hk hk' hkn => ?_⟩
  by_contra hload
  obtain ⟨next, -, hnext, hnext', hquiet'⟩ := h k hkn hload
  exact h₀ (hquiet' first (by omega) (by omega))

/-- Two windows of four that share a sample and hold two loaded ones each lie around
the middle of a burst of three. -/
lemma InBursts.around (h : InBursts queue n) {a b c d : ℕ} (hd : d < n) (hab : a < b)
    (hcd : c < d) (ha : i ≤ a) (hb : b ≤ i + 3) (hc : i + 3 ≤ c) (hd' : d ≤ i + 6)
    (hqa : queue a ≠ 0) (hqb : queue b ≠ 0) (hqc : queue c ≠ 0) (hqd : queue d ≠ 0) :
    a = i + 2 ∧ b = i + 3 ∧ c = i + 3 ∧ d = i + 4 := by
  obtain ⟨first, -, hle, hlt, hquiet⟩ := h d hd hqd
  have houtside : ∀ k, queue k ≠ 0 → k + 4 < first ∨ first ≤ k := by
    intro k hk
    by_contra hin
    push Not at hin
    exact hk (hquiet k hin.1 hin.2)
  have hoa := houtside a hqa
  have hob := houtside b hqb
  have hoc := houtside c hqc
  omega

end Pattern

section Loop
variable (rt : Runtime) (logicalCpus : ℕ) (raw : ℕ → CounterSample)
  (diskSaturation : ℕ → Option ℚ) (start : ℕ)

/-- The loop after some ticks on a regular clock, with no verdicts. -/
def samplerAfter : ℕ → Sampler
  | 0 => .default
  | n + 1 => (samplerAfter n).tick rt [] logicalCpus (raw n) (diskSaturation n)
      (start + sampleInterval * n)

/-- The tier shown after some ticks. -/
def shownTier (n : ℕ) : Tier :=
  (samplerAfter rt logicalCpus raw diskSaturation start n).tracker.current.tier

/-- The sample judged on tick `i`. -/
def judgedAt (i : ℕ) : CounterSample :=
  Sampler.judged rt (samplerAfter rt logicalCpus raw diskSaturation start (i + 1)).window (raw i)

/-- The stall signal of tick `i`. -/
def stallAt (i : ℕ) : StallSignal :=
  toStall rt (judgedAt rt logicalCpus raw diskSaturation start i) logicalCpus (diskSaturation i)

/-- The judgement of tick `i`. -/
def judgementAt (i : ℕ) : Assessment :=
  classify rt [] (stallAt rt logicalCpus raw diskSaturation start i)

/-- Neither memory nor the disk reaches the threshold of the tier. -/
def NoOtherPressure (n : ℕ) : Prop :=
  ∀ i < n, (stallAt rt logicalCpus raw diskSaturation start i).memory < stallBraced rt ∧
    ∀ io ∈ (stallAt rt logicalCpus raw diskSaturation start i).io, io < stallBraced rt

variable {rt logicalCpus raw diskSaturation start} {n i : ℕ}

/-- The window is fed the samples themselves. -/
lemma samplerAfter_window (n : ℕ) :
    (samplerAfter rt logicalCpus raw diskSaturation start n).window =
      ((List.range n).map raw).foldl Window.push SampleWindow.default := by
  induction n with
  | zero => rfl
  | succ n ih =>
    rw [List.range_succ, List.map_append, List.map_singleton, List.foldl_concat, ← ih]
    rfl

/-- The tracker is fed the judgements of a regular clock. -/
lemma samplerAfter_tracker (n : ℕ) :
    (samplerAfter rt logicalCpus raw diskSaturation start n).tracker =
      (new escalateMs settleMs).run
        (regular start (judgementAt rt logicalCpus raw diskSaturation start) n) := by
  induction n with
  | zero => rfl
  | succ n ih =>
    rw [regular_succ, run_concat, ← ih]
    rfl

lemma shownTier_eq (n : ℕ) : shownTier rt logicalCpus raw diskSaturation start n =
    (shownAfter escalateMs settleMs
      (regular start (judgementAt rt logicalCpus raw diskSaturation start) n)).tier := by
  rw [shownTier, samplerAfter_tracker, shownAfter]

/-- Each field judged is the median of the last four samples. -/
lemma judgedAt_eq (i : ℕ) : judgedAt rt logicalCpus raw diskSaturation start i =
    .fieldwise fun f => pick rt (((List.range (i + 1)).map fun k => f (raw k)).rtake 4) := by
  have hsamples : (samplerAfter rt logicalCpus raw diskSaturation start (i + 1)).window.samples =
      ((List.range (i + 1)).map raw).rtake 4 := by
    rw [samplerAfter_window]
    exact Window.foldl_push_samples _ windowSamples
  have hne : ((List.range (i + 1)).map raw).rtake 4 ≠ [] := by
    intro h
    have hlength := congrArg List.length h
    simp [List.rtake] at hlength
    omega
  rw [judgedAt, Sampler.judged, SampleWindow.median, hsamples, if_neg hne, Option.getD_some]
  congr 1
  funext f
  rw [List.rtake, List.rtake, List.map_drop, List.map_map, List.length_map, List.length_map]
  rfl

lemma judgedAt_queue (i : ℕ) :
    (judgedAt rt logicalCpus raw diskSaturation start (i + 3)).processorQueueLength =
      pick rt ([i, i + 1, i + 2, i + 3].map fun k => (raw k).processorQueueLength) := by
  have hfour : i + 3 + 1 - i = 4 := by omega
  have hrange : List.range' i 4 = [i, i + 1, i + 2, i + 3] := rfl
  rw [judgedAt_eq, CounterSample.fieldwise]
  dsimp only
  rw [List.rtake, ← List.map_drop, List.range_eq_range', List.drop_range']
  simp [hfour, hrange]

variable (rt) in
/-- A field that is zero in every sample so far is judged zero. -/
lemma pick_of_quiet (f : CounterSample → ℚ) (hquiet : ∀ k ≤ i, f (raw k) = 0) :
    pick rt (((List.range (i + 1)).map fun k => f (raw k)).rtake 4) = 0 := by
  refine pick_of_zeros fun v hv => ?_
  obtain ⟨k, hk, rfl⟩ := List.mem_map.mp (List.mem_of_mem_drop hv)
  exact hquiet k (Nat.lt_succ_iff.mp (List.mem_range.mp hk))

/-- Without hard faults and disk waits there is no other pressure. -/
lemma noOtherPressure_of_quiet (hmemory : ∀ i < n, (raw i).pagesInputPerSec = 0)
    (hdisk : ∀ i < n, (raw i).diskSecondsPerTransfer = 0) :
    NoOtherPressure rt logicalCpus raw diskSaturation start n := by
  intro i hi
  have hpages := pick_of_quiet rt CounterSample.pagesInputPerSec
    (fun k hk => hmemory k (Nat.lt_of_le_of_lt hk hi))
  have hseconds := pick_of_quiet rt CounterSample.diskSecondsPerTransfer
    (fun k hk => hdisk k (Nat.lt_of_le_of_lt hk hi))
  rw [stallAt, judgedAt_eq]
  simp only [toStall, CounterSample.fieldwise, hpages, hseconds, share_zero]
  refine ⟨stallBraced_pos, fun io hio => ?_⟩
  obtain ⟨p, -, rfl⟩ := Option.mem_map.mp hio
  exact stallBraced_pos

/-- A tick is worse than easy exactly when its judged queue is loaded. -/
lemma easy_lt_judgementAt_iff (h : NoOtherPressure rt logicalCpus raw diskSaturation start n)
    (hi : i < n) : .easy < (judgementAt rt logicalCpus raw diskSaturation start i).tier ↔
      Loaded rt logicalCpus
        (judgedAt rt logicalCpus raw diskSaturation start i).processorQueueLength :=
  easy_lt_classify_iff (h i hi).1 (h i hi).2

variable (hother : NoOtherPressure rt logicalCpus raw diskSaturation start n)
  (hbursts : InBursts (fun i => (raw i).processorQueueLength) n)

include hother hbursts

/-- The first four ticks are quiet and so are their medians. -/
lemma judgementAt_quiet_start (hi : i < n) (hstart : i < 4) :
    (judgementAt rt logicalCpus raw diskSaturation start i).tier = .easy := by
  by_contra hne
  have hload := (easy_lt_judgementAt_iff hother hi).mp (Tier.easy_lt_iff.mpr hne)
  rw [judgedAt_eq, CounterSample.fieldwise] at hload
  dsimp only at hload
  rw [pick_of_quiet] at hload
  · exact not_loaded_zero hload
  · exact fun k hk => hbursts.quiet_start (by omega) (by omega)

/-- A burst of three heavy samples loads four ticks in a row. -/
lemma loaded_of_heavy_burst (hi : i + 4 < n)
    (h₀ : Heavy rt logicalCpus (raw i).processorQueueLength)
    (h₁ : Heavy rt logicalCpus (raw (i + 1)).processorQueueLength)
    (h₂ : Heavy rt logicalCpus (raw (i + 2)).processorQueueLength) :
    ∀ k, i + 1 ≤ k → k ≤ i + 4 →
      .easy < (judgementAt rt logicalCpus raw diskSaturation start k).tier := by
  obtain ⟨hfour, hbefore, hafter⟩ := hbursts.whole (show i + 2 < n by omega) h₀.pos.ne' h₂.pos.ne'
  obtain ⟨i, rfl⟩ : ∃ m, i = m + 4 := ⟨i - 4, by omega⟩
  have hq₂ := hbefore (i + 2) (by omega) (by omega)
  have hq₃ := hbefore (i + 3) (by omega) (by omega)
  have hq₇ := hafter (i + 7) (by omega) (by omega) (by omega)
  have hq₈ := hafter (i + 8) (by omega) (by omega) (by omega)
  have hload (k : ℕ) (hk : k + 3 < n)
      (hnonneg : 3 ≤ ([k, k + 1, k + 2, k + 3].map fun k => (raw k).processorQueueLength).countP
        (0 ≤ ·))
      (hheavy : 2 ≤ ([k, k + 1, k + 2, k + 3].map fun k => (raw k).processorQueueLength).countP
        (Heavy rt logicalCpus)) :
      .easy < (judgementAt rt logicalCpus raw diskSaturation start (k + 3)).tier := by
    rw [easy_lt_judgementAt_iff hother hk, judgedAt_queue]
    exact loaded_pick (by simp) hnonneg hheavy
  intro k hk hk'
  obtain rfl | rfl | rfl | rfl : k = i + 5 ∨ k = i + 6 ∨ k = i + 7 ∨ k = i + 8 := by omega
  · exact hload (i + 2) (by omega) (by simp [hq₂, hq₃, h₀.pos.le, h₁.pos.le])
      (by simp [hq₂, hq₃, h₀, h₁, not_heavy_zero])
  · exact hload (i + 3) (by omega) (by simp [hq₃, h₀.pos.le, h₁.pos.le, h₂.pos.le])
      (by simp [hq₃, h₀, h₁, h₂, not_heavy_zero])
  · exact hload (i + 4) (by omega) (by simp [hq₇, h₀.pos.le, h₁.pos.le, h₂.pos.le])
      (by simp [hq₇, h₀, h₁, h₂, not_heavy_zero])
  · exact hload (i + 5) (by omega) (by simp [hq₇, hq₈, h₁.pos.le, h₂.pos.le])
      (by simp [hq₇, hq₈, h₁, h₂, not_heavy_zero])

omit hbursts in
/-- A loaded tick rests on two loaded samples of its window. -/
lemma pair_of_loaded (hi : i + 3 < n)
    (hload : .easy < (judgementAt rt logicalCpus raw diskSaturation start (i + 3)).tier) :
    ∃ a b, i ≤ a ∧ a < b ∧ b ≤ i + 3 ∧ (raw a).processorQueueLength ≠ 0 ∧
      (raw b).processorQueueLength ≠ 0 := by
  rw [easy_lt_judgementAt_iff hother hi, judgedAt_queue] at hload
  have hcount := two_le_countP_pos (by simp) hload
  rw [List.countP_map] at hcount
  obtain ⟨a, b, hsub, ha, hb⟩ := exists_pair_of_two_le_countP
    (p := fun k => 0 < (raw k).processorQueueLength) hcount
  have hlt : [i, i + 1, i + 2, i + 3].Pairwise (· < ·) := by simp
  have hab : a < b := by simpa using hlt.sublist hsub
  have hmem : ∀ k ∈ [a, b], i ≤ k ∧ k ≤ i + 3 := by
    intro k hk
    have hk' := hsub.subset hk
    simp only [List.mem_cons, List.not_mem_nil, or_false] at hk'
    omega
  exact ⟨a, b, (hmem a (by simp)).1, hab, (hmem b (by simp)).2, ha.ne', hb.ne'⟩

/-- Four loaded ticks in a row come from a burst of three heavy samples. -/
lemma heavy_burst_of_loaded (hi : i + 3 < n) (hload : ∀ k, i ≤ k → k ≤ i + 3 →
      .easy < (judgementAt rt logicalCpus raw diskSaturation start k).tier) :
    ∃ i, i + 4 < n ∧ Heavy rt logicalCpus (raw i).processorQueueLength ∧
      Heavy rt logicalCpus (raw (i + 1)).processorQueueLength ∧
      Heavy rt logicalCpus (raw (i + 2)).processorQueueLength := by
  have hfour : 4 ≤ i := by
    by_contra hlt
    exact (hload i le_rfl (by omega)).ne'
      (judgementAt_quiet_start hother hbursts (by omega) (by omega))
  obtain ⟨i, rfl⟩ : ∃ m, i = m + 3 := ⟨i - 3, by omega⟩
  have hfirst := hload (i + 3) (by omega) (by omega)
  have hlast := hload (i + 3 + 3) (by omega) (by omega)
  obtain ⟨a, b, ha, hab, hb, hqa, hqb⟩ := pair_of_loaded hother (by omega) hfirst
  obtain ⟨c, d, hc, hcd, hd, hqc, hqd⟩ := pair_of_loaded hother (by omega) hlast
  obtain ⟨rfl, rfl, -, rfl⟩ := hbursts.around (by omega) hab hcd ha hb hc (by omega) hqa hqb hqc hqd
  obtain ⟨-, hbefore, hafter⟩ := hbursts.whole (show i + 2 + 2 < n by omega) hqa hqd
  have hq₀ := hbefore i (by omega) (by omega)
  have hq₁ := hbefore (i + 1) (by omega) (by omega)
  have hq₅ := hafter (i + 5) (by omega) (by omega) (by omega)
  have hq₆ := hafter (i + 6) (by omega) (by omega) (by omega)
  rw [easy_lt_judgementAt_iff hother (by omega), judgedAt_queue] at hfirst hlast
  have hleading (x y : ℚ) : ([0, 0] ++ [x, y]).Perm [0, 0, x, y] := List.Perm.refl _
  have htrailing (x y : ℚ) : ([x, y] ++ [0, 0]).Perm [0, 0, x, y] := List.perm_append_comm
  simp only [List.map_cons, List.map_nil, hq₀, hq₁] at hfirst
  simp only [List.map_cons, List.map_nil, hq₅, hq₆] at hlast
  obtain ⟨h₂, h₃⟩ := heavy_of_loaded_pair (hleading _ _) hfirst
  obtain ⟨-, h₄⟩ := heavy_of_loaded_pair (htrailing _ _) hlast
  exact ⟨i + 2, hi, h₂, h₃, h₄⟩

end Loop

/-- Between bursts of at most three loaded samples the tier stays easy exactly while no
burst of three is heavy throughout and two ticks old. -/
theorem short_bursts_keep_easy_iff (rt : Runtime) (logicalCpus : ℕ) (raw : ℕ → CounterSample)
    (diskSaturation : ℕ → Option ℚ) (start n : ℕ) (hfits : FitsClock start n)
    (hother : NoOtherPressure rt logicalCpus raw diskSaturation start n)
    (hbursts : InBursts (fun i => (raw i).processorQueueLength) n) :
    (∀ m ≤ n, shownTier rt logicalCpus raw diskSaturation start m = .easy) ↔
      ¬∃ i, i + 4 < n ∧ Heavy rt logicalCpus (raw i).processorQueueLength ∧
        Heavy rt logicalCpus (raw (i + 1)).processorQueueLength ∧
        Heavy rt logicalCpus (raw (i + 2)).processorQueueLength := by
  have hcalm : 0 < n → (judgementAt rt logicalCpus raw diskSaturation start 0).tier = .easy :=
    fun hn => judgementAt_quiet_start hother hbursts hn (by omega)
  simp only [shownTier_eq]
  rw [stays_easy_iff hfits hcalm, not_iff_not]
  constructor
  · rintro ⟨j, hj, hload⟩
    exact heavy_burst_of_loaded hother hbursts hj hload
  · rintro ⟨i, hi, h₀, h₁, h₂⟩
    exact ⟨i + 1, hi, fun k hk hk' =>
      loaded_of_heavy_burst hother hbursts hi h₀ h₁ h₂ k hk (by omega)⟩

/-- A busy sample: thirty-one threads waiting, nothing else. -/
def spike : CounterSample := { CounterSample.default with processorQueueLength := 31 }

/-- Quiet samples, and some busy ones from the fifth on. -/
def burst (length : ℕ) (i : ℕ) : CounterSample :=
  if 4 ≤ i ∧ i < 4 + length then spike else .default

section Burst
variable {length : ℕ} (n : ℕ)

lemma burst_ne_zero_iff {i : ℕ} :
    (burst length i).processorQueueLength ≠ 0 ↔ 4 ≤ i ∧ i < 4 + length := by
  unfold burst
  split_ifs with hi
  · simp [hi, spike]
  · simp [hi, CounterSample.default]

lemma inBursts_burst (hlength : length ≤ 3) :
    InBursts (fun i => (burst length i).processorQueueLength) n := by
  intro i _ hload
  obtain ⟨hfour, hlt⟩ := burst_ne_zero_iff.mp hload
  refine ⟨4, le_rfl, hfour, by omega, fun k _ hk => ?_⟩
  by_contra hquiet
  have := burst_ne_zero_iff.mp hquiet
  omega

lemma noOtherPressure_burst :
    NoOtherPressure .ieee 16 (burst length) (fun _ => some (1 / 100)) 0 n := by
  apply noOtherPressure_of_quiet <;> intro i _ <;> unfold burst <;> split_ifs <;> rfl

end Burst

/-- A burst of three samples turns the tier, two ticks after it is over. -/
theorem burst_of_three_moves_tier :
    InBursts (fun i => (burst 3 i).processorQueueLength) 9 ∧
      NoOtherPressure .ieee 16 (burst 3) (fun _ => some (1 / 100)) 0 9 ∧
      ¬∀ m ≤ 9, shownTier .ieee 16 (burst 3) (fun _ => some (1 / 100)) 0 m = .easy := by
  refine ⟨inBursts_burst 9 le_rfl, noOtherPressure_burst 9, fun h => ?_⟩
  have hmoved : shownTier .ieee 16 (burst 3) (fun _ => some (1 / 100)) 0 9 = .strained := by
    decide +kernel
  exact absurd (hmoved ▸ h 9 le_rfl) (by decide)

/-- A burst of two does not. -/
theorem burst_of_two_keeps_easy :
    shownTier .ieee 16 (burst 2) (fun _ => some (1 / 100)) 0 9 = .easy := by
  have hfits : FitsClock 0 9 := by
    intro i hi
    simp only [sampleInterval, u64Max]
    omega
  refine (short_bursts_keep_easy_iff .ieee 16 (burst 2) (fun _ => some (1 / 100)) 0 9 hfits
    (noOtherPressure_burst 9) (inBursts_burst 9 (by omega))).mpr ?_ 9 le_rfl
  rintro ⟨i, hi, h₀, -, h₂⟩
  have hfirst := burst_ne_zero_iff.mp h₀.pos.ne'
  have hlast := burst_ne_zero_iff.mp h₂.pos.ne'
  omega

end LoadBear
