import LoadBear.OrderStatistic
import LoadBear.Tier
import Mathlib.Data.List.GetD

/-!
# The performance counters

Judgement rests on the median of a rolling window of samples, field by field, scaled
to the stall signal. Display uses the mean of the same window.
-/
namespace LoadBear

open OrderStatistic

/-- One reading of the performance counters. -/
structure CounterSample where
  processorPerformancePct : ℚ
  processorFrequencyMhz : ℚ
  processorTimePct : ℚ
  processorQueueLength : ℚ
  pagesInputPerSec : ℚ
  availableMbytes : ℚ
  diskSecondsPerTransfer : ℚ
  diskQueueLength : ℚ
  deriving DecidableEq, Repr

/-- The derived `Default`. -/
def CounterSample.default : CounterSample := ⟨0, 0, 0, 0, 0, 0, 0, 0⟩

def windowSamples : ℕ := 4

/-- A rolling window of samples. -/
abbrev SampleWindow := Window CounterSample

namespace SampleWindow

def default : SampleWindow := .new windowSamples

def isSettled (w : SampleWindow) : Bool := w.samples.length = w.capacity

end SampleWindow

variable (rt : Runtime)

/-- The average of two values as the median takes it. -/
def mean (a b : ℚ) : ℚ := rt.f64 (rt.f64 (a + b) / 2)

/-- The value in the middle, or the mean of the two there. -/
def pick (values : List ℚ) : ℚ :=
  let values := ordered values
  let mid := values.length / 2
  if values.length % 2 = 0 then mean rt (values.getD (mid - 1) 0) (values.getD mid 0)
  else values.getD mid 0

/-- A sample put together field by field. -/
def CounterSample.fieldwise (pick : (CounterSample → ℚ) → ℚ) : CounterSample :=
  { processorPerformancePct := pick processorPerformancePct
    processorFrequencyMhz := pick processorFrequencyMhz
    processorTimePct := pick processorTimePct
    processorQueueLength := pick processorQueueLength
    pagesInputPerSec := pick pagesInputPerSec
    availableMbytes := pick availableMbytes
    diskSecondsPerTransfer := pick diskSecondsPerTransfer
    diskQueueLength := pick diskQueueLength }

/-- The median of every sample held, each field taken independently. -/
def SampleWindow.median (w : SampleWindow) : Option CounterSample :=
  if w.samples = [] then none
  else some (.fieldwise fun f => pick rt (w.samples.map f))

/-- The sum of the values in their order, divided by their number. -/
def averageOf (values : List ℚ) : ℚ :=
  rt.f64 (values.foldl (fun sum value => rt.f64 (sum + value)) 0 / values.length)

/-- The mean of every sample held. -/
def SampleWindow.average (w : SampleWindow) : Option CounterSample :=
  if w.samples = [] then none
  else some (.fieldwise fun f => averageOf rt (w.samples.map f))

def pagesInputSaturated : ℚ := 20000

/-- The share of its saturation point that a counter has reached, between 0 and 1. -/
def share (saturated value : ℚ) : ℚ := rt.f32 (max 0 (min 1 (rt.f64 (value / saturated))))

/-- The processors the run queue is spread over. -/
def cpus (logicalCpus : ℕ) : ℚ := max logicalCpus 1

/-- Convert a sample into a normalized stall signal. -/
def toStall (s : CounterSample) (logicalCpus : ℕ) (diskSaturation : Option ℚ) : StallSignal :=
  { cpu := share rt (cpus logicalCpus) s.processorQueueLength
    memory := share rt pagesInputSaturated s.pagesInputPerSec
    io := (diskSaturation.filter (0 < ·)).map fun p => share rt p s.diskSecondsPerTransfer }

/-- What the sampling loop carries from one tick to the next. -/
structure Sampler where
  window : SampleWindow
  tracker : TierTracker

namespace Sampler

def default : Sampler := ⟨.default, .default⟩

/-- The sample judgement uses, given the window with the raw one in it. -/
def judged (window : SampleWindow) (raw : CounterSample) : CounterSample :=
  (window.median rt).getD raw

/-- One tick of the loop. -/
def tick (s : Sampler) (verdicts : List Verdict) (logicalCpus : ℕ) (raw : CounterSample)
    (diskSaturation : Option ℚ) (nowMs : ℕ) : Sampler :=
  let window := s.window.push raw
  let stall := toStall rt (judged rt window raw) logicalCpus diskSaturation
  { window := window
    tracker := s.tracker.observe (classify rt verdicts stall) nowMs }

end Sampler

section Share
variable {rt} {saturated value : ℚ}

lemma share_mono (h : 0 ≤ saturated) : Monotone (share rt saturated) := by
  intro a b hab
  refine rt.f32.mono (max_le_max_left _ (min_le_min_left _ (rt.f64.mono ?_)))
  exact div_le_div_of_nonneg_right hab h

@[simp] theorem share_zero : share rt saturated 0 = 0 := by simp [share]

lemma stallBraced_pos : 0 < stallBraced rt := by
  have hquarter : rt.f32 (1 / 4) = 1 / 4 := by
    have h := rt.f32.dyadic 1 2 (by norm_num) (by norm_num)
    norm_num at h ⊢
    exact h
  calc (0 : ℚ) < 1 / 4 := by norm_num
    _ = rt.f32 (1 / 4) := hquarter.symm
    _ ≤ stallBraced rt := rt.f32.mono (by norm_num)

variable (rt) in
lemma stallBraced_le_stallStrained : stallBraced rt ≤ stallStrained rt := rt.f32.mono (by norm_num)

lemma easy_lt_stallTier_iff (level : ℚ) : .easy < stallTier rt level ↔ stallBraced rt ≤ level := by
  have hle := stallBraced_le_stallStrained rt
  unfold stallTier
  split_ifs with hstrained hbraced
  · exact ⟨fun _ => hle.trans hstrained, fun _ => by decide⟩
  · exact ⟨fun _ => hbraced, fun _ => by decide⟩
  · simp [hbraced]

/-- A machine without verdicts is judged by its stall alone. -/
lemma classify_nil_tier (stall : StallSignal) :
    (classify rt [] stall).tier = stallTier rt stall.worst.2 := by
  have hverdicts : ((worstVerdict []).map fun v => v.severity.tier).getD .easy = .easy := rfl
  unfold classify
  dsimp only
  rw [hverdicts]
  by_cases h : stallTier rt stall.worst.2 ≤ .easy
  · rw [if_pos h]
    exact le_antisymm (Tier.easy_le _) h
  · rw [if_neg h]

/-- With nothing else at its threshold, the processors alone decide about a window. -/
lemma easy_lt_classify_iff {stall : StallSignal} (hmemory : stall.memory < stallBraced rt)
    (hio : ∀ io ∈ stall.io, io < stallBraced rt) :
    .easy < (classify rt [] stall).tier ↔ stallBraced rt ≤ stall.cpu := by
  rw [classify_nil_tier, easy_lt_stallTier_iff, StallSignal.worst]
  cases hsignal : stall.io with
  | none =>
    dsimp only
    split_ifs <;> grind
  | some io =>
    have hlt := hio io hsignal
    dsimp only
    split_ifs <;> grind

end Share

section Loaded
variable (logicalCpus : ℕ)

/-- A queue length that turns the tier on its own. -/
def Loaded (queue : ℚ) : Prop := stallBraced rt ≤ share rt (cpus logicalCpus) queue

/-- A queue length that is still loaded in the mean with a quiet sample. -/
def Heavy (queue : ℚ) : Prop := Loaded rt logicalCpus (mean rt 0 queue)

instance : DecidablePred (Loaded rt logicalCpus) := fun _ => inferInstanceAs (Decidable (_ ≤ _))

instance : DecidablePred (Heavy rt logicalCpus) := fun queue =>
  inferInstanceAs (Decidable (Loaded rt logicalCpus (mean rt 0 queue)))

variable {rt logicalCpus}

lemma cpus_pos : 0 < cpus logicalCpus := by
  unfold cpus
  positivity

lemma mean_mono {a b a' b' : ℚ} (ha : a ≤ a') (hb : b ≤ b') : mean rt a b ≤ mean rt a' b' := by
  refine rt.f64.mono (div_le_div_of_nonneg_right (rt.f64.mono ?_) (by norm_num))
  exact add_le_add ha hb

@[simp] theorem mean_zero_zero : mean rt 0 0 = 0 := by simp [mean]

theorem Loaded.mono : Monotone (Loaded rt logicalCpus) := fun _ _ hab h =>
  h.trans (share_mono cpus_pos.le hab)

theorem Heavy.mono : Monotone (Heavy rt logicalCpus) := fun _ _ hab h =>
  Loaded.mono (mean_mono le_rfl hab) h

lemma not_loaded_zero : ¬Loaded rt logicalCpus 0 := by
  rw [Loaded, share_zero]
  exact stallBraced_pos.not_ge

lemma Heavy.pos {queue : ℚ} (h : Heavy rt logicalCpus queue) : 0 < queue := by
  by_contra hle
  have hmean := Heavy.mono (not_lt.mp hle) h
  rw [Heavy, mean_zero_zero] at hmean
  exact not_loaded_zero hmean

lemma not_heavy_zero : ¬Heavy rt logicalCpus 0 := fun h => h.pos.false

section Middle
variable {values : List ℚ}

lemma lt_mono : Monotone fun value : ℚ => 0 < value := fun _ _ hab h => h.trans_le hab

lemma le_mono : Monotone fun value : ℚ => 0 ≤ value := fun _ _ hab h => h.trans hab

/-- The median of nothing but zeros. -/
lemma pick_of_zeros (h : ∀ v ∈ values, v = 0) : pick rt values = 0 := by
  have hget (k : ℕ) : (ordered values)[k]?.getD 0 = 0 := by
    cases hk : (ordered values)[k]? with
    | none => rfl
    | some v => exact h v ((ordered_perm values).mem_iff.mp (List.mem_of_getElem? hk))
  simp [pick, hget]

variable (rt) in
/-- The median is the value in the middle or the mean of the two there. -/
lemma pick_cases (h : values ≠ []) : ∃ hmid : values.length / 2 < (ordered values).length,
    pick rt values = (ordered values)[values.length / 2] ∨
      ∃ hlow : values.length / 2 - 1 < (ordered values).length, values.length % 2 = 0 ∧
        (ordered values)[values.length / 2 - 1] ≤ (ordered values)[values.length / 2] ∧
        pick rt values =
          mean rt (ordered values)[values.length / 2 - 1] (ordered values)[values.length / 2] := by
  have hpos := List.length_pos_iff.mpr h
  have hmid : values.length / 2 < (ordered values).length := by
    rw [length_ordered]
    omega
  have hpick : pick rt values = if values.length % 2 = 0 then
      mean rt ((ordered values).getD (values.length / 2 - 1) 0)
        ((ordered values).getD (values.length / 2) 0)
      else (ordered values).getD (values.length / 2) 0 := by
    simp only [pick, length_ordered]
  refine ⟨hmid, ?_⟩
  rw [hpick, List.getD_eq_getElem _ _ hmid]
  split_ifs with heven
  · have hlow : values.length / 2 - 1 < (ordered values).length := by omega
    have hsorted := List.pairwise_iff_getElem.mp (pairwise_ordered values) _ _ hlow hmid (by omega)
    exact .inr ⟨hlow, heven, hsorted, by rw [List.getD_eq_getElem _ _ hlow]⟩
  · exact .inl rfl

lemma ne_nil_of_majority {p : ℚ → Prop} [DecidablePred p]
    (h : values.length < 2 * values.countP p) : values ≠ [] := by
  rintro rfl
  simp at h

/-- What most of the values have, and all larger ones, the median has too, if the mean of such a
value with itself has it. -/
theorem pick_of_majority {p q : ℚ → Prop} [DecidablePred p] (hp : Monotone p) (hq : Monotone q)
    (hpq : ∀ a, p a → q a ∧ q (mean rt a a)) (h : values.length < 2 * values.countP p) :
    q (pick rt values) := by
  have hcount := List.countP_le_length (p := fun v => decide (p v)) (l := values)
  obtain ⟨hmid, hpick | ⟨hlow, heven, hsorted, hpick⟩⟩ := pick_cases rt (ne_nil_of_majority h)
  · rw [hpick]
    exact (hpq _ ((getElem_ordered_iff values hp hmid).mpr (by omega))).1
  · have hlower : p (ordered values)[values.length / 2 - 1] :=
      (getElem_ordered_iff values hp hlow).mpr (by omega)
    rw [hpick]
    exact hq (mean_mono le_rfl hsorted) (hpq _ hlower).2

/-- And so with what all smaller ones have. -/
theorem pick_of_majority_below {p q : ℚ → Prop} [DecidablePred p] (hp : Antitone p)
    (hq : Antitone q) (hpq : ∀ a, p a → q a ∧ q (mean rt a a))
    (h : values.length < 2 * values.countP p) : q (pick rt values) := by
  obtain ⟨hmid, hcases⟩ := pick_cases rt (ne_nil_of_majority h)
  have hupper : p (ordered values)[values.length / 2] := by
    by_contra hnot
    have hmono : Monotone fun v => ¬p v := fun _ _ hab hn hb => hn (hp hab hb)
    have hfew := (getElem_ordered_iff values hmono hmid).mp hnot
    have hsplit := List.length_eq_countP_add_countP (fun v => decide (p v)) (l := values)
    simp only [decide_eq_true_eq] at hsplit
    omega
  rcases hcases with hpick | ⟨hlow, -, hsorted, hpick⟩
  · rw [hpick]
    exact (hpq _ hupper).1
  · rw [hpick]
    exact hq (mean_mono hsorted le_rfl) (hpq _ hupper).2

variable (rt) in
/-- Of four values the median is the mean of the second and the third. -/
lemma pick_of_length_four (h : values.length = 4) : ∃ (h₁ : 1 < (ordered values).length)
    (h₂ : 2 < (ordered values).length),
      pick rt values = mean rt (ordered values)[1] (ordered values)[2] := by
  have hlength : (ordered values).length = 4 := by rw [length_ordered, h]
  refine ⟨by omega, by omega, ?_⟩
  simp [pick, hlength]

/-- A loaded median needs two samples that are not quiet. -/
theorem two_le_countP_pos (h : values.length = 4) (hload : Loaded rt logicalCpus (pick rt values)) :
    2 ≤ values.countP (0 < ·) := by
  obtain ⟨h₁, h₂, hpick⟩ := pick_of_length_four rt h
  have hpos : (0 : ℚ) < (ordered values)[2] := by
    by_contra hle
    have hsecond := (List.pairwise_iff_getElem.mp (pairwise_ordered values)) 1 2 h₁ h₂ (by omega)
    rw [hpick] at hload
    have hzero := Loaded.mono (mean_mono (hsecond.trans (not_lt.mp hle)) (not_lt.mp hle)) hload
    rw [mean_zero_zero] at hzero
    exact not_loaded_zero hzero
  have hcount := (getElem_ordered_iff values lt_mono h₂).mp hpos
  omega

/-- With only two such samples, both must be heavy. -/
theorem two_le_countP_heavy (h : values.length = 4) (hquiet : values.countP (0 < ·) ≤ 2)
    (hload : Loaded rt logicalCpus (pick rt values)) :
    2 ≤ values.countP (Heavy rt logicalCpus) := by
  obtain ⟨h₁, h₂, hpick⟩ := pick_of_length_four rt h
  have hsecond : (ordered values)[1] ≤ (0 : ℚ) := by
    by_contra hlt
    have hcount := (getElem_ordered_iff values lt_mono h₁).mp (not_le.mp hlt)
    omega
  rw [hpick] at hload
  have hheavy : Heavy rt logicalCpus (ordered values)[2] :=
    Loaded.mono (mean_mono hsecond le_rfl) hload
  have hcount := (getElem_ordered_iff values Heavy.mono h₂).mp hheavy
  omega

/-- So where two samples are quiet the other two are heavy. -/
theorem heavy_of_loaded_pair {x y : ℚ} (hperm : values.Perm [0, 0, x, y])
    (hload : Loaded rt logicalCpus (pick rt values)) :
    Heavy rt logicalCpus x ∧ Heavy rt logicalCpus y := by
  have hquiet : values.countP (0 < ·) ≤ 2 := by
    rw [hperm.countP_eq]
    simpa using List.countP_le_length (p := fun v : ℚ => 0 < v) (l := [x, y])
  have hcount := two_le_countP_heavy hperm.length_eq hquiet hload
  rw [hperm.countP_eq] at hcount
  have hboth : [x, y].countP (Heavy rt logicalCpus) = [x, y].length :=
    le_antisymm List.countP_le_length (by simpa [not_heavy_zero] using hcount)
  simpa using List.countP_eq_length.mp hboth

/-- Two heavy samples load the median where at most one value is below zero. -/
theorem loaded_pick (h : values.length = 4) (hnonneg : 3 ≤ values.countP (0 ≤ ·))
    (hheavy : 2 ≤ values.countP (Heavy rt logicalCpus)) :
    Loaded rt logicalCpus (pick rt values) := by
  obtain ⟨h₁, h₂, hpick⟩ := pick_of_length_four rt h
  have hsecond : (0 : ℚ) ≤ (ordered values)[1] :=
    (getElem_ordered_iff values le_mono h₁).mpr (by omega)
  have hthird : Heavy rt logicalCpus (ordered values)[2] :=
    (getElem_ordered_iff values Heavy.mono h₂).mpr (by omega)
  rw [hpick]
  exact Loaded.mono (mean_mono hsecond le_rfl) hthird

end Middle

end Loaded
end LoadBear
