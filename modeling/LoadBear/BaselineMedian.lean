import LoadBear.DiskBaseline
import LoadBear.Types

/-!
# The disk's normal latency

Once enough quiet latencies are held the upper median of them is what the disk normally
does, and ten times that counts as saturated. Of a full window the median is where the last
257 latencies are, so a replaced disk is relearned by then and fewer than that move nothing.
-/
namespace LoadBear

open OrderStatistic

namespace F64

/-- `partial_cmp`, which no NaN takes part in. -/
def partialCmp : F64 → F64 → Option Ordering
  | nan, _ | _, nan => none
  | infinite s, infinite t => some (compare t s)
  | infinite s, finite _ => some (if s then .lt else .gt)
  | finite _, infinite t => some (if t then .gt else .lt)
  | finite p, finite q => some (compare p q)

/-- The comparison `<=`. -/
def le (a b : F64) : Prop := a.partialCmp b = some .lt ∨ a.partialCmp b = some .eq

variable (rt : Runtime)

/-- The product with a positive number, an infinity where it is out of range. -/
def times (ratio : ℚ) : F64 → F64
  | nan => nan
  | infinite negative => infinite negative
  | finite q =>
    if |rt.f64 (q * ratio)| < 2 ^ 1024 then finite (rt.f64 (q * ratio))
    else infinite (q < 0)

variable {rt} {p q ratio : ℚ}

/-- A larger value has the larger product. -/
lemma times_le_times (hratio : 0 < ratio) (hp : 0 < p) (hpq : p ≤ q) :
    (times rt ratio (finite p)).le (times rt ratio (finite q)) := by
  have hmono : rt.f64 (p * ratio) ≤ rt.f64 (q * ratio) :=
    rt.f64.mono (mul_le_mul_of_nonneg_right hpq hratio.le)
  have hnonneg : 0 ≤ rt.f64 (p * ratio) := by
    rw [← rt.f64.zero]
    exact rt.f64.mono (by positivity)
  have hsign : ¬p < 0 ∧ ¬q < 0 := ⟨hp.not_gt, (hp.trans_le hpq).not_gt⟩
  rw [le, times, times, abs_of_nonneg hnonneg, abs_of_nonneg (hnonneg.trans hmono)]
  split_ifs with hsmall hsmall' hsmall'
  · rcases hmono.lt_or_eq with hlt | heq
    · simp [partialCmp, compare_lt_iff_lt, hlt]
    · simp [partialCmp, heq]
  · simp [partialCmp, hsign]
  · exact absurd (hmono.trans_lt hsmall') hsmall
  · simp [partialCmp, hsign]

end F64

/-- How many qualifying samples make a baseline worth trusting. -/
def minSamples : ℕ := 120

/-- How many times its own normal latency a saturated disk answers in. -/
def saturationRatio : ℚ := 10

namespace DiskBaseline

/-- The samples as they are sorted, any two that do not compare counting as equal. -/
def sorted (samples : List F64) : List F64 :=
  samples.insertionSort fun a b => (a.partialCmp b).getD .eq ≠ .gt

/-- The median quiet latency, in seconds, once there is enough to say. -/
def median (b : DiskBaseline) : Option F64 :=
  if b.samples.length < minSamples then none
  else
    let sorted := sorted b.samples
    some (sorted.getD (sorted.length / 2) .nan)

/-- The latency at which the disk counts as fully saturated. -/
def saturationPoint (rt : Runtime) (b : DiskBaseline) : Option F64 :=
  b.median.map (F64.times rt saturationRatio)

section Median

lemma sorted_map_finite (values : List ℚ) :
    sorted (values.map .finite) = (ordered values).map .finite := by
  refine (List.map_insertionSort _ _ F64.finite values fun p _ q _ => ?_).symm
  simp [F64.partialCmp, compare_gt_iff_gt]

/-- Every latency is a number. -/
lemma exists_values (b : DiskBaseline) : ∃ values : List ℚ, b.samples = values.map .finite := by
  have h := b.latencies
  generalize b.samples = samples at h ⊢
  induction samples with
  | nil => exact ⟨[], rfl⟩
  | cons v samples ih =>
    obtain ⟨values, rfl⟩ := ih fun w hw => h w (.tail _ hw)
    obtain ⟨q, rfl, -⟩ := h v (.head _)
    exact ⟨q :: values, rfl⟩

/-- There is a median exactly where enough samples are held. -/
theorem median_isSome_iff (b : DiskBaseline) : b.median.isSome ↔ minSamples ≤ b.samples.length := by
  unfold median
  split_ifs with h
  · simp [h]
  · simp [not_lt.mp h]

/-- The median is where enough of the latencies are to hold the upper middle of any number. -/
theorem median_between {b : DiskBaseline} {values : List ℚ} {lo hi : ℚ}
    (hvalues : b.samples = values.map .finite) (henough : minSamples ≤ values.length)
    (hcount : 257 ≤ values.countP fun v => lo ≤ v ∧ v ≤ hi) :
    ∃ m, b.median = some (.finite m) ∧ lo ≤ m ∧ m ≤ hi := by
  have hfits := b.fits
  rw [hvalues, List.length_map, baselineWindow] at hfits
  have hmiddle : values.length / 2 < (ordered values).length := by
    rw [length_ordered]
    unfold minSamples at henough
    omega
  have hbetween : lo ≤ (ordered values)[values.length / 2] ∧
      (ordered values)[values.length / 2] ≤ hi :=
    between_getElem_ordered (f := fun q => q) monotone_id hmiddle (by omega) (by omega)
  refine ⟨(ordered values)[values.length / 2], ?_, hbetween⟩
  unfold median
  rw [hvalues, if_neg (by simpa using henough), sorted_map_finite]
  simp [List.getElem?_eq_getElem hmiddle]

end Median

section Relearning
variable (rt : Runtime)

/-- The latencies that are learned from some samples. -/
def learnedFrom (observed : List DiskFigures) : List F64 :=
  (observed.filter Qualifies).map DiskFigures.secondsPerTransfer

lemma foldl_observe_samples (b : DiskBaseline) (observed : List DiskFigures) :
    (observed.foldl observe b).samples =
      (b.samples ++ learnedFrom observed).rtake baselineWindow := by
  induction observed using List.reverseRecOn with
  | nil => simpa [learnedFrom] using (rtake_eq_self b.fits).symm
  | append_singleton observed s ih =>
    rw [List.foldl_concat]
    by_cases hs : Qualifies s
    · rw [(observe_of_qualifies _ hs).1, ih, push_rtake _ _ _ (by decide)]
      simp [learnedFrom, hs]
    · rw [observe_of_not_qualifies _ hs, ih]
      simp [learnedFrom, hs]

/-- A latency between two bounds. -/
def LatencyBetween (lo hi : ℚ) (v : F64) : Prop := ∃ q, v = .finite q ∧ lo ≤ q ∧ q ≤ hi

/-- The last learned latencies are held, and outnumber the others that a window has room for. -/
lemma count_le_of_last {b : DiskBaseline} {observed : List DiskFigures} {lo hi : ℚ}
    {values : List ℚ} (hvalues : (observed.foldl observe b).samples = values.map .finite)
    (hcount : 257 ≤ (learnedFrom observed).length)
    (hlast : ∀ v ∈ (learnedFrom observed).rtake 257, LatencyBetween lo hi v) :
    257 ≤ values.countP fun v => lo ≤ v ∧ v ≤ hi := by
  have hlearned : (values.rtake 257).map F64.finite = (learnedFrom observed).rtake 257 := by
    rw [← rtake_append b.samples _ hcount,
      ← rtake_rtake (b.samples ++ learnedFrom observed) (by decide : 257 ≤ baselineWindow),
      ← foldl_observe_samples, hvalues, List.rtake, List.rtake, List.map_drop, List.length_map]
  have hall : ∀ v ∈ values.rtake 257, lo ≤ v ∧ v ≤ hi := by
    intro v hv
    obtain ⟨q, hq, hbetween⟩ := hlast (.finite v) (hlearned ▸ List.mem_map_of_mem hv)
    obtain rfl := F64.finite.inj hq
    exact hbetween
  have hlength : (values.rtake 257).length = 257 := by
    rw [← List.length_map F64.finite, hlearned, List.rtake, List.length_drop]
    omega
  calc 257 = (values.rtake 257).countP fun v => lo ≤ v ∧ v ≤ hi := by
        rw [List.countP_eq_length.mpr (by simpa using hall), hlength]
    _ ≤ values.countP fun v => lo ≤ v ∧ v ≤ hi := (List.drop_sublist _ _).countP_le

/-- After 257 qualifying samples between two latencies, whatever was held before and whatever
did not qualify among them, the median is between the two and the saturation point between ten
times each. There is a median exactly where 120 samples are held. -/
theorem relearned :
    (∀ b : DiskBaseline, b.median.isSome ↔ 120 ≤ b.samples.length) ∧
      ∀ (b : DiskBaseline) (observed : List DiskFigures) (lo hi : ℚ), 0 < lo →
        257 ≤ (learnedFrom observed).length →
        (∀ v ∈ (learnedFrom observed).rtake 257, LatencyBetween lo hi v) →
          (∃ m, (observed.foldl observe b).median = some (.finite m) ∧ lo ≤ m ∧ m ≤ hi) ∧
          ∃ s, (observed.foldl observe b).saturationPoint rt = some s ∧
            (F64.times rt 10 (.finite lo)).le s ∧ s.le (F64.times rt 10 (.finite hi)) := by
  refine ⟨median_isSome_iff, fun b observed lo hi hlo hcount hlast => ?_⟩
  obtain ⟨values, hvalues⟩ := exists_values (observed.foldl observe b)
  have hmajority := count_le_of_last hvalues hcount hlast
  have henough : minSamples ≤ values.length := by
    have hlength := List.countP_le_length (p := fun v => decide (lo ≤ v ∧ v ≤ hi)) (l := values)
    unfold minSamples
    omega
  obtain ⟨m, hm, hlow, hhigh⟩ := median_between hvalues henough hmajority
  refine ⟨⟨m, hm, hlow, hhigh⟩, F64.times rt 10 (.finite m), ?_, ?_, ?_⟩
  · rw [saturationPoint, hm]
    rfl
  · exact F64.times_le_times (by norm_num) hlo hlow
  · exact F64.times_le_times (by norm_num) (hlo.trans_le hlow) hhigh

/-- A quiet answer of a fast disk. -/
def fastAnswer : DiskFigures := ⟨.finite (3 / 10000), .finite 0⟩

/-- After 257 of them the median is theirs. -/
theorem relearned_from_fast_answers :
    ∃ m, ((List.replicate 257 fastAnswer).foldl observe new).median = some (.finite m) ∧
      3 / 10000 ≤ m ∧ m ≤ 3 / 10000 := by
  have hqualifies : Qualifies fastAnswer := ⟨⟨3 / 10000, rfl, by norm_num⟩, by decide⟩
  have hlearned : learnedFrom (List.replicate 257 fastAnswer) =
      List.replicate 257 (.finite (3 / 10000)) := by
    rw [learnedFrom, List.filter_replicate_of_pos (by simpa using hqualifies), List.map_replicate]
    rfl
  refine ((relearned .ieee).2 new _ (3 / 10000) (3 / 10000) (by norm_num) ?_ ?_).1
  · rw [hlearned, List.length_replicate]
  · intro v hv
    rw [hlearned] at hv
    have hmem := (List.drop_sublist _ _).mem hv
    exact ⟨3 / 10000, (List.mem_replicate.mp hmem).2, le_rfl, le_rfl⟩

end Relearning

end DiskBaseline
end LoadBear
