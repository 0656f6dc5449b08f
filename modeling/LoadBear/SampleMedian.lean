import LoadBear.Binary64
import LoadBear.Counters

/-!
# The median of the sampling window

The window of samples with double precision values, specials included. A minority of outliers cannot
move the median of a counter out of where the majority is. Of an even number of values the
median halves a sum, and that sum can overflow.
-/
namespace LoadBear

open OrderStatistic Double

/-- The figures of a sample. -/
inductive Counter
  | processorPerformancePct
  | processorFrequencyMhz
  | processorTimePct
  | processorQueueLength
  | pagesInputPerSec
  | availableMbytes
  | diskSecondsPerTransfer
  | diskQueueLength
  deriving DecidableEq, Repr

/-- One reading of the performance counters, as they come. -/
structure RawSample where
  processorPerformancePct : Double
  processorFrequencyMhz : Double
  processorTimePct : Double
  processorQueueLength : Double
  pagesInputPerSec : Double
  availableMbytes : Double
  diskSecondsPerTransfer : Double
  diskQueueLength : Double
  deriving DecidableEq

namespace RawSample

def figure (s : RawSample) : Counter → Double
  | .processorPerformancePct => s.processorPerformancePct
  | .processorFrequencyMhz => s.processorFrequencyMhz
  | .processorTimePct => s.processorTimePct
  | .processorQueueLength => s.processorQueueLength
  | .pagesInputPerSec => s.pagesInputPerSec
  | .availableMbytes => s.availableMbytes
  | .diskSecondsPerTransfer => s.diskSecondsPerTransfer
  | .diskQueueLength => s.diskQueueLength

/-- A sample put together counter by counter. -/
def fieldwise (pick : Counter → Double) : RawSample :=
  { processorPerformancePct := pick .processorPerformancePct
    processorFrequencyMhz := pick .processorFrequencyMhz
    processorTimePct := pick .processorTimePct
    processorQueueLength := pick .processorQueueLength
    pagesInputPerSec := pick .pagesInputPerSec
    availableMbytes := pick .availableMbytes
    diskSecondsPerTransfer := pick .diskSecondsPerTransfer
    diskQueueLength := pick .diskQueueLength }

@[simp] theorem figure_fieldwise (pick : Counter → Double) (c : Counter) :
    (fieldwise pick).figure c = pick c := by cases c <;> rfl

end RawSample

/-- The value in the middle, or half the sum of the two there. -/
def middleOf (values : List Double) : Double :=
  let values := ordered values
  let mid := values.length / 2
  if values.length % 2 = 0 then half (add (values.getD (mid - 1) zero) (values.getD mid zero))
  else values.getD mid zero

/-- A rolling window of samples. -/
abbrev RawWindow := Window RawSample

/-- The median of every sample held, each counter taken independently. -/
def RawWindow.median (w : RawWindow) : Option RawSample :=
  if w.samples = [] then none
  else some (.fieldwise fun c => middleOf (w.samples.map (·.figure c)))

section Majority
variable (lo hi : ℚ) (values : List Double)

/-- Strictly more than half of the values lie between the bounds. -/
def Majority : Prop := values.length < 2 * values.countP fun v => Between lo hi v

/-- The number of values is even, and the two in the middle have no finite sum. -/
def MiddleOverflows : Prop :=
  values.length % 2 = 0 ∧ ¬(add ((ordered values).getD (values.length / 2 - 1) zero)
    ((ordered values).getD (values.length / 2) zero)).isFinite

instance : DecidablePred MiddleOverflows := fun _ => inferInstanceAs (Decidable (_ ∧ ¬_))

variable {lo hi values}

lemma Majority.ne_nil (h : Majority lo hi values) : values ≠ [] := by
  rintro rfl
  simp [Majority] at h

/-- A place that the majority surrounds is between its bounds. -/
lemma between_getD_ordered {k : ℕ} (hk : k < values.length)
    (hlow : values.length - k ≤ values.countP fun v => Between lo hi v)
    (hhigh : k < values.countP fun v => Between lo hi v) :
    Between lo hi ((ordered values).getD k zero) := by
  have hlength : k < (ordered values).length := by rwa [length_ordered]
  have hbetween := between_getElem_ordered (f := key) key_mono hlength hlow hhigh
  rw [List.getD_eq_getElem?_getD, List.getElem?_eq_getElem hlength, Option.getD_some]
  exact hbetween

/-- The median is where the majority is, unless its sum overflows. -/
theorem between_middleOf_iff (h : Majority lo hi values) :
    Between lo hi (middleOf values) ↔ ¬MiddleOverflows values := by
  have hpos := List.length_pos_iff.mpr h.ne_nil
  unfold Majority at h
  unfold middleOf MiddleOverflows
  simp only [length_ordered]
  split_ifs with heven
  · have hleft : Between lo hi ((ordered values).getD (values.length / 2 - 1) zero) :=
      between_getD_ordered (by omega) (by omega) (by omega)
    have hright : Between lo hi ((ordered values).getD (values.length / 2) zero) :=
      between_getD_ordered (by omega) (by omega) (by omega)
    simp only [heven, true_and, not_not]
    constructor
    · intro hbetween
      by_contra hover
      exact not_between_of_not_isFinite (half_of_not_isFinite hover) hbetween
    · exact between_half_add hleft hright
  · have hmiddle : Between lo hi ((ordered values).getD (values.length / 2) zero) :=
      between_getD_ordered (by omega) (by omega) (by omega)
    simp only [heven, false_and, not_false_eq_true, iff_true]
    exact hmiddle

end Majority

section Window
variable (capacity : ℕ) (raws : List RawSample) (c : Counter) (lo hi : ℚ)

/-- A new window after some samples were pushed. -/
def windowAfter : RawWindow := raws.foldl Window.push (.new capacity)

/-- What the window holds of a counter. -/
def heldFigures : List Double := (raws.rtake (max capacity 1)).map (·.figure c)

/-- The window holds the last samples in order, and where most of them have the counter
between two bounds the median has it there too. -/
structure MedianSteady : Prop where
  held : (windowAfter capacity raws).samples = raws.rtake (max capacity 1)
  median : Majority lo hi ((windowAfter capacity raws).samples.map (·.figure c)) →
    ∃ m, (windowAfter capacity raws).median = some m ∧ Between lo hi (m.figure c)

/-- A minority moves no median, exactly unless the two middle values are too large to add. -/
theorem medianSteady_iff : MedianSteady capacity raws c lo hi ↔
    (Majority lo hi (heldFigures capacity raws c) →
      ¬MiddleOverflows (heldFigures capacity raws c)) := by
  have hheld : (windowAfter capacity raws).samples = raws.rtake (max capacity 1) :=
    Window.foldl_push_samples raws capacity
  have hmedian (hmajority : Majority lo hi (heldFigures capacity raws c)) :
      (∃ m, (windowAfter capacity raws).median = some m ∧ Between lo hi (m.figure c)) ↔
        ¬MiddleOverflows (heldFigures capacity raws c) := by
    have hne : raws.rtake (max capacity 1) ≠ [] := fun hnil =>
      hmajority.ne_nil (by rw [heldFigures, hnil, List.map_nil])
    rw [← between_middleOf_iff hmajority, RawWindow.median, hheld, if_neg hne]
    simp [heldFigures]
  constructor
  · intro h hmajority
    have hsteady := h.median
    rw [hheld] at hsteady
    exact (hmedian hmajority).mp (hsteady hmajority)
  · intro h
    refine ⟨hheld, fun hmajority => ?_⟩
    rw [hheld] at hmajority
    exact (hmedian hmajority).mpr (h hmajority)

end Window

/-- A sample with the largest finite value everywhere. -/
def largestSample : RawSample := .fieldwise fun _ => largest

/-- Two of them have an infinite median. -/
theorem largest_samples_overflow :
    (windowAfter 4 [largestSample, largestSample]).median =
        some (.fieldwise fun _ => .infinite false) ∧
      ¬MedianSteady 4 [largestSample, largestSample] .processorTimePct
        ((2 ^ 53 - 1) * 2 ^ 971) ((2 ^ 53 - 1) * 2 ^ 971) := by
  have hmedian : (windowAfter 4 [largestSample, largestSample]).median =
      some (.fieldwise fun _ => .infinite false) := by decide +kernel
  refine ⟨hmedian, fun h => ?_⟩
  obtain ⟨m, hm, hbetween⟩ := h.median (by unfold Majority; decide +kernel)
  rw [hmedian] at hm
  obtain rfl := Option.some.inj hm
  exact not_between_of_not_isFinite (by simp [isFinite]) hbetween

section Rational

/-- The number a value denotes, and zero for the specials. -/
def RawSample.toSample (s : RawSample) : CounterSample :=
  { processorPerformancePct := s.processorPerformancePct.toRat
    processorFrequencyMhz := s.processorFrequencyMhz.toRat
    processorTimePct := s.processorTimePct.toRat
    processorQueueLength := s.processorQueueLength.toRat
    pagesInputPerSec := s.pagesInputPerSec.toRat
    availableMbytes := s.availableMbytes.toRat
    diskSecondsPerTransfer := s.diskSecondsPerTransfer.toRat
    diskQueueLength := s.diskQueueLength.toRat }

variable {values : List Double}

lemma ordered_map_toRat (h : ∀ v ∈ values, v.isFinite) :
    ordered (values.map toRat) = (ordered values).map toRat := by
  refine (List.map_insertionSort _ _ toRat values fun a ha b hb => ?_).symm
  exact toRat_le_iff (h a ha) (h b hb)

lemma getD_map_toRat (values : List Double) (k : ℕ) :
    (values.map toRat).getD k 0 = (values.getD k zero).toRat := by
  rw [List.getD_eq_getElem?_getD, List.getD_eq_getElem?_getD, List.getElem?_map]
  cases values[k]? <;> rfl

lemma getD_isFinite (h : ∀ v ∈ values, v.isFinite) (k : ℕ) :
    ((ordered values).getD k zero).isFinite := by
  rw [List.getD_eq_getElem?_getD]
  cases hk : (ordered values)[k]? with
  | none => rfl
  | some v => exact h v ((ordered_perm values).mem_iff.mp (List.mem_of_getElem? hk))

/-- Away from the specials this is the median of the numbers. -/
theorem toRat_middleOf (h : ∀ v ∈ values, v.isFinite) (hover : ¬MiddleOverflows values) :
    (middleOf values).toRat = pick .ieee (values.map toRat) := by
  unfold MiddleOverflows at hover
  unfold middleOf pick
  simp only [ordered_map_toRat h, List.length_map, length_ordered, getD_map_toRat]
  split_ifs with heven
  · exact toRat_half_add (getD_isFinite h _) (getD_isFinite h _)
      (by simpa [heven] using hover)
  · rfl

/-- The median of each counter is then the one of the numbers, rounded where doubles round. -/
lemma toSample_fieldwise {samples : List RawSample}
    (hfinite : ∀ s ∈ samples, ∀ c, (s.figure c).isFinite)
    (hover : ∀ c, ¬MiddleOverflows (samples.map (·.figure c))) :
    (RawSample.fieldwise fun c => middleOf (samples.map (·.figure c))).toSample =
      .fieldwise fun f => pick .ieee ((samples.map RawSample.toSample).map f) := by
  have hmiddle (c : Counter) : (middleOf (samples.map (·.figure c))).toRat =
      pick .ieee (samples.map fun s => (s.figure c).toRat) := by
    rw [toRat_middleOf _ (hover c), List.map_map]
    · rfl
    · intro v hv
      obtain ⟨s, hs, rfl⟩ := List.mem_map.mp hv
      exact hfinite s hs c
  simp only [RawSample.toSample, RawSample.fieldwise, CounterSample.fieldwise, hmiddle,
    List.map_map]
  rfl

/-- So is the median of a window after any samples, if those it holds are finite and no sum of
two middle values overflows. -/
theorem median_windowAfter (capacity : ℕ) (raws : List RawSample)
    (hfinite : ∀ s ∈ raws.rtake (max capacity 1), ∀ c, (s.figure c).isFinite)
    (hover : ∀ c, ¬MiddleOverflows (heldFigures capacity raws c)) :
    (windowAfter capacity raws).median.map RawSample.toSample =
      SampleWindow.median .ieee ((raws.map RawSample.toSample).foldl .push (.new capacity)) := by
  have hheld : (windowAfter capacity raws).samples = raws.rtake (max capacity 1) :=
    Window.foldl_push_samples raws capacity
  have hnumbers : ((raws.map RawSample.toSample).foldl Window.push (.new capacity)).samples =
      (raws.rtake (max capacity 1)).map RawSample.toSample := by
    rw [Window.foldl_push_samples, List.rtake, List.rtake, List.map_drop, List.length_map]
  rw [RawWindow.median, SampleWindow.median, hheld, hnumbers]
  by_cases hnil : raws.rtake (max capacity 1) = []
  · simp [hnil]
  · rw [if_neg hnil, if_neg (by simpa using hnil), Option.map_some,
      toSample_fieldwise hfinite hover]

/-- Five samples, the last four of them with the largest value twice and zero twice. -/
def halfLargest : List RawSample :=
  [largestSample, largestSample, .fieldwise fun _ => zero, largestSample, .fieldwise fun _ => zero]

theorem median_halfLargest :
    (windowAfter 4 halfLargest).median.map RawSample.toSample =
      SampleWindow.median .ieee
        ((halfLargest.map RawSample.toSample).foldl .push (.new 4)) := by
  refine median_windowAfter 4 halfLargest (fun s hs c => ?_) fun c => ?_
  · have heach : ∀ s ∈ halfLargest, s = largestSample ∨ s = .fieldwise fun _ => zero := by
      simp [halfLargest]
    rcases heach s ((List.drop_sublist _ _).mem hs) with rfl | rfl
    · cases c <;> rfl
    · cases c <;> rfl
  · cases c <;> decide +kernel

end Rational
end LoadBear
