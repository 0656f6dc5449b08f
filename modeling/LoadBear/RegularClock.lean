import LoadBear.TrackerRun

/-!
# The tracker on a regular clock

At the sampling interval the escalation window spans four observations, so a calm
start stays easy exactly while no four in a row are worse.
-/
namespace LoadBear

open TimedHistory TierTracker

/-- The sampling interval, in milliseconds. -/
def sampleInterval : ℕ := 500

section Regular
variable (start : ℕ) (judge : ℕ → Assessment)

/-- Observations exactly one sampling interval apart. -/
def regular (n : ℕ) : List (ℕ × Assessment) :=
  (List.range n).map fun i => (start + sampleInterval * i, judge i)

/-- Every sample is taken within the range of the clock. -/
def FitsClock (n : ℕ) : Prop := ∀ i < n, start + sampleInterval * i ≤ u64Max

variable {start judge} {n : ℕ}

lemma regular_succ : regular start judge (n + 1) =
    regular start judge n ++ [(start + sampleInterval * n, judge n)] := by
  simp [regular, List.range_succ]

lemma mem_regular {o : ℕ × Assessment} : o ∈ regular start judge n ↔
    ∃ i < n, (start + sampleInterval * i, judge i) = o := by
  simp [regular]

lemma FitsClock.of_le {m : ℕ} (h : FitsClock start n) (hm : m ≤ n) : FitsClock start m :=
  fun i hi => h i (by omega)

variable (judge) in
lemma wellTimed_regular (h : FitsClock start n) : WellTimed (regular start judge n) := by
  constructor
  · refine List.pairwise_map.mpr (List.pairwise_lt_range.imp fun {i k} hik => ?_)
    simp only [sampleInterval]
    omega
  · intro o ho
    obtain ⟨i, hi, rfl⟩ := mem_regular.mp ho
    exact h i hi

/-- The escalation window spans four observations. -/
lemma mem_window_regular {j : ℕ} {a : Assessment} :
    a ∈ window (regular start judge (j + 4)) (start + sampleInterval * (j + 3)) escalateMs ↔
      ∃ k, j ≤ k ∧ k ≤ j + 3 ∧ judge k = a := by
  simp only [mem_window, mem_regular, Prod.mk.injEq, sampleInterval, escalateMs]
  constructor
  · rintro ⟨t, ⟨i, hi, rfl, rfl⟩, hcutoff⟩
    exact ⟨i, by omega, by omega, rfl⟩
  · rintro ⟨k, hjk, hkj, rfl⟩
    exact ⟨_, ⟨k, by omega, rfl, rfl⟩, by omega⟩

/-- Where the escalation window is covered, it holds the first observation or the
last four. -/
lemma quiet_start_or_full {m : ℕ} (h : ReachesBack escalateMs settleMs
      (regular start judge (m + 1)) (start + sampleInterval * m) escalateMs) :
    judge 0 ∈ window (regular start judge (m + 1)) (start + sampleInterval * m) escalateMs ∨
      ∃ j, m = j + 3 := by
  obtain ⟨a, ha, hkept, hback⟩ := h
  obtain ⟨i, hi, rfl⟩ := mem_regular.mp ha
  simp only [sampleInterval, escalateMs] at hback
  rcases Nat.lt_or_ge m 3 with hm | hm
  · refine .inl (mem_window.mpr ⟨start, mem_regular.mpr ⟨0, by omega, rfl⟩, ?_⟩)
    simp only [sampleInterval, escalateMs]
    omega
  · exact .inr ⟨m - 3, by omega⟩

/-- Four worse observations in a row raise the tier. -/
lemma raised_of_four {j : ℕ} (hfits : FitsClock start (j + 4))
    (heasy : (shownAfter escalateMs settleMs (regular start judge (j + 3))).tier = .easy)
    (hload : ∀ k, j ≤ k → k ≤ j + 3 → .easy < (judge k).tier) :
    .easy < (shownAfter escalateMs settleMs (regular start judge (j + 4))).tier := by
  have hw := wellTimed_regular judge hfits
  have hback : ReachesBack escalateMs settleMs (regular start judge (j + 4))
      (start + sampleInterval * (j + 3)) escalateMs := by
    refine ⟨_, mem_regular.mpr ⟨j, by omega, rfl⟩, ?_, ?_⟩ <;>
      simp only [sampleInterval, escalateMs, settleMs] <;> omega
  have hnow : (start + sampleInterval * (j + 3), judge (j + 3)) ∈ regular start judge (j + 4) :=
    mem_regular.mpr ⟨j + 3, by omega, rfl⟩
  obtain ⟨worse, hleast⟩ := exists_mem_argmin hnow escalateMs
  have hworse : .easy < worse.tier := by
    obtain ⟨k, hjk, hkj, rfl⟩ := mem_window_regular.mp (List.argmin_mem hleast)
    exact hload k hjk hkj
  rw [regular_succ] at hw hback hleast ⊢
  rw [shownAfter_of_escalate hw hback hleast (heasy ▸ hworse)]
  exact hworse

/-- Without them a calm start stays easy over one more observation. -/
lemma stays_easy_step {m : ℕ} (hfits : FitsClock start (m + 1)) (hcalm : (judge 0).tier = .easy)
    (hnone : ∀ j, m = j + 3 → ∃ k, j ≤ k ∧ k ≤ j + 3 ∧ (judge k).tier = .easy)
    (heasy : (shownAfter escalateMs settleMs (regular start judge m)).tier = .easy) :
    (shownAfter escalateMs settleMs (regular start judge (m + 1))).tier = .easy := by
  have hw := wellTimed_regular judge hfits
  by_contra hmoved
  rw [regular_succ] at hw hmoved
  have hup : MovesUp escalateMs settleMs (regular start judge m)
      (start + sampleInterval * m, judge m) := by
    rw [MovesUp, heasy]
    exact Tier.easy_lt_iff.mpr hmoved
  obtain ⟨hback, hleast⟩ := hup.least hw
  rw [MovesUp, heasy] at hup
  rw [← regular_succ] at hback hleast hup
  have hworse : ∀ a ∈ window (regular start judge (m + 1)) (start + sampleInterval * m) escalateMs,
      .easy < a.tier := fun a ha => hup.trans_le (List.le_of_mem_argmin ha hleast)
  rcases quiet_start_or_full hback with hstart | ⟨j, rfl⟩
  · exact (hworse _ hstart).ne' hcalm
  · obtain ⟨k, hjk, hkj, hk⟩ := hnone j rfl
    exact (hworse _ (mem_window_regular.mpr ⟨k, hjk, hkj, rfl⟩)).ne' hk

/-- On a regular clock a calm start stays easy exactly when no four observations in a
row are worse. -/
theorem stays_easy_iff (hfits : FitsClock start n) (hcalm : 0 < n → (judge 0).tier = .easy) :
    (∀ m ≤ n, (shownAfter escalateMs settleMs (regular start judge m)).tier = .easy) ↔
      ¬∃ j, j + 3 < n ∧ ∀ k, j ≤ k → k ≤ j + 3 → .easy < (judge k).tier := by
  constructor
  · rintro heasy ⟨j, hj, hload⟩
    exact (raised_of_four (hfits.of_le (by omega)) (heasy (j + 3) (by omega)) hload).ne'
      (heasy (j + 4) (by omega))
  · intro hnone m hm
    induction m with
    | zero => rfl
    | succ m ih =>
      refine stays_easy_step (hfits.of_le hm) (hcalm (by omega)) ?_ (ih (by omega))
      rintro j rfl
      by_contra hload
      push Not at hload
      exact hnone ⟨j, by omega, fun k hjk hkj => Tier.easy_lt_iff.mpr (hload k hjk hkj)⟩

end Regular
end LoadBear
