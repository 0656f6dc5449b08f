import LoadBear.Application
import LoadBear.ReferenceTracker

/-!
# No unexplained tier

The sentence is left out when the adopted reason is a verdict, on the grounds that
the window just measured carries that verdict's card. On the tick the tier moves,
the reason adopted is that of an older window, and the card may be gone.
-/
namespace LoadBear

open TimedHistory

section Classify
variable (rt : Runtime) (verdicts : List Verdict) (stall : StallSignal)

/-- A judgement is clear exactly when it is easy. -/
def Assessment.Consistent (a : Assessment) : Prop := a.reason = .clear ↔ a.tier = .easy

theorem classify_consistent : (classify rt verdicts stall).Consistent := by
  unfold classify Assessment.Consistent
  dsimp only
  by_cases hworse : stallTier rt stall.worst.2 ≤
      ((worstVerdict verdicts).map fun v => v.severity.tier).getD .easy
  · rw [if_pos hworse]
    cases hverdict : worstVerdict verdicts with
    | none => simp
    | some v => cases hseverity : v.severity <;> simp [Severity.tier, hseverity] <;> decide
  · have hne : stallTier rt stall.worst.2 ≠ .easy := fun heasy =>
      hworse (heasy.le.trans (Tier.easy_le _))
    rw [if_neg hworse]
    simp [hne]

/-- A judgement by a verdict has that verdict to show. -/
theorem ne_nil_of_classify_isVerdict (h : (classify rt verdicts stall).reason.isVerdict) :
    verdicts ≠ [] := by
  rintro rfl
  revert h
  unfold classify worstVerdict
  dsimp only [List.reverse_nil, List.argmax_nil]
  split_ifs <;> simp [TierReason.isVerdict]

end Classify

section Tracker
variable {escalateMs settleMs : ℕ} {past : List (ℕ × Assessment)} {o : ℕ × Assessment}

lemma Assessment.Consistent.refresh {shown latest : Assessment} (hs : shown.Consistent)
    (hl : latest.Consistent) : (shown.refresh latest).Consistent := by
  unfold Assessment.refresh
  split_ifs with htier
  · rw [Consistent, ← htier]
    exact hl
  · exact hs

lemma consistent_of_window {seen : List (ℕ × Assessment)} (h : ∀ o ∈ seen, o.2.Consistent)
    {nowMs ms : ℕ} {a : Assessment} (ha : a ∈ window seen nowMs ms) : a.Consistent := by
  obtain ⟨t, ht, -⟩ := mem_window.mp ha
  exact h _ ht

/-- What is shown is a judgement that was made, or one refreshed by such. -/
theorem shownAfter_consistent {obs : List (ℕ × Assessment)} (hw : WellTimed obs)
    (h : ∀ o ∈ obs, o.2.Consistent) : (shownAfter escalateMs settleMs obs).Consistent := by
  induction obs using List.reverseRecOn with
  | nil => simp [Assessment.Consistent]
  | append_singleton obs o ih =>
    have hshown := ih hw.append_left fun a ha => h a (List.mem_append_left _ ha)
    have hshows := observe_shows escalateMs settleMs hw
    generalize shownAfter escalateMs settleMs (obs ++ [o]) = next at hshows ⊢
    cases hshows with
    | escalate _ least _ => exact consistent_of_window h (List.argmin_mem least)
    | settle _ _ greatest _ => exact consistent_of_window h (List.argmax_mem greatest)
    | keep => exact hshown.refresh (h o (by simp))

variable (escalateMs settleMs past o)

/-- The observation completes a move of the tier to its own, and the earliest window
of that tier over the deciding span was judged by a verdict. -/
def AdoptsVerdict : Prop :=
  (ReachesBack escalateMs settleMs (past ++ [o]) o.1 escalateMs ∧
      (shownAfter escalateMs settleMs past).tier < o.2.tier ∧
      (∀ a ∈ window (past ++ [o]) o.1 escalateMs, o.2.tier ≤ a.tier) ∧
      ((window (past ++ [o]) o.1 escalateMs).find? (·.tier = o.2.tier)).any (·.reason.isVerdict)) ∨
    (ReachesBack escalateMs settleMs (past ++ [o]) o.1 settleMs ∧
      o.2.tier < (shownAfter escalateMs settleMs past).tier ∧
      (∀ a ∈ window (past ++ [o]) o.1 settleMs, a.tier ≤ o.2.tier) ∧
      ((window (past ++ [o]) o.1 settleMs).find? (·.tier = o.2.tier)).any (·.reason.isVerdict))

instance : Decidable (AdoptsVerdict escalateMs settleMs past o) :=
  inferInstanceAs (Decidable (_ ∧ _ ∧ _ ∧ _ ∨ _ ∧ _ ∧ _ ∧ _))

variable {escalateMs settleMs past o}

lemma argmin_eq_find?_of_least {w : List Assessment} {a : Assessment} (ha : a ∈ w)
    (h : ∀ b ∈ w, a.tier ≤ b.tier) : w.argmin Assessment.tier = w.find? (·.tier = a.tier) := by
  rw [argmin_eq_earliestLeast, earliestLeast]
  refine List.find?_congr fun x hx => ?_
  rw [Bool.eq_iff_iff, List.all_eq_true, decide_eq_true_iff]
  constructor
  · exact fun hall => le_antisymm (of_decide_eq_true (hall a ha)) (h x hx)
  · exact fun heq b hb => decide_eq_true (heq.trans_le (h b hb))

lemma argmax_eq_find?_of_greatest {w : List Assessment} {a : Assessment} (ha : a ∈ w)
    (h : ∀ b ∈ w, b.tier ≤ a.tier) : w.argmax Assessment.tier = w.find? (·.tier = a.tier) := by
  rw [argmax_eq_earliestGreatest, earliestGreatest]
  refine List.find?_congr fun x hx => ?_
  rw [Bool.eq_iff_iff, List.all_eq_true, decide_eq_true_iff]
  constructor
  · exact fun hall => le_antisymm (h x hx) (of_decide_eq_true (hall a ha))
  · exact fun heq b hb => decide_eq_true ((h b hb).trans_eq heq.symm)

lemma exists_of_find?_any {w : List Assessment} {tier : Tier}
    (h : (w.find? (·.tier = tier)).any (·.reason.isVerdict)) :
    ∃ a, w.find? (·.tier = tier) = some a ∧ a.tier = tier ∧ a.reason.isVerdict := by
  cases hfind : w.find? (·.tier = tier) with
  | none => simp [hfind] at h
  | some a =>
    rw [hfind] at h
    exact ⟨a, rfl, by simpa using List.find?_some hfind, h⟩

/-- Moving to the tier of the new observation with a verdict for a reason. -/
theorem adoptsVerdict_iff (hw : WellTimed (past ++ [o])) :
    AdoptsVerdict escalateMs settleMs past o ↔ Moves escalateMs settleMs past o ∧
      (shownAfter escalateMs settleMs (past ++ [o])).tier = o.2.tier ∧
      (shownAfter escalateMs settleMs (past ++ [o])).reason.isVerdict := by
  have hnow (ms : ℕ) := mem_window_now (show o ∈ past ++ [o] by simp) ms
  constructor
  · rintro (⟨hback, hup, hleast, hany⟩ | ⟨hback, hdown, hgreatest, hany⟩)
    · obtain ⟨a, hfind, htier, hverdict⟩ := exists_of_find?_any hany
      rw [← argmin_eq_find?_of_least (hnow _) hleast] at hfind
      rw [Moves, shownAfter_of_escalate hw hback hfind (htier ▸ hup)]
      exact ⟨htier ▸ hup.ne', htier, hverdict⟩
    · obtain ⟨a, hfind, htier, hverdict⟩ := exists_of_find?_any hany
      rw [← argmax_eq_find?_of_greatest (hnow _) hgreatest] at hfind
      rw [Moves, shownAfter_of_settle hw hback hfind (htier ▸ hdown)]
      exact ⟨htier ▸ hdown.ne, htier, hverdict⟩
  · rintro ⟨hmoves, htier, hverdict⟩
    rcases moves_iff.mp hmoves with hup | hdown
    · obtain ⟨hback, hmin⟩ := hup.least hw
      have hleast : ∀ a ∈ window (past ++ [o]) o.1 escalateMs, o.2.tier ≤ a.tier := fun a ha =>
        htier ▸ List.le_of_mem_argmin ha hmin
      refine .inl ⟨hback, htier ▸ hup, hleast, ?_⟩
      rw [← argmin_eq_find?_of_least (hnow _) hleast, Option.mem_def.mp hmin]
      exact hverdict
    · obtain ⟨hback, hmax⟩ := hdown.greatest hw
      have hgreatest : ∀ a ∈ window (past ++ [o]) o.1 settleMs, a.tier ≤ o.2.tier := fun a ha =>
        htier ▸ List.le_of_mem_argmax ha hmax
      refine .inr ⟨hback, htier ▸ hdown, hgreatest, ?_⟩
      rw [← argmax_eq_find?_of_greatest (hnow _) hgreatest, Option.mem_def.mp hmax]
      exact hverdict

end Tracker

section Application
variable (rt : Runtime) (spec : Option CpuSpec)

/-- Every published tier worse than easy has a sentence or a verdict, and calm with
nothing added is asserted only of a window that is clear itself. -/
def Explained (ticks : List Tick) : Prop :=
  ∀ before tick after, ticks = before ++ tick :: after →
    ((published rt spec before tick).tier ≠ Tier.easy.name →
      (published rt spec before tick).reason ≠ "" ∨ (published rt spec before tick).verdicts ≠ []) ∧
    ((published rt spec before tick).reason = describe .clear →
      (judgement rt spec tick).reason = .clear)

/-- A window without verdicts completes a move of the tier to its own, while the
earliest window of that tier over the deciding span was judged by a verdict. -/
def UnexplainedMove (before : List Tick) (tick : Tick) : Prop :=
  evaluate rt tick.reading spec = [] ∧
    AdoptsVerdict escalateMs settleMs (before.map (observation rt spec)) (observation rt spec tick)

instance (before : List Tick) (tick : Tick) : Decidable (UnexplainedMove rt spec before tick) :=
  inferInstanceAs (Decidable (_ ∧ AdoptsVerdict _ _ _ _))

variable {rt spec} {before : List Tick} {tick : Tick}

variable (rt spec) in
lemma observations_consistent (ticks : List Tick) :
    ∀ o ∈ ticks.map (observation rt spec), o.2.Consistent := by
  intro o ho
  obtain ⟨tick, -, rfl⟩ := List.mem_map.mp ho
  exact classify_consistent rt _ _

/-- A tick publishes a tier with nothing behind it exactly at an unexplained move. -/
theorem unexplained_iff
    (hw : WellTimed (before.map (observation rt spec) ++ [observation rt spec tick])) :
    ((published rt spec before tick).tier ≠ Tier.easy.name ∧
      (published rt spec before tick).reason = "" ∧ (published rt spec before tick).verdicts = []) ↔
      UnexplainedMove rt spec before tick := by
  rw [published_tier, published_reason, published_verdicts_eq_nil_iff, reasonText_eq_empty_iff,
    UnexplainedMove, adoptsVerdict_iff hw, Tier.name_injective.ne_iff]
  constructor
  · rintro ⟨-, ⟨htier, hverdict⟩, hnil⟩
    refine ⟨hnil, ?_, htier.symm, hverdict⟩
    by_contra hstays
    -- the tier stays, so the reason is that of a window without verdicts
    have hrefresh := refresh_of_not_moves hw hstays
    have hagrees : (observation rt spec tick).2.tier = (shownAfter escalateMs settleMs
        (before.map (observation rt spec))).tier := by
      rw [← not_not.mp hstays]
      exact htier
    rw [hrefresh, Assessment.refresh, if_pos hagrees] at hverdict
    exact ne_nil_of_classify_isVerdict rt _ _ hverdict hnil
  · rintro ⟨hnil, -, htier, hverdict⟩
    refine ⟨fun heasy => ?_, ⟨htier.symm, hverdict⟩, hnil⟩
    have hconsistent : (shownAfter escalateMs settleMs
        (before.map (observation rt spec) ++ [observation rt spec tick])).Consistent :=
      shownAfter_consistent hw (by
        simpa using observations_consistent rt spec (before ++ [tick]))
    rw [hconsistent.mpr heasy] at hverdict
    cases hverdict

/-- The bare calm sentence is only ever said of a clear window. -/
theorem clear_of_published_clear
    (hw : WellTimed (before.map (observation rt spec) ++ [observation rt spec tick]))
    (h : (published rt spec before tick).reason = describe .clear) :
    (judgement rt spec tick).reason = .clear := by
  rw [published_reason] at h
  obtain ⟨htier, hclear⟩ := eq_of_reasonText_eq_clear h
  have hconsistent : (shownAfter escalateMs settleMs
      (before.map (observation rt spec) ++ [observation rt spec tick])).Consistent :=
    shownAfter_consistent hw (by
      simpa using observations_consistent rt spec (before ++ [tick]))
  have heasy : (judgement rt spec tick).tier = .easy := htier.trans (hconsistent.mp hclear)
  exact (classify_consistent rt _ _).mpr heasy

/-- A run of the application leaves no tier unexplained exactly when no tick of it is
an unexplained move. -/
theorem explained_iff (rt : Runtime) (spec : Option CpuSpec) (ticks : List Tick)
    (hw : WellTimed (ticks.map (observation rt spec))) :
    Explained rt spec ticks ↔
      ∀ before tick after, ticks = before ++ tick :: after →
        ¬UnexplainedMove rt spec before tick := by
  constructor
  · intro h before tick after hticks hmove
    obtain ⟨htier, hreason, hverdicts⟩ := (unexplained_iff (wellTimed_upTo hw hticks)).mpr hmove
    rcases (h before tick after hticks).1 htier with hne | hne
    · exact hne hreason
    · exact hne hverdicts
  · intro h before tick after hticks
    refine ⟨fun htier => ?_, clear_of_published_clear (wellTimed_upTo hw hticks)⟩
    by_contra hnothing
    push Not at hnothing
    have hmove := (unexplained_iff (wellTimed_upTo hw hticks)).mp ⟨htier, hnothing⟩
    exact h before tick after hticks hmove

end Application

/-- A tick with a processor temperature and a share of the window spent queueing. -/
def tickAt (nowMs : ℕ) (temperature queueing : ℚ) : Tick where
  reading :=
    { timestampMs := nowMs
      stall := ⟨queueing, 0, none⟩
      cpu :=
        { allCoreMhz := some 2400, utilizationPct := some 60, reportedBaseMhz := some 2000
          packageWatts := none, packageTempC := some temperature, tjmaxC := some 100
          throttle := ⟨false, none⟩ }
      processes := []
      containers := [] }
  settled := true

/-- Close to the limit for one window, and queueing for all four. -/
def heatThenQueue : List Tick :=
  [tickAt 500 96 (1 / 2), tickAt 1000 70 (1 / 2), tickAt 1500 70 (1 / 2), tickAt 2000 70 (1 / 2)]

/-- The fourth tick turns the tier with the first one's verdict for a reason, and
publishes neither a sentence nor a verdict. -/
theorem heat_then_queue_unexplained : ¬Explained .ieee none heatThenQueue := by
  intro h
  have hstatus : published .ieee none (heatThenQueue.take 3) (tickAt 2000 70 (1 / 2)) =
      { tier := "Braced", verdicts := [], driver := "cpu", reason := "" } := by decide +kernel
  have hexplained := (h (heatThenQueue.take 3) (tickAt 2000 70 (1 / 2)) [] rfl).1
  rw [hstatus] at hexplained
  rcases hexplained (by decide) with hne | hne
  · exact hne rfl
  · exact hne rfl

/-- Close to the limit as well, but before the span that decides. -/
def heatLongBefore : List Tick :=
  [tickAt 400 96 (1 / 2), tickAt 1000 70 (1 / 2), tickAt 1500 70 (1 / 2), tickAt 2000 70 (1 / 2)]

/-- The fourth tick turns the tier with its own reason, and says it. -/
theorem heat_long_before_explained :
    published .ieee none (heatLongBefore.take 3) (tickAt 2000 70 (1 / 2)) =
        { tier := "Braced", verdicts := [], driver := "cpu"
          reason := "Work is queueing for a free processor." } ∧
      Explained .ieee none heatLongBefore := by
  have hw : WellTimed (heatLongBefore.map (observation .ieee none)) :=
    ⟨by unfold Chronological; decide +kernel, by decide +kernel⟩
  refine ⟨by decide +kernel, (explained_iff .ieee none heatLongBefore hw).mpr ?_⟩
  simp only [heatLongBefore, forall_place_cons]
  refine ⟨?_, ?_, ?_, ?_, forall_place_nil⟩ <;> decide +kernel

end LoadBear
