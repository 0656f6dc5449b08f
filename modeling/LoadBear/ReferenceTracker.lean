import LoadBear.TrackerRun

/-!
# The rule the tracker implements

The reference tracker forgets nothing and states the sustained rule over everything
it has seen. While observations keep coming within the longer duration of each
other, the pruned tracker shows the same at every step.
-/
namespace LoadBear

open TimedHistory

section Extremum
variable {α β : Type*} [LinearOrder β] (f : α → β)

/-- The first element with nothing smaller in the list. -/
def earliestLeast (l : List α) : Option α := l.find? fun a => l.all fun b => f a ≤ f b

/-- The first element with nothing greater in the list. -/
def earliestGreatest (l : List α) : Option α := l.find? fun a => l.all fun b => f b ≤ f a

theorem argmin_eq_earliestLeast (l : List α) : l.argmin f = earliestLeast f l := by
  induction l with
  | nil => rfl
  | cons a l ih =>
    rw [List.argmin_cons, earliestLeast, List.find?_cons]
    cases hmin : l.argmin f with
    | none =>
      obtain rfl := List.argmin_eq_none.mp hmin
      simp
    | some c =>
      have hc : c ∈ l := List.argmin_mem hmin
      have hle : ∀ b ∈ l, f c ≤ f b := fun b hb => List.le_of_mem_argmin hb hmin
      dsimp only
      split_ifs with hlt
      · have ha : ((a :: l).all fun b => f a ≤ f b) = false := by
          rw [List.all_eq_false]
          exact ⟨c, .tail _ hc, by simpa using hlt⟩
        have hrest : ∀ x ∈ l, ((a :: l).all fun b => f x ≤ f b) = l.all fun b => f x ≤ f b := by
          intro x _
          rw [List.all_cons, Bool.and_eq_right_iff_imp]
          intro hall
          have hxc : f x ≤ f c := by simpa using List.all_eq_true.mp hall c hc
          exact decide_eq_true (hxc.trans hlt.le)
        rw [ha, List.find?_congr hrest, ← earliestLeast, ← ih, hmin]
      · have ha : ((a :: l).all fun b => f a ≤ f b) = true := by
          rw [List.all_eq_true]
          intro b hb
          rcases List.mem_cons.mp hb with rfl | hb
          · simp
          · exact decide_eq_true ((not_lt.mp hlt).trans (hle b hb))
        rw [ha]

theorem argmax_eq_earliestGreatest (l : List α) : l.argmax f = earliestGreatest f l :=
  argmin_eq_earliestLeast (fun a => OrderDual.toDual (f a)) l

end Extremum

/-- The tracker that keeps its whole history. -/
structure ReferenceTracker where
  escalateMs : ℕ
  settleMs : ℕ
  shown : Assessment
  history : List (ℕ × Assessment)

namespace ReferenceTracker

def new (escalateMs settleMs : ℕ) : ReferenceTracker := ⟨escalateMs, settleMs, ⟨.easy, .clear⟩, []⟩

/-- What was observed over `[nowMs - ms, nowMs]`. -/
def within (history : List (ℕ × Assessment)) (nowMs ms : ℕ) : List Assessment :=
  (history.filter fun o => nowMs - ms ≤ o.1 ∧ o.1 ≤ nowMs).map Prod.snd

/-- Something was observed at or before `nowMs - ms`. -/
def covered (history : List (ℕ × Assessment)) (nowMs ms : ℕ) : Bool :=
  history.any (·.1 ≤ nowMs - ms)

/-- The assessment to show: escalate to the least tier of the escalation window, or
else settle to the greatest of the settling window, or else keep the tier. -/
def decision (escalateMs settleMs : ℕ) (history : List (ℕ × Assessment)) (shown : Assessment)
    (assessment : Assessment) (nowMs : ℕ) : Assessment :=
  let worse := earliestLeast Assessment.tier (within history nowMs escalateMs)
  let better := earliestGreatest Assessment.tier (within history nowMs settleMs)
  if covered history nowMs escalateMs ∧ worse.any (shown.tier < ·.tier) then worse.getD shown
  else if covered history nowMs settleMs ∧ better.any (·.tier < shown.tier) then
    better.getD shown
  else if assessment.tier = shown.tier then ⟨shown.tier, assessment.reason⟩
  else shown

def observe (r : ReferenceTracker) (assessment : Assessment) (nowMs : ℕ) : ReferenceTracker :=
  let history := r.history ++ [(nowMs, assessment)]
  { r with
    history := history
    shown := decision r.escalateMs r.settleMs history r.shown assessment nowMs }

/-- What is shown after each observation. -/
def trace (r : ReferenceTracker) : List (ℕ × Assessment) → List Assessment
  | [] => []
  | o :: obs => (r.observe o.2 o.1).shown :: trace (r.observe o.2 o.1) obs

end ReferenceTracker

/-- What is returned for each observation. -/
def TierTracker.trace (t : TierTracker) : List (ℕ × Assessment) → List Assessment
  | [] => []
  | o :: obs => (t.observe o.2 o.1).current :: trace (t.observe o.2 o.1) obs

section Simulation
variable {escalateMs settleMs : ℕ} {past : List (ℕ × Assessment)} {o : ℕ × Assessment}

lemma within_eq_window (hc : Chronological (past ++ [o])) (ms : ℕ) :
    ReferenceTracker.within (past ++ [o]) o.1 ms = window (past ++ [o]) o.1 ms := by
  rw [ReferenceTracker.within, window, since]
  congr 1
  refine List.filter_congr fun a ha => ?_
  simp [hc.le_last a ha]

/-- With bounded gaps the retained observations reach back whenever any do. -/
lemma covered_iff_reachesBack (hg : GapsAtMost (max escalateMs settleMs) (past ++ [o]))
    {ms : ℕ} (hms : ms ≤ max escalateMs settleMs) :
    ReferenceTracker.covered (past ++ [o]) o.1 ms ↔
      ReachesBack escalateMs settleMs (past ++ [o]) o.1 ms := by
  rw [ReferenceTracker.covered, List.any_eq_true]
  constructor
  · rintro ⟨a, ha, hle⟩
    obtain ⟨b, hb, hbc, hgap⟩ := exists_mem_within_gap hg ⟨a, ha, of_decide_eq_true hle⟩
    exact ⟨b, hb, by omega, hbc⟩
  · rintro ⟨a, ha, -, hle⟩
    exact ⟨a, ha, decide_eq_true hle⟩

/-- A judgement that would move the tier is absent when none of them does. -/
lemma not_any_of_forall {judgement : Option Assessment} {p : Assessment → Bool} {back : Prop}
    (h : back → ∀ a ∈ judgement, p a = false) : ¬(back ∧ judgement.any p) := by
  rintro ⟨hback, hany⟩
  cases judgement with
  | none => simp at hany
  | some a => simp [h hback a rfl] at hany

/-- What the tracker shows after a step is the reference decision. -/
lemma eq_decision_of_shows (hw : WellTimed (past ++ [o]))
    (hg : GapsAtMost (max escalateMs settleMs) (past ++ [o])) {shown next : Assessment}
    (h : Shows escalateMs settleMs (past ++ [o]) shown o next) :
    next = ReferenceTracker.decision escalateMs settleMs (past ++ [o]) shown o.2 o.1 := by
  have hescalate := covered_iff_reachesBack hg (le_max_left escalateMs settleMs)
  have hsettle := covered_iff_reachesBack hg (le_max_right escalateMs settleMs)
  rw [ReferenceTracker.decision, within_eq_window hw.chronological,
    within_eq_window hw.chronological, ← argmin_eq_earliestLeast, ← argmax_eq_earliestGreatest]
  cases h with
  | @escalate worse back least up =>
    have hmove : ((window (past ++ [o]) o.1 escalateMs).argmin Assessment.tier).any
        (shown.tier < ·.tier) := by simpa [Option.mem_def.mp least] using up
    rw [if_pos ⟨hescalate.mpr back, hmove⟩, Option.mem_def.mp least, Option.getD_some]
  | @settle better unescalated back greatest down =>
    have hstay := not_any_of_forall fun hback worse hworse =>
      decide_eq_false (not_lt.mpr (unescalated (hescalate.mp hback) worse hworse))
    have hmove : ((window (past ++ [o]) o.1 settleMs).argmax Assessment.tier).any
        (·.tier < shown.tier) := by simpa [Option.mem_def.mp greatest] using down
    rw [if_neg hstay, if_pos ⟨hsettle.mpr back, hmove⟩, Option.mem_def.mp greatest,
      Option.getD_some]
  | keep unescalated unsettled =>
    have hstay := not_any_of_forall fun hback worse hworse =>
      decide_eq_false (not_lt.mpr (unescalated (hescalate.mp hback) worse hworse))
    have hstay' := not_any_of_forall fun hback better hbetter =>
      decide_eq_false (not_lt.mpr (unsettled (hsettle.mp hback) better hbetter))
    rw [if_neg hstay, if_neg hstay']
    rfl

/-- After the same past both trackers show the same from then on. -/
lemma trace_eq_of_past (past obs : List (ℕ × Assessment)) (r : ReferenceTracker)
    (hw : WellTimed (past ++ obs)) (hg : GapsAtMost (max escalateMs settleMs) (past ++ obs))
    (hescalate : r.escalateMs = escalateMs) (hsettle : r.settleMs = settleMs)
    (hhistory : r.history = past)
    (hshown : r.shown = shownAfter escalateMs settleMs past) :
    ((TierTracker.new escalateMs settleMs).run past).trace obs = r.trace obs := by
  induction obs generalizing past r with
  | nil => rfl
  | cons o obs ih =>
    rw [← List.singleton_append, ← List.append_assoc] at hw hg
    have hstep : (r.observe o.2 o.1).shown = shownAfter escalateMs settleMs (past ++ [o]) := by
      have hdecision := eq_decision_of_shows hw.append_left hg.append_left
        (observe_shows escalateMs settleMs hw.append_left)
      rw [hdecision, ReferenceTracker.observe, hescalate, hsettle, hhistory, hshown]
    have hrest := ih (past ++ [o]) (r.observe o.2 o.1) hw hg hescalate hsettle
      (by rw [ReferenceTracker.observe, hhistory]) hstep
    rw [TierTracker.trace, ReferenceTracker.trace, hstep, ← TierTracker.run_concat, hrest,
      shownAfter]

/-- The tracker implements its stated rule: while observations are at most the longer
duration apart, it returns what the reference tracker shows at every step. -/
theorem trace_eq_reference (escalateMs settleMs : ℕ) (obs : List (ℕ × Assessment))
    (hw : WellTimed obs) (hg : GapsAtMost (max escalateMs settleMs) obs) :
    (TierTracker.new escalateMs settleMs).trace obs =
      (ReferenceTracker.new escalateMs settleMs).trace obs :=
  trace_eq_of_past [] obs (.new escalateMs settleMs) hw hg rfl rfl rfl rfl

end Simulation

/-- A loaded machine on an uneven clock. -/
def unevenLoad : List (ℕ × Assessment) :=
  [0, 510, 1015, 1530, 2040].map fun t => (t, ⟨.strained, .stall .cpu⟩)

theorem trace_eq_reference_on_uneven_load :
    (TierTracker.new 1500 6000).trace unevenLoad =
        (ReferenceTracker.new 1500 6000).trace unevenLoad ∧
      (shownAfter 1500 6000 unevenLoad).tier = .strained := by
  have hw : WellTimed unevenLoad := ⟨by unfold Chronological; decide, by decide⟩
  have hg : GapsAtMost (max 1500 6000) unevenLoad := by simp [GapsAtMost, unevenLoad]
  exact ⟨trace_eq_reference 1500 6000 unevenLoad hw hg, by decide⟩

end LoadBear
