import LoadBear.Tier
import LoadBear.TimedHistory

/-!
# Runs of the tracker

What the tracker holds after a run is a window of everything it observed, so each
step is a decision about the whole run: escalate, settle, or keep the tier.
-/
namespace LoadBear

open TimedHistory

/-- Times never decrease and fit in the clock. -/
structure WellTimed (obs : List (ℕ × Assessment)) : Prop where
  chronological : Chronological obs
  fits : ∀ o ∈ obs, o.1 ≤ u64Max

lemma WellTimed.append_left {obs obs' : List (ℕ × Assessment)} (h : WellTimed (obs ++ obs')) :
    WellTimed obs :=
  ⟨h.chronological.append_left, fun o ho => h.fits o (List.mem_append_left _ ho)⟩

/-- A run is well timed up to each of its observations. -/
lemma WellTimed.step {obs past rest : List (ℕ × Assessment)} {o : ℕ × Assessment}
    (hw : WellTimed obs) (hobs : obs = past ++ o :: rest) : WellTimed (past ++ [o]) := by
  rw [hobs, ← List.singleton_append, ← List.append_assoc] at hw
  exact hw.append_left

/-- The judgements made over the last `ms` milliseconds. -/
def window (seen : List (ℕ × Assessment)) (nowMs ms : ℕ) : List Assessment :=
  (since (nowMs - ms) seen).map Prod.snd

lemma mem_window {seen : List (ℕ × Assessment)} {nowMs ms : ℕ} {a : Assessment} :
    a ∈ window seen nowMs ms ↔ ∃ t, (t, a) ∈ seen ∧ nowMs - ms ≤ t := by
  simp [window]

lemma mem_window_now {seen : List (ℕ × Assessment)} {o : ℕ × Assessment} (ho : o ∈ seen)
    (ms : ℕ) : o.2 ∈ window seen o.1 ms :=
  mem_window.mpr ⟨o.1, ho, Nat.sub_le _ _⟩

namespace TierTracker

section Step
variable (t : TierTracker) (assessment : Assessment) (nowMs : ℕ)

@[simp] theorem new_escalateMs (escalateMs settleMs : ℕ) :
    (new escalateMs settleMs).escalateMs = escalateMs := rfl

@[simp] theorem new_settleMs (escalateMs settleMs : ℕ) :
    (new escalateMs settleMs).settleMs = settleMs := rfl

@[simp] theorem record_escalateMs : (t.record assessment nowMs).escalateMs = t.escalateMs := rfl

@[simp] theorem record_settleMs : (t.record assessment nowMs).settleMs = t.settleMs := rfl

@[simp] theorem record_current : (t.record assessment nowMs).current = t.current := rfl

@[simp] theorem observe_escalateMs : (t.observe assessment nowMs).escalateMs = t.escalateMs := by
  unfold observe
  dsimp only
  split <;> rfl

@[simp] theorem observe_settleMs : (t.observe assessment nowMs).settleMs = t.settleMs := by
  unfold observe
  dsimp only
  split <;> rfl

@[simp] theorem observe_latest : (t.observe assessment nowMs).latest = assessment := by
  unfold observe
  dsimp only
  split <;> rfl

@[simp] theorem observe_history :
    (t.observe assessment nowMs).history = (t.record assessment nowMs).history := by
  unfold observe
  dsimp only
  split <;> rfl

lemma observe_current : (t.observe assessment nowMs).current =
    ((t.record assessment nowMs).move nowMs).getD (t.current.refresh assessment) := by
  unfold observe
  dsimp only
  split <;> rename_i h <;> simp [h]

lemma mem_supportedByAll {t : TierTracker} {nowMs : ℕ} (h : Chronological t.history) (ms : ℕ)
    (worst : Bool) (a : Assessment) : a ∈ t.supportedByAll nowMs ms worst ↔
      Reaches t.history (nowMs - ms) ∧ a ∈ agreed worst (window t.history nowMs ms) := by
  unfold supportedByAll
  split
  · rename_i hnil
    simp [hnil, Reaches]
  · rename_i oldest first rest hcons
    rw [hcons] at h ⊢
    rw [reaches_iff_head h]
    dsimp only
    split_ifs with hlt
    · simp [not_le.mpr hlt]
    · simp only [not_lt.mp hlt, true_and]
      rfl

/-- Within the clock's range the retention never saturates. -/
lemma record_history {t : TierTracker} {o : ℕ × Assessment} (h : Chronological (t.history ++ [o]))
    (hfits : o.1 ≤ u64Max) : (t.record o.2 o.1).history =
      since (o.1 - 2 * max t.escalateMs t.settleMs) (t.history ++ [o]) := by
  have hhorizon : o.1 - t.retention = o.1 - 2 * max t.escalateMs t.settleMs := by
    unfold retention
    omega
  rw [← dropWhile_eq_since h, ← hhorizon]
  rfl

end Step

/-- A run of observations, each with its time. -/
def run (t : TierTracker) (obs : List (ℕ × Assessment)) : TierTracker :=
  obs.foldl (fun t o => t.observe o.2 o.1) t

@[simp] theorem run_append (t : TierTracker) (obs obs' : List (ℕ × Assessment)) :
    t.run (obs ++ obs') = (t.run obs).run obs' := List.foldl_append

lemma run_concat (t : TierTracker) (obs : List (ℕ × Assessment)) (o : ℕ × Assessment) :
    t.run (obs ++ [o]) = (t.run obs).observe o.2 o.1 := by
  rw [run_append]
  rfl

@[simp] theorem run_escalateMs (t : TierTracker) (obs : List (ℕ × Assessment)) :
    (t.run obs).escalateMs = t.escalateMs := by
  induction obs using List.reverseRecOn with
  | nil => rfl
  | append_singleton obs o ih => rw [run_concat, observe_escalateMs, ih]

@[simp] theorem run_settleMs (t : TierTracker) (obs : List (ℕ × Assessment)) :
    (t.run obs).settleMs = t.settleMs := by
  induction obs using List.reverseRecOn with
  | nil => rfl
  | append_singleton obs o ih => rw [run_concat, observe_settleMs, ih]

end TierTracker

section Run
variable {escalateMs settleMs : ℕ} {past : List (ℕ × Assessment)} {o : ℕ × Assessment}

open TierTracker

variable (escalateMs settleMs) in
/-- What is retained is everything observed in twice the longer of the durations. -/
theorem run_record_history (hw : WellTimed (past ++ [o])) :
    (((new escalateMs settleMs).run past).record o.2 o.1).history =
      since (o.1 - 2 * max escalateMs settleMs) (past ++ [o]) := by
  induction past using List.reverseRecOn generalizing o with
  | nil => exact record_history hw.chronological (hw.fits o (by simp))
  | append_singleton past p ih =>
    have hpo : p.1 ≤ o.1 := hw.chronological.le_of_append p (by simp) o (by simp)
    have hhistory : ((new escalateMs settleMs).run (past ++ [p])).history =
        since (p.1 - 2 * max escalateMs settleMs) (past ++ [p]) := by
      rw [run_concat, observe_history, ih hw.append_left]
    have hsub : (since (p.1 - 2 * max escalateMs settleMs) (past ++ [p]) ++ [o]).Sublist
        (past ++ [p] ++ [o]) := List.filter_sublist.append_right _
    rw [record_history (hhistory ▸ hw.chronological.sublist hsub) (hw.fits o (by simp)), hhistory,
      run_escalateMs, run_settleMs, new_escalateMs, new_settleMs, since_append,
      since_since (by omega), ← since_append]

/-- Something retained reaches back to the start of a window. -/
def ReachesBack (escalateMs settleMs : ℕ) (seen : List (ℕ × Assessment)) (nowMs ms : ℕ) : Prop :=
  ∃ a ∈ seen, nowMs - 2 * max escalateMs settleMs ≤ a.1 ∧ a.1 ≤ nowMs - ms

instance (escalateMs settleMs : ℕ) (seen : List (ℕ × Assessment)) (nowMs ms : ℕ) :
    Decidable (ReachesBack escalateMs settleMs seen nowMs ms) :=
  inferInstanceAs (Decidable (∃ a ∈ seen, _ ∧ _))

/-- What one observation can do to the shown assessment, told from everything seen
up to and including it. -/
inductive Shows (escalateMs settleMs : ℕ) (seen : List (ℕ × Assessment)) (shown : Assessment)
    (o : ℕ × Assessment) : Assessment → Prop
  | escalate {worse : Assessment} (back : ReachesBack escalateMs settleMs seen o.1 escalateMs)
      (least : worse ∈ (window seen o.1 escalateMs).argmin Assessment.tier)
      (up : shown.tier < worse.tier) : Shows escalateMs settleMs seen shown o worse
  | settle {better : Assessment}
      (unescalated : ReachesBack escalateMs settleMs seen o.1 escalateMs →
        ∀ worse ∈ (window seen o.1 escalateMs).argmin Assessment.tier, worse.tier ≤ shown.tier)
      (back : ReachesBack escalateMs settleMs seen o.1 settleMs)
      (greatest : better ∈ (window seen o.1 settleMs).argmax Assessment.tier)
      (down : better.tier < shown.tier) : Shows escalateMs settleMs seen shown o better
  | keep (unescalated : ReachesBack escalateMs settleMs seen o.1 escalateMs →
        ∀ worse ∈ (window seen o.1 escalateMs).argmin Assessment.tier, worse.tier ≤ shown.tier)
      (unsettled : ReachesBack escalateMs settleMs seen o.1 settleMs →
        ∀ better ∈ (window seen o.1 settleMs).argmax Assessment.tier, shown.tier ≤ better.tier) :
      Shows escalateMs settleMs seen shown o (shown.refresh o.2)

lemma reaches_since_iff {seen : List (ℕ × Assessment)} {nowMs ms : ℕ} :
    Reaches (since (nowMs - 2 * max escalateMs settleMs) seen) (nowMs - ms) ↔
      ReachesBack escalateMs settleMs seen nowMs ms := by
  simp [Reaches, ReachesBack, and_assoc]

/-- The deciding windows lie within what is retained. -/
lemma window_since {seen : List (ℕ × Assessment)} {nowMs ms : ℕ}
    (hms : ms ≤ 2 * max escalateMs settleMs) :
    window (since (nowMs - 2 * max escalateMs settleMs) seen) nowMs ms = window seen nowMs ms := by
  rw [window, since_since (by omega), window]

/-- The tracker's answer over a window, told from everything seen. -/
lemma mem_supported (hw : WellTimed (past ++ [o])) {ms : ℕ}
    (hms : ms ≤ 2 * max escalateMs settleMs) (worst : Bool) (a : Assessment) :
    a ∈ (((new escalateMs settleMs).run past).record o.2 o.1).supportedByAll o.1 ms worst ↔
      ReachesBack escalateMs settleMs (past ++ [o]) o.1 ms ∧
        a ∈ agreed worst (window (past ++ [o]) o.1 ms) := by
  have hhistory := run_record_history escalateMs settleMs hw
  have hchronological := hw.chronological.since (c := o.1 - 2 * max escalateMs settleMs)
  rw [← hhistory] at hchronological
  rw [mem_supportedByAll hchronological, hhistory, reaches_since_iff, window_since hms]

/-- What a fresh tracker shows after a run of observations. -/
def shownAfter (escalateMs settleMs : ℕ) (past : List (ℕ × Assessment)) : Assessment :=
  ((new escalateMs settleMs).run past).current

@[simp] theorem shownAfter_nil : shownAfter escalateMs settleMs [] = ⟨.easy, .clear⟩ := rfl

variable (escalateMs settleMs) in
/-- Every step of a run is one of the three. -/
theorem observe_shows (hw : WellTimed (past ++ [o])) :
    Shows escalateMs settleMs (past ++ [o]) (shownAfter escalateMs settleMs past) o
      (shownAfter escalateMs settleMs (past ++ [o])) := by
  unfold shownAfter
  set t := (new escalateMs settleMs).run past with ht
  have hworst := mem_supported hw (show escalateMs ≤ 2 * max escalateMs settleMs by omega) true
  have hbest := mem_supported hw (show settleMs ≤ 2 * max escalateMs settleMs by omega) false
  have he : (t.record o.2 o.1).escalateMs = escalateMs := by simp [ht]
  have hs : (t.record o.2 o.1).settleMs = settleMs := by simp [ht]
  rw [run_concat, ← ht, observe_current, move, he, hs, record_current]
  split
  · rename_i worse hup
    obtain ⟨hmem, hlt⟩ := Option.filter_eq_some_iff.mp hup
    obtain ⟨hback, hleast⟩ := (hworst worse).mp hmem
    exact .escalate hback hleast (of_decide_eq_true hlt)
  · rename_i hup
    have hstay : ReachesBack escalateMs settleMs (past ++ [o]) o.1 escalateMs →
        ∀ worse ∈ agreed true (window (past ++ [o]) o.1 escalateMs),
          worse.tier ≤ t.current.tier := by
      intro hback worse hleast
      simpa using Option.filter_eq_none_iff.mp hup worse ((hworst worse).mpr ⟨hback, hleast⟩)
    cases hdown : ((t.record o.2 o.1).supportedByAll o.1 settleMs false).filter
        (·.tier < t.current.tier) with
    | some better =>
      obtain ⟨hmem, hlt⟩ := Option.filter_eq_some_iff.mp hdown
      obtain ⟨hback, hgreatest⟩ := (hbest better).mp hmem
      exact .settle hstay hback hgreatest (of_decide_eq_true hlt)
    | none =>
      refine .keep hstay fun hback better hgreatest => ?_
      simpa using Option.filter_eq_none_iff.mp hdown better ((hbest better).mpr ⟨hback, hgreatest⟩)

lemma exists_mem_argmin {seen : List (ℕ × Assessment)} (ho : o ∈ seen) (ms : ℕ) :
    ∃ worse, worse ∈ (window seen o.1 ms).argmin Assessment.tier := by
  have hne := List.ne_nil_of_mem (mem_window_now ho ms)
  exact Option.ne_none_iff_exists'.mp fun h => hne (List.argmin_eq_none.mp h)

lemma exists_mem_argmax {seen : List (ℕ × Assessment)} (ho : o ∈ seen) (ms : ℕ) :
    ∃ better, better ∈ (window seen o.1 ms).argmax Assessment.tier := by
  have hne := List.ne_nil_of_mem (mem_window_now ho ms)
  exact Option.ne_none_iff_exists'.mp fun h => hne (List.argmax_eq_none.mp h)

/-- Where the escalation window is covered and its least tier is worse, it is shown. -/
theorem shownAfter_of_escalate (hw : WellTimed (past ++ [o])) {worse : Assessment}
    (hback : ReachesBack escalateMs settleMs (past ++ [o]) o.1 escalateMs)
    (hleast : worse ∈ (window (past ++ [o]) o.1 escalateMs).argmin Assessment.tier)
    (hup : (shownAfter escalateMs settleMs past).tier < worse.tier) :
    shownAfter escalateMs settleMs (past ++ [o]) = worse := by
  have hshows := observe_shows escalateMs settleMs hw
  generalize shownAfter escalateMs settleMs (past ++ [o]) = next at hshows ⊢
  cases hshows with
  | escalate _ least _ => exact Option.mem_unique least hleast
  | settle unescalated => exact absurd hup (unescalated hback worse hleast).not_gt
  | keep unescalated => exact absurd hup (unescalated hback worse hleast).not_gt

/-- Where the settling window is covered and its greatest tier is better, it is shown. -/
theorem shownAfter_of_settle (hw : WellTimed (past ++ [o])) {better : Assessment}
    (hback : ReachesBack escalateMs settleMs (past ++ [o]) o.1 settleMs)
    (hgreatest : better ∈ (window (past ++ [o]) o.1 settleMs).argmax Assessment.tier)
    (hdown : better.tier < (shownAfter escalateMs settleMs past).tier) :
    shownAfter escalateMs settleMs (past ++ [o]) = better := by
  have hshows := observe_shows escalateMs settleMs hw
  have hnow (ms : ℕ) := mem_window_now (show o ∈ past ++ [o] by simp) ms
  generalize shownAfter escalateMs settleMs (past ++ [o]) = next at hshows ⊢
  cases hshows with
  | escalate _ least up =>
    -- the new observation is in both windows, so it cannot be above and below
    have hle := (List.le_of_mem_argmin (hnow _) least).trans
      (List.le_of_mem_argmax (hnow _) hgreatest)
    exact absurd (hdown.trans up) hle.not_gt
  | settle _ _ greatest _ => exact Option.mem_unique greatest hgreatest
  | keep _ unsettled => exact absurd hdown (unsettled hback better hgreatest).not_gt

variable (escalateMs settleMs past o)

/-- The observation changes the shown tier. -/
def Moves : Prop :=
  (shownAfter escalateMs settleMs (past ++ [o])).tier ≠ (shownAfter escalateMs settleMs past).tier

/-- The observation raises the shown tier. -/
def MovesUp : Prop :=
  (shownAfter escalateMs settleMs past).tier < (shownAfter escalateMs settleMs (past ++ [o])).tier

/-- The observation lowers the shown tier. -/
def MovesDown : Prop :=
  (shownAfter escalateMs settleMs (past ++ [o])).tier < (shownAfter escalateMs settleMs past).tier

variable {escalateMs settleMs past o}

lemma moves_iff : Moves escalateMs settleMs past o ↔
    MovesUp escalateMs settleMs past o ∨ MovesDown escalateMs settleMs past o := by
  rw [Moves, ne_iff_lt_or_gt, or_comm]
  rfl

/-- Without a move only the reason follows the new observation. -/
theorem refresh_of_not_moves (hw : WellTimed (past ++ [o]))
    (h : ¬Moves escalateMs settleMs past o) : shownAfter escalateMs settleMs (past ++ [o]) =
      (shownAfter escalateMs settleMs past).refresh o.2 := by
  have hshows := observe_shows escalateMs settleMs hw
  unfold Moves at h
  generalize shownAfter escalateMs settleMs (past ++ [o]) = next at h hshows ⊢
  cases hshows with
  | escalate _ _ up => exact absurd up.ne' h
  | settle _ _ _ down => exact absurd down.ne h
  | keep => rfl

/-- The tier is raised to the least of the escalation window. -/
theorem MovesUp.least (hw : WellTimed (past ++ [o])) (h : MovesUp escalateMs settleMs past o) :
    ReachesBack escalateMs settleMs (past ++ [o]) o.1 escalateMs ∧
      shownAfter escalateMs settleMs (past ++ [o]) ∈
        (window (past ++ [o]) o.1 escalateMs).argmin Assessment.tier := by
  have hshows := observe_shows escalateMs settleMs hw
  unfold MovesUp at h
  generalize shownAfter escalateMs settleMs (past ++ [o]) = next at h hshows ⊢
  cases hshows with
  | escalate back least up => exact ⟨back, least⟩
  | settle unescalated back greatest down => exact absurd h down.not_gt
  | keep unescalated unsettled => simp at h

/-- The tier is lowered to the greatest of the settling window. -/
theorem MovesDown.greatest (hw : WellTimed (past ++ [o]))
    (h : MovesDown escalateMs settleMs past o) :
    ReachesBack escalateMs settleMs (past ++ [o]) o.1 settleMs ∧
      shownAfter escalateMs settleMs (past ++ [o]) ∈
        (window (past ++ [o]) o.1 settleMs).argmax Assessment.tier := by
  have hshows := observe_shows escalateMs settleMs hw
  unfold MovesDown at h
  generalize shownAfter escalateMs settleMs (past ++ [o]) = next at h hshows ⊢
  cases hshows with
  | escalate back least up => exact absurd h up.not_gt
  | settle unescalated back greatest down => exact ⟨back, greatest⟩
  | keep unescalated unsettled => simp at h

end Run
end LoadBear
