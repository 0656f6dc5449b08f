import LoadBear.TrackerRun

/-!
# How the shown tier moves

Over any run: a tier moves on a single sample exactly where the clock skips the
deciding window, opposite moves are further apart than the window of the later one,
and while samples keep coming the tier catches up with what is measured.
-/
namespace LoadBear

open TimedHistory

section Single
variable (escalateMs settleMs : ℕ) (past : List (ℕ × Assessment)) (o : ℕ × Assessment)

/-- The window that decides a change of the shown tier. -/
def decidingWindow : List Assessment :=
  if (shownAfter escalateMs settleMs past).tier <
      (shownAfter escalateMs settleMs (past ++ [o])).tier then
    window (past ++ [o]) o.1 escalateMs
  else window (past ++ [o]) o.1 settleMs

/-- Every change of the shown tier in the run rests on two observations or more. -/
def NeverOnSingleSample (obs : List (ℕ × Assessment)) : Prop :=
  ∀ past o rest, obs = past ++ o :: rest → Moves escalateMs settleMs past o →
    2 ≤ (decidingWindow escalateMs settleMs past o).length

/-- An observation that would move the tier comes alone: it is the first one, at time
zero and worse than easy, or the time since the one before exceeds the window of its
direction without exceeding the retention. -/
def LoneMove : Prop :=
  (past = [] ∧ o.1 = 0 ∧ .easy < o.2.tier) ∨
    ∃ p ∈ past.getLast?, o.1 - p.1 ≤ 2 * max escalateMs settleMs ∧
      (((shownAfter escalateMs settleMs past).tier < o.2.tier ∧ escalateMs < o.1 - p.1) ∨
        (o.2.tier < (shownAfter escalateMs settleMs past).tier ∧ settleMs < o.1 - p.1))

variable {escalateMs settleMs past o}

lemma decidingWindow_of_movesUp (h : MovesUp escalateMs settleMs past o) :
    decidingWindow escalateMs settleMs past o = window (past ++ [o]) o.1 escalateMs := if_pos h

lemma decidingWindow_of_movesDown (h : MovesDown escalateMs settleMs past o) :
    decidingWindow escalateMs settleMs past o = window (past ++ [o]) o.1 settleMs :=
  if_neg h.not_gt

lemma window_concat (ms : ℕ) : window (past ++ [o]) o.1 ms = window past o.1 ms ++ [o.2] := by
  rw [window, since_append, List.map_append]
  simp [window, since]

/-- The new observation is alone in its window when the one before is outside. -/
lemma window_eq_singleton_iff (hc : Chronological (past ++ [o])) {ms : ℕ} :
    window (past ++ [o]) o.1 ms = [o.2] ↔ ∀ p ∈ past.getLast?, p.1 < o.1 - ms := by
  rw [window_concat, List.append_left_eq_self]
  cases past using List.reverseRecOn with
  | nil => simp [window]
  | append_singleton past p =>
    simp only [List.getLast?_concat, Option.mem_def, Option.some.injEq, forall_eq']
    constructor
    · intro hnil
      by_contra hle
      have hmem : p.2 ∈ window (past ++ [p]) o.1 ms :=
        mem_window.mpr ⟨p.1, by simp, not_lt.mp hle⟩
      simp [hnil] at hmem
    · intro hlt
      have hall : ∀ a ∈ past ++ [p], a.1 < o.1 - ms := fun a ha =>
        (hc.append_left.le_last a ha).trans_lt hlt
      rw [window, since_eq_nil hall, List.map_nil]

lemma length_window_lt_two_iff (hc : Chronological (past ++ [o])) {ms : ℕ} :
    (window (past ++ [o]) o.1 ms).length < 2 ↔ ∀ p ∈ past.getLast?, p.1 < o.1 - ms := by
  rw [← window_eq_singleton_iff hc, window_concat]
  simp

/-- A lone observation decides only if the one before is retained, or at time zero. -/
lemma last_or_zero_of_reachesBack {ms : ℕ} (hc : Chronological (past ++ [o])) (hms : 0 < ms)
    (halone : ∀ p ∈ past.getLast?, p.1 < o.1 - ms)
    (hback : ReachesBack escalateMs settleMs (past ++ [o]) o.1 ms) :
    (past = [] ∧ o.1 = 0) ∨
      ∃ p ∈ past.getLast?, o.1 - p.1 ≤ 2 * max escalateMs settleMs ∧ ms < o.1 - p.1 := by
  obtain ⟨a, ha, hkept, hold⟩ := hback
  cases past using List.reverseRecOn with
  | nil =>
    obtain rfl : a = o := by simpa using ha
    exact .inl ⟨rfl, by omega⟩
  | append_singleton past p =>
    refine .inr ⟨p, by simp, ?_⟩
    have hp : p.1 < o.1 - ms := halone p (by simp)
    rcases List.mem_append.mp ha with ha | ha
    · have hap := hc.append_left.le_last a ha
      omega
    · obtain rfl := List.mem_singleton.mp ha
      omega

/-- A retained observation before the lone one covers its window. -/
lemma reachesBack_of_last {p : ℕ × Assessment} {ms : ℕ} (hp : p ∈ past.getLast?)
    (hkept : o.1 - p.1 ≤ 2 * max escalateMs settleMs) (halone : ms < o.1 - p.1) :
    ReachesBack escalateMs settleMs (past ++ [o]) o.1 ms :=
  ⟨p, List.mem_append_left _ (List.mem_of_getLast? hp), by omega, by omega⟩

lemma window_of_last {p : ℕ × Assessment} {ms : ℕ} (hc : Chronological (past ++ [o]))
    (hp : p ∈ past.getLast?) (halone : ms < o.1 - p.1) : window (past ++ [o]) o.1 ms = [o.2] :=
  (window_eq_singleton_iff hc).mpr fun q hq => by
    obtain rfl := Option.mem_unique hp hq
    omega

/-- A lone observation worse than what is shown moves the tier up. -/
lemma movesUp_of_lone (hw : WellTimed (past ++ [o]))
    (hup : (shownAfter escalateMs settleMs past).tier < o.2.tier)
    (hback : ReachesBack escalateMs settleMs (past ++ [o]) o.1 escalateMs)
    (hwindow : window (past ++ [o]) o.1 escalateMs = [o.2]) :
    MovesUp escalateMs settleMs past o := by
  have hleast : o.2 ∈ (window (past ++ [o]) o.1 escalateMs).argmin Assessment.tier := by
    rw [hwindow]
    simp
  rwa [MovesUp, shownAfter_of_escalate hw hback hleast hup]

/-- A lone observation better than what is shown moves the tier down. -/
lemma movesDown_of_lone (hw : WellTimed (past ++ [o]))
    (hdown : o.2.tier < (shownAfter escalateMs settleMs past).tier)
    (hback : ReachesBack escalateMs settleMs (past ++ [o]) o.1 settleMs)
    (hwindow : window (past ++ [o]) o.1 settleMs = [o.2]) :
    MovesDown escalateMs settleMs past o := by
  have hgreatest : o.2 ∈ (window (past ++ [o]) o.1 settleMs).argmax Assessment.tier := by
    rw [hwindow]
    simp
  rwa [MovesDown, shownAfter_of_settle hw hback hgreatest hdown]

/-- One step: the change rests on a single sample exactly for a lone move. -/
theorem moves_on_single_sample_iff (he : 0 < escalateMs) (hs : 0 < settleMs)
    (hw : WellTimed (past ++ [o])) :
    (Moves escalateMs settleMs past o ∧ (decidingWindow escalateMs settleMs past o).length < 2) ↔
      LoneMove escalateMs settleMs past o := by
  have hc := hw.chronological
  constructor
  · rintro ⟨hmoves, hlength⟩
    rcases moves_iff.mp hmoves with hup | hdown
    · rw [decidingWindow_of_movesUp hup, length_window_lt_two_iff hc] at hlength
      obtain ⟨hback, hleast⟩ := hup.least hw
      rw [(window_eq_singleton_iff hc).mpr hlength, List.argmin_singleton] at hleast
      have hnext : shownAfter escalateMs settleMs (past ++ [o]) = o.2 := by simpa using hleast.symm
      rw [MovesUp, hnext] at hup
      rcases last_or_zero_of_reachesBack hc he hlength hback with ⟨rfl, hzero⟩ | ⟨p, hp, hkept, hlt⟩
      · exact .inl ⟨rfl, hzero, hup⟩
      · exact .inr ⟨p, hp, hkept, .inl ⟨hup, hlt⟩⟩
    · rw [decidingWindow_of_movesDown hdown, length_window_lt_two_iff hc] at hlength
      obtain ⟨hback, hgreatest⟩ := hdown.greatest hw
      rw [(window_eq_singleton_iff hc).mpr hlength, List.argmax_singleton] at hgreatest
      have hnext : shownAfter escalateMs settleMs (past ++ [o]) = o.2 := by
        simpa using hgreatest.symm
      rw [MovesDown, hnext] at hdown
      rcases last_or_zero_of_reachesBack hc hs hlength hback with ⟨rfl, hzero⟩ | ⟨p, hp, hkept, hlt⟩
      · simp at hdown
      · exact .inr ⟨p, hp, hkept, .inr ⟨hdown, hlt⟩⟩
  · rintro (⟨rfl, hzero, hup⟩ | ⟨p, hp, hkept, ⟨hup, hlt⟩ | ⟨hdown, hlt⟩⟩)
    · have hwindow : window ([] ++ [o]) o.1 escalateMs = [o.2] :=
        (window_eq_singleton_iff hc).mpr (by simp)
      have hmoves : MovesUp escalateMs settleMs [] o :=
        movesUp_of_lone hw hup ⟨o, by simp, by omega, by omega⟩ hwindow
      exact ⟨moves_iff.mpr (.inl hmoves), by
        rw [decidingWindow_of_movesUp hmoves, hwindow]
        exact Nat.lt_succ_self 1⟩
    · have hwindow := window_of_last hc hp hlt
      have hmoves := movesUp_of_lone hw hup (reachesBack_of_last hp hkept hlt) hwindow
      exact ⟨moves_iff.mpr (.inl hmoves), by simp [decidingWindow_of_movesUp hmoves, hwindow]⟩
    · have hwindow := window_of_last hc hp hlt
      have hmoves := movesDown_of_lone hw hdown (reachesBack_of_last hp hkept hlt) hwindow
      exact ⟨moves_iff.mpr (.inr hmoves), by simp [decidingWindow_of_movesDown hmoves, hwindow]⟩

/-- Over a whole run the tier never moves on a single sample exactly when no
observation that would move it comes alone. -/
theorem neverOnSingleSample_iff (escalateMs settleMs : ℕ) (he : 0 < escalateMs)
    (hs : 0 < settleMs) (obs : List (ℕ × Assessment)) (hw : WellTimed obs) :
    NeverOnSingleSample escalateMs settleMs obs ↔
      ∀ past o rest, obs = past ++ o :: rest → ¬LoneMove escalateMs settleMs past o := by
  constructor
  · intro h past o rest hobs hlone
    obtain ⟨hmoves, hlength⟩ := (moves_on_single_sample_iff he hs (hw.step hobs)).mpr hlone
    exact absurd (h past o rest hobs hmoves) (not_le.mpr hlength)
  · intro h past o rest hobs hmoves
    by_contra hlength
    exact h past o rest hobs
      ((moves_on_single_sample_iff he hs (hw.step hobs)).mp ⟨hmoves, not_le.mp hlength⟩)

end Single

/-- The sampling loop stalls for five seconds under load. -/
def stalledLoop : List (ℕ × Assessment) :=
  [(0, ⟨.easy, .clear⟩), (5000, ⟨.strained, .stall .cpu⟩)]

/-- The first sample after the stall is alone in its window and turns the tier at once. -/
theorem stalled_loop_moves_on_single_sample : ¬NeverOnSingleSample 1500 6000 stalledLoop := by
  intro h
  have hmoves : Moves 1500 6000 [(0, ⟨.easy, .clear⟩)] (5000, ⟨.strained, .stall .cpu⟩) := by
    unfold Moves
    decide
  have hlength := h [(0, ⟨.easy, .clear⟩)] (5000, ⟨.strained, .stall .cpu⟩) [] rfl hmoves
  revert hlength
  decide

/-- Two seconds of overload, sampled every half second. -/
def sustainedOverload : List (ℕ × Assessment) :=
  [500, 1000, 1500, 2000].map fun nowMs => (nowMs, ⟨.strained, .stall .cpu⟩)

/-- The fourth sample turns the tier, on the strength of all four. -/
theorem sustained_overload_moves_on_four_samples :
    Moves 1500 6000 (sustainedOverload.take 3) (2000, ⟨.strained, .stall .cpu⟩) ∧
      NeverOnSingleSample 1500 6000 sustainedOverload := by
  have hw : WellTimed sustainedOverload := ⟨by unfold Chronological; decide, by decide⟩
  have hmoves : Moves 1500 6000 (sustainedOverload.take 3) (2000, ⟨.strained, .stall .cpu⟩) := by
    unfold Moves
    decide
  refine ⟨hmoves, (neverOnSingleSample_iff 1500 6000 (by decide) (by decide) _ hw).mpr ?_⟩
  simp only [sustainedOverload, List.map_cons, List.map_nil, forall_place_cons]
  refine ⟨?_, ?_, ?_, ?_, forall_place_nil⟩ <;> simp [LoneMove]

section Flicker
variable {escalateMs settleMs : ℕ} {past mid obs rest : List (ℕ × Assessment)}
  {x y : ℕ × Assessment}

/-- The shown tier stays the same over the observations `mid` after `past`. -/
def Unmoved (escalateMs settleMs : ℕ) (past mid : List (ℕ × Assessment)) : Prop :=
  ∀ before o after, mid = before ++ o :: after → ¬Moves escalateMs settleMs (past ++ before) o

lemma Unmoved.tier_eq (h : Unmoved escalateMs settleMs past mid) :
    (shownAfter escalateMs settleMs (past ++ mid)).tier =
      (shownAfter escalateMs settleMs past).tier := by
  induction mid using List.reverseRecOn with
  | nil => rw [List.append_nil]
  | append_singleton mid o ih =>
    have hlast : ¬Moves escalateMs settleMs (past ++ mid) o := h mid o [] rfl
    have hbefore : Unmoved escalateMs settleMs past mid := by
      intro before a after hmid
      exact h before a (after ++ [o]) (by simp [hmid])
    rw [← List.append_assoc, not_not.mp hlast, ih hbefore]

/-- An observation that raised the tier supports it, so the tier is not lowered while
that observation is in the settling window. -/
lemma settle_after_escalation (hw : WellTimed (past ++ [x] ++ mid ++ [y]))
    (hup : MovesUp escalateMs settleMs past x)
    (hmid : Unmoved escalateMs settleMs (past ++ [x]) mid)
    (hdown : MovesDown escalateMs settleMs (past ++ [x] ++ mid) y) : x.1 + settleMs < y.1 := by
  obtain ⟨-, hleast⟩ := hup.least hw.append_left.append_left
  obtain ⟨-, hgreatest⟩ := hdown.greatest hw
  by_contra hle
  have hx : x.2 ∈ window (past ++ [x] ++ mid ++ [y]) y.1 settleMs :=
    mem_window.mpr ⟨x.1, by simp, by omega⟩
  have hsupport := List.le_of_mem_argmin (mem_window_now (by simp) escalateMs) hleast
  have hbelow := List.le_of_mem_argmax hx hgreatest
  rw [MovesDown, hmid.tier_eq] at hdown
  exact absurd (hsupport.trans hbelow) (not_le.mpr hdown)

lemma escalate_after_settling (hw : WellTimed (past ++ [x] ++ mid ++ [y]))
    (hdown : MovesDown escalateMs settleMs past x)
    (hmid : Unmoved escalateMs settleMs (past ++ [x]) mid)
    (hup : MovesUp escalateMs settleMs (past ++ [x] ++ mid) y) : x.1 + escalateMs < y.1 := by
  obtain ⟨-, hgreatest⟩ := hdown.greatest hw.append_left.append_left
  obtain ⟨-, hleast⟩ := hup.least hw
  by_contra hle
  have hx : x.2 ∈ window (past ++ [x] ++ mid ++ [y]) y.1 escalateMs :=
    mem_window.mpr ⟨x.1, by simp, by omega⟩
  have hsupport := List.le_of_mem_argmax (mem_window_now (by simp) settleMs) hgreatest
  have habove := List.le_of_mem_argmin hx hleast
  rw [MovesUp, hmid.tier_eq] at hup
  exact absurd (habove.trans hsupport) (not_le.mpr hup)

/-- Consecutive changes in opposite directions are more than the window of the later
one apart. -/
theorem no_flicker (escalateMs settleMs : ℕ) (obs : List (ℕ × Assessment)) (hw : WellTimed obs) :
    ∀ past x mid y rest, obs = past ++ [x] ++ mid ++ [y] ++ rest →
      Unmoved escalateMs settleMs (past ++ [x]) mid →
      (MovesUp escalateMs settleMs past x →
        MovesDown escalateMs settleMs (past ++ [x] ++ mid) y → x.1 + settleMs < y.1) ∧
      (MovesDown escalateMs settleMs past x →
        MovesUp escalateMs settleMs (past ++ [x] ++ mid) y → x.1 + escalateMs < y.1) := by
  intro past x mid y rest hobs hmid
  have hw' : WellTimed (past ++ [x] ++ mid ++ [y]) := by
    rw [hobs] at hw
    exact hw.append_left
  exact ⟨fun hup hdown => settle_after_escalation hw' hup hmid hdown,
    fun hdown hup => escalate_after_settling hw' hdown hmid hup⟩

end Flicker

/-- An overload of one second, and then calm on an uneven clock. -/
def shortOverload : List (ℕ × Assessment) :=
  [(100, ⟨.strained, .stall .cpu⟩), (1100, ⟨.strained, .stall .cpu⟩), (1500, ⟨.easy, .clear⟩),
    (3000, ⟨.easy, .clear⟩), (3600, ⟨.easy, .clear⟩)]

lemma wellTimed_shortOverload : WellTimed shortOverload :=
  ⟨by unfold Chronological; decide, by decide⟩

/-- The tier rises after one second and falls two and a half later. -/
theorem no_flicker_in_short_overload :
    MovesUp 1000 2000 (shortOverload.take 1) (1100, ⟨.strained, .stall .cpu⟩) ∧
      MovesDown 1000 2000 (shortOverload.take 4) (3600, ⟨.easy, .clear⟩) ∧ 1100 + 2000 < 3600 := by
  have hup : MovesUp 1000 2000 (shortOverload.take 1) (1100, ⟨.strained, .stall .cpu⟩) := by
    unfold MovesUp
    decide
  have hdown : MovesDown 1000 2000 (shortOverload.take 4) (3600, ⟨.easy, .clear⟩) := by
    unfold MovesDown
    decide
  have hmid : Unmoved 1000 2000 (shortOverload.take 2)
      [(1500, ⟨.easy, .clear⟩), (3000, ⟨.easy, .clear⟩)] := by
    intro before o after hsplit
    rcases before with _ | ⟨a, _ | ⟨b, before⟩⟩
    · obtain ⟨rfl, -⟩ := List.cons.inj hsplit
      unfold Moves
      decide
    · obtain ⟨rfl, hrest⟩ := List.cons.inj hsplit
      obtain ⟨rfl, -⟩ := List.cons.inj hrest
      unfold Moves
      decide
    · simp at hsplit
  exact ⟨hup, hdown, (no_flicker 1000 2000 shortOverload wellTimed_shortOverload _ _ _ _ []
    rfl hmid).1 hup hdown⟩

section CatchesUp
variable {escalateMs settleMs : ℕ} {past before later : List (ℕ × Assessment)}
  {first o : ℕ × Assessment}

/-- More than a window into the continuation, the window holds nothing older. -/
lemma mem_continuation_of_window (hc : Chronological (past ++ first :: later)) {ms : ℕ}
    (hlong : first.1 + ms < o.1) {a : Assessment}
    (ha : a ∈ window (past ++ (before ++ [o])) o.1 ms) : ∃ t, (t, a) ∈ before ++ [o] := by
  obtain ⟨t, ht, hcutoff⟩ := mem_window.mp ha
  rcases List.mem_append.mp ht with ht | ht
  · have hfirst : t ≤ first.1 := hc.le_of_append (t, a) ht first (.head _)
    omega
  · exact ⟨t, ht⟩

/-- With bounded gaps it also reaches back far enough to decide. -/
lemma reachesBack_of_continuation
    (hg : GapsAtMost (max escalateMs settleMs) (before ++ [o])) (hfirst : first ∈ before ++ [o])
    {ms : ℕ} (hms : ms ≤ max escalateMs settleMs) (hlong : first.1 + ms < o.1) :
    ReachesBack escalateMs settleMs (past ++ (before ++ [o])) o.1 ms := by
  have hearly : first.1 ≤ o.1 - ms := by omega
  obtain ⟨a, ha, hac, hgap⟩ := exists_mem_within_gap hg ⟨first, hfirst, hearly⟩
  exact ⟨a, List.mem_append_right _ ha, by omega, hac⟩

/-- One step, long enough after everything became easy enough. -/
lemma shown_le_of_continuation (hw : WellTimed (past ++ (before ++ [o])))
    (hback : ReachesBack escalateMs settleMs (past ++ (before ++ [o])) o.1 settleMs)
    {X : Tier} (hnow : o.2.tier ≤ X)
    (hwindow : ∀ a ∈ window (past ++ (before ++ [o])) o.1 settleMs, a.tier ≤ X) :
    (shownAfter escalateMs settleMs (past ++ (before ++ [o]))).tier ≤ X := by
  rw [← List.append_assoc] at hw hback hwindow ⊢
  have hshows := observe_shows escalateMs settleMs hw
  generalize shownAfter escalateMs settleMs (past ++ before ++ [o]) = next at hshows ⊢
  cases hshows with
  | escalate _ least _ =>
    exact (List.le_of_mem_argmin (mem_window_now (by simp) escalateMs) least).trans hnow
  | settle _ _ greatest _ => exact hwindow _ (List.argmax_mem greatest)
  | keep _ unsettled =>
    obtain ⟨better, hbetter⟩ :=
      exists_mem_argmax (show o ∈ past ++ before ++ [o] by simp) settleMs
    rw [Assessment.refresh_tier]
    exact (unsettled hback better hbetter).trans (hwindow _ (List.argmax_mem hbetter))

/-- One step, long enough after everything became bad enough. -/
lemma le_shown_of_continuation (hw : WellTimed (past ++ (before ++ [o])))
    (hback : ReachesBack escalateMs settleMs (past ++ (before ++ [o])) o.1 escalateMs)
    {X : Tier} (hnow : X ≤ o.2.tier)
    (hwindow : ∀ a ∈ window (past ++ (before ++ [o])) o.1 escalateMs, X ≤ a.tier) :
    X ≤ (shownAfter escalateMs settleMs (past ++ (before ++ [o]))).tier := by
  rw [← List.append_assoc] at hw hback hwindow ⊢
  have hshows := observe_shows escalateMs settleMs hw
  generalize shownAfter escalateMs settleMs (past ++ before ++ [o]) = next at hshows ⊢
  cases hshows with
  | escalate _ least _ => exact hwindow _ (List.argmin_mem least)
  | settle _ _ greatest _ =>
    exact hnow.trans (List.le_of_mem_argmax (mem_window_now (by simp) settleMs) greatest)
  | keep unescalated _ =>
    obtain ⟨worse, hworse⟩ :=
      exists_mem_argmin (show o ∈ past ++ before ++ [o] by simp) escalateMs
    rw [Assessment.refresh_tier]
    exact (hwindow _ (List.argmin_mem hworse)).trans (unescalated hback worse hworse)

/-- Whatever came before, while observations are at most the longer duration apart the
shown tier follows a bound on them within the window of its direction. -/
theorem catches_up (escalateMs settleMs : ℕ) (past : List (ℕ × Assessment))
    (first : ℕ × Assessment) (later : List (ℕ × Assessment)) (X : Tier)
    (hw : WellTimed (past ++ first :: later))
    (hg : GapsAtMost (max escalateMs settleMs) (first :: later)) :
    ((∀ o ∈ first :: later, o.2.tier ≤ X) → ∀ before o after,
      first :: later = before ++ [o] ++ after → first.1 + settleMs < o.1 →
        (shownAfter escalateMs settleMs (past ++ (before ++ [o]))).tier ≤ X) ∧
    ((∀ o ∈ first :: later, X ≤ o.2.tier) → ∀ before o after,
      first :: later = before ++ [o] ++ after → first.1 + escalateMs < o.1 →
        X ≤ (shownAfter escalateMs settleMs (past ++ (before ++ [o]))).tier) := by
  have hstep : ∀ before o after, first :: later = before ++ [o] ++ after →
      WellTimed (past ++ (before ++ [o])) ∧ GapsAtMost (max escalateMs settleMs) (before ++ [o]) ∧
        first ∈ before ++ [o] := by
    intro before o after hcont
    refine ⟨?_, ?_, ?_⟩
    · rw [hcont, ← List.append_assoc] at hw
      exact hw.append_left
    · rw [hcont] at hg
      exact hg.append_left
    · cases before with
      | nil => simp [(List.cons.inj hcont).1]
      | cons b before => simp [(List.cons.inj hcont).1]
  constructor
  · intro hle before o after hcont hlong
    obtain ⟨hw', hg', hfirst⟩ := hstep before o after hcont
    have hmem : ∀ a ∈ before ++ [o], a.2.tier ≤ X := fun a ha =>
      hle a (hcont ▸ List.mem_append_left _ ha)
    refine shown_le_of_continuation hw'
      (reachesBack_of_continuation hg' hfirst (le_max_right _ _) hlong) (hmem o (by simp)) ?_
    intro a ha
    obtain ⟨t, ht⟩ := mem_continuation_of_window hw.chronological hlong ha
    exact hmem _ ht
  · intro hge before o after hcont hlong
    obtain ⟨hw', hg', hfirst⟩ := hstep before o after hcont
    have hmem : ∀ a ∈ before ++ [o], X ≤ a.2.tier := fun a ha =>
      hge a (hcont ▸ List.mem_append_left _ ha)
    refine le_shown_of_continuation hw'
      (reachesBack_of_continuation hg' hfirst (le_max_left _ _) hlong) (hmem o (by simp)) ?_
    intro a ha
    obtain ⟨t, ht⟩ := mem_continuation_of_window hw.chronological hlong ha
    exact hmem _ ht

end CatchesUp

/-- The tier is back once the settling time of a calm continuation has passed. -/
theorem catches_up_after_short_overload : (shownAfter 1000 2000 shortOverload).tier ≤ .easy := by
  have hg : GapsAtMost (max 1000 2000) (shortOverload.drop 2) := by
    simp [GapsAtMost, shortOverload]
  exact (catches_up 1000 2000 (shortOverload.take 2) _ _ .easy wellTimed_shortOverload hg).1
    (by decide) [(1500, ⟨.easy, .clear⟩), (3000, ⟨.easy, .clear⟩)] (3600, ⟨.easy, .clear⟩) [] rfl
    (by decide)

end LoadBear
