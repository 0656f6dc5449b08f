import LoadBear.Counters
import LoadBear.Explanation

/-!
# Tier and reason agree

The tracker adopts whole judgements, or takes the reason of one that has the tier shown,
so whatever the clock does it shows a judgement that some window got. What a judgement
says of its window then holds of the tier shown, and more trouble never lowers a tier.
-/
namespace LoadBear

section Tracker

/-- A refreshed reason comes with the tier of its own window. -/
lemma Assessment.refresh_eq_or (shown latest : Assessment) :
    shown.refresh latest = latest ∨ shown.refresh latest = shown := by
  unfold Assessment.refresh
  by_cases h : latest.tier = shown.tier
  · rw [if_pos h, ← h]
    exact .inl rfl
  · rw [if_neg h]
    exact .inr rfl

namespace TierTracker

/-- What is shown and what is kept were observed. -/
structure Observed (t : TierTracker) (seen : List Assessment) : Prop where
  current : t.current = ⟨.easy, .clear⟩ ∨ t.current ∈ seen
  history : ∀ o ∈ t.history, o.2 ∈ seen

variable {t : TierTracker} {seen : List Assessment} {assessment : Assessment} {nowMs : ℕ}

lemma mem_of_supportedByAll {ms : ℕ} {worst : Bool} {a : Assessment}
    (h : t.supportedByAll nowMs ms worst = some a) : ∃ o ∈ t.history, o.2 = a := by
  have hmem : ∀ judgements : List Assessment, agreed worst judgements = some a →
      a ∈ judgements := by
    intro judgements hagreed
    unfold agreed at hagreed
    cases worst with
    | true => exact List.argmin_mem hagreed
    | false => exact List.argmax_mem hagreed
  unfold supportedByAll at h
  split at h
  · simp at h
  · dsimp only at h
    split_ifs at h
    obtain ⟨o, ho, heq⟩ := List.mem_map.mp (hmem _ h)
    exact ⟨o, List.mem_of_mem_filter ho, heq⟩

lemma mem_of_move {a : Assessment} (h : t.move nowMs = some a) : ∃ o ∈ t.history, o.2 = a := by
  unfold move at h
  split at h
  · rename_i worse hworse
    obtain rfl := Option.some.inj h
    exact mem_of_supportedByAll (Option.mem_filter_iff.mp hworse).1
  · exact mem_of_supportedByAll (Option.mem_filter_iff.mp h).1

lemma Observed.record (h : t.Observed seen) :
    (t.record assessment nowMs).Observed (seen ++ [assessment]) := by
  refine ⟨h.current.imp_right (List.mem_append_left _), fun o ho => ?_⟩
  rcases List.mem_append.mp ((List.dropWhile_sublist _).mem ho) with hold | hnew
  · exact List.mem_append_left _ (h.history o hold)
  · simp [List.mem_singleton.mp hnew]

/-- Whatever the clock says, what is shown next was observed. -/
lemma Observed.observe (h : t.Observed seen) :
    (t.observe assessment nowMs).Observed (seen ++ [assessment]) := by
  have hrecord : (t.record assessment nowMs).Observed (seen ++ [assessment]) := h.record
  refine ⟨?_, by simpa using hrecord.history⟩
  rw [observe_current]
  cases hmove : (t.record assessment nowMs).move nowMs with
  | some adopted =>
    obtain ⟨o, ho, rfl⟩ := mem_of_move hmove
    exact .inr (hrecord.history o ho)
  | none =>
    rcases Assessment.refresh_eq_or t.current assessment with hrefresh | hrefresh
    · exact .inr (by simp [hrefresh])
    · rw [Option.getD_none, hrefresh]
      exact hrecord.current

lemma new_observed (escalateMs settleMs : ℕ) : (new escalateMs settleMs).Observed [] :=
  ⟨.inl rfl, by simp [new]⟩

lemma run_observed (escalateMs settleMs : ℕ) (obs : List (ℕ × Assessment)) :
    ((new escalateMs settleMs).run obs).Observed (obs.map Prod.snd) := by
  induction obs using List.reverseRecOn with
  | nil => exact new_observed escalateMs settleMs
  | append_singleton past o ih =>
    rw [run_concat, List.map_append]
    exact ih.observe

end TierTracker
end Tracker

section Worst
variable (s : StallSignal)

/-- The level of a resource, if it is known. -/
def StallSignal.level : Resource → Option ℚ
  | .cpu => some s.cpu
  | .memory => some s.memory
  | .io => s.io

/-- The worst resource has the level given with it, and none has a greater one. -/
lemma StallSignal.worst_spec :
    s.worst.2 ∈ s.level s.worst.1 ∧ ∀ resource, ∀ l ∈ s.level resource, l ≤ s.worst.2 := by
  obtain ⟨cpu, memory, io⟩ := s
  have hfirst : ∃ w : Resource × ℚ, w = (if cpu < memory then (.memory, memory) else (.cpu, cpu)) ∧
      cpu ≤ w.2 ∧ memory ≤ w.2 ∧ (w = (.memory, memory) ∨ w = (.cpu, cpu)) := by
    by_cases hlt : cpu < memory
    · exact ⟨_, rfl, by simp [hlt, hlt.le]⟩
    · exact ⟨_, rfl, by simp [hlt, not_lt.mp hlt]⟩
  obtain ⟨w, hw, hcpu, hmemory, hcases⟩ := hfirst
  unfold worst
  rw [← hw]
  cases io with
  | none =>
    refine ⟨by rcases hcases with rfl | rfl <;> rfl, fun resource l hl => ?_⟩
    cases resource <;> simp_all [level]
  | some io =>
    by_cases hio : w.2 < io
    · simp only [hio, if_true]
      refine ⟨rfl, fun resource l hl => ?_⟩
      cases resource <;> simp [level] at hl <;> subst hl <;> linarith
    · simp only [hio, if_false]
      refine ⟨by rcases hcases with rfl | rfl <;> rfl, fun resource l hl => ?_⟩
      cases resource <;> simp [level] at hl <;> subst hl <;> linarith

/-- No component is lower, and none that was known is unknown. -/
def StallSignal.RaisedTo (s s' : StallSignal) : Prop :=
  ∀ resource, ∀ l ∈ s.level resource, ∃ l' ∈ s'.level resource, l ≤ l'

lemma StallSignal.RaisedTo.worst_le {s s' : StallSignal} (h : s.RaisedTo s') :
    s.worst.2 ≤ s'.worst.2 := by
  obtain ⟨l, hl, hle⟩ := h s.worst.1 s.worst.2 s.worst_spec.1
  exact hle.trans (s'.worst_spec.2 s.worst.1 l hl)

end Worst

section Classify
variable (rt : Runtime)

/-- The levels that make a tier. -/
def InBand : Tier → ℚ → Prop
  | .easy, level => level < stallBraced rt
  | .braced, level => stallBraced rt ≤ level ∧ level < stallStrained rt
  | .strained, level => stallStrained rt ≤ level

lemma inBand_stallTier (level : ℚ) : InBand rt (stallTier rt level) level := by
  unfold stallTier
  split_ifs with hstrained hbraced
  · exact hstrained
  · exact ⟨hbraced, not_le.mp hstrained⟩
  · exact not_le.mp hbraced

lemma stallTier_mono : Monotone (stallTier rt) := by
  intro a b hab
  unfold stallTier
  split_ifs <;> first | decide | (exfalso; linarith)

lemma tier_mono {a b : Severity} (h : a.rank ≤ b.rank) : a.tier ≤ b.tier := by
  cases a <;> cases b <;> first | decide | simp [Severity.rank] at h

lemma worstVerdict_spec {verdicts : List Verdict} {v : Verdict}
    (h : worstVerdict verdicts = some v) :
    v ∈ verdicts ∧ ∀ u ∈ verdicts, u.severity.rank ≤ v.severity.rank := by
  refine ⟨List.mem_reverse.mp (List.argmax_mem h), fun u hu => ?_⟩
  exact List.le_of_mem_argmax (f := fun v : Verdict => v.severity.rank)
    (List.mem_reverse.mpr hu) h

/-- The tier the verdicts make on their own. -/
def verdictTier (verdicts : List Verdict) : Tier :=
  ((worstVerdict verdicts).map fun v => v.severity.tier).getD .easy

lemma le_verdictTier {verdicts : List Verdict} {v : Verdict} (h : v ∈ verdicts) :
    v.severity.tier ≤ verdictTier verdicts := by
  unfold verdictTier
  cases hworst : worstVerdict verdicts with
  | none =>
    have hnil : verdicts = [] := by simpa [worstVerdict] using hworst
    simp [hnil] at h
  | some worst => exact tier_mono ((worstVerdict_spec hworst).2 v h)

lemma verdictTier_mono {verdicts verdicts' : List Verdict} (h : verdicts ⊆ verdicts') :
    verdictTier verdicts ≤ verdictTier verdicts' := by
  rw [verdictTier]
  cases hworst : worstVerdict verdicts with
  | none => exact Tier.easy_le _
  | some worst => exact le_verdictTier (h (worstVerdict_spec hworst).1)

variable (verdicts : List Verdict) (stall : StallSignal)

lemma classify_tier : (classify rt verdicts stall).tier =
    max (verdictTier verdicts) (stallTier rt stall.worst.2) := by
  unfold classify
  dsimp only
  by_cases h : stallTier rt stall.worst.2 ≤ verdictTier verdicts
  · exact (congrArg Assessment.tier (if_pos h)).trans (max_eq_left h).symm
  · exact (congrArg Assessment.tier (if_neg h)).trans (max_eq_right (not_le.mp h).le).symm

variable {rt verdicts stall}

lemma classify_mono {verdicts' : List Verdict} {stall' : StallSignal} (hv : verdicts ⊆ verdicts')
    (hs : stall.RaisedTo stall') :
    (classify rt verdicts stall).tier ≤ (classify rt verdicts' stall').tier := by
  rw [classify_tier, classify_tier]
  exact max_le_max (verdictTier_mono hv) (stallTier_mono rt hs.worst_le)

variable (rt verdicts stall) in
/-- A judgement is clear, or by the worst verdict, or by the worst stall. -/
lemma classify_cases : (classify rt verdicts stall).reason = .clear ∨
    (∃ v, worstVerdict verdicts = some v ∧
      classify rt verdicts stall = ⟨v.severity.tier, .verdict v.kind⟩) ∨
    classify rt verdicts stall = ⟨stallTier rt stall.worst.2, .stall stall.worst.1⟩ := by
  unfold classify
  dsimp only
  by_cases hworse : stallTier rt stall.worst.2 ≤
      ((worstVerdict verdicts).map fun v => v.severity.tier).getD .easy
  · rw [if_pos hworse]
    cases worstVerdict verdicts with
    | none => exact .inl rfl
    | some v =>
      by_cases heasy : .easy < v.severity.tier
      · exact .inr (.inl ⟨v, rfl, by simp [heasy]⟩)
      · exact .inl (if_neg heasy)
  · rw [if_neg hworse]
    exact .inr (.inr rfl)

/-- A judgement by a verdict names one of the worst of its window, which has its tier. -/
lemma classify_verdict {kind : VerdictKind}
    (h : (classify rt verdicts stall).reason = .verdict kind) :
    ∃ v ∈ verdicts, v.kind = kind ∧ v.severity.tier = (classify rt verdicts stall).tier ∧
      ∀ u ∈ verdicts, u.severity.rank ≤ v.severity.rank := by
  rcases classify_cases rt verdicts stall with hclear | ⟨v, hworst, heq⟩ | heq
  · simp [hclear] at h
  · rw [heq] at h ⊢
    obtain ⟨hmem, hgreatest⟩ := worstVerdict_spec hworst
    exact ⟨v, hmem, TierReason.verdict.inj h, rfl, hgreatest⟩
  · simp [heq] at h

/-- A judgement by a stall names the worst resource of its window, whose level has its tier. -/
lemma classify_stall {resource : Resource}
    (h : (classify rt verdicts stall).reason = .stall resource) :
    stall.worst.1 = resource ∧ ∃ level ∈ stall.level resource,
      (∀ other, ∀ l ∈ stall.level other, l ≤ level) ∧
        InBand rt (classify rt verdicts stall).tier level := by
  rcases classify_cases rt verdicts stall with hclear | ⟨v, -, heq⟩ | heq
  · simp [hclear] at h
  · simp [heq] at h
  · rw [heq] at h ⊢
    obtain rfl := TierReason.stall.inj h
    exact ⟨rfl, stall.worst.2, stall.worst_spec.1, stall.worst_spec.2, inBand_stallTier rt _⟩

end Classify

/-- A window as it is measured: what was found in it, the stall, and when it ended. -/
structure MeasuredWindow where
  verdicts : List Verdict
  stall : StallSignal
  nowMs : ℕ

def MeasuredWindow.judged (rt : Runtime) (w : MeasuredWindow) : ℕ × Assessment :=
  (w.nowMs, classify rt w.verdicts w.stall)

/-- After any run of measured windows, whatever their times, the judgement shown is the first one
or that of a window of the run, it is easy exactly when it is clear, and its reason is true of
such a window. A window with more trouble is never judged easier. -/
theorem shown_reason_agrees (rt : Runtime) :
    (∀ (escalateMs settleMs : ℕ) (windows : List MeasuredWindow),
      let shown := shownAfter escalateMs settleMs (windows.map (MeasuredWindow.judged rt))
      (shown = ⟨.easy, .clear⟩ ∨
        ∃ w ∈ windows, shown = classify rt w.verdicts w.stall) ∧
      (shown.tier = .easy ↔ shown.reason = .clear) ∧
      (∀ kind, shown.reason = .verdict kind →
        ∃ w ∈ windows, ∃ v ∈ w.verdicts, v.kind = kind ∧ v.severity.tier = shown.tier ∧
          ∀ u ∈ w.verdicts, u.severity.rank ≤ v.severity.rank) ∧
      ∀ resource, shown.reason = .stall resource →
        ∃ w ∈ windows, w.stall.worst.1 = resource ∧ ∃ level ∈ w.stall.level resource,
          (∀ other, ∀ l ∈ w.stall.level other, l ≤ level) ∧ InBand rt shown.tier level) ∧
    ∀ (verdicts verdicts' : List Verdict) (stall stall' : StallSignal),
      verdicts ⊆ verdicts' → stall.RaisedTo stall' →
        (classify rt verdicts stall).tier ≤ (classify rt verdicts' stall').tier := by
  refine ⟨fun escalateMs settleMs windows => ?_, fun _ _ _ _ hv hs => classify_mono hv hs⟩
  intro shown
  have hobserved : shown = ⟨.easy, .clear⟩ ∨
      ∃ w ∈ windows, shown = classify rt w.verdicts w.stall := by
    refine (TierTracker.run_observed escalateMs settleMs _).current.imp_right fun hmem => ?_
    obtain ⟨o, ho, heq⟩ := List.mem_map.mp hmem
    obtain ⟨w, hw, rfl⟩ := List.mem_map.mp ho
    exact ⟨w, hw, heq.symm⟩
  refine ⟨hobserved, ?_, fun kind hkind => ?_, fun resource hresource => ?_⟩
  · rcases hobserved with hfirst | ⟨w, -, hjudged⟩
    · simp [hfirst]
    · rw [hjudged]
      exact (classify_consistent rt w.verdicts w.stall).symm
  · rcases hobserved with hfirst | ⟨w, hw, hjudged⟩
    · simp [hfirst] at hkind
    · rw [hjudged] at hkind ⊢
      exact ⟨w, hw, classify_verdict hkind⟩
  · rcases hobserved with hfirst | ⟨w, hw, hjudged⟩
    · simp [hfirst] at hresource
    · rw [hjudged] at hresource ⊢
      exact ⟨w, hw, classify_stall hresource⟩

end LoadBear
