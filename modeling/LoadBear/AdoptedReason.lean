import LoadBear.ReferenceTracker

/-!
# The reason that comes with a tier

Without a move the reason follows the window just measured, so the panel cannot keep
naming a resource that stopped being the worst one. A move adopts the earliest window of
the extreme tier over the deciding span, with whatever reason that window had.
-/
namespace LoadBear

open TimedHistory

section Moves
variable (escalateMs settleMs : ℕ) (past : List (ℕ × Assessment)) (o : ℕ × Assessment)

/-- The escalation window is covered, and every judgement in it is worse than what is shown. -/
def Rises : Prop :=
  ReachesBack escalateMs settleMs (past ++ [o]) o.1 escalateMs ∧
    ∀ a ∈ window (past ++ [o]) o.1 escalateMs, (shownAfter escalateMs settleMs past).tier < a.tier

/-- The settling window is covered, and every judgement in it is better than what is shown. -/
def Falls : Prop :=
  ReachesBack escalateMs settleMs (past ++ [o]) o.1 settleMs ∧
    ∀ a ∈ window (past ++ [o]) o.1 settleMs, a.tier < (shownAfter escalateMs settleMs past).tier

/-- The observation completes a move, and the earliest window of the extreme tier over the
deciding span is as told. -/
def MoveAdopts (p : Assessment → Bool) : Prop :=
  (Rises escalateMs settleMs past o ∧
      (earliestLeast Assessment.tier (window (past ++ [o]) o.1 escalateMs)).any p) ∨
    (Falls escalateMs settleMs past o ∧
      (earliestGreatest Assessment.tier (window (past ++ [o]) o.1 settleMs)).any p)

instance : Decidable (Rises escalateMs settleMs past o) := inferInstanceAs (Decidable (_ ∧ _))

instance : Decidable (Falls escalateMs settleMs past o) := inferInstanceAs (Decidable (_ ∧ _))

instance (p : Assessment → Bool) : Decidable (MoveAdopts escalateMs settleMs past o p) :=
  inferInstanceAs (Decidable (_ ∧ _ ∨ _ ∧ _))

variable {escalateMs settleMs past o}

lemma movesUp_of_rises (hw : WellTimed (past ++ [o])) (h : Rises escalateMs settleMs past o) :
    shownAfter escalateMs settleMs (past ++ [o]) ∈
        earliestLeast Assessment.tier (window (past ++ [o]) o.1 escalateMs) ∧
      MovesUp escalateMs settleMs past o := by
  obtain ⟨hback, hworse⟩ := h
  obtain ⟨worse, hleast⟩ := exists_mem_argmin (show o ∈ past ++ [o] by simp) escalateMs
  have hup := hworse worse (List.argmin_mem hleast)
  rw [MovesUp, shownAfter_of_escalate hw hback hleast hup, ← argmin_eq_earliestLeast]
  exact ⟨hleast, hup⟩

lemma movesDown_of_falls (hw : WellTimed (past ++ [o])) (h : Falls escalateMs settleMs past o) :
    shownAfter escalateMs settleMs (past ++ [o]) ∈
        earliestGreatest Assessment.tier (window (past ++ [o]) o.1 settleMs) ∧
      MovesDown escalateMs settleMs past o := by
  obtain ⟨hback, hbetter⟩ := h
  obtain ⟨better, hgreatest⟩ := exists_mem_argmax (show o ∈ past ++ [o] by simp) settleMs
  have hdown := hbetter better (List.argmax_mem hgreatest)
  rw [MovesDown, shownAfter_of_settle hw hback hgreatest hdown, ← argmax_eq_earliestGreatest]
  exact ⟨hgreatest, hdown⟩

theorem movesUp_iff (hw : WellTimed (past ++ [o])) :
    MovesUp escalateMs settleMs past o ↔ Rises escalateMs settleMs past o := by
  constructor
  · intro hup
    obtain ⟨hback, hleast⟩ := hup.least hw
    exact ⟨hback, fun a ha => lt_of_lt_of_le hup (List.le_of_mem_argmin ha hleast)⟩
  · intro h
    exact (movesUp_of_rises hw h).2

theorem movesDown_iff (hw : WellTimed (past ++ [o])) :
    MovesDown escalateMs settleMs past o ↔ Falls escalateMs settleMs past o := by
  constructor
  · intro hdown
    obtain ⟨hback, hgreatest⟩ := hdown.greatest hw
    exact ⟨hback, fun a ha => lt_of_le_of_lt (List.le_of_mem_argmax ha hgreatest) hdown⟩
  · intro h
    exact (movesDown_of_falls hw h).2

/-- What a move adopts, told from the windows it was decided on. -/
theorem moveAdopts_iff (hw : WellTimed (past ++ [o])) (p : Assessment → Bool) :
    MoveAdopts escalateMs settleMs past o p ↔
      Moves escalateMs settleMs past o ∧ p (shownAfter escalateMs settleMs (past ++ [o])) := by
  have hrise (h : Rises escalateMs settleMs past o) :
      (earliestLeast Assessment.tier (window (past ++ [o]) o.1 escalateMs)).any p =
        p (shownAfter escalateMs settleMs (past ++ [o])) := by
    rw [Option.mem_def.mp (movesUp_of_rises hw h).1, Option.any_some]
  have hfall (h : Falls escalateMs settleMs past o) :
      (earliestGreatest Assessment.tier (window (past ++ [o]) o.1 settleMs)).any p =
        p (shownAfter escalateMs settleMs (past ++ [o])) := by
    rw [Option.mem_def.mp (movesDown_of_falls hw h).1, Option.any_some]
  rw [MoveAdopts, moves_iff, movesUp_iff hw, movesDown_iff hw, or_and_right]
  exact or_congr (and_congr_right fun h => by rw [hrise h])
    (and_congr_right fun h => by rw [hfall h])

end Moves

section Reasons
variable (escalateMs settleMs : ℕ)

/-- Whenever the shown tier is that of the observation, so is the shown reason. -/
def ReasonsFresh (obs : List (ℕ × Assessment)) : Prop :=
  ∀ past o later, obs = past ++ o :: later →
    (shownAfter escalateMs settleMs (past ++ [o])).tier = o.2.tier →
      (shownAfter escalateMs settleMs (past ++ [o])).reason = o.2.reason

/-- The observation completes a move to its own tier, and the earliest window of that tier
over the deciding span had another reason. -/
def StaleMove (past : List (ℕ × Assessment)) (o : ℕ × Assessment) : Prop :=
  MoveAdopts escalateMs settleMs past o fun a => a.tier = o.2.tier ∧ a.reason ≠ o.2.reason

instance (past : List (ℕ × Assessment)) (o : ℕ × Assessment) :
    Decidable (StaleMove escalateMs settleMs past o) :=
  inferInstanceAs (Decidable (MoveAdopts _ _ _ _ _))

variable {escalateMs settleMs} {past : List (ℕ × Assessment)} {o : ℕ × Assessment}

/-- The reason is another one exactly after a move that adopts it. -/
theorem stale_iff (hw : WellTimed (past ++ [o])) :
    ((shownAfter escalateMs settleMs (past ++ [o])).tier = o.2.tier ∧
      (shownAfter escalateMs settleMs (past ++ [o])).reason ≠ o.2.reason) ↔
      StaleMove escalateMs settleMs past o := by
  rw [StaleMove, moveAdopts_iff hw, decide_eq_true_iff]
  constructor
  · rintro ⟨htier, hreason⟩
    refine ⟨fun hstays => hreason ?_, htier, hreason⟩
    -- the tier stays, so the reason was refreshed
    rw [refresh_of_not_moves hw (not_not.mpr hstays), Assessment.refresh,
      if_pos (htier.symm.trans hstays)]
  · intro h
    exact h.2

/-- A run never shows a stale reason exactly when none of its moves adopts one. -/
theorem reasonsFresh_iff (escalateMs settleMs : ℕ) (obs : List (ℕ × Assessment))
    (hw : WellTimed obs) : ReasonsFresh escalateMs settleMs obs ↔
      ∀ past o later, obs = past ++ o :: later → ¬StaleMove escalateMs settleMs past o := by
  constructor
  · intro h past o later hobs hstale
    obtain ⟨htier, hreason⟩ := (stale_iff (hw.step hobs)).mpr hstale
    exact hreason (h past o later hobs htier)
  · intro h past o later hobs htier
    by_contra hreason
    exact h past o later hobs ((stale_iff (hw.step hobs)).mp ⟨htier, hreason⟩)

/-- Memory for one window, and the processor for the three after it. -/
def memoryThenProcessor : List (ℕ × Assessment) :=
  [(500, ⟨.braced, .stall .memory⟩), (1000, ⟨.braced, .stall .cpu⟩),
    (1500, ⟨.braced, .stall .cpu⟩), (2000, ⟨.braced, .stall .cpu⟩)]

lemma wellTimed_memoryThenProcessor : WellTimed memoryThenProcessor :=
  ⟨by simp [Chronological, memoryThenProcessor], by simp [memoryThenProcessor, u64Max]⟩

/-- The fourth window turns the tier, and the panel names the memory again. -/
theorem memory_then_processor_stale :
    WellTimed memoryThenProcessor ∧ ¬ReasonsFresh 1500 6000 memoryThenProcessor := by
  refine ⟨wellTimed_memoryThenProcessor, fun h => ?_⟩
  have hshown : shownAfter 1500 6000 memoryThenProcessor = ⟨.braced, .stall .memory⟩ := by
    decide +kernel
  have hfresh := h (memoryThenProcessor.take 3) (2000, ⟨.braced, .stall .cpu⟩) [] rfl
  rw [show memoryThenProcessor.take 3 ++ [(2000, ⟨.braced, .stall .cpu⟩)] = memoryThenProcessor
    from rfl, hshown] at hfresh
  exact absurd (hfresh rfl) (by decide)

/-- The memory again, but before the span that decides. -/
def memoryLongBefore : List (ℕ × Assessment) :=
  [(400, ⟨.braced, .stall .memory⟩), (1000, ⟨.braced, .stall .cpu⟩),
    (1500, ⟨.braced, .stall .cpu⟩), (2000, ⟨.braced, .stall .cpu⟩)]

/-- The fourth window turns the tier with its own reason. -/
theorem memory_long_before_fresh :
    shownAfter 1500 6000 memoryLongBefore = ⟨.braced, .stall .cpu⟩ ∧
      ReasonsFresh 1500 6000 memoryLongBefore := by
  have hw : WellTimed memoryLongBefore := ⟨by unfold Chronological; decide, by decide⟩
  have hshown : shownAfter 1500 6000 memoryLongBefore = ⟨.braced, .stall .cpu⟩ := by
    decide +kernel
  refine ⟨hshown, (reasonsFresh_iff 1500 6000 _ hw).mpr ?_⟩
  simp only [memoryLongBefore, forall_place_cons]
  refine ⟨?_, ?_, ?_, ?_, forall_place_nil⟩ <;> decide +kernel

end Reasons
end LoadBear
