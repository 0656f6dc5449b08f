import Mathlib.Data.List.Chain
import Mathlib.Data.List.MinMax
import Mathlib.Tactic

/-!
# Histories of timed observations

A history lists observations in the order of their times, and a window is what it
holds since a cutoff. Pruning the front is then the same as taking a window, and
where the gaps are bounded something always lies within one gap of a cutoff.
-/
namespace LoadBear.TimedHistory

variable {α : Type*}

/-- Times never decrease. -/
def Chronological (h : List (ℕ × α)) : Prop := h.Pairwise fun a b => a.1 ≤ b.1

/-- Consecutive times are at most `gap` apart. -/
def GapsAtMost (gap : ℕ) (h : List (ℕ × α)) : Prop := h.IsChain fun a b => b.1 ≤ a.1 + gap

/-- What is held since a cutoff, the cutoff included. -/
def since (cutoff : ℕ) (h : List (ℕ × α)) : List (ℕ × α) := h.filter (cutoff ≤ ·.1)

/-- Something is at or before the cutoff. -/
def Reaches (h : List (ℕ × α)) (cutoff : ℕ) : Prop := ∃ o ∈ h, o.1 ≤ cutoff

variable {h h' : List (ℕ × α)} {o : ℕ × α} {c d gap : ℕ}

@[simp] theorem mem_since : o ∈ since c h ↔ o ∈ h ∧ c ≤ o.1 := by simp [since]

@[simp] theorem since_nil : since c ([] : List (ℕ × α)) = [] := rfl

lemma since_append : since c (h ++ h') = since c h ++ since c h' := List.filter_append ..

lemma since_since (hdc : d ≤ c) : since c (since d h) = since c h := by
  rw [since, since, since, List.filter_filter]
  apply List.filter_congr
  intro o _
  simp only [Bool.and_eq_left_iff_imp, decide_eq_true_eq]
  exact hdc.trans

lemma since_eq_nil (hlt : ∀ o ∈ h, o.1 < c) : since c h = [] := by
  simpa [since] using hlt

lemma since_eq_self (hle : ∀ o ∈ h, c ≤ o.1) : since c h = h := by
  simpa [since] using hle

namespace Chronological

lemma append_left (hh : Chronological (h ++ h')) : Chronological h :=
  (List.pairwise_append.mp hh).1

lemma append_right (hh : Chronological (h ++ h')) : Chronological h' :=
  (List.pairwise_append.mp hh).2.1

lemma le_of_append (hh : Chronological (h ++ h')) : ∀ a ∈ h, ∀ b ∈ h', a.1 ≤ b.1 :=
  (List.pairwise_append.mp hh).2.2

lemma le_last (hh : Chronological (h ++ [o])) : ∀ a ∈ h ++ [o], a.1 ≤ o.1 := by
  intro a ha
  rcases List.mem_append.mp ha with ha | ha
  · exact hh.le_of_append a ha o (List.mem_singleton_self o)
  · rw [List.mem_singleton.mp ha]

lemma head_le (hh : Chronological (o :: h)) : ∀ a ∈ o :: h, o.1 ≤ a.1 := by
  intro a ha
  rcases List.mem_cons.mp ha with rfl | ha
  · exact le_rfl
  · exact List.rel_of_pairwise_cons hh ha

lemma sublist (hh : Chronological h) (hsub : h'.Sublist h) : Chronological h' :=
  List.Pairwise.sublist hsub hh

lemma since (hh : Chronological h) : Chronological (since c h) := List.Pairwise.filter _ hh

end Chronological

/-- Dropping outdated observations from the front leaves a window. -/
theorem dropWhile_eq_since (hh : Chronological h) : h.dropWhile (·.1 < c) = since c h := by
  induction h with
  | nil => rfl
  | cons a h ih =>
    by_cases ha : a.1 < c
    · have hstep : (a :: h).dropWhile (·.1 < c) = h.dropWhile (·.1 < c) := by simp [ha]
      rw [hstep, ih (List.Pairwise.of_cons hh)]
      simp [since, not_le.mpr ha]
    · have hstep : (a :: h).dropWhile (·.1 < c) = a :: h := by simp [ha]
      rw [hstep, since_eq_self fun b hb => (not_lt.mp ha).trans (hh.head_le b hb)]

/-- The front tells whether a history reaches back to a cutoff. -/
lemma reaches_iff_head (hh : Chronological (o :: h)) : Reaches (o :: h) c ↔ o.1 ≤ c := by
  constructor
  · rintro ⟨a, ha, hac⟩
    exact (hh.head_le a ha).trans hac
  · exact fun hoc => ⟨o, .head _, hoc⟩

lemma GapsAtMost.append_left (hg : GapsAtMost gap (h ++ h')) : GapsAtMost gap h :=
  List.IsChain.left_of_append hg

/-- The latest observation at or before a cutoff is within a gap of it, or of the
end of the history. -/
theorem exists_mem_within_gap (hg : GapsAtMost gap (h ++ [o])) (hr : Reaches (h ++ [o]) c) :
    ∃ a ∈ h ++ [o], a.1 ≤ c ∧ (c ≤ a.1 + gap ∨ o.1 ≤ a.1 + gap) := by
  induction h using List.reverseRecOn generalizing o with
  | nil =>
    obtain ⟨a, ha, hac⟩ := hr
    obtain rfl : a = o := by simpa using ha
    exact ⟨a, ha, hac, .inr (by omega)⟩
  | append_singleton h b ih =>
    by_cases ho : o.1 ≤ c
    · exact ⟨o, by simp, ho, .inr (by omega)⟩
    · have hstep : o.1 ≤ b.1 + gap := by
        rw [GapsAtMost, List.append_assoc, List.singleton_append] at hg
        exact (List.isChain_append_cons_cons.mp hg).2.1
      have hr' : Reaches (h ++ [b]) c := by
        obtain ⟨a, ha, hac⟩ := hr
        rcases List.mem_append.mp ha with ha | ha
        · exact ⟨a, ha, hac⟩
        · exact absurd (List.mem_singleton.mp ha ▸ hac) ho
      by_cases hb : b.1 ≤ c
      · exact ⟨b, by simp, hb, .inl (by omega)⟩
      · obtain ⟨a, ha, hac, hgap⟩ := ih hg.append_left hr'
        exact ⟨a, List.mem_append_left _ ha, hac, .inl (by omega)⟩

section Places
variable {a : α} {l : List α} {p : List α → α → Prop}

/-- What holds at each place of a run, with what stands before it, told place by place. -/
lemma forall_place_cons : (∀ past o rest, a :: l = past ++ o :: rest → p past o) ↔
    p [] a ∧ ∀ past o rest, l = past ++ o :: rest → p (a :: past) o := by
  constructor
  · intro h
    exact ⟨h [] a l rfl, fun past o rest hl => h (a :: past) o rest (by rw [hl, List.cons_append])⟩
  · rintro ⟨hfirst, hlater⟩ past o rest hl
    cases past with
    | nil =>
      obtain ⟨rfl, -⟩ := List.cons.inj hl
      exact hfirst
    | cons b past =>
      obtain ⟨rfl, hrest⟩ := List.cons.inj hl
      exact hlater past o rest hrest

lemma forall_place_nil : ∀ past o rest, [] = past ++ o :: rest → p past o := by simp

end Places

/-- Each observation is at least a gap after the one before it. -/
def Spaced (gap : ℕ) (h : List (ℕ × α)) : Prop := h.IsChain fun a b => a.1 + gap ≤ b.1

lemma Spaced.chronological (hs : Spaced gap h) : Chronological h := by
  have hchain : h.IsChain fun a b => a.1 ≤ b.1 := hs.imp fun a b hab => by omega
  have hclock : (h.map Prod.fst).IsChain (· ≤ ·) := (List.isChain_map _).mpr hchain
  exact List.pairwise_map.mp (List.isChain_iff_pairwise.mp hclock)

/-- As many as fit into the time from a cutoff to the last one are at or after the cutoff. -/
theorem Spaced.length_since_le (hs : Spaced gap (h ++ [o])) :
    (since c (h ++ [o])).length * gap ≤ (o.1 - c) + gap := by
  induction h using List.reverseRecOn generalizing o with
  | nil =>
    have hlength : (since c ([] ++ [o])).length ≤ 1 := List.length_filter_le _ _
    exact (Nat.mul_le_mul_right gap hlength).trans (by omega)
  | append_singleton h b ih =>
    have hstep : b.1 + gap ≤ o.1 := by
      rw [Spaced, List.append_assoc, List.singleton_append] at hs
      exact (List.isChain_append_cons_cons.mp hs).2.1
    have hbefore := ih (List.IsChain.left_of_append hs)
    have hlast : (since c [o]).length ≤ 1 := List.length_filter_le _ _
    rw [since_append, List.length_append, Nat.add_mul]
    have hone : (since c [o]).length * gap ≤ gap := by
      simpa using Nat.mul_le_mul_right gap hlast
    by_cases hb : c ≤ b.1
    · omega
    · have hnone : since c (h ++ [b]) = [] := since_eq_nil fun a ha =>
        (hs.chronological.append_left.le_last a ha).trans_lt (not_le.mp hb)
      rw [hnone, List.length_nil, Nat.zero_mul]
      omega

end LoadBear.TimedHistory
