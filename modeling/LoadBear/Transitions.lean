import Mathlib.Data.List.Induction

/-!
# Runs of a step function

A machine takes a step on an action or refuses it. What is proved of each step holds of runs:
an invariant that every step keeps, and a quantity that no step takes over its bound.
-/
namespace LoadBear.Transitions

variable {σ α : Type*} (step : σ → α → Option σ)

/-- The steps one after the other. -/
def run : σ → List α → Option σ
  | s, [] => some s
  | s, a :: actions => (step s a).bind (run · actions)

/-- Some actions lead from one state to the other. -/
def Reaches (s t : σ) : Prop := ∃ actions, run step s actions = some t

variable {step}

@[simp] lemma run_nil (s : σ) : run step s [] = some s := rfl

lemma run_cons {s t : σ} {a : α} {actions : List α} :
    run step s (a :: actions) = some t ↔
      ∃ u, step s a = some u ∧ run step u actions = some t :=
  Option.bind_eq_some_iff

lemma run_append {s t : σ} {actions later : List α} :
    run step s (actions ++ later) = some t ↔
      ∃ u, run step s actions = some u ∧ run step u later = some t := by
  induction actions generalizing s with
  | nil => simp
  | cons a actions ih =>
    rw [List.cons_append, run_cons]
    constructor
    · rintro ⟨u, hstep, hrest⟩
      obtain ⟨v, hv, hlater⟩ := ih.mp hrest
      exact ⟨v, run_cons.mpr ⟨u, hstep, hv⟩, hlater⟩
    · rintro ⟨v, hv, hlater⟩
      obtain ⟨u, hstep, hrest⟩ := run_cons.mp hv
      exact ⟨u, hstep, ih.mpr ⟨v, hrest, hlater⟩⟩

lemma run_concat {s t : σ} {a : α} {actions : List α} :
    run step s (actions ++ [a]) = some t ↔
      ∃ u, run step s actions = some u ∧ step u a = some t := by
  simp only [run_append, run_cons, run_nil, Option.some.injEq, exists_eq_right]

lemma reaches_getD {s : σ} {actions : List α} (h : (run step s actions).isSome) :
    Reaches step s ((run step s actions).getD s) := by
  obtain ⟨t, ht⟩ := Option.isSome_iff_exists.mp h
  exact ⟨actions, by rw [ht]; rfl⟩

lemma Reaches.trans {s t u : σ} (h : Reaches step s t) (h' : Reaches step t u) :
    Reaches step s u := by
  obtain ⟨actions, hs⟩ := h
  obtain ⟨later, ht⟩ := h'
  exact ⟨actions ++ later, run_append.mpr ⟨t, hs, ht⟩⟩

/-- What every step keeps, a run keeps. -/
theorem run_keeps {P : σ → Prop} (hstep : ∀ s a t, P s → step s a = some t → P t) {s t : σ}
    {actions : List α} (hs : P s) (h : run step s actions = some t) : P t := by
  induction actions generalizing s with
  | nil =>
    obtain rfl := Option.some.inj h
    exact hs
  | cons a actions ih =>
    obtain ⟨u, hu, hrest⟩ := run_cons.mp h
    exact ih (hstep s a u hs hu) hrest

/-- What a step adds to, of a state and the actions that led there, a run adds up. -/
theorem run_traces {P : List α → σ → Prop} {s t : σ} {actions : List α} (hs : P [] s)
    (hstep : ∀ actions u a t, P actions u → step u a = some t → P (actions ++ [a]) t)
    (h : run step s actions = some t) : P actions t := by
  induction actions using List.reverseRecOn generalizing t with
  | nil =>
    obtain rfl := Option.some.inj h
    exact hs
  | append_singleton actions a ih =>
    obtain ⟨u, hu, ha⟩ := run_concat.mp h
    exact hstep actions u a t (ih hu) ha

theorem Reaches.keeps {P : σ → Prop} {s t : σ} (h : Reaches step s t)
    (hstep : ∀ s a t, P s → step s a = some t → P t) (hs : P s) : P t := by
  obtain ⟨actions, hrun⟩ := h
  exact run_keeps hstep hs hrun

end LoadBear.Transitions
