import Mathlib.Data.List.Basic

/-!
# Programs that call and are answered

A program makes calls and goes on from their answers, which it does not choose. A run of it is
the list of its calls with the answers they had. A monitor follows the run from outside: it says
which calls are allowed as things stand, which answers are possible, and how things stand after.
-/
namespace LoadBear

/-- A program over some calls, each with a type of answers. -/
inductive Dialogue (C : Type) (A : C → Type) (α : Type) where
  | done (a : α)
  | call (c : C) (next : A c → Dialogue C A α)

namespace Dialogue

variable {C : Type} {A : C → Type} {α β : Type}

def bind : Dialogue C A α → (α → Dialogue C A β) → Dialogue C A β
  | done a, f => f a
  | call c next, f => call c fun answer => (next answer).bind f

instance : Monad (Dialogue C A) where
  pure := done
  bind := bind

lemma bind_def (p : Dialogue C A α) (f : α → Dialogue C A β) : p >>= f = p.bind f := rfl

lemma bind_done (p : Dialogue C A α) : p.bind done = p := by
  induction p with
  | done a => rfl
  | call c next ih => exact congrArg (call c) (funext ih)

lemma bind_assoc {γ : Type} (p : Dialogue C A α) (f : α → Dialogue C A β)
    (g : β → Dialogue C A γ) : (p.bind f).bind g = p.bind fun a => (f a).bind g := by
  induction p with
  | done a => rfl
  | call c next ih => exact congrArg (call c) (funext ih)

instance : LawfulMonad (Dialogue C A) :=
  LawfulMonad.mk' _ bind_done (fun _ _ => rfl) bind_assoc

/-- One call and its answer. -/
def ask (c : C) : Dialogue C A (A c) := call c done

/-- So answered, the program ends with this. -/
def Runs : Dialogue C A α → List (Sigma A) → α → Prop
  | done a, events, b => events = [] ∧ b = a
  | call c next, events, b =>
    ∃ answer rest, events = ⟨c, answer⟩ :: rest ∧ (next answer).Runs rest b

/-- So answered, the program has come this far. -/
def Begins : Dialogue C A α → List (Sigma A) → Prop
  | done _, events => events = []
  | call c next, events =>
    events = [] ∨ ∃ answer rest, events = ⟨c, answer⟩ :: rest ∧ (next answer).Begins rest

section Runs
variable {p : Dialogue C A α} {events : List (Sigma A)}

@[simp] lemma runs_ask {c : C} {answer : A c} :
    (ask c).Runs events answer ↔ events = [⟨c, answer⟩] := by
  constructor
  · rintro ⟨_, _, rfl, rfl, rfl⟩
    rfl
  · rintro rfl
    exact ⟨answer, [], rfl, rfl, rfl⟩

/-- A run of one program after another is a run of each. -/
lemma runs_bind {f : α → Dialogue C A β} {b : β} :
    (p >>= f).Runs events b ↔
      ∃ a before after, events = before ++ after ∧ p.Runs before a ∧ (f a).Runs after b := by
  rw [bind_def]
  induction p generalizing events with
  | done a =>
    constructor
    · intro h
      exact ⟨a, [], events, rfl, ⟨rfl, rfl⟩, h⟩
    · rintro ⟨a', before, after, rfl, ⟨rfl, rfl⟩, h⟩
      exact h
  | call c next ih =>
    constructor
    · rintro ⟨answer, rest, rfl, h⟩
      obtain ⟨a, before, after, rfl, hbefore, hafter⟩ := (ih answer).mp h
      exact ⟨a, ⟨c, answer⟩ :: before, after, rfl, ⟨answer, before, rfl, hbefore⟩, hafter⟩
    · rintro ⟨a, _, after, rfl, ⟨answer, before, rfl, hbefore⟩, hafter⟩
      exact ⟨answer, before ++ after, rfl, (ih answer).mpr ⟨a, before, after, rfl, hbefore, hafter⟩⟩

lemma runs_map {f : α → β} {b : β} :
    (f <$> p).Runs events b ↔ ∃ a, b = f a ∧ p.Runs events a := by
  rw [map_eq_pure_bind, runs_bind]
  constructor
  · rintro ⟨a, before, after, rfl, h, rfl, rfl⟩
    exact ⟨a, rfl, by rwa [List.append_nil]⟩
  · rintro ⟨a, rfl, h⟩
    exact ⟨a, events, [], (List.append_nil _).symm, h, rfl, rfl⟩

lemma Runs.begins {a : α} (h : p.Runs events a) : p.Begins events := by
  induction p generalizing events with
  | done b => exact h.1
  | call c next ih =>
    obtain ⟨answer, rest, rfl, hrest⟩ := h
    exact .inr ⟨answer, rest, rfl, ih answer hrest⟩

end Runs

/-- What is allowed, what can be answered, and how things stand after. -/
structure Monitor (S C : Type) (A : C → Type) where
  allowed : S → C → Prop
  possible : S → (c : C) → A c → Prop
  advance : S → (c : C) → A c → S

namespace Monitor

variable {S : Type} (m : Monitor S C A)

/-- How things stand after some calls. -/
def after : S → List (Sigma A) → S
  | s, [] => s
  | s, ⟨c, answer⟩ :: rest => after (m.advance s c answer) rest

/-- Each of the answers was possible when it came. -/
def Possible : S → List (Sigma A) → Prop
  | _, [] => True
  | s, ⟨c, answer⟩ :: rest => m.possible s c answer ∧ Possible (m.advance s c answer) rest

/-- Each of the calls was allowed when it was made. -/
def Allowed : S → List (Sigma A) → Prop
  | _, [] => True
  | s, ⟨c, answer⟩ :: rest => m.allowed s c ∧ Allowed (m.advance s c answer) rest

/-- Whatever possible answers it gets, the program makes allowed calls only, and ends as said. -/
def Meets : S → Dialogue C A α → (α → S → Prop) → Prop
  | s, done a, post => post a s
  | s, call c next, post =>
    m.allowed s c ∧
      ∀ answer, m.possible s c answer → Meets (m.advance s c answer) (next answer) post

variable {m}

@[simp] lemma meets_pure {s : S} {a : α} {post : α → S → Prop} :
    m.Meets s (pure a) post ↔ post a s := Iff.rfl

@[simp] lemma meets_bind {s : S} {p : Dialogue C A α} {f : α → Dialogue C A β}
    {post : β → S → Prop} :
    m.Meets s (p >>= f) post ↔ m.Meets s p fun a t => m.Meets t (f a) post := by
  rw [bind_def]
  induction p generalizing s with
  | done a => rfl
  | call c next ih =>
    exact and_congr_right fun _ => forall_congr' fun answer => imp_congr_right fun _ => ih answer

lemma meets_ask_bind {s : S} {c : C} {f : A c → Dialogue C A β} {post : β → S → Prop} :
    m.Meets s (ask c >>= f) post ↔
      m.allowed s c ∧ ∀ answer, m.possible s c answer →
        m.Meets (m.advance s c answer) (f answer) post := Iff.rfl

@[simp] lemma meets_map {s : S} {p : Dialogue C A α} {f : α → β} {post : β → S → Prop} :
    m.Meets s (f <$> p) post ↔ m.Meets s p fun a => post (f a) := by
  rw [map_eq_pure_bind, meets_bind]
  rfl

lemma Meets.mono {s : S} {p : Dialogue C A α} {post post' : α → S → Prop} (h : m.Meets s p post)
    (himp : ∀ a t, post a t → post' a t) : m.Meets s p post' := by
  induction p generalizing s with
  | done a => exact himp a s h
  | call c next ih => exact ⟨h.1, fun answer hanswer => ih answer (h.2 answer hanswer)⟩

variable (m) in
/-- The program makes allowed calls only, and leaves things as they are. -/
def Keeps (s : S) (p : Dialogue C A α) : Prop := m.Meets s p fun _ t => t = s

section Keeps
variable {s : S} {p : Dialogue C A α}

lemma Keeps.meets {post : α → S → Prop} (h : m.Keeps s p) (hpost : ∀ a, post a s) :
    m.Meets s p post := by
  refine Meets.mono h fun a t ht => ?_
  subst ht
  exact hpost a

lemma keeps_pure (a : α) : m.Keeps s (pure a) := meets_pure.mpr rfl

lemma Keeps.bind {f : α → Dialogue C A β} (h : m.Keeps s p) (hf : ∀ a, m.Keeps s (f a)) :
    m.Keeps s (p >>= f) :=
  meets_bind.mpr (h.meets hf)

lemma Keeps.map {f : α → β} (h : m.Keeps s p) : m.Keeps s (f <$> p) :=
  meets_map.mpr (h.meets fun _ => rfl)

lemma keeps_mapM {f : α → Dialogue C A β} {xs : List α} (h : ∀ x ∈ xs, m.Keeps s (f x)) :
    m.Keeps s (xs.mapM f) := by
  induction xs with
  | nil => exact keeps_pure []
  | cons x xs ih =>
    obtain ⟨hx, hxs⟩ := List.forall_mem_cons.mp h
    rw [List.mapM_cons]
    exact hx.bind fun y => (ih hxs).bind fun ys => keeps_pure _

end Keeps

/-- What is proved of a program holds however far it has come. -/
theorem Meets.allowed {s : S} {p : Dialogue C A α} {post : α → S → Prop} (h : m.Meets s p post)
    {events : List (Sigma A)} (hbegins : p.Begins events) (hpossible : m.Possible s events) :
    m.Allowed s events := by
  induction p generalizing s events with
  | done b =>
    obtain rfl := hbegins
    trivial
  | call c next ih =>
    obtain rfl | ⟨answer, rest, rfl, hrest⟩ := hbegins
    · trivial
    · exact ⟨h.1, ih answer (h.2 answer hpossible.1) hrest hpossible.2⟩

/-- What is proved of a program holds when it has ended. -/
theorem Meets.ends {s : S} {p : Dialogue C A α} {post : α → S → Prop} (h : m.Meets s p post)
    {events : List (Sigma A)} {a : α} (hruns : p.Runs events a) (hpossible : m.Possible s events) :
    post a (m.after s events) := by
  induction p generalizing s events with
  | done b =>
    obtain ⟨rfl, rfl⟩ := hruns
    exact h
  | call c next ih =>
    obtain ⟨answer, rest, rfl, hrest⟩ := hruns
    exact ih answer (h.2 answer hpossible.1) hrest hpossible.2

lemma allowed_append {s : S} {events later : List (Sigma A)} :
    m.Allowed s (events ++ later) ↔ m.Allowed s events ∧ m.Allowed (m.after s events) later := by
  induction events generalizing s with
  | nil => simp [Allowed, after]
  | cons e events ih => exact (and_congr_right fun _ => ih).trans and_assoc.symm

/-- Every call of a run stands after some and before others. -/
lemma Allowed.call {s : S} {events later : List (Sigma A)} {c : C} {answer : A c}
    (h : m.Allowed s (events ++ ⟨c, answer⟩ :: later)) : m.allowed (m.after s events) c :=
  (allowed_append.mp h).2.1

variable (m)

/-- The run in which every call is answered by what things stand like. -/
def answered (oracle : S → (c : C) → A c) : S → Dialogue C A α → List (Sigma A) × α
  | _, done a => ([], a)
  | s, call c next =>
    let answer := oracle s c
    let (events, a) := answered oracle (m.advance s c answer) (next answer)
    (⟨c, answer⟩ :: events, a)

variable {m}

lemma runs_answered (oracle : S → (c : C) → A c) (s : S) (p : Dialogue C A α) :
    p.Runs (m.answered oracle s p).1 (m.answered oracle s p).2 := by
  induction p generalizing s with
  | done a => exact ⟨rfl, rfl⟩
  | call c next ih => exact ⟨oracle s c, _, rfl, ih _ _⟩

/-- Answers that are possible where they are asked for make a possible run. -/
lemma possible_answered {oracle : S → (c : C) → A c} {P : S → Prop}
    (horacle : ∀ s c, P s → m.possible s c (oracle s c) ∧ P (m.advance s c (oracle s c)))
    {s : S} (hs : P s) (p : Dialogue C A α) : m.Possible s (m.answered oracle s p).1 := by
  induction p generalizing s with
  | done a => trivial
  | call c next ih => exact ⟨(horacle s c hs).1, ih _ (horacle s c hs).2⟩

end Monitor
end Dialogue
end LoadBear
