import LoadBear.Dialogue
import Mathlib.Data.List.Range

/-!
# Reading a run back

Some of the calls of a run are questions, told apart by keys, and the run leaves a table of what
they were answered. Where no key is asked for twice, the program ends as it would over the table:
what it made of answers that came one by one is a function of the table alone.
-/
namespace LoadBear.Dialogue

variable {C : Type} {A : C → Type} {α β : Type}

/-- How a run is read: where it stands, and what a call tells there. -/
structure Recorder (C : Type) (A : C → Type) (S K V : Type) where
  move : S → Sigma A → S
  tell : S → Sigma A → Option (K × V)

namespace Recorder

variable {S K V : Type} (o : Recorder C A S K V)

/-- Where a run stands after some calls. -/
def stands (s : S) (events : List (Sigma A)) : S := events.foldl o.move s

/-- What was asked and answered, in its order. -/
def replies : S → List (Sigma A) → List (K × V)
  | _, [] => []
  | s, e :: events => (o.tell s e).toList ++ replies (o.move s e) events

@[simp] lemma replies_nil (s : S) : o.replies s [] = [] := rfl

lemma stands_append (s : S) (events later : List (Sigma A)) :
    o.stands s (events ++ later) = o.stands (o.stands s events) later := List.foldl_append

lemma replies_append (s : S) (events later : List (Sigma A)) :
    o.replies s (events ++ later) =
      o.replies s events ++ o.replies (o.stands s events) later := by
  induction events generalizing s with
  | nil => rfl
  | cons e events ih => simp [replies, stands, ih]

variable [DecidableEq K]

/-- The answer to a question, if it was asked. -/
def table (s : S) (events : List (Sigma A)) (k : K) : Option V := (o.replies s events).lookup k

/-- The program asks for some keys, each at most once. It ends where it stood, and the result is
as said over any table that answers those keys as the run did. -/
def Reads (s : S) (p : Dialogue C A α) (keys : List K) (post : (K → Option V) → α → Prop) : Prop :=
  ∀ events a, p.Runs events a →
    o.stands s events = s ∧ (∀ r ∈ o.replies s events, r.1 ∈ keys) ∧
      ∀ t : K → Option V, (∀ k ∈ keys, t k = o.table s events k) → post t a

variable {o}

/-- A run of the program gives what the program gives over the table of the run. -/
theorem Reads.ends {s : S} {p : Dialogue C A α} {keys : List K} {post : (K → Option V) → α → Prop}
    (h : o.Reads s p keys post) {events : List (Sigma A)} {a : α} (hruns : p.Runs events a) :
    post (o.table s events) a :=
  (h events a hruns).2.2 _ fun _ _ => rfl

lemma reads_pure {s : S} {a : α} {post : (K → Option V) → α → Prop} (h : ∀ t, post t a) :
    o.Reads s (pure a) [] post := by
  rintro events b ⟨rfl, rfl⟩
  exact ⟨rfl, by simp, fun t _ => h t⟩

lemma Reads.mono {s : S} {p : Dialogue C A α} {keys keys' : List K}
    {post post' : (K → Option V) → α → Prop} (h : o.Reads s p keys post) (hkeys : keys ⊆ keys')
    (himp : ∀ t a, post t a → post' t a) : o.Reads s p keys' post' := by
  intro events a hruns
  obtain ⟨hstands, hasked, hpost⟩ := h events a hruns
  refine ⟨hstands, fun r hr => hkeys (hasked r hr), fun t ht => himp t a (hpost t ?_)⟩
  exact fun k hk => ht k (hkeys hk)

/-- A key that is not asked for has no answer. -/
lemma table_eq_none {s : S} {events : List (Sigma A)} {keys : List K} {k : K}
    (hasked : ∀ r ∈ o.replies s events, r.1 ∈ keys) (hk : k ∉ keys) :
    o.table s events k = none := by
  rw [table, List.lookup_eq_none_iff]
  intro r hr
  rw [bne_iff_ne]
  rintro rfl
  exact hk (hasked r hr)

/-- One program after another, with keys of its own. -/
theorem Reads.bind {s : S} {p : Dialogue C A α} {f : α → Dialogue C A β} {keys keys' : List K}
    {mid : (K → Option V) → α → Prop} {post : (K → Option V) → β → Prop}
    (h : o.Reads s p keys mid) (hkeys : keys.Disjoint keys')
    (hf : ∀ a, o.Reads s (f a) keys' fun t b => mid t a → post t b) :
    o.Reads s (p >>= f) (keys ++ keys') post := by
  intro events b hruns
  obtain ⟨a, before, after, rfl, hbefore, hafter⟩ := runs_bind.mp hruns
  obtain ⟨hstands, hasked, hmid⟩ := h before a hbefore
  obtain ⟨hstands', hasked', hpost⟩ := hf a after b hafter
  have hreplies : o.replies s (before ++ after) = o.replies s before ++ o.replies s after := by
    rw [replies_append, hstands]
  have hlookup (k : K) : o.table s (before ++ after) k =
      (o.table s before k).or (o.table s after k) := by
    rw [table, hreplies, List.lookup_append]
    rfl
  refine ⟨by rw [stands_append, hstands, hstands'], fun r hr => ?_, fun t ht => ?_⟩
  · rw [hreplies] at hr
    exact List.mem_append.mpr ((List.mem_append.mp hr).imp (hasked r) (hasked' r))
  · refine hpost t (fun k hk => ?_) (hmid t fun k hk => ?_)
    · rw [ht k (List.mem_append_right _ hk), hlookup,
        table_eq_none hasked fun hk' => hkeys hk' hk, Option.none_or]
    · rw [ht k (List.mem_append_left _ hk), hlookup,
        table_eq_none hasked' fun hk' => hkeys hk hk', Option.or_none]

/-- A program and what is made of its result. -/
lemma Reads.returns {s : S} {p : Dialogue C A α} {f : α → β} {keys : List K}
    {mid : (K → Option V) → α → Prop} {post : (K → Option V) → β → Prop}
    (h : o.Reads s p keys mid) (hpost : ∀ t a, mid t a → post t (f a)) :
    o.Reads s (p >>= fun a => pure (f a)) keys post := by
  intro events b hruns
  obtain ⟨a, before, after, rfl, hbefore, rfl, rfl⟩ := runs_bind.mp hruns
  rw [List.append_nil]
  obtain ⟨hstands, hasked, hmid⟩ := h before a hbefore
  exact ⟨hstands, hasked, fun t ht => hpost t a (hmid t ht)⟩

/-- A program that asks nothing, before another. -/
lemma Reads.quiet_bind {s : S} {p : Dialogue C A α} {f : α → Dialogue C A β} {keys : List K}
    {post : (K → Option V) → β → Prop} (h : o.Reads s p [] fun _ _ => True)
    (hf : ∀ a, o.Reads s (f a) keys post) : o.Reads s (p >>= f) keys post :=
  h.bind (List.disjoint_nil_left _) fun a =>
    (hf a).mono (List.Subset.refl _) fun _ _ hpost _ => hpost

/-- A program that asks nothing, after another. -/
lemma Reads.bind_quiet {s : S} {p : Dialogue C A α} {q : Dialogue C A β} {keys : List K}
    {post : (K → Option V) → α → Prop} (h : o.Reads s p keys post)
    (hq : o.Reads s q [] fun _ _ => True) :
    o.Reads s (p >>= fun a => q >>= fun _ => pure a) keys post := by
  have hboth : o.Reads s (p >>= fun a => q >>= fun _ => pure a) (keys ++ []) post :=
    h.bind (List.disjoint_nil_right _) fun a => hq.returns fun _ _ _ hpost => hpost
  rwa [List.append_nil] at hboth

/-- A program for each of some values, each with a key of its own. -/
theorem reads_mapM {ι : Type} {s : S} {f : ι → Dialogue C A β} {key : ι → K}
    {g : (K → Option V) → ι → β} {is : List ι}
    (hf : ∀ i ∈ is, o.Reads s (f i) [key i] fun t b => b = g t i) (hkeys : (is.map key).Nodup) :
    o.Reads s (is.mapM f) (is.map key) fun t bs => bs = is.map (g t) := by
  induction is with
  | nil => exact reads_pure fun _ => rfl
  | cons i is ih =>
    obtain ⟨hi, his⟩ := List.forall_mem_cons.mp hf
    obtain ⟨hfresh, hrest⟩ := List.nodup_cons.mp hkeys
    rw [List.mapM_cons]
    have hdisjoint : List.Disjoint [key i] (is.map key) := List.singleton_disjoint.mpr hfresh
    refine hi.bind hdisjoint fun b => ?_
    exact (ih his hrest).returns fun t bs hbs hb => by rw [hb, hbs, List.map_cons]

end Recorder
end LoadBear.Dialogue
