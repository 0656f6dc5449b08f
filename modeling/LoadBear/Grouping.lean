import Mathlib.Algebra.BigOperators.Group.Finset.Piecewise
import Mathlib.Tactic

/-!
# Grouping by a key, one element at a time

Each element joins the group that has its key or starts one. The groups of a list
are then its elements of each key gathered in order, one group to a key, and a
figure summed within the groups adds up to its sum over the list. What a group
remembers of one element it may owe to the last that passed a test on arrival.
-/
namespace LoadBear

/-- How elements are gathered into groups. A group keeps the key it started with. -/
structure Grouping (α γ κ : Type*) where
  keyOf : α → κ
  groupKey : γ → κ
  start : α → γ
  join : γ → α → γ
  groupKey_start : ∀ a, groupKey (start a) = keyOf a
  groupKey_join : ∀ g a, groupKey (join g a) = groupKey g

namespace Grouping
variable {α γ κ : Type*} [DecidableEq κ] (G : Grouping α γ κ)

attribute [simp] groupKey_start groupKey_join

/-- Join the first group with this key, or start one at the end. -/
def insert (a : α) : List γ → List γ
  | [] => [G.start a]
  | g :: gs => if G.groupKey g = G.keyOf a then G.join g a :: gs else g :: insert a gs

def groups (l : List α) : List γ := l.foldl (fun gs a => G.insert a gs) []

def lookup (gs : List γ) (k : κ) : Option γ := gs.find? (G.groupKey · = k)

/-- One group of everything in a list. -/
def gather : List α → Option γ
  | [] => none
  | a :: as => some (as.foldl G.join (G.start a))

/-- What a group, or the lack of one, becomes when an element is added. -/
def grow (g : Option γ) (a : α) : γ := g.elim (G.start a) (G.join · a)

omit [DecidableEq κ] in
lemma gather_concat (l : List α) (a : α) :
    G.gather (l ++ [a]) = some (G.grow (G.gather l) a) := by
  cases l with
  | nil => rfl
  | cons b l => simp [gather, grow]

omit [DecidableEq κ] in
/-- What holds of a group as it starts, and is kept as it is joined, holds of the gathered list. -/
theorem gather_induction {P : List α → γ → Prop} (hstart : ∀ a, P [a] (G.start a))
    (hjoin : ∀ l g a, G.gather l = some g → P l g → P (l ++ [a]) (G.join g a)) {l : List α} {g : γ}
    (h : G.gather l = some g) : P l g := by
  induction l using List.reverseRecOn generalizing g with
  | nil => cases h
  | append_singleton l a ih =>
    rw [gather_concat] at h
    obtain rfl := Option.some.inj h
    cases hl : G.gather l with
    | none =>
      cases l with
      | nil => exact hstart a
      | cons b l => cases hl
    | some g => exact hjoin l g a hl (ih hl)

lemma lookup_insert (a : α) (gs : List γ) (k : κ) : G.lookup (G.insert a gs) k =
    if G.keyOf a = k then some (G.grow (G.lookup gs k) a) else G.lookup gs k := by
  induction gs with
  | nil => by_cases hk : G.keyOf a = k <;> simp [insert, lookup, grow, hk]
  | cons g gs ih =>
    unfold lookup at ih ⊢
    by_cases hg : G.groupKey g = G.keyOf a
    · by_cases hk : G.keyOf a = k <;> simp [insert, grow, hg, hk]
    · by_cases hk : G.groupKey g = k
      · have hne : k ≠ G.keyOf a := fun h => hg (hk.trans h)
        simp [insert, hk, hne, hne.symm]
      · simp [insert, hg, hk, ih]

lemma map_groupKey_insert (a : α) (gs : List γ) : (G.insert a gs).map G.groupKey =
    if G.keyOf a ∈ gs.map G.groupKey then gs.map G.groupKey
    else gs.map G.groupKey ++ [G.keyOf a] := by
  induction gs with
  | nil => simp [insert]
  | cons g gs ih =>
    by_cases hg : G.groupKey g = G.keyOf a
    · simp [insert, hg]
    · rw [insert, if_neg hg, List.map_cons, ih]
      by_cases hmem : G.keyOf a ∈ gs.map G.groupKey <;>
        simp only [List.map_cons, List.mem_cons, hmem, Ne.symm hg, or_true, or_self, if_true,
          if_false, List.cons_append]

lemma groups_concat (l : List α) (a : α) : G.groups (l ++ [a]) = G.insert a (G.groups l) := by
  simp [groups]

/-- The group of a key gathers the elements with that key, in order. -/
theorem lookup_groups (l : List α) (k : κ) :
    G.lookup (G.groups l) k = G.gather (l.filter (G.keyOf · = k)) := by
  induction l using List.reverseRecOn with
  | nil => rfl
  | append_singleton l a ih =>
    rw [groups_concat, lookup_insert, ih, List.filter_append]
    by_cases hk : G.keyOf a = k <;> simp [hk, gather_concat]

theorem groups_keys_nodup (l : List α) : ((G.groups l).map G.groupKey).Nodup := by
  induction l using List.reverseRecOn with
  | nil => simp [groups]
  | append_singleton l a ih =>
    rw [groups_concat, map_groupKey_insert]
    split_ifs with hmem
    · exact ih
    · exact List.nodup_append.mpr
        ⟨ih, List.nodup_singleton _, fun k hk b hb => by grind⟩

theorem mem_groups_keys {l : List α} {k : κ} :
    k ∈ (G.groups l).map G.groupKey ↔ k ∈ l.map G.keyOf := by
  induction l using List.reverseRecOn with
  | nil => simp [groups]
  | append_singleton l a ih =>
    rw [groups_concat, map_groupKey_insert, List.map_append, List.mem_append, ← ih]
    split_ifs with hmem
    · simp only [List.map_cons, List.map_nil, List.mem_singleton, iff_self_or]
      rintro rfl
      exact hmem
    · simp

/-- The groups stand in the order in which their keys first appear. -/
theorem groups_keys (l : List α) : (G.groups l).map G.groupKey = (l.map G.keyOf).eraseDups := by
  induction l using List.reverseRecOn with
  | nil => rfl
  | append_singleton l a ih =>
    rw [groups_concat, map_groupKey_insert, List.map_append, List.eraseDups_append, ← ih]
    by_cases hmem : G.keyOf a ∈ l.map G.keyOf
    · have hkey := G.mem_groups_keys.mpr hmem
      simp only [hkey, if_true, List.removeAll, List.map_cons, List.map_nil, List.filter_cons,
        List.elem_eq_true_of_mem hmem, Bool.not_true, Bool.false_eq_true, if_false,
        List.filter_nil, List.eraseDups_nil, List.append_nil]
    · have hkey : G.keyOf a ∉ (G.groups l).map G.groupKey := mt G.mem_groups_keys.mp hmem
      have hnew : (l.map G.keyOf).elem (G.keyOf a) = false := by
        rw [List.elem_eq_contains, List.contains_eq_mem, decide_eq_false hmem]
      simp only [hkey, if_false, List.removeAll, List.map_cons, List.map_nil, List.filter_cons,
        hnew, Bool.not_false, if_true, List.filter_nil, List.eraseDups_cons, List.eraseDups_nil]

/-- The groups are exactly the gathered elements of each key. -/
theorem mem_groups_iff {l : List α} {g : γ} :
    g ∈ G.groups l ↔ G.gather (l.filter (G.keyOf · = G.groupKey g)) = some g := by
  rw [← lookup_groups]
  constructor
  · intro hg
    have hnodup := G.groups_keys_nodup l
    obtain ⟨g', hfound⟩ : ∃ g', G.lookup (G.groups l) (G.groupKey g) = some g' :=
      Option.isSome_iff_exists.mp (List.find?_isSome.mpr ⟨g, hg, by simp⟩)
    have hkey : G.groupKey g' = G.groupKey g := by simpa using List.find?_some hfound
    rw [hfound, List.inj_on_of_nodup_map hnodup (List.mem_of_find?_eq_some hfound) hg hkey]
  · exact List.mem_of_find?_eq_some

lemma sum_fibers {M : Type*} [AddCommMonoid M] (w : α → M) {ks : List κ} (hks : ks.Nodup)
    (l : List α) (hl : ∀ a ∈ l, G.keyOf a ∈ ks) :
    (ks.map fun k => ((l.filter (G.keyOf · = k)).map w).sum).sum = (l.map w).sum := by
  induction l with
  | nil => simp
  | cons a l ih =>
    have hsplit : ∀ k, (((a :: l).filter (G.keyOf · = k)).map w).sum =
        (if G.keyOf a = k then w a else 0) + ((l.filter (G.keyOf · = k)).map w).sum := by
      intro k
      by_cases hk : G.keyOf a = k <;> simp [hk]
    simp only [hsplit]
    rw [List.sum_map_add, ih fun b hb => hl b (.tail _ hb), List.map_cons, List.sum_cons,
      ← List.sum_toFinset _ hks, Finset.sum_ite_eq, if_pos (List.mem_toFinset.mpr (hl a (.head _)))]

/-- A figure that each group sums over its elements adds up to the sum over the list. -/
theorem sum_groups {M : Type*} [AddCommMonoid M] (m : γ → M) (w : α → M) (l : List α)
    (h : ∀ g ∈ G.groups l, m g = ((l.filter (G.keyOf · = G.groupKey g)).map w).sum) :
    ((G.groups l).map m).sum = (l.map w).sum := by
  have hkeys : ∀ a ∈ l, G.keyOf a ∈ (G.groups l).map G.groupKey := fun a ha =>
    G.mem_groups_keys.mpr (List.mem_map_of_mem ha)
  rw [← G.sum_fibers w (G.groups_keys_nodup l) l hkeys, List.map_map]
  exact congrArg List.sum (List.map_congr_left h)

/-- Groups that count their elements count the whole list between them. -/
theorem sum_groups_length (m : γ → ℕ) (l : List α)
    (h : ∀ g ∈ G.groups l, m g = (l.filter (G.keyOf · = G.groupKey g)).length) :
    ((G.groups l).map m).sum = l.length := by
  rw [G.sum_groups m (fun _ => 1) l fun g hg => (h g hg).trans (by simp)]
  simp

end Grouping

section LastToPass
variable {α : Type*}

/-- The last element of a list to pass a test that looks at the elements before it. -/
structure LastToPass (passes : List α → α → Prop) (l earlier : List α) (a : α)
    (later : List α) : Prop where
  split : l = earlier ++ a :: later
  passed : passes earlier a
  last : ∀ between b rest, later = between ++ b :: rest → ¬passes (earlier ++ a :: between) b

variable {passes : List α → α → Prop} {l earlier later earlier' later' : List α} {a a' : α}

namespace LastToPass

lemma concat_pass (h : passes l a) : LastToPass passes (l ++ [a]) l a [] :=
  ⟨rfl, h, by simp⟩

lemma concat_fail (h : LastToPass passes l earlier a later) (hfail : ¬passes l a') :
    LastToPass passes (l ++ [a']) earlier a (later ++ [a']) := by
  refine ⟨by simp [h.split], h.passed, fun between b rest hsplit => ?_⟩
  cases rest using List.reverseRecOn with
  | nil =>
    obtain ⟨rfl, rfl⟩ := List.append_singleton_inj.mp hsplit
    rwa [← h.split]
  | append_singleton rest b' =>
    have hlater : later ++ [a'] = (between ++ b :: rest) ++ [b'] := by simpa using hsplit
    exact h.last between b rest (List.append_inj_left' hlater rfl)

lemma le_length (h : LastToPass passes l earlier a later)
    (h' : LastToPass passes l earlier' a' later') : earlier'.length ≤ earlier.length := by
  by_contra hlt
  have heq := h.split.symm.trans h'.split
  rcases List.append_eq_append_iff.mp heq with ⟨between, hbetween, hrest⟩ | ⟨between, hbetween, -⟩
  · cases between with
    | nil => simp [hbetween] at hlt
    | cons b between =>
      obtain ⟨rfl, hlater⟩ := List.cons_eq_cons.mp hrest
      exact h.last between a' later' hlater (hbetween ▸ h'.passed)
  · simp [hbetween] at hlt

/-- There is one such place at most. -/
theorem unique (h : LastToPass passes l earlier a later)
    (h' : LastToPass passes l earlier' a' later') :
    earlier = earlier' ∧ a = a' ∧ later = later' := by
  have hlength : earlier.length = earlier'.length := le_antisymm (h'.le_length h) (h.le_length h')
  obtain ⟨hearlier, hrest⟩ := List.append_inj (h.split.symm.trans h'.split) hlength
  obtain ⟨ha, hlater⟩ := List.cons_eq_cons.mp hrest
  exact ⟨hearlier, ha, hlater⟩

/-- From any element that passes on, there is a last one. -/
theorem exists_suffix (later : List α) (hpass : passes earlier a) : ∃ earlier' a' later',
    LastToPass passes (earlier ++ a :: later) earlier' a' later' ∧
      a' :: later' <:+ a :: later := by
  induction later using List.reverseRecOn with
  | nil => exact ⟨earlier, a, [], concat_pass hpass, List.suffix_rfl⟩
  | append_singleton later b ih =>
    have hassoc : earlier ++ a :: (later ++ [b]) = (earlier ++ a :: later) ++ [b] := by simp
    rw [hassoc]
    by_cases hb : passes (earlier ++ a :: later) b
    · exact ⟨_, b, [], concat_pass hb, List.suffix_append (a :: later) [b]⟩
    · obtain ⟨earlier', a', later', hlast, hsuffix⟩ := ih
      obtain ⟨front, hfront⟩ := hsuffix
      refine ⟨earlier', a', later' ++ [b], hlast.concat_fail hb, front, ?_⟩
      rw [← List.cons_append, ← List.append_assoc, hfront, List.cons_append]

end LastToPass
end LastToPass
end LoadBear
