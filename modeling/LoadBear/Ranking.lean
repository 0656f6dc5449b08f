import Mathlib.Data.List.Sort
import Mathlib.Tactic

/-!
# Ranking by a figure

A stable sort with the largest figure first. An element dominates a list when its
figure is a fixed factor ahead of every other one, and comparing the first of the
ranking with the second is enough to tell.
-/
namespace LoadBear.Ranking

section Rank
variable {α β : Type*} [LinearOrder β] (figure : α → β)

/-- Largest figure first, ties in their given order. -/
def rank (l : List α) : List α := l.insertionSort fun a b => figure b ≤ figure a

lemma rank_natCast (figure : α → ℕ) (l : List α) :
    rank (fun a => (figure a : ℚ)) l = rank figure l := by
  simp only [rank, Nat.cast_le]

theorem rank_perm (l : List α) : (rank figure l).Perm l := List.perm_insertionSort _ l

@[simp] theorem mem_rank {l : List α} {a : α} : a ∈ rank figure l ↔ a ∈ l :=
  (rank_perm figure l).mem_iff

theorem rank_pairwise (l : List α) :
    (rank figure l).Pairwise fun a b => figure b ≤ figure a := by
  have : Std.Total fun a b => figure b ≤ figure a := ⟨fun a b => le_total (figure b) (figure a)⟩
  have : IsTrans α fun a b => figure b ≤ figure a := ⟨fun _ _ _ hab hbc => hbc.trans hab⟩
  exact List.pairwise_insertionSort _ l

variable {figure} {l rest : List α} {first : α}

/-- A ranking of anything that descends has the same figures in the same places. -/
lemma map_rank_eq {l' : List α} (hperm : l.Perm l')
    (hdesc : l'.Pairwise fun a b => figure b ≤ figure a) :
    (rank figure l).map figure = l'.map figure := by
  have hranked : ((rank figure l).map figure).Pairwise fun a b => b ≤ a :=
    List.pairwise_map.mpr (rank_pairwise figure l)
  have hgiven : (l'.map figure).Pairwise fun a b => b ≤ a := List.pairwise_map.mpr hdesc
  exact List.Perm.eq_of_pairwise (fun a b _ _ hba hab => le_antisymm hab hba) hranked hgiven
    (((rank_perm figure l).trans hperm).map figure)

variable (figure) in
lemma map_rank_of_perm {l' : List α} (hperm : l.Perm l') :
    (rank figure l).map figure = (rank figure l').map figure :=
  map_rank_eq (hperm.trans (rank_perm figure l').symm) (rank_pairwise figure l')

/-- Two elements with nothing above the lower one head the ranking, up to ties. -/
lemma rank_of_top_two {c s : α} (hperm : l.Perm (c :: s :: rest)) (hcs : figure s ≤ figure c)
    (hrest : ∀ o ∈ rest, figure o ≤ figure s) : ∃ first second others,
      rank figure l = first :: second :: others ∧
        figure first = figure c ∧ figure second = figure s := by
  have hdesc : (c :: s :: rank figure rest).Pairwise fun a b => figure b ≤ figure a := by
    simp only [List.pairwise_cons, List.mem_cons, mem_rank, forall_eq_or_imp]
    exact ⟨⟨hcs, fun o ho => (hrest o ho).trans hcs⟩, hrest, rank_pairwise figure rest⟩
  have hmap := map_rank_eq (hperm.trans (((rank_perm figure rest).symm.cons s).cons c)) hdesc
  rcases hrank : rank figure l with _ | ⟨first, _ | ⟨second, others⟩⟩ <;>
    simp only [hrank, List.map_cons, List.map_nil, List.cons.injEq, reduceCtorEq, and_false] at hmap
  exact ⟨first, second, others, rfl, hmap.1, hmap.2.1⟩

lemma le_first (h : rank figure l = first :: rest) : ∀ o ∈ rest, figure o ≤ figure first := by
  have hpair := rank_pairwise figure l
  rw [h, List.pairwise_cons] at hpair
  exact hpair.1

/-- The second of a ranking has the largest figure after the first. -/
lemma le_second {second : α} {others : List α} (h : rank figure l = first :: second :: others) :
    ∀ o ∈ second :: others, figure o ≤ figure second := by
  have hpair := rank_pairwise figure l
  rw [h, List.pairwise_cons, List.pairwise_cons] at hpair
  intro o ho
  rcases List.mem_cons.mp ho with rfl | ho
  · exact le_rfl
  · exact hpair.2.1 o ho

variable (figure) (low : α → Bool) (close : α → α → Bool)

/-- The first of the ranking, unless it is too low or the second is too close to it. -/
def leader (l : List α) : Option α :=
  match rank figure l with
  | [] => none
  | first :: others =>
    if low first then none
    else if others.head?.any (close first) then none
    else some first

variable {figure low close}

theorem leader_eq_some_iff : leader figure low close l = some first ↔
    ∃ others, rank figure l = first :: others ∧ low first = false ∧
      ∀ second ∈ others.head?, close first second = false := by
  unfold leader
  cases hrank : rank figure l with
  | nil => simp
  | cons c others =>
    have hany : others.head?.any (close c) = false ↔
        ∀ second ∈ others.head?, close c second = false := by
      cases others <;> simp
    dsimp only
    split_ifs with hlow hclose
    · simp only [List.cons.injEq, false_iff]
      rintro ⟨_, ⟨rfl, rfl⟩, hfalse, -⟩
      simp [hlow] at hfalse
    · simp only [List.cons.injEq, false_iff]
      rintro ⟨_, ⟨rfl, rfl⟩, -, hfalse⟩
      simp [hany.mpr hfalse] at hclose
    · simp only [Option.some.injEq, List.cons.injEq]
      constructor
      · rintro rfl
        exact ⟨others, ⟨rfl, rfl⟩, by simpa using hlow, hany.mp (by simpa using hclose)⟩
      · rintro ⟨_, ⟨rfl, rfl⟩, -⟩
        rfl

lemma leader_natCast (figure : α → ℕ) :
    leader (fun a => (figure a : ℚ)) low close l = leader figure low close l := by
  simp only [leader, rank_natCast]

lemma leader_mem (h : leader figure low close l = some first) : first ∈ l := by
  obtain ⟨others, hrank, -⟩ := leader_eq_some_iff.mp h
  rw [← mem_rank figure, hrank]
  exact .head _

/-- Whether there is a leader depends on the figures and not on their order. -/
theorem leader_isSome_of_perm {l' : List α} (hlow : ∀ a a', figure a = figure a' → low a = low a')
    (hclose : ∀ a a' b b', figure a = figure a' → figure b = figure b' → close a b = close a' b')
    (hperm : l.Perm l') :
    (leader figure low close l).isSome = (leader figure low close l').isSome := by
  have hmap := map_rank_of_perm figure hperm
  unfold leader
  generalize rank figure l = ranked at hmap
  generalize rank figure l' = ranked' at hmap
  rcases ranked with _ | ⟨a, _ | ⟨b, others⟩⟩ <;>
    rcases ranked' with _ | ⟨a', _ | ⟨b', others'⟩⟩ <;>
    simp only [List.map_cons, List.map_nil, List.cons.injEq, reduceCtorEq, and_false,
      and_true] at hmap
  · rfl
  · simp only [hlow a a' hmap, List.head?_nil, Option.any_none]
    split_ifs <;> rfl
  · have hany : (b :: others).head?.any (close a) = (b' :: others').head?.any (close a') := by
      simpa using hclose a a' b b' hmap.1 hmap.2.1
    dsimp only
    rw [hlow a a' hmap.1, hany]
    split_ifs <;> rfl

end Rank

section Place
variable {α β : Type*} [LinearOrder β] (figure : α → β) (l : List α)

/-- What comes before another: a larger figure, or as large a one given earlier. -/
def Ahead (b a : α) : Prop := figure a < figure b ∨ figure a = figure b ∧ [b, a].Sublist l

instance [DecidableEq α] (b a : α) : Decidable (Ahead figure l b a) :=
  inferInstanceAs (Decidable (figure a < figure b ∨ figure a = figure b ∧ [b, a].Sublist l))

variable {figure l} {a b : α}

lemma not_sublist_swap (hl : l.Nodup) (h : [a, b].Sublist l) : ¬[b, a].Sublist l := by
  intro hswap
  induction l with
  | nil => cases h
  | cons x l ih =>
    obtain ⟨hx, hl⟩ := List.nodup_cons.mp hl
    cases h with
    | cons _ hab =>
      cases hswap with
      | cons _ hba => exact ih hl hab hba
      | cons_cons _ ha => exact hx (hab.subset (by simp))
    | cons_cons _ hb =>
      cases hswap with
      | cons _ hba => exact hx (hba.subset (by simp))
      | cons_cons _ ha => exact hx (hb.subset (by simp))

lemma sublist_or_swap (ha : a ∈ l) (hb : b ∈ l) (hne : a ≠ b) :
    [a, b].Sublist l ∨ [b, a].Sublist l := by
  obtain ⟨before, after, rfl⟩ := List.append_of_mem ha
  rcases List.mem_append.mp hb with hbefore | hafter
  · exact .inr ((List.singleton_sublist.mpr hbefore).append (List.singleton_sublist.mpr (.head _)))
  · have hb' : b ∈ after := (List.mem_cons.mp hafter).resolve_left hne.symm
    have hpair := (List.singleton_sublist.mpr hb').cons_cons a
    exact .inl (hpair.trans (List.sublist_append_right _ _))

lemma Ahead.not_swap (hl : l.Nodup) (h : Ahead figure l a b) : ¬Ahead figure l b a := by
  intro hswap
  rcases h with hlt | ⟨heq, hpair⟩
  · rcases hswap with hlt' | ⟨heq', -⟩
    · exact lt_asymm hlt hlt'
    · exact hlt.ne heq'.symm
  · rcases hswap with hlt' | ⟨-, hpair'⟩
    · exact hlt'.ne heq.symm
    · exact not_sublist_swap hl hpair hpair'

variable (figure) in
/-- A ranking keeps everything behind what is ahead of it. -/
lemma rank_pairwise_ahead (hl : l.Nodup) : (rank figure l).Pairwise (Ahead figure l) := by
  have hranked : (rank figure l).Nodup := (rank_perm figure l).nodup_iff.mpr hl
  apply List.pairwise_iff_forall_sublist.mpr
  intro b a hpair
  have hle := List.pairwise_iff_forall_sublist.mp (rank_pairwise figure l) hpair
  rcases hle.lt_or_eq with hlt | heq
  · exact .inl hlt
  · refine .inr ⟨heq, ?_⟩
    have hne : b ≠ a := by simpa using hranked.sublist hpair
    have hb : b ∈ l := (mem_rank figure).mp (hpair.subset (by simp))
    have ha : a ∈ l := (mem_rank figure).mp (hpair.subset (by simp))
    refine (sublist_or_swap hb ha hne).resolve_right fun hswap => ?_
    -- a tie keeps its order, so the ranking would hold the pair both ways
    exact not_sublist_swap hranked hpair (List.pair_sublist_insertionSort heq.ge hswap)

/-- An element of a ranking stands behind exactly those that are ahead of it. -/
theorem length_before [DecidableEq α] {before after : List α} (hl : l.Nodup)
    (h : rank figure l = before ++ a :: after) :
    l.countP (fun b => Ahead figure l b a) = before.length := by
  have hpair := rank_pairwise_ahead figure hl
  rw [h] at hpair
  obtain ⟨-, hafter, hbefore⟩ := List.pairwise_append.mp hpair
  rw [← (rank_perm figure l).countP_eq, h, List.countP_append, List.countP_cons]
  have hall : before.countP (fun b => Ahead figure l b a) = before.length := by
    apply List.countP_eq_length.mpr
    intro b hb
    exact decide_eq_true (hbefore b hb a (.head _))
  have hself : ¬Ahead figure l a a := fun hself => hself.not_swap hl hself
  have hnone : after.countP (fun b => Ahead figure l b a) = 0 := by
    apply List.countP_eq_zero.mpr
    intro b hb
    simpa using ((List.pairwise_cons.mp hafter).1 b hb).not_swap hl
  simp [hall, hself, hnone]

/-- The first of a ranking are those with few enough ahead of them. -/
theorem mem_take_rank_iff [DecidableEq α] (hl : l.Nodup) (ha : a ∈ l) (n : ℕ) :
    a ∈ (rank figure l).take n ↔ l.countP (fun b => Ahead figure l b a) < n := by
  obtain ⟨before, after, h⟩ := List.append_of_mem ((mem_rank figure).mpr ha)
  have hnew : a ∉ before := by
    have hranked : (rank figure l).Nodup := (rank_perm figure l).nodup_iff.mpr hl
    rw [h] at hranked
    intro hbefore
    exact (List.nodup_append.mp hranked).2.2 a hbefore a (.head _) rfl
  rw [length_before hl h, h, List.take_append, List.mem_append]
  constructor
  · intro hmem
    by_contra hlt
    rw [show n - before.length = 0 by omega, List.take_zero] at hmem
    simp only [List.not_mem_nil, or_false] at hmem
    exact hnew (List.mem_of_mem_take hmem)
  · intro hlt
    obtain ⟨k, hk⟩ : ∃ k, n - before.length = k + 1 := ⟨n - before.length - 1, by omega⟩
    rw [hk, List.take_succ_cons]
    exact .inr (.head _)

section Crossing
variable {γ : Type*} [LinearOrder γ] [DecidableEq α] (figure l) (n : ℕ) (other : α → γ)

/-- Among the first of a ranking, one comes before another that has more of a second figure. -/
def Crosses : Prop :=
  ∃ b ∈ l, ∃ a ∈ l, Ahead figure l b a ∧ l.countP (fun c => Ahead figure l c a) < n ∧
    other b < other a

instance : Decidable (Crosses figure l n other) := inferInstanceAs (Decidable (∃ b ∈ l, _))

variable {figure l n other}

/-- The first of a ranking descend in a second figure as well exactly where nothing crosses. -/
theorem pairwise_take_rank_iff (hl : l.Nodup) :
    ((rank figure l).take n).Pairwise (fun b a => other a ≤ other b) ↔
      ¬Crosses figure l n other := by
  have hahead : ((rank figure l).take n).Pairwise (Ahead figure l) :=
    (rank_pairwise_ahead figure hl).sublist (List.take_sublist _ _)
  constructor
  · rintro h ⟨b, hb, a, ha, hba, hfew, hless⟩
    obtain ⟨before, after, hsplit⟩ :=
      List.append_of_mem ((mem_take_rank_iff hl ha n).mpr hfew)
    have hrank : rank figure l = before ++ a :: (after ++ (rank figure l).drop n) := by
      rw [← List.cons_append, ← List.append_assoc, ← hsplit, List.take_append_drop]
    have hranked := rank_pairwise_ahead figure hl
    rw [hrank] at hranked
    have hbehind := (List.pairwise_cons.mp (List.pairwise_append.mp hranked).2.1).1
    have hplace : b ∈ rank figure l := (mem_rank figure).mpr hb
    rw [hrank, List.mem_append, List.mem_cons] at hplace
    rcases hplace with hbefore | rfl | hafter
    · rw [hsplit] at h
      exact absurd ((List.pairwise_append.mp h).2.2 b hbefore a (.head _)) (not_le.mpr hless)
    · exact hba.not_swap hl hba
    · exact hba.not_swap hl (hbehind b hafter)
  · intro hnot
    apply List.pairwise_iff_forall_sublist.mpr
    intro b a hpair
    by_contra hless
    have hmem : ∀ c ∈ [b, a], c ∈ l := fun c hc =>
      (mem_rank figure).mp (List.mem_of_mem_take (hpair.subset hc))
    refine hnot ⟨b, hmem b (by simp), a, hmem a (by simp),
      List.pairwise_iff_forall_sublist.mp hahead hpair, ?_, not_le.mp hless⟩
    exact (mem_take_rank_iff hl (hmem a (by simp)) n).mp (hpair.subset (by simp))

/-- A figure that descends with the ranking is crossed by nothing. -/
lemma not_crosses_of_ahead (h : ∀ b a, Ahead figure l b a → other a ≤ other b) :
    ¬Crosses figure l n other := by
  rintro ⟨b, -, a, -, hba, -, hless⟩
  exact absurd (h b a hba) (not_le.mpr hless)

end Crossing

end Place

section Dominance
variable {α : Type*} (figure : α → ℚ) (factor : ℚ)

/-- One occurrence of `c` in the list is `factor` ahead of everything else in it. -/
def Dominates (l : List α) (c : α) : Prop :=
  ∃ rest, l.Perm (c :: rest) ∧ ∀ o ∈ rest, factor * figure o ≤ figure c

variable {figure factor} {l rest : List α} {c first : α}

lemma Dominates.mem (h : Dominates figure factor l c) : c ∈ l := by
  obtain ⟨rest, hperm, -⟩ := h
  exact hperm.mem_iff.mpr (.head _)

lemma Dominates.of_perm {l' : List α} (hl : l.Perm l') (h : Dominates figure factor l c) :
    Dominates figure factor l' c := by
  obtain ⟨rest, hperm, hahead⟩ := h
  exact ⟨rest, hl.symm.trans hperm, hahead⟩

lemma dominates_first_iff (h : rank figure l = first :: rest) :
    Dominates figure factor l first ↔ ∀ o ∈ rest, factor * figure o ≤ figure first := by
  have hranked : l.Perm (first :: rest) := h ▸ (rank_perm figure l).symm
  constructor
  · rintro ⟨rest', hperm, hahead⟩ o ho
    have hrest : rest.Perm rest' := (List.perm_cons first).mp (hranked.symm.trans hperm)
    exact hahead o (hrest.mem_iff.mp ho)
  · exact fun hahead => ⟨rest, hranked, hahead⟩

/-- With a positive figure in front, one comparison decides dominance. -/
theorem dominates_first_iff_second (hfactor : 0 ≤ factor) (h : rank figure l = first :: rest)
    (hpos : 0 < figure first) : Dominates figure factor l first ↔
      ∀ second ∈ rest.head?, 0 < figure second → factor * figure second ≤ figure first := by
  rw [dominates_first_iff h]
  cases rest with
  | nil => simp
  | cons second others =>
    simp only [List.head?_cons, Option.mem_def, Option.some.injEq, forall_eq']
    constructor
    · exact fun hahead _ => hahead second (.head _)
    · intro hsecond o ho
      have ho' := le_second h o ho
      rcases lt_or_ge 0 (figure second) with hlt | hle
      · exact (mul_le_mul_of_nonneg_left ho' hfactor).trans (hsecond hlt)
      · exact (mul_nonpos_of_nonneg_of_nonpos hfactor (ho'.trans hle)).trans hpos.le

/-- Whatever dominates with a positive figure comes first. -/
theorem rank_of_dominates (hfactor : 1 < factor) (hpos : 0 < figure c)
    (h : Dominates figure factor l c) : ∃ rest, rank figure l = c :: rest := by
  obtain ⟨others, hperm, hahead⟩ := h
  have hranked : (rank figure l).Perm (c :: others) := (rank_perm figure l).trans hperm
  cases hrank : rank figure l with
  | nil => simp [hrank] at hranked
  | cons first rest =>
    rw [hrank] at hranked
    rcases List.mem_cons.mp (hranked.mem_iff.mp (.head _)) with rfl | hmem
    · exact ⟨rest, rfl⟩
    · exfalso
      have hfirst : figure c ≤ figure first := by
        rcases List.mem_cons.mp (hranked.mem_iff.mpr (.head _)) with rfl | hc
        · exact le_rfl
        · exact le_first hrank c hc
      nlinarith [hahead first hmem]

/-- With a test that compares figures, the leader is whatever dominates and is not
too low, provided that excludes everything without a positive figure. -/
theorem leader_eq_some_iff_dominates {low : α → Bool} {close : α → α → Bool}
    (hfactor : 1 < factor) (hlow : low c = false → 0 < figure c)
    (hclose : ∀ a b, close a b ↔ 0 < figure b ∧ figure a < factor * figure b) :
    leader figure low close l = some c ↔ low c = false ∧ Dominates figure factor l c := by
  have hsecond : ∀ s, close c s = false ↔ (0 < figure s → factor * figure s ≤ figure c) := by
    intro s
    rw [← Bool.not_eq_true, hclose]
    simp
  rw [leader_eq_some_iff]
  constructor
  · rintro ⟨others, hrank, hc, hahead⟩
    refine ⟨hc, (dominates_first_iff_second (by linarith) hrank (hlow hc)).mpr ?_⟩
    exact fun s hs => (hsecond s).mp (hahead s hs)
  · rintro ⟨hc, hdom⟩
    obtain ⟨others, hrank⟩ := rank_of_dominates hfactor (hlow hc) hdom
    refine ⟨others, hrank, hc, fun s hs => (hsecond s).mpr ?_⟩
    exact (dominates_first_iff_second (by linarith) hrank (hlow hc)).mp hdom s hs

/-- The leader so found is the same for the elements in any order. -/
theorem leader_eq_of_perm {low : α → Bool} {close : α → α → Bool} {l' : List α}
    (hfactor : 1 < factor) (hlow : ∀ a, low a = false → 0 < figure a)
    (hclose : ∀ a b, close a b ↔ 0 < figure b ∧ figure a < factor * figure b)
    (hperm : l.Perm l') : leader figure low close l = leader figure low close l' := by
  ext a
  rw [leader_eq_some_iff_dominates hfactor (hlow a) hclose,
    leader_eq_some_iff_dominates hfactor (hlow a) hclose]
  exact and_congr_right fun _ => ⟨.of_perm hperm, .of_perm hperm.symm⟩

/-- Among elements told apart by a key, the others are those of another key. -/
theorem dominates_iff_of_nodup {κ : Type*} (key : α → κ) (hl : (l.map key).Nodup) :
    Dominates figure factor l c ↔
      c ∈ l ∧ ∀ o ∈ l, key o ≠ key c → factor * figure o ≤ figure c := by
  constructor
  · rintro ⟨rest, hperm, hahead⟩
    refine ⟨hperm.mem_iff.mpr (.head _), fun o ho hne => ?_⟩
    rcases List.mem_cons.mp (hperm.mem_iff.mp ho) with rfl | ho
    · exact absurd rfl hne
    · exact hahead o ho
  · rintro ⟨hc, hahead⟩
    obtain ⟨before, after, rfl⟩ := List.append_of_mem hc
    have hperm : (before ++ c :: after).Perm (c :: (before ++ after)) := List.perm_middle
    refine ⟨before ++ after, hperm, fun o ho => hahead o (hperm.mem_iff.mpr (.tail _ ho)) ?_⟩
    have hnodup := (hperm.map key).nodup_iff.mp hl
    rw [List.map_cons, List.nodup_cons] at hnodup
    exact fun heq => hnodup.1 (heq ▸ List.mem_map_of_mem ho)

/-- At most one element dominates with a positive figure. -/
theorem Dominates.unique {c' : α} (hfactor : 1 < factor) (hpos : 0 < figure c)
    (hpos' : 0 < figure c') (h : Dominates figure factor l c)
    (h' : Dominates figure factor l c') : c = c' := by
  obtain ⟨rest, hrank⟩ := rank_of_dominates hfactor hpos h
  obtain ⟨rest', hrank'⟩ := rank_of_dominates hfactor hpos' h'
  exact List.head_eq_of_cons_eq (hrank.symm.trans hrank')

end Dominance
end LoadBear.Ranking
