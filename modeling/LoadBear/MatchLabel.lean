import LoadBear.ByteText
import LoadBear.ConservativeMerge

/-!
# What an ambiguous match says

Several products may share a processor's identity. The figures they are judged by are taken
from all of them, in any order, and the label should say no more than was established. Its
counts of cores and threads are those of whichever entry came first.
-/
namespace LoadBear

open ByteText

section Extremum
variable {α : Type*} [LinearOrder α] {l l' : List α}

lemma min?_eq_of_perm (h : l.Perm l') : l.min? = l'.min? := by
  ext m
  rw [List.min?_eq_some_iff, List.min?_eq_some_iff, h.mem_iff]
  simp only [h.mem_iff]

lemma max?_eq_of_perm (h : l.Perm l') : l.max? = l'.max? := by
  ext m
  rw [List.max?_eq_some_iff, List.max?_eq_some_iff, h.mem_iff]
  simp only [h.mem_iff]

end Extremum

/-- The label of a match that is not exact. -/
def countsLabel (cores threads candidates : ℕ) : String :=
  s!"{cores} cores / {threads} threads, one of {candidates} models sharing this processor id"

/-- The figures a machine is judged by: base clock, TDP, cTDP band and TjMax. -/
def CpuSpec.judgedFigures (s : CpuSpec) : ℕ × ℕ × Option ℕ × Option ℕ × Option ℚ :=
  (s.baseMhz, s.tdpWatts, s.ctdpMinWatts, s.ctdpMaxWatts, s.tjmaxC)

section Label

lemma label_of_not_isExact {m : SpecMatch} (h : ¬m.isExact) :
    m.label = countsLabel m.spec.cores m.spec.threads m.candidates := by
  rw [SpecMatch.label, if_neg h]
  rfl

/-- A number before a blank is read back. -/
lemma eq_of_toDigits_append {a b : ℕ} {rest rest' : List Char}
    (h : Nat.toDigits 10 a ++ ([' '] ++ rest) = Nat.toDigits 10 b ++ ([' '] ++ rest')) :
    a = b ∧ rest = rest' := by
  have hblank (n : ℕ) : ' ' ∉ Nat.toDigits 10 n := fun hmem =>
    absurd (Nat.isDigit_of_mem_toDigits (by decide) (by decide) hmem) (by decide)
  have hsplit := congrArg (splitOnce [' ']) h
  rw [splitOnce_append (by simp) (firstAfter_singleton (hblank a)),
    splitOnce_append (by simp) (firstAfter_singleton (hblank b))] at hsplit
  obtain ⟨hdigits, hrest⟩ := Prod.mk.inj (Option.some.inj hsplit)
  exact ⟨toDigits_injective hdigits, hrest⟩

/-- The counts are read back from a label. -/
lemma countsLabel_injective {cores threads cores' threads' candidates : ℕ}
    (h : countsLabel cores threads candidates = countsLabel cores' threads' candidates) :
    cores = cores' ∧ threads = threads' := by
  have htext (a b : ℕ) : (countsLabel a b candidates).toList =
      Nat.toDigits 10 a ++ ([' '] ++ ("cores / ".toList ++ (Nat.toDigits 10 b ++ ([' '] ++
        ("threads, one of ".toList ++ (Nat.toDigits 10 candidates ++
          " models sharing this processor id".toList)))))) := by
    simp [countsLabel, toString, String.toList_append, Nat.toList_repr]
  have hchars := congrArg String.toList h
  rw [htext, htext] at hchars
  obtain ⟨hcores, hrest⟩ := eq_of_toDigits_append hchars
  obtain ⟨hthreads, -⟩ := eq_of_toDigits_append (List.append_cancel_left hrest)
  exact ⟨hcores, hthreads⟩

end Label

section Permutation
variable {db : SpecDb} {key : CpuKey} {threads : ℕ} {entries : List CpuSpec}

lemma candidates_of_perm (h : entries.Perm db.entries) :
    ((SpecDb.mk entries).candidates key threads).Perm (db.candidates key threads) := by
  have hkey := h.filter fun s =>
    decide (s.vendor = key.vendor ∧ s.family = key.family ∧ s.model = key.model)
  have hnarrowed := hkey.filter (·.threads = threads)
  unfold SpecDb.candidates
  dsimp only
  simp only [← List.length_eq_zero_iff (l := List.filter _ (List.filter _ _)), hnarrowed.length_eq]
  split_ifs
  · exact hkey
  · exact hnarrowed

/-- The order of the candidates does not matter to what is judged. -/
theorem conservative_judgedFigures_of_perm {first first' : CpuSpec} {others others' : List CpuSpec}
    (h : (first :: others).Perm (first' :: others')) :
    (conservative first others).judgedFigures = (conservative first' others').judgedFigures := by
  simp only [CpuSpec.judgedFigures, conservative_baseMhz, conservative_tdpWatts,
    conservative_ctdpMinWatts, conservative_ctdpMaxWatts, conservative_tjmaxC,
    min?_eq_of_perm (h.map CpuSpec.baseMhz), min?_eq_of_perm (h.map CpuSpec.tdpWatts),
    min?_eq_of_perm (h.filterMap CpuSpec.ctdpMinWatts),
    max?_eq_of_perm (h.filterMap CpuSpec.ctdpMaxWatts),
    max?_eq_of_perm (h.filterMap CpuSpec.tjmaxC)]

lemma conservative_counts (first : CpuSpec) (others : List CpuSpec) :
    (conservative first others).cores = first.cores ∧
      (conservative first others).threads = first.threads := by
  unfold conservative
  split_ifs <;> exact ⟨rfl, rfl⟩

end Permutation

section Established
variable (db : SpecDb) (key : CpuKey) (threads : ℕ)

/-- The label states the counts of every candidate, and neither the label nor the judged
figures depend on the order of the database. -/
structure Established (m : SpecMatch) : Prop where
  counts : ∀ c ∈ db.candidates key threads, m.label = countsLabel c.cores c.threads m.candidates
  unordered : ∀ entries, entries.Perm db.entries →
    ∃ m', (SpecDb.mk entries).resolve key threads = some m' ∧ m'.label = m.label ∧
      m'.spec.judgedFigures = m.spec.judgedFigures

/-- An ambiguous match claims only what was established. -/
def ClaimsEstablished : Prop :=
  ∀ m, db.resolve key threads = some m → ¬m.isExact → Established db key threads m

/-- The processor is one of this family and model. -/
def CpuKey.Covers (s : CpuSpec) : Prop :=
  s.vendor = key.vendor ∧ s.family = key.family ∧ s.model = key.model

/-- The entries of the family and model with the thread count have as many cores as each
other, or no entry has the thread count and they all have as many cores and threads. -/
def SameCounts : Prop :=
  (∀ s ∈ db.entries, ∀ t ∈ db.entries, key.Covers s → key.Covers t →
      s.threads = threads → t.threads = threads → s.cores = t.cores) ∧
    ((∀ s ∈ db.entries, key.Covers s → s.threads ≠ threads) →
      ∀ s ∈ db.entries, ∀ t ∈ db.entries, key.Covers s → key.Covers t →
        s.cores = t.cores ∧ s.threads = t.threads)

variable {db key threads}

lemma mem_candidates_iff {c : CpuSpec} : c ∈ db.candidates key threads ↔
    c ∈ db.entries ∧ key.Covers c ∧
      (c.threads = threads ∨ ∀ s ∈ db.entries, key.Covers s → s.threads ≠ threads) := by
  unfold SpecDb.candidates CpuKey.Covers
  dsimp only
  split_ifs with hnone
  · have hno : ∀ s ∈ db.entries, s.vendor = key.vendor ∧ s.family = key.family ∧
        s.model = key.model → s.threads ≠ threads := by
      intro s hs hcovers hthreads
      have hmem := List.filter_eq_nil_iff.mp hnone s
        (List.mem_filter.mpr ⟨hs, by simpa using hcovers⟩)
      simp [hthreads] at hmem
    simp only [List.mem_filter, decide_eq_true_eq]
    exact ⟨fun h => ⟨h.1, h.2, .inr hno⟩, fun h => ⟨h.1, h.2.1⟩⟩
  · obtain ⟨s, hs⟩ := List.exists_mem_of_ne_nil _ hnone
    simp only [List.mem_filter, decide_eq_true_eq] at hs ⊢
    constructor
    · intro h
      exact ⟨h.1.1, h.1.2, .inl h.2⟩
    · intro h
      refine ⟨⟨h.1, h.2.1⟩, h.2.2.resolve_right fun hno => ?_⟩
      exact hno s hs.1.1 hs.1.2 hs.2

/-- The candidates are alike in what the label states. -/
lemma sameCounts_iff : SameCounts db key threads ↔
    ∀ c ∈ db.candidates key threads, ∀ d ∈ db.candidates key threads,
      c.cores = d.cores ∧ c.threads = d.threads := by
  constructor
  · rintro ⟨hnarrowed, hwide⟩ c hc d hd
    obtain ⟨hc, hcc, hct⟩ := mem_candidates_iff.mp hc
    obtain ⟨hd, hdc, hdt⟩ := mem_candidates_iff.mp hd
    rcases hct with hct | hno
    · have hdt := hdt.resolve_right fun hno => hno c hc hcc hct
      exact ⟨hnarrowed c hc d hd hcc hdc hct hdt, hct.trans hdt.symm⟩
    · exact hwide hno c hc d hd hcc hdc
  · intro h
    constructor
    · intro s hs t ht hsc htc hst htt
      exact (h s (mem_candidates_iff.mpr ⟨hs, hsc, .inl hst⟩) t
        (mem_candidates_iff.mpr ⟨ht, htc, .inl htt⟩)).1
    · intro hno s hs t ht hsc htc
      exact h s (mem_candidates_iff.mpr ⟨hs, hsc, .inr hno⟩) t
        (mem_candidates_iff.mpr ⟨ht, htc, .inr hno⟩)

/-- Candidates that are alike leave the label the same in every order. -/
lemma established_of_alike {m : SpecMatch} (hm : db.resolve key threads = some m)
    (hexact : ¬m.isExact) (halike : ∀ c ∈ db.candidates key threads,
      ∀ d ∈ db.candidates key threads, c.cores = d.cores ∧ c.threads = d.threads) :
    Established db key threads m := by
  obtain ⟨first, others, hcandidates, rfl⟩ := resolve_eq_some_iff.mp hm
  obtain ⟨hcores, hthreads⟩ := conservative_counts first others
  have hfirst : first ∈ db.candidates key threads := by rw [hcandidates]; exact .head _
  refine ⟨fun c hc => ?_, fun entries hperm => ?_⟩
  · rw [label_of_not_isExact hexact, hcores, hthreads, (halike first hfirst c hc).1,
      (halike first hfirst c hc).2]
  · have hpermuted : ((SpecDb.mk entries).candidates key threads).Perm
        (db.candidates key threads) := candidates_of_perm hperm
    rw [hcandidates] at hpermuted
    cases hpermuted' : (SpecDb.mk entries).candidates key threads with
    | nil => simp [hpermuted'] at hpermuted
    | cons first' others' =>
      rw [hpermuted'] at hpermuted
      have hlength : others'.length = others.length := by simpa using hpermuted.length_eq
      obtain ⟨hcores', hthreads'⟩ := conservative_counts first' others'
      have hfirst' : first' ∈ db.candidates key threads := by
        rw [hcandidates]
        exact hpermuted.mem_iff.mp (.head _)
      refine ⟨_, resolve_eq_some_iff.mpr ⟨first', others', hpermuted', rfl⟩, ?_,
        conservative_judgedFigures_of_perm hpermuted⟩
      rw [label_of_not_isExact hexact, label_of_not_isExact (by simpa [SpecMatch.isExact, hlength]
        using hexact), hcores, hthreads, hcores', hthreads', hlength,
        (halike first' hfirst' first hfirst).1, (halike first' hfirst' first hfirst).2]

/-- An ambiguous match claims what was established exactly where the products it could be
have the same counts of cores and threads. -/
theorem claimsEstablished_iff (db : SpecDb) (key : CpuKey) (threads : ℕ) :
    ClaimsEstablished db key threads ↔ SameCounts db key threads := by
  rw [sameCounts_iff]
  constructor
  · intro h c hc d hd
    obtain ⟨first, others, hcandidates⟩ := List.exists_cons_of_ne_nil (List.ne_nil_of_mem hc)
    by_cases hone : others = []
    · rw [hcandidates, hone, List.mem_singleton] at hc hd
      rw [hc, hd]
      exact ⟨rfl, rfl⟩
    · have hexact : ¬(SpecMatch.mk (conservative first others) (others.length + 1)).isExact := by
        simpa [SpecMatch.isExact] using hone
      have hresolved := resolve_eq_some_iff.mpr ⟨first, others, hcandidates, rfl⟩
      have hcounts := (h _ hresolved hexact).counts
      exact countsLabel_injective ((hcounts c hc).symm.trans (hcounts d hd))
  · intro halike m hm hexact
    exact established_of_alike hm hexact halike

end Established

/-- Two parts of one family and model, with 4 and 8 cores. -/
def fourAndEightCores : SpecDb where
  entries :=
    let part (name : String) (cores threads : ℕ) : CpuSpec :=
      { vendor := .amd, family := 23, model := 96, stepping := 1, name := name, baseMhz := 2000
        boostMhz := none, tdpWatts := 15, ctdpMinWatts := none, ctdpMaxWatts := none
        tjmaxC := some 105, cores := cores, threads := threads, source := "product page" }
    [part "small part" 4 4, part "large part" 8 16]

/-- With some of its processors hidden the large part is labelled as the small one. -/
theorem hidden_processors_mislabelled :
    ((fourAndEightCores.resolve renoirKey 3).map SpecMatch.label =
      some "4 cores / 4 threads, one of 2 models sharing this processor id") ∧
      ¬ClaimsEstablished fourAndEightCores renoirKey 3 := by
  have hlabel : (fourAndEightCores.resolve renoirKey 3).map SpecMatch.label =
      some "4 cores / 4 threads, one of 2 models sharing this processor id" := by decide +kernel
  refine ⟨hlabel, fun h => ?_⟩
  obtain ⟨m, hm, hm'⟩ := Option.map_eq_some_iff.mp hlabel
  have hexact : ¬m.isExact := by
    obtain rfl := Option.some.inj hm
    decide
  have hcounts := (h m hm hexact).counts
  rw [hm'] at hcounts
  revert hcounts
  obtain rfl := Option.some.inj hm
  decide +kernel

end LoadBear
