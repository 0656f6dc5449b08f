import LoadBear.AdoptedReason
import LoadBear.Application
import LoadBear.RunningList

/-!
# The heading of the running list

The list reorders itself to answer whichever question the rest of the window is asking,
so its heading says which order it is in. The heading is taken from the window just
measured, and the order from the assessment that is shown.
-/
namespace LoadBear

open Ranking TimedHistory

/-- What the heading says the list is ordered by, for a driver word. -/
def runningHead (driver : String) : Option Resource :=
  if driver = "cpu" then some .cpu
  else if driver = "memory" ∨ driver = "disk" then some .memory
  else none

/-- The list is ordered by working set rather than by processor. -/
def Assessment.byMemory (assessment : Assessment) : Bool := assessment.rankedBy ≠ .cpu

section Orders

/-- The figure that a heading names, of a group. -/
def ProcessGroup.figure (g : ProcessGroup) : Resource → ℚ
  | .cpu => g.cpuPercent
  | .memory | .io => g.workingSetBytes

def Row.figure (resource : Resource) : Row → ℚ
  | group g => g.figure resource
  | container _ c => c.figure resource

/-- A container below another has no more than that one. -/
def Row.Follows (resource : Resource) (above below : Row) : Prop :=
  above.place?.isSome → below.place?.isSome → below.figure resource ≤ above.figure resource

/-- The groups descend in the figure, and so do the containers under each of them. -/
structure RankedBy (resource : Resource) (rows : List Row) : Prop where
  groups : (rows.filterMap Row.group?).Pairwise fun a b => b.figure resource ≤ a.figure resource
  containers : rows.IsChain (Row.Follows resource)

variable (rt : Runtime) (reading : Reading) (shown head : Resource)

/-- Of two groups that are listed in the order of one resource the first has less of another,
or of two containers that stand under a Docker row. -/
def Misordered : Prop :=
  Crosses (·.weight shown) (groupByName rt reading.processes) runningRows (·.figure head) ∨
    (∃ g, DockerListed rt reading shown g) ∧
      Crosses (fun c => c.1.figure shown) reading.containers.zipIdx containerRowsShown
        (fun c => c.1.figure head)

lemma exists_dockerListed_iff :
    (∃ g ∈ listedGroups rt reading shown, isDockerName rt g.name) ↔
      ∃ g, DockerListed rt reading shown g :=
  exists_congr fun g => mem_listedGroups_iff rt reading shown g

instance : Decidable (∃ g, DockerListed rt reading shown g) :=
  decidable_of_iff _ (exists_dockerListed_iff rt reading shown)

instance : Decidable (Misordered rt reading shown head) :=
  inferInstanceAs (Decidable (_ ∨ (∃ g, DockerListed rt reading shown g) ∧ _))

lemma pairwise_listedGroups_iff :
    (listedGroups rt reading shown).Pairwise (fun a b => b.figure head ≤ a.figure head) ↔
      ¬Crosses (·.weight shown) (groupByName rt reading.processes) runningRows
        (·.figure head) := by
  rw [listedGroups, rankedGroups_eq]
  exact pairwise_take_rank_iff (nodup_groupByName rt _)

lemma nodup_zipIdx {α : Type*} (l : List α) : l.zipIdx.Nodup := by
  have hplaces : (l.zipIdx.map Prod.snd).Nodup := by
    rw [List.zipIdx_map_snd]
    exact List.nodup_range'
  exact hplaces.of_map

lemma pairwise_containerRows_iff :
    (containerRows reading shown).Pairwise (fun a b => b.figure head ≤ a.figure head) ↔
      ¬Crosses (fun c => c.1.figure shown) reading.containers.zipIdx containerRowsShown
        (fun c => c.1.figure head) := by
  rw [containerRows, List.pairwise_map]
  exact pairwise_take_rank_iff (nodup_zipIdx _)

lemma isChain_containerRows_iff : (containerRows reading shown).IsChain (Row.Follows head) ↔
    (containerRows reading shown).Pairwise (fun a b => b.figure head ≤ a.figure head) := by
  have htrans : IsTrans Row fun a b => b.figure head ≤ a.figure head :=
    ⟨fun _ _ _ hab hbc => hbc.trans hab⟩
  rw [← List.isChain_iff_pairwise]
  have hplace : ∀ row ∈ containerRows reading shown, row.place?.isSome := by
    intro row hrow
    obtain ⟨place, c, rfl, -⟩ := of_mem_containerRows reading shown hrow
    rfl
  refine List.IsChain.iff_of_mem_imp fun a b ha hb => ?_
  exact ⟨fun h => h (hplace a ha) (hplace b hb), fun h _ _ => h⟩

/-- Between the rows of one group and those of the next there is nothing to compare. -/
lemma isChain_flatMap_rowsUnder_iff (gs : List ProcessGroup) :
    (gs.flatMap (rowsUnder rt reading shown)).IsChain (Row.Follows head) ↔
      ((∃ g ∈ gs, isDockerName rt g.name) →
        (containerRows reading shown).IsChain (Row.Follows head)) := by
  induction gs with
  | nil => simp
  | cons g gs ih =>
    have hgroup : ∀ (g : ProcessGroup) (row : Row), Row.Follows head (.group g) row := by
      intro g row h
      cases h
    have hnext : ∀ above, ∀ below ∈ (gs.flatMap (rowsUnder rt reading shown)).head?,
        Row.Follows head above below := by
      intro above below hbelow _ hplace
      cases gs with
      | nil => cases hbelow
      | cons g' gs =>
        obtain rfl : Row.group g' = below := by simpa [rowsUnder] using hbelow
        cases hplace
    have hunder : (rowsUnder rt reading shown g).IsChain (Row.Follows head) ↔
        (isDockerName rt g.name → (containerRows reading shown).IsChain (Row.Follows head)) := by
      rw [rowsUnder, List.isChain_cons]
      split_ifs with hdocker
      · simp [hgroup, hdocker]
      · simp [hdocker]
    rw [List.flatMap_cons, List.isChain_append, ih, hunder]
    constructor
    · rintro ⟨hfirst, hlater, -⟩ ⟨g', hg', hdocker⟩
      rcases List.mem_cons.mp hg' with rfl | hg'
      · exact hfirst hdocker
      · exact hlater ⟨g', hg', hdocker⟩
    · intro h
      refine ⟨fun hdocker => h ⟨g, .head _, hdocker⟩, ?_, fun above _ => hnext above⟩
      rintro ⟨g', hg', hdocker⟩
      exact h ⟨g', .tail _ hg', hdocker⟩

/-- The rows of one order are in another as well exactly where nothing is misordered. -/
theorem rankedBy_rows_iff :
    RankedBy head (rows rt reading shown) ↔ ¬Misordered rt reading shown head := by
  have hgroups := pairwise_listedGroups_iff rt reading shown head
  have hcontainers : (rows rt reading shown).IsChain (Row.Follows head) ↔ _ :=
    isChain_flatMap_rowsUnder_iff rt reading shown head (listedGroups rt reading shown)
  rw [exists_dockerListed_iff, isChain_containerRows_iff, pairwise_containerRows_iff] at hcontainers
  rw [← filterMap_group?_rows] at hgroups
  rw [Misordered, not_or, not_and, ← hgroups, ← hcontainers]
  exact ⟨fun h => ⟨h.groups, h.containers⟩, fun h => ⟨h.1, h.2⟩⟩

/-- Every order is the order of its own figure. -/
lemma rankedBy_rows_self : RankedBy shown (rows rt reading shown) := by
  refine (rankedBy_rows_iff rt reading shown shown).mpr ?_
  rintro (hgroups | ⟨-, hcontainers⟩)
  · refine not_crosses_of_ahead (fun b a hahead => ?_) hgroups
    have hweight : a.weight shown ≤ b.weight shown := hahead.elim le_of_lt fun h => h.1.le
    cases shown with
    | cpu => exact (Prod.Lex.le_iff.mp hweight).elim le_of_lt fun h => h.1.le
    | memory | io =>
      have hbytes : a.workingSetBytes ≤ b.workingSetBytes := by
        simpa [ProcessGroup.weight, Prod.Lex.toLex_le_toLex] using hweight
      exact Nat.cast_le.mpr hbytes
  · exact not_crosses_of_ahead (fun b a hahead => hahead.elim le_of_lt fun h => h.1.le)
      hcontainers

end Orders

section Published
variable (rt : Runtime) (spec : Option CpuSpec)

/-- The running list published on a tick, after the ticks before it. -/
def publishedRunning (before : List Tick) (tick : Tick) : List Contributor :=
  runningList rt tick.reading (sample rt spec (trackerAfter rt spec before) tick).1.current

/-- What the rows of that list are about. -/
def publishedRows (before : List Tick) (tick : Tick) : List Row :=
  rows rt tick.reading (sample rt spec (trackerAfter rt spec before) tick).1.current.rankedBy

/-- Whenever a tick publishes a heading, its rows are in the order that the heading names. -/
def HeadingsHold (ticks : List Tick) : Prop :=
  ∀ before tick after, ticks = before ++ tick :: after →
    publishedRunning rt spec before tick =
        (publishedRows rt spec before tick).map (Row.contributor rt) ∧
      ∀ resource ∈ runningHead (published rt spec before tick).driver,
        RankedBy resource (publishedRows rt spec before tick)

end Published

section Tracker
variable (escalateMs settleMs : ℕ) (past : List (ℕ × Assessment)) (o : ℕ × Assessment)

/-- After the observation the shown assessment orders the list in another way: it was moved
to an earlier window that does, or it did already and keeps another tier. -/
def OrderApart : Prop :=
  MoveAdopts escalateMs settleMs past o (fun a => a.byMemory ≠ o.2.byMemory) ∨
    (¬Rises escalateMs settleMs past o ∧ ¬Falls escalateMs settleMs past o ∧
      o.2.tier ≠ (shownAfter escalateMs settleMs past).tier ∧
      (shownAfter escalateMs settleMs past).byMemory ≠ o.2.byMemory)

instance : Decidable (OrderApart escalateMs settleMs past o) :=
  inferInstanceAs (Decidable (MoveAdopts _ _ _ _ _ ∨ _ ∧ _ ∧ _ ∧ _))

variable {escalateMs settleMs past o}

lemma Assessment.refresh_byMemory_ne_iff (shown latest : Assessment) :
    (shown.refresh latest).byMemory ≠ latest.byMemory ↔
      latest.tier ≠ shown.tier ∧ shown.byMemory ≠ latest.byMemory := by
  unfold Assessment.refresh
  split_ifs with htier
  · exact ⟨fun h => absurd rfl h, fun h => absurd htier h.1⟩
  · simp [htier]

theorem orderApart_iff (hw : WellTimed (past ++ [o])) :
    OrderApart escalateMs settleMs past o ↔
      (shownAfter escalateMs settleMs (past ++ [o])).byMemory ≠ o.2.byMemory := by
  rw [OrderApart, moveAdopts_iff hw, decide_eq_true_iff, ← movesUp_iff hw, ← movesDown_iff hw,
    ← and_assoc, ← not_or, ← moves_iff]
  by_cases hmoves : Moves escalateMs settleMs past o
  · simp [hmoves]
  · rw [refresh_of_not_moves hw hmoves, Assessment.refresh_byMemory_ne_iff]
    simp [hmoves]

end Tracker

section Application
variable (rt : Runtime) (spec : Option CpuSpec)

/-- The order of the list by an assessment, told by the resource that heads it. -/
def Assessment.order (assessment : Assessment) : Resource :=
  if assessment.byMemory then .memory else .cpu

/-- The other of the two orders. -/
def Assessment.otherOrder (assessment : Assessment) : Resource :=
  if assessment.byMemory then .cpu else .memory

/-- The window just measured blames something, the shown assessment orders the list in the
other way, and what is listed in that order is not in the order of the heading. -/
def Misheaded (before : List Tick) (tick : Tick) : Prop :=
  (judgement rt spec tick).reason ≠ .clear ∧
    OrderApart escalateMs settleMs (before.map (observation rt spec)) (observation rt spec tick) ∧
    Misordered rt tick.reading (judgement rt spec tick).otherOrder (judgement rt spec tick).order

instance (before : List Tick) (tick : Tick) : Decidable (Misheaded rt spec before tick) :=
  inferInstanceAs (Decidable (_ ∧ OrderApart _ _ _ _ ∧ Misordered _ _ _ _))

variable {rt spec} {before : List Tick} {tick : Tick}

lemma runningHead_driverWord (assessment : Assessment) :
    runningHead (driverWord assessment) =
      if assessment.reason = .clear then none else some assessment.order := by
  obtain ⟨tier, reason⟩ := assessment
  rcases reason with _ | kind | resource
  · rfl
  · rfl
  · cases resource <;> rfl

lemma rows_rankedBy (reading : Reading) (assessment : Assessment) :
    rows rt reading assessment.rankedBy = rows rt reading assessment.order := by
  rw [Assessment.order, Assessment.byMemory]
  cases assessment.rankedBy <;> rfl

lemma published_driver (before : List Tick) (tick : Tick) :
    (published rt spec before tick).driver = driverWord (judgement rt spec tick) := by
  have hlatest := TierTracker.observe_latest (trackerAfter rt spec before)
    (judgement rt spec tick) tick.reading.timestampMs
  rw [← hlatest]
  rfl

lemma publishedRows_eq (before : List Tick) (tick : Tick) :
    publishedRows rt spec before tick = rows rt tick.reading
      (shownAfter escalateMs settleMs
        (before.map (observation rt spec) ++ [observation rt spec tick])).order := by
  rw [← rows_rankedBy, shownAfter, TierTracker.run_concat, ← trackerAfter_eq_run]
  rfl

lemma map_contributor_publishedRows (before : List Tick) (tick : Tick) :
    publishedRunning rt spec before tick =
      (publishedRows rt spec before tick).map (Row.contributor rt) :=
  (map_contributor_rows rt tick.reading _).symm

/-- A tick publishes rows in another order than it says exactly when it is misheaded. -/
theorem misheaded_iff
    (hw : WellTimed (before.map (observation rt spec) ++ [observation rt spec tick])) :
    Misheaded rt spec before tick ↔
      ∃ resource ∈ runningHead (published rt spec before tick).driver,
        ¬RankedBy resource (publishedRows rt spec before tick) := by
  rw [Misheaded, orderApart_iff hw, published_driver, runningHead_driverWord, publishedRows_eq]
  have hobserved : (observation rt spec tick).2 = judgement rt spec tick := rfl
  rw [hobserved]
  generalize shownAfter escalateMs settleMs _ = shown
  by_cases hclear : (judgement rt spec tick).reason = .clear
  · simp [hclear]
  by_cases horder : shown.byMemory = (judgement rt spec tick).byMemory
  · have hsame : shown.order = (judgement rt spec tick).order := by
      rw [Assessment.order, Assessment.order, horder]
    simp [horder, hclear, hsame, rankedBy_rows_self]
  · have hother : shown.order = (judgement rt spec tick).otherOrder := by
      rw [Assessment.order, Assessment.otherOrder]
      revert horder
      cases shown.byMemory <;> cases (judgement rt spec tick).byMemory <;> simp
    simp [horder, hclear, hother, rankedBy_rows_iff]

end Application

/-- A process that keeps the processor busy, and one that fills the memory. -/
def busyAndLarge : List ProcessReading :=
  [⟨100, "busy", none, 2 ^ 27, none, 50⟩, ⟨200, "large", none, 2 ^ 33, none, 2⟩]

/-- Half the window waiting on memory. -/
def memoryTick (nowMs : ℕ) (processes : List ProcessReading) : Tick where
  reading :=
    { timestampMs := nowMs
      stall := ⟨0, 1 / 2, none⟩
      cpu :=
        { allCoreMhz := some 2400, utilizationPct := some 60, reportedBaseMhz := some 2000
          packageWatts := none, packageTempC := none, tjmaxC := none, throttle := ⟨false, none⟩ }
      processes := processes
      containers := [] }
  settled := true

/-- The pressure lasts, first while one process is the heaviest either way. -/
def memoryPressure : List Tick :=
  [500, 1000, 1500].map (memoryTick · [⟨200, "large", none, 2 ^ 33, none, 50⟩,
    ⟨100, "busy", none, 2 ^ 27, none, 2⟩]) ++ [memoryTick 2000 busyAndLarge]

end LoadBear
