import LoadBear.Attribution

/-!
# The running list

The heaviest groups of processes, with the containers under every group that counts as
Docker. A machine that runs Docker may have several such groups, and each of them lists the
same containers.
-/
namespace LoadBear

open Ranking

/-- How many process groups the running list holds. -/
def runningRows : ℕ := 14

/-- How many containers stand under a Docker row. -/
def containerRowsShown : ℕ := 4

/-- One row of the panel that explains the tier. -/
structure Contributor where
  name : String
  cpu : ℚ
  memoryMb : ℚ
  isContainer : Bool
  limitMb : Option ℚ
  deriving DecidableEq, Repr

/-- The resource the list is ranked by. -/
def Assessment.rankedBy (assessment : Assessment) : Resource :=
  match assessment.reason with
  | .stall resource => resource
  | .clear | .verdict _ => .cpu

variable (rt : Runtime)

/-- Whether a process name means Docker rather than an ordinary application. -/
def isDockerName (name : String) : Bool :=
  ["vmmem", "docker desktop", "com.docker"].any fun d => (rt.lowercase name).startsWith d

/-- Bytes as megabytes. -/
def megabytes (bytes : ℕ) : ℚ := rt.f64 (rt.f64 bytes / 1048576)

/-- The groups, heaviest first. -/
def rankedGroups (processes : List ProcessReading) : Resource → List ProcessGroup
  | .cpu => rank (fun g => toLex (g.cpuPercent, g.workingSetBytes)) (groupByName rt processes)
  | .memory | .io => rank ProcessGroup.workingSetBytes (groupByName rt processes)

def groupRow (g : ProcessGroup) : Contributor :=
  { name := if isDockerName rt g.name then "Docker" else g.label
    cpu := g.cpuPercent
    memoryMb := megabytes rt g.workingSetBytes
    isContainer := false
    limitMb := none }

def containerRow (c : ContainerReading) : Contributor :=
  { name := c.name
    cpu := c.cpuPercent
    memoryMb := megabytes rt c.memoryBytes
    isContainer := true
    limitMb := c.memoryLimitBytes.map (megabytes rt) }

/-- Everything running, heaviest first, with containers under Docker. -/
def runningList (reading : Reading) (assessment : Assessment) : List Contributor :=
  let resource := assessment.rankedBy
  ((rankedGroups rt reading.processes resource).take runningRows).flatMap fun g =>
    groupRow rt g ::
      if isDockerName rt g.name then
        ((rank (·.figure resource) reading.containers).take containerRowsShown).map
          (containerRow rt)
      else []

section Rows

/-- What a row is about: a group, or a container with its place in the reading. -/
inductive Row
  | group (g : ProcessGroup)
  | container (place : ℕ) (c : ContainerReading)
  deriving DecidableEq, Repr

namespace Row

def contributor : Row → Contributor
  | group g => groupRow rt g
  | container _ c => containerRow rt c

def group? : Row → Option ProcessGroup
  | group g => some g
  | container _ _ => none

def place? : Row → Option ℕ
  | group _ => none
  | container place _ => some place

end Row

/-- The order of groups: the share of the processor and then the working set, or the working
set alone. -/
def ProcessGroup.weight (g : ProcessGroup) : Resource → ℚ ×ₗ ℕ
  | .cpu => toLex (g.cpuPercent, g.workingSetBytes)
  | .memory | .io => toLex (0, g.workingSetBytes)

variable (reading : Reading) (resource : Resource)

/-- The containers under a Docker row, with their places in the reading. -/
def containerRows : List Row :=
  ((rank (fun c => c.1.figure resource) reading.containers.zipIdx).take containerRowsShown).map
    fun c => .container c.2 c.1

/-- A group with what stands under it. -/
def rowsUnder (g : ProcessGroup) : List Row :=
  .group g :: if isDockerName rt g.name then containerRows reading resource else []

def listedGroups : List ProcessGroup :=
  (rankedGroups rt reading.processes resource).take runningRows

/-- The rows of the list, by what they are about. -/
def rows : List Row := (listedGroups rt reading resource).flatMap (rowsUnder rt reading resource)

/-- The order, no group twice, no container twice, and every container under Docker. -/
structure FaithfulRanking (rows : List Row) : Prop where
  ordered : (rows.filterMap Row.group?).Pairwise fun a b => b.weight resource ≤ a.weight resource
  listed : ∀ g ∈ rows.filterMap Row.group?, g ∈ groupByName rt reading.processes
  distinct : ((rows.filterMap Row.group?).map fun g => rt.lowercase g.name).Nodup
  once : (rows.filterMap Row.place?).Nodup
  beneath : ∀ earlier place c later, rows = earlier ++ .container place c :: later →
    reading.containers[place]? = some c ∧
      ∃ before g between, earlier = before ++ .group g :: between ∧ isDockerName rt g.name ∧
        ∀ row ∈ between, row.place?.isSome

/-- A Docker group with few enough groups ahead of it to be listed. -/
structure DockerListed (g : ProcessGroup) : Prop where
  group : g ∈ groupByName rt reading.processes
  docker : isDockerName rt g.name
  room : (groupByName rt reading.processes).countP
    (fun h => Ahead (·.weight resource) (groupByName rt reading.processes) h g) < runningRows

/-- There are containers, and more than one group to list them under. -/
def RepeatsContainers : Prop :=
  reading.containers ≠ [] ∧ ∃ g h, g ≠ h ∧ DockerListed rt reading resource g ∧
    DockerListed rt reading resource h

end Rows

section Connection
variable (reading : Reading) (resource : Resource)

lemma rankedGroups_eq (processes : List ProcessReading) :
    rankedGroups rt processes resource =
      rank (·.weight resource) (groupByName rt processes) := by
  cases resource with
  | cpu => rfl
  | memory => simp [rankedGroups, rank, ProcessGroup.weight, Prod.Lex.toLex_le_toLex]
  | io => simp [rankedGroups, rank, ProcessGroup.weight, Prod.Lex.toLex_le_toLex]

lemma map_fst_rank_zipIdx (containers : List ContainerReading) :
    (rank (fun c => c.1.figure resource) containers.zipIdx).map Prod.fst =
      rank (·.figure resource) containers := by
  have hmap := List.map_insertionSort (fun a b => b.1.figure resource ≤ a.1.figure resource)
    (fun a b : ContainerReading => b.figure resource ≤ a.figure resource) Prod.fst
    containers.zipIdx (fun a _ b _ => Iff.rfl)
  rw [List.zipIdx_map_fst] at hmap
  exact hmap

lemma map_contributor_containerRows :
    (containerRows reading resource).map (Row.contributor rt) =
      ((rank (·.figure resource) reading.containers).take containerRowsShown).map
        (containerRow rt) := by
  rw [containerRows, List.map_map, ← map_fst_rank_zipIdx, ← List.map_take, List.map_map]
  rfl

/-- The rows are those of the list. -/
theorem map_contributor_rows (assessment : Assessment) :
    (rows rt reading assessment.rankedBy).map (Row.contributor rt) =
      runningList rt reading assessment := by
  rw [rows, List.map_flatMap]
  apply List.flatMap_congr
  intro g _
  rw [rowsUnder, List.map_cons, apply_ite (List.map (Row.contributor rt)),
    map_contributor_containerRows]
  rfl

end Connection

section Repeats
variable {α β : Type*}

/-- The same list over and over has a repetition, unless it is empty or stands there once. -/
lemma nodup_flatMap_const {l : List α} {part : List β} (hpart : part.Nodup) :
    (l.flatMap fun _ => part).Nodup ↔ part = [] ∨ l.length ≤ 1 := by
  rcases l with _ | ⟨a, _ | ⟨b, l⟩⟩
  · simp
  · simpa using hpart
  · cases part with
    | nil => simp [List.flatMap_eq_nil_iff.mpr]
    | cons c part =>
      simp only [List.flatMap_cons, reduceCtorEq, List.length_cons, false_or]
      constructor
      · intro hnodup
        exact absurd rfl ((List.nodup_append.mp hnodup).2.2 c (.head _) c (by simp))
      · omega

lemma length_le_one_iff {l : List α} (hl : l.Nodup) :
    l.length ≤ 1 ↔ ∀ a ∈ l, ∀ b ∈ l, a = b := by
  rcases l with _ | ⟨a, _ | ⟨b, l⟩⟩
  · simp
  · simp
  · simp only [List.length_cons]
    constructor
    · omega
    · intro hall
      have heq := hall a (.head _) b (by simp)
      simp [heq] at hl

end Repeats

section Parts
variable (reading : Reading) (resource : Resource)

lemma nodup_groupByName (processes : List ProcessReading) : (groupByName rt processes).Nodup :=
  ((processGrouping rt).groups_keys_nodup processes).of_map _

lemma mem_listedGroups_iff (g : ProcessGroup) :
    g ∈ listedGroups rt reading resource ∧ isDockerName rt g.name ↔
      DockerListed rt reading resource g := by
  unfold listedGroups
  rw [rankedGroups_eq]
  constructor
  · intro hg
    obtain ⟨hlisted, hdocker⟩ := hg
    have hgroup := (mem_rank _).mp (List.mem_of_mem_take hlisted)
    exact ⟨hgroup, hdocker, (mem_take_rank_iff (nodup_groupByName rt _) hgroup _).mp hlisted⟩
  · intro hg
    exact ⟨(mem_take_rank_iff (nodup_groupByName rt _) hg.group _).mpr hg.room, hg.docker⟩

/-- The places of the containers under a Docker row. -/
def containerPlaces : List ℕ :=
  ((rank (fun c => c.1.figure resource) reading.containers.zipIdx).take containerRowsShown).map
    Prod.snd

lemma nodup_containerPlaces : (containerPlaces reading resource).Nodup := by
  have hplaces : (reading.containers.zipIdx.map Prod.snd).Nodup := by
    rw [List.zipIdx_map_snd]
    exact List.nodup_range'
  have hranked := ((rank_perm (fun c => c.1.figure resource)
    reading.containers.zipIdx).map Prod.snd).nodup_iff.mpr hplaces
  exact hranked.sublist ((List.take_sublist _ _).map Prod.snd)

lemma containerPlaces_eq_nil_iff :
    containerPlaces reading resource = [] ↔ reading.containers = [] := by
  have hlength := (rank_perm (fun c => c.1.figure resource) reading.containers.zipIdx).length_eq
  rw [← List.length_eq_zero_iff, ← List.length_eq_zero_iff, containerPlaces, List.length_map,
    List.length_take, hlength, List.length_zipIdx, containerRowsShown]
  omega

lemma filterMap_group?_containerRows :
    (containerRows reading resource).filterMap Row.group? = [] := by
  rw [containerRows, List.filterMap_map]
  exact List.filterMap_eq_nil_iff.mpr fun _ _ => rfl

lemma filterMap_place?_containerRows :
    (containerRows reading resource).filterMap Row.place? = containerPlaces reading resource := by
  rw [containerRows, List.filterMap_map, containerPlaces, ← List.filterMap_eq_map]
  rfl

lemma filterMap_group?_rows :
    (rows rt reading resource).filterMap Row.group? = listedGroups rt reading resource := by
  have hunder : ∀ g, (rowsUnder rt reading resource g).filterMap Row.group? = [g] := by
    intro g
    unfold rowsUnder
    split_ifs <;> simp [Row.group?, filterMap_group?_containerRows]
  simp [rows, List.filterMap_flatMap, hunder]

lemma filterMap_place?_rows :
    (rows rt reading resource).filterMap Row.place? =
      ((listedGroups rt reading resource).filter (isDockerName rt ·.name)).flatMap
        fun _ => containerPlaces reading resource := by
  have hunder : ∀ g, (rowsUnder rt reading resource g).filterMap Row.place? =
      if isDockerName rt g.name then containerPlaces reading resource else [] := by
    intro g
    unfold rowsUnder
    split_ifs <;> simp [List.filterMap_cons, Row.place?, filterMap_place?_containerRows]
  rw [rows, List.filterMap_flatMap]
  simp only [hunder]
  induction listedGroups rt reading resource with
  | nil => rfl
  | cons g gs ih =>
    by_cases hg : isDockerName rt g.name <;> simp [hg, ih]

/-- No container stands in two rows exactly when there is one Docker row at most, or nothing to
put under it. -/
lemma once_iff :
    ((rows rt reading resource).filterMap Row.place?).Nodup ↔
      ¬RepeatsContainers rt reading resource := by
  have hlisted : (listedGroups rt reading resource).Nodup := by
    unfold listedGroups
    rw [rankedGroups_eq]
    exact ((rank_perm _ _).nodup_iff.mpr (nodup_groupByName rt _)).sublist (List.take_sublist _ _)
  rw [filterMap_place?_rows, nodup_flatMap_const (nodup_containerPlaces reading resource),
    containerPlaces_eq_nil_iff, length_le_one_iff (hlisted.filter _)]
  simp only [List.mem_filter, mem_listedGroups_iff, RepeatsContainers]
  constructor
  · intro hone hrepeats
    obtain ⟨hsome, g, h, hne, hg, hh⟩ := hrepeats
    exact hne ((hone.resolve_left hsome) g hg h hh)
  · intro hrepeats
    by_cases hnil : reading.containers = []
    · exact .inl hnil
    · refine .inr fun g hg h hh => ?_
      by_contra hne
      exact hrepeats ⟨hnil, g, h, hne, hg, hh⟩

lemma of_mem_containerRows {row : Row} (h : row ∈ containerRows reading resource) :
    ∃ place c, row = .container place c ∧ reading.containers[place]? = some c := by
  obtain ⟨⟨c, place⟩, hmem, rfl⟩ := List.mem_map.mp h
  have hzip := (mem_rank _).mp (List.mem_of_mem_take hmem)
  exact ⟨place, c, rfl, List.mem_zipIdx_iff_getElem?.mp hzip⟩

/-- A container row stands under the Docker row it came with. -/
lemma beneath_rowsUnder (gs : List ProcessGroup) :
    ∀ earlier place c later,
      gs.flatMap (rowsUnder rt reading resource) = earlier ++ .container place c :: later →
      reading.containers[place]? = some c ∧
        ∃ before g between, earlier = before ++ .group g :: between ∧ isDockerName rt g.name ∧
          ∀ row ∈ between, row.place?.isSome := by
  induction gs with
  | nil => simp
  | cons g gs ih =>
    intro earlier place c later hsplit
    rw [List.flatMap_cons] at hsplit
    rcases List.append_eq_append_iff.mp hsplit with
      ⟨earlier', hearlier, hrest⟩ | ⟨rest, hunder, hrest⟩
    · -- the row belongs to a later group
      obtain ⟨hc, before, g', between, hbefore, hg'⟩ := ih earlier' place c later hrest
      refine ⟨hc, rowsUnder rt reading resource g ++ before, g', between, ?_, hg'⟩
      rw [hearlier, hbefore, List.append_assoc]
    · cases rest with
      | nil =>
        -- the row would come first under a later group, before any group row
        obtain ⟨-, before, g', between, hnil, -⟩ := ih [] place c later hrest.symm
        simp at hnil
      | cons row rest =>
        obtain ⟨rfl, -⟩ := List.cons_eq_cons.mp hrest
        cases earlier with
        | nil => simp [rowsUnder] at hunder
        | cons first between =>
          obtain ⟨rfl, hbelow⟩ := List.cons_eq_cons.mp hunder
          split_ifs at hbelow with hdocker
          · have hrow := fun row hrow => of_mem_containerRows reading resource
              (show row ∈ containerRows reading resource by rw [hbelow]; exact hrow)
            obtain ⟨place', c', hcontainer, hc⟩ := hrow (.container place c) (by simp)
            obtain ⟨rfl, rfl⟩ := Row.container.inj hcontainer
            refine ⟨hc, [], g, between, rfl, hdocker, ?_⟩
            intro row hmem
            obtain ⟨place', c', rfl, -⟩ := hrow row (List.mem_append_left _ hmem)
            rfl
          · simp at hbelow

end Parts

/-- The list is a ranking with every container in its one place under Docker, unless there are
containers and two Docker groups to list them under. -/
theorem runningList_faithful_iff (reading : Reading) (assessment : Assessment) :
    runningList rt reading assessment =
        (rows rt reading assessment.rankedBy).map (Row.contributor rt) ∧
      (FaithfulRanking rt reading assessment.rankedBy (rows rt reading assessment.rankedBy) ↔
        ¬RepeatsContainers rt reading assessment.rankedBy) := by
  refine ⟨(map_contributor_rows rt reading assessment).symm, ?_⟩
  constructor
  · intro h
    exact (once_iff rt reading _).mp h.once
  · intro hrepeats
    have hgroups := filterMap_group?_rows rt reading assessment.rankedBy
    have hlisted := (List.take_sublist runningRows
      (rankedGroups rt reading.processes assessment.rankedBy))
    rw [rankedGroups_eq] at hlisted
    constructor
    · rw [hgroups, listedGroups, rankedGroups_eq]
      exact (rank_pairwise _ _).sublist hlisted
    · intro g hg
      rw [hgroups, listedGroups, rankedGroups_eq] at hg
      exact (mem_rank _).mp (List.mem_of_mem_take hg)
    · rw [hgroups, listedGroups, rankedGroups_eq]
      have hkeys : ((groupByName rt reading.processes).map fun g => rt.lowercase g.name).Nodup :=
        (processGrouping rt).groups_keys_nodup reading.processes
      exact (((rank_perm _ _).map _).nodup_iff.mpr hkeys).sublist (hlisted.map _)
    · exact (once_iff rt reading _).mpr hrepeats
    · exact beneath_rowsUnder rt reading _ _

/-- An idle Docker Desktop machine with one container. -/
def dockerDesktop : Reading where
  timestampMs := 0
  stall := ⟨0, 0, none⟩
  cpu :=
    { allCoreMhz := none, utilizationPct := some 10, reportedBaseMhz := none
      packageWatts := none, packageTempC := none, tjmaxC := none, throttle := ⟨false, none⟩ }
  processes :=
    [⟨100, "vmmem", none, 2 ^ 30, none, 5⟩, ⟨200, "docker desktop", none, 2 ^ 28, none, 2⟩]
  containers := [⟨"abc123", "postgres", 4, 2 ^ 27, none⟩]

/-- Both of its groups count as Docker, and the container stands under each. -/
theorem container_listed_twice :
    (runningList .ieee dockerDesktop ⟨.easy, .clear⟩).map Contributor.name =
        ["Docker", "postgres", "Docker", "postgres"] ∧
      ¬FaithfulRanking .ieee dockerDesktop .cpu (rows .ieee dockerDesktop .cpu) := by
  constructor
  · decide +kernel
  · intro h
    have honce := h.once
    revert honce
    decide +kernel

end LoadBear
