import LoadBear.ProcessGroups

/-!
# Naming the dominating group

With arithmetic read as exact, a cause is named for CPU or memory exactly when one
group of processes dominates, and it is that group's.
-/
namespace LoadBear

open Ranking

section Groups
variable (lowercase : String → String) (processes : List ProcessReading)

def groupWorkingSet (key : String) : ℕ :=
  ((processesNamed lowercase processes key).map ProcessReading.workingSetBytes).sum

def totalCpuPercent : ℚ := (processes.map ProcessReading.cpuPercent).sum

def totalWorkingSet : ℕ := (processes.map ProcessReading.workingSetBytes).sum

/-- A group with at least 20 percent and 1.5 times the share of every other one. -/
def CpuDominates (key : String) : Prop :=
  key ∈ groupNames lowercase processes ∧ 20 ≤ groupCpuPercent lowercase processes key ∧
    ∀ other ∈ groupNames lowercase processes, other ≠ key →
      3 / 2 * groupCpuPercent lowercase processes other ≤ groupCpuPercent lowercase processes key

/-- A group with at least 0.30 of all memory and 1.5 times that of every other one. -/
def MemoryDominates (key : String) : Prop :=
  key ∈ groupNames lowercase processes ∧
    3 / 10 * (totalWorkingSet processes : ℚ) ≤ groupWorkingSet lowercase processes key ∧
    ∀ other ∈ groupNames lowercase processes, other ≠ key →
      3 / 2 * (groupWorkingSet lowercase processes other : ℚ) ≤
        groupWorkingSet lowercase processes key

/-- The group that the code builds for a name has all the processes of the name. -/
structure IsGroupOf (key : String) (g : ProcessGroup) : Prop where
  mem : g ∈ groupByName (.exact lowercase) processes
  key_eq : lowercase g.name = key
  count_eq : g.count = (processesNamed lowercase processes key).length
  cpu_eq : g.cpuPercent = groupCpuPercent lowercase processes key
  workingSet_eq : g.workingSetBytes = groupWorkingSet lowercase processes key

end Groups

/-- The utilization is known and the visible processes account for enough of it. -/
def Covered (reading : Reading) : Prop :=
  ∃ machine ∈ reading.cpu.utilizationPct,
    machine ≤ 0 ∨ 3 / 5 * machine ≤ totalCpuPercent reading.processes

section Exact
variable {lowercase : String → String} {processes : List ProcessReading}

lemma groupWorkingSet_le_total (key : String) :
    groupWorkingSet lowercase processes key ≤ totalWorkingSet processes := by
  apply List.Sublist.sum_le_sum
  · exact (List.filter_sublist).map _
  · simp

lemma isGroupOf_of_mem {g : ProcessGroup} (hbytes : totalWorkingSet processes ≤ u64Max)
    (hg : g ∈ groupByName (.exact lowercase) processes) :
    IsGroupOf lowercase processes (lowercase g.name) g := by
  have hgathers := gathers_members hg
  have hsum : groupWorkingSet lowercase processes (lowercase g.name) ≤ u64Max :=
    (groupWorkingSet_le_total _).trans hbytes
  have hfits : ∀ p ∈ members lowercase processes g, p.workingSetBytes ≤ u64Max :=
    fun p hp => (List.le_sum_of_mem (List.mem_map_of_mem hp)).trans hsum
  refine ⟨hg, rfl, hgathers.count_eq, ?_, ?_⟩
  · exact hgathers.cpu_eq.trans (addedShares_eq_sum fun _ _ => rfl)
  · exact (hgathers.workingSet_eq hfits).trans (min_eq_left hsum)

lemma exists_isGroupOf {key : String} (hbytes : totalWorkingSet processes ≤ u64Max)
    (hkey : key ∈ groupNames lowercase processes) : ∃ g, IsGroupOf lowercase processes key g := by
  obtain ⟨g, hg, rfl⟩ :=
    List.mem_map.mp ((processGrouping (.exact lowercase)).mem_groups_keys.mpr hkey)
  exact ⟨g, isGroupOf_of_mem hbytes hg⟩

lemma groupName_mem {g : ProcessGroup} (hg : g ∈ groupByName (.exact lowercase) processes) :
    lowercase g.name ∈ groupNames lowercase processes :=
  (processGrouping (.exact lowercase)).mem_groups_keys.mp (List.mem_map_of_mem hg)

lemma sum_workingSet_groups (hbytes : totalWorkingSet processes ≤ u64Max) :
    ((groupByName (.exact lowercase) processes).map ProcessGroup.workingSetBytes).sum =
      totalWorkingSet processes :=
  (processGrouping (.exact lowercase)).sum_groups _ _ processes
    fun _ hg => (isGroupOf_of_mem hbytes hg).workingSet_eq

/-- Dominance among the groups is dominance among the names. -/
lemma dominates_groups_iff (figure : ProcessGroup → ℚ) (total : String → ℚ)
    (hfigure : ∀ g ∈ groupByName (.exact lowercase) processes,
      figure g = total (lowercase g.name))
    {g : ProcessGroup} :
    Dominates figure dominance (groupByName (.exact lowercase) processes) g ↔
      g ∈ groupByName (.exact lowercase) processes ∧
        ∀ other ∈ groupNames lowercase processes, other ≠ lowercase g.name →
          3 / 2 * total other ≤ total (lowercase g.name) := by
  rw [dominates_iff_of_nodup (fun g => lowercase g.name)
    ((processGrouping (.exact lowercase)).groups_keys_nodup processes)]
  constructor
  · rintro ⟨hg, hahead⟩
    refine ⟨hg, fun other hother hne => ?_⟩
    obtain ⟨o, ho, rfl⟩ :=
      List.mem_map.mp ((processGrouping (.exact lowercase)).mem_groups_keys.mpr hother)
    have h := hahead o ho hne
    rwa [hfigure o ho, hfigure g hg] at h
  · rintro ⟨hg, hahead⟩
    refine ⟨hg, fun o ho hne => ?_⟩
    rw [hfigure o ho, hfigure g hg]
    exact hahead _ (groupName_mem ho) hne

variable (lowercase) in
lemma tooClose_exact_iff (leader second : ℚ) : tooClose (.exact lowercase) leader second ↔
    0 < second ∧ leader < dominance * second := by
  rw [tooClose, Runtime.exact_f32, mul_comm]
  simp

lemma foldl_sum_exact (ps : List ProcessReading) (sum : ℚ) :
    ps.foldl (fun sum p => (Runtime.exact lowercase).f32 (sum + p.cpuPercent)) sum =
      sum + totalCpuPercent ps := by
  induction ps generalizing sum with
  | nil => simp [totalCpuPercent]
  | cons p ps ih =>
    rw [List.foldl_cons, ih, Runtime.exact_f32, totalCpuPercent, totalCpuPercent, List.map_cons,
      List.sum_cons, add_assoc]

end Exact

section Leaders
variable {lowercase : String → String} {reading : Reading} {g : ProcessGroup}

variable (lowercase) in
/-- The coverage gate lets through exactly the covered readings. -/
lemma covered_iff : Covered reading ↔
    ∃ coverage, cpuCoverage (.exact lowercase) reading.processes reading.cpu.utilizationPct =
      some coverage ∧ minCoverage (.exact lowercase) ≤ coverage := by
  have hgate : ∀ machine, (machine ≤ 0 ∨ 3 / 5 * machine ≤ totalCpuPercent reading.processes) ↔
      minCoverage (.exact lowercase) ≤ (if machine ≤ 0 then 1 else
        max 0 (min 1 (totalCpuPercent reading.processes / machine))) := by
    intro machine
    rw [minCoverage, Runtime.exact_f32]
    by_cases hmachine : machine ≤ 0
    · simp only [hmachine, true_or, if_true, true_iff]
      norm_num
    · have hpos : 0 < machine := not_le.mp hmachine
      rw [if_neg hmachine, le_max_iff, le_min_iff, le_div_iff₀ hpos]
      simp only [hmachine, false_or]
      constructor
      · exact fun h => .inr ⟨by norm_num, h⟩
      · rintro (h | ⟨-, h⟩)
        · norm_num at h
        · exact h
  cases hutilization : reading.cpu.utilizationPct with
  | none => simp [Covered, cpuCoverage, hutilization]
  | some machine =>
    have hcoverage : cpuCoverage (.exact lowercase) reading.processes (some machine) =
        some (if machine ≤ 0 then 1 else
          max 0 (min 1 (totalCpuPercent reading.processes / machine))) := by
      rw [cpuCoverage, Option.map_some]
      dsimp only
      rw [foldl_sum_exact, zero_add, Runtime.exact_f32]
    rw [hcoverage]
    simpa [Covered, hutilization] using hgate machine

lemma cpuLeader_eq_some_iff (hbytes : totalWorkingSet reading.processes ≤ u64Max) :
    cpuLeader (.exact lowercase) reading = some g ↔
      Covered reading ∧ g ∈ groupByName (.exact lowercase) reading.processes ∧
        CpuDominates lowercase reading.processes (lowercase g.name) := by
  have hleader : leader ProcessGroup.cpuPercent (fun g => g.cpuPercent < minCpuSharePct)
      (fun g second => tooClose (.exact lowercase) g.cpuPercent second.cpuPercent)
      (groupByName (.exact lowercase) reading.processes) = some g ↔
      g ∈ groupByName (.exact lowercase) reading.processes ∧
        CpuDominates lowercase reading.processes (lowercase g.name) := by
    have hlow : decide (g.cpuPercent < minCpuSharePct) = false → 0 < g.cpuPercent := by
      intro h
      have hshare : 20 ≤ g.cpuPercent := not_lt.mp (of_decide_eq_false h)
      linarith
    have hclose (a b : ProcessGroup) := tooClose_exact_iff lowercase a.cpuPercent b.cpuPercent
    rw [leader_eq_some_iff_dominates (by norm_num [dominance]) hlow hclose,
      dominates_groups_iff _ _ fun g hg => (isGroupOf_of_mem hbytes hg).cpu_eq]
    constructor
    · rintro ⟨hlow, hg, hahead⟩
      have hshare : 20 ≤ g.cpuPercent := not_lt.mp (of_decide_eq_false hlow)
      rw [(isGroupOf_of_mem hbytes hg).cpu_eq] at hshare
      exact ⟨hg, groupName_mem hg, hshare, hahead⟩
    · rintro ⟨hg, -, hshare, hahead⟩
      rw [← (isGroupOf_of_mem hbytes hg).cpu_eq] at hshare
      exact ⟨decide_eq_false (not_lt.mpr hshare), hg, hahead⟩
  rw [covered_iff lowercase, ← hleader, cpuLeader]
  cases hcoverage : cpuCoverage (.exact lowercase) reading.processes reading.cpu.utilizationPct with
  | none => simp
  | some coverage =>
    by_cases hlow : coverage < minCoverage (.exact lowercase)
    · simp [hlow, not_le.mpr hlow]
    · simp [hlow, not_lt.mp hlow]

lemma memoryLeader_eq_some_iff (hbytes : totalWorkingSet reading.processes ≤ u64Max) :
    memoryLeader (.exact lowercase) reading = some g ↔
      0 < totalWorkingSet reading.processes ∧
        g ∈ groupByName (.exact lowercase) reading.processes ∧
        MemoryDominates lowercase reading.processes (lowercase g.name) := by
  have htotal : ((groupByName (.exact lowercase) reading.processes).map
      ProcessGroup.workingSetBytes).sum % 2 ^ 64 = totalWorkingSet reading.processes := by
    rw [sum_workingSet_groups hbytes, Nat.mod_eq_of_lt]
    have : u64Max < 2 ^ 64 := by decide
    omega
  rw [memoryLeader, htotal]
  rcases Nat.eq_zero_or_pos (totalWorkingSet reading.processes) with hzero | hpos
  · simp [hzero]
  · have hposQ : (0 : ℚ) < totalWorkingSet reading.processes := by exact_mod_cast hpos
    simp only [hpos.ne', if_false, hpos, true_and, Runtime.exact_f32, minMemoryShare,
      div_lt_iff₀ hposQ, mul_comm _ dominance]
    have hlow : decide ((g.workingSetBytes : ℚ) < 3 / 10 * totalWorkingSet reading.processes) =
        false → (0 : ℚ) < g.workingSetBytes := by
      intro h
      have hshare : 3 / 10 * (totalWorkingSet reading.processes : ℚ) ≤ g.workingSetBytes := by
        simpa using h
      linarith
    have hclose : ∀ a b : ProcessGroup, decide (0 < b.workingSetBytes ∧
        (a.workingSetBytes : ℚ) < dominance * b.workingSetBytes) ↔
          (0 : ℚ) < b.workingSetBytes ∧
            (a.workingSetBytes : ℚ) < dominance * b.workingSetBytes := by
      simp
    rw [← leader_natCast, leader_eq_some_iff_dominates (by norm_num [dominance]) hlow hclose,
      dominates_groups_iff _ (fun key => (groupWorkingSet lowercase reading.processes key : ℚ))
        fun g hg => congrArg Nat.cast (isGroupOf_of_mem hbytes hg).workingSet_eq]
    constructor
    · rintro ⟨hlow, hg, hahead⟩
      have hshare := (isGroupOf_of_mem hbytes hg).workingSet_eq
      exact ⟨hg, groupName_mem hg, by simpa [hshare] using hlow, hahead⟩
    · rintro ⟨hg, -, hshare, hahead⟩
      rw [← (isGroupOf_of_mem hbytes hg).workingSet_eq] at hshare
      exact ⟨by simpa using hshare, hg, hahead⟩

end Leaders

section Totals
variable (lowercase : String → String) (l l' : List ProcessReading)

/-- Two lists with the same names, and the same figures under each. -/
structure SameTotals : Prop where
  names : ∀ key, key ∈ groupNames lowercase l ↔ key ∈ groupNames lowercase l'
  cpu : ∀ key, groupCpuPercent lowercase l key = groupCpuPercent lowercase l' key
  workingSet : ∀ key, groupWorkingSet lowercase l key = groupWorkingSet lowercase l' key
  totalCpu : totalCpuPercent l = totalCpuPercent l'
  totalMemory : totalWorkingSet l = totalWorkingSet l'

variable {lowercase l l'} {l'' : List ProcessReading} {key : String}

lemma SameTotals.symm (h : SameTotals lowercase l l') : SameTotals lowercase l' l where
  names key := (h.names key).symm
  cpu key := (h.cpu key).symm
  workingSet key := (h.workingSet key).symm
  totalCpu := h.totalCpu.symm
  totalMemory := h.totalMemory.symm

lemma SameTotals.trans (h : SameTotals lowercase l l') (h' : SameTotals lowercase l' l'') :
    SameTotals lowercase l l'' where
  names key := (h.names key).trans (h'.names key)
  cpu key := (h.cpu key).trans (h'.cpu key)
  workingSet key := (h.workingSet key).trans (h'.workingSet key)
  totalCpu := h.totalCpu.trans h'.totalCpu
  totalMemory := h.totalMemory.trans h'.totalMemory

lemma sameTotals_of_perm (h : l.Perm l') : SameTotals lowercase l l' where
  names _ := (h.map _).mem_iff
  cpu _ := ((h.filter _).map _).sum_eq
  workingSet _ := ((h.filter _).map _).sum_eq
  totalCpu := (h.map _).sum_eq
  totalMemory := (h.map _).sum_eq

lemma CpuDominates.of_totals (h : SameTotals lowercase l l')
    (hdom : CpuDominates lowercase l key) : CpuDominates lowercase l' key := by
  obtain ⟨hkey, hshare, hahead⟩ := hdom
  refine ⟨(h.names key).mp hkey, ?_, fun other hother hne => ?_⟩
  · rwa [← h.cpu]
  · rw [← h.cpu, ← h.cpu]
    exact hahead other ((h.names other).mpr hother) hne

lemma MemoryDominates.of_totals (h : SameTotals lowercase l l')
    (hdom : MemoryDominates lowercase l key) : MemoryDominates lowercase l' key := by
  obtain ⟨hkey, hshare, hahead⟩ := hdom
  refine ⟨(h.names key).mp hkey, ?_, fun other hother hne => ?_⟩
  · rwa [← h.workingSet, ← h.totalMemory]
  · rw [← h.workingSet, ← h.workingSet]
    exact hahead other ((h.names other).mpr hother) hne

/-- Leaders told by a property of their name lead in either list. -/
lemma rel_of_leads {named named' : Option ProcessGroup} {R : ProcessGroup → ProcessGroup → Prop}
    (Leads Leads' : String → Prop) (h : SameTotals lowercase l l')
    (hbytes : totalWorkingSet l ≤ u64Max)
    (hnamed : ∀ g, named = some g ↔ g ∈ groupByName (.exact lowercase) l ∧
      Leads (lowercase g.name))
    (hnamed' : ∀ g, named' = some g ↔ g ∈ groupByName (.exact lowercase) l' ∧
      Leads' (lowercase g.name))
    (hleads : ∀ key, Leads key ↔ Leads' key)
    (hrel : ∀ key g g', IsGroupOf lowercase l key g → IsGroupOf lowercase l' key g' → R g g') :
    Option.Rel R named named' := by
  have hbytes' : totalWorkingSet l' ≤ u64Max := h.totalMemory ▸ hbytes
  cases hfound : named with
  | none =>
    cases hfound' : named' with
    | none => exact .none
    | some g' =>
      obtain ⟨hg', hlead⟩ := (hnamed' g').mp hfound'
      obtain ⟨g, hg⟩ := exists_isGroupOf hbytes ((h.names _).mpr (groupName_mem hg'))
      have hsome := (hnamed g).mpr ⟨hg.mem, hg.key_eq ▸ (hleads _).mpr hlead⟩
      exact absurd (hfound.symm.trans hsome) (Option.some_ne_none g).symm
  | some g =>
    obtain ⟨hg, hlead⟩ := (hnamed g).mp hfound
    obtain ⟨g', hg'⟩ := exists_isGroupOf hbytes' ((h.names _).mp (groupName_mem hg))
    rw [(hnamed' g').mpr ⟨hg'.mem, hg'.key_eq ▸ (hleads _).mp hlead⟩]
    exact .some (hrel _ g g' (isGroupOf_of_mem hbytes hg) hg')

variable {reading : Reading} {processes : List ProcessReading}
  {R : ProcessGroup → ProcessGroup → Prop}

/-- The group that leads by its share depends on the totals alone. -/
lemma rel_cpuLeader (h : SameTotals lowercase reading.processes processes)
    (hbytes : totalWorkingSet reading.processes ≤ u64Max)
    (hrel : ∀ key g g', IsGroupOf lowercase reading.processes key g →
      IsGroupOf lowercase processes key g' → R g g') :
    Option.Rel R (cpuLeader (.exact lowercase) reading)
      (cpuLeader (.exact lowercase) { reading with processes := processes }) := by
  have hbytes' : totalWorkingSet processes ≤ u64Max := h.totalMemory ▸ hbytes
  have hcovered : Covered reading ↔ Covered { reading with processes := processes } := by
    unfold Covered
    rw [h.totalCpu]
  refine rel_of_leads
    (fun key => Covered reading ∧ CpuDominates lowercase reading.processes key)
    (fun key => Covered reading ∧ CpuDominates lowercase processes key) h hbytes ?_ ?_ ?_ hrel
  · intro g
    rw [cpuLeader_eq_some_iff hbytes]
    tauto
  · intro g
    rw [cpuLeader_eq_some_iff hbytes', hcovered]
    tauto
  · exact fun key => and_congr_right fun _ => ⟨.of_totals h, .of_totals h.symm⟩

lemma rel_memoryLeader (h : SameTotals lowercase reading.processes processes)
    (hbytes : totalWorkingSet reading.processes ≤ u64Max)
    (hrel : ∀ key g g', IsGroupOf lowercase reading.processes key g →
      IsGroupOf lowercase processes key g' → R g g') :
    Option.Rel R (memoryLeader (.exact lowercase) reading)
      (memoryLeader (.exact lowercase) { reading with processes := processes }) := by
  have hbytes' : totalWorkingSet processes ≤ u64Max := h.totalMemory ▸ hbytes
  refine rel_of_leads
    (fun key => 0 < totalWorkingSet reading.processes ∧
      MemoryDominates lowercase reading.processes key)
    (fun key => 0 < totalWorkingSet reading.processes ∧
      MemoryDominates lowercase processes key) h hbytes ?_ ?_ ?_ hrel
  · intro g
    rw [memoryLeader_eq_some_iff hbytes]
    tauto
  · intro g
    rw [memoryLeader_eq_some_iff hbytes', h.totalMemory]
    tauto
  · exact fun key => and_congr_right fun _ => ⟨.of_totals h, .of_totals h.symm⟩

end Totals

/-- A build beside an editor: four compilers, named in different cases. -/
def buildReading : Reading where
  timestampMs := 0
  stall := ⟨1 / 2, 0, none⟩
  cpu :=
    { allCoreMhz := some 1400, utilizationPct := some 80, reportedBaseMhz := none
      packageWatts := none, packageTempC := none, tjmaxC := none, throttle := ⟨false, none⟩ }
  processes :=
    [⟨100, "rustc", none, 400, none, 18⟩, ⟨101, "Rustc", none, 500, none, 17⟩,
      ⟨200, "code", none, 300, none, 8⟩, ⟨102, "RUSTC", none, 400, none, 19⟩]
  containers := []

end LoadBear
