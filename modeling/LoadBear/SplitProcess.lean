import LoadBear.EnumerationOrder

/-!
# One process or several

A process that is replaced by several of its name, which together do what it did, leaves the
groups and their figures as they were. The leaders for the processor and for memory are
groups, shown under the first friendly name among their processes. The leader for the disk is
a single process, so there the answer can change altogether.
-/
namespace LoadBear

open Ranking

/-- The name a person reads for a group. -/
def ProcessGroup.shown (g : ProcessGroup) : String := g.display.getD g.name

/-- The hard faults of several processes together, where any reports them. -/
def totalFaults (ps : List ProcessReading) : Option ℚ :=
  if ps.filterMap ProcessReading.hardFaultsPerSec = [] then none
  else some (ps.filterMap ProcessReading.hardFaultsPerSec).sum

/-- Processes of one name that together do what one of them did. -/
structure Splits (lowercase : String → String) (p : ProcessReading)
    (parts : List ProcessReading) : Prop where
  nonempty : parts ≠ []
  name : ∀ q ∈ parts, lowercase q.name = lowercase p.name
  cpu : (parts.map ProcessReading.cpuPercent).sum = p.cpuPercent
  workingSet : (parts.map ProcessReading.workingSetBytes).sum = p.workingSetBytes
  faults : totalFaults parts = p.hardFaultsPerSec

/-- The name an answer gives for a leader, without the count of its processes. -/
def nameGiven (rt : Runtime) (reading : Reading) (resource : Resource) (g : ProcessGroup) :
    String :=
  if isDocker rt g.name then
    ((resolveContainer rt reading.containers resource).map ContainerReading.name).getD "Docker"
  else g.shown

/-- Nothing is named in either reading, or one name is up to letter case, for a cause of one
kind and with one remedy. -/
structure NamedAlike (rt : Runtime) (reading reading' : Reading) (resource : Resource) : Prop where
  names : Option.Rel (fun name name' => rt.lowercase name = rt.lowercase name')
    ((processLeader rt reading resource).map (nameGiven rt reading resource))
    ((processLeader rt reading' resource).map (nameGiven rt reading' resource))
  answers : Option.Rel SameAnswer (reading.attribute rt resource) (reading'.attribute rt resource)

/-- Two groups that both count as Docker, or neither does and they are shown under one name up
to letter case and have one entry among the system processes. -/
def CalledAlike (rt : Runtime) (g g' : ProcessGroup) : Prop :=
  (isDocker rt g.name ∧ isDocker rt g'.name) ∨
    (¬isDocker rt g.name ∧ ¬isDocker rt g'.name ∧ rt.lowercase g.shown = rt.lowercase g'.shown ∧
      systemRemediation rt g.name = systemRemediation rt g'.name)

/-- What is shown for the processes of a name, in lower case: the first friendly name among
them, or else their own. -/
def shownKey (lowercase : String → String) (ps : List ProcessReading) (key : String) : String :=
  (((processesNamed lowercase ps key).findSome? ProcessReading.displayName).map lowercase).getD key

/-- The name leads by what its processes take together. -/
def LeadsByTotals (lowercase : String → String) (reading : Reading) (key : String) :
    Resource → Prop
  | .cpu => Covered reading ∧ CpuDominates lowercase reading.processes key
  | .memory =>
    0 < totalWorkingSet reading.processes ∧ MemoryDominates lowercase reading.processes key
  | .io => False

/-- A name in lower case that counts as Docker. -/
def DockerKey (key : String) : Prop := dockerProcesses.any fun d => key.startsWith d

/-- A name that leads counts as Docker, or is shown as one thing in both lists. -/
def ShownAlike (lowercase : String → String) (reading : Reading) (ps' : List ProcessReading)
    (resource : Resource) : Prop :=
  ∀ key, LeadsByTotals lowercase reading key resource →
    DockerKey key ∨ shownKey lowercase reading.processes key = shownKey lowercase ps' key

def ProcessReading.faultRate (p : ProcessReading) : ℚ := p.hardFaultsPerSec.getD 0

/-- A process that faults, and half as often again as every other one that reports. -/
def FaultsMost (ps : List ProcessReading) (q : ProcessReading) : Prop :=
  0 < q.faultRate ∧
    Dominates ProcessReading.faultRate (3 / 2) (ps.filter (·.hardFaultsPerSec.isSome)) q

/-- What faults most on its own is called alike in both lists, or is in neither. -/
structure SameFaulter (rt : Runtime) (ps ps' : List ProcessReading) : Prop where
  kept : ∀ q, FaultsMost ps q → ∃ q', FaultsMost ps' q' ∧ CalledAlike rt (.single q) (.single q')
  absent : (∃ q', FaultsMost ps' q') → ∃ q, FaultsMost ps q

section Totals
variable {lowercase : String → String} {p : ProcessReading} {parts rest : List ProcessReading}

/-- The parts make the same totals as the whole. -/
lemma Splits.sameTotals (h : Splits lowercase p parts) (rest : List ProcessReading) :
    SameTotals lowercase (p :: rest) (parts ++ rest) := by
  have hnamed : ∀ key, processesNamed lowercase parts key =
      if lowercase p.name = key then parts else [] := by
    intro key
    unfold processesNamed
    split_ifs with hkey
    · rw [List.filter_eq_self]
      intro q hq
      simpa [hkey] using h.name q hq
    · rw [List.filter_eq_nil_iff]
      intro q hq
      simpa [h.name q hq] using hkey
  have hparts : ∀ key, processesNamed lowercase (parts ++ rest) key =
      (if lowercase p.name = key then parts else []) ++ processesNamed lowercase rest key := by
    intro key
    rw [← hnamed]
    exact List.filter_append ..
  have hwhole : ∀ key, processesNamed lowercase (p :: rest) key =
      (if lowercase p.name = key then [p] else []) ++ processesNamed lowercase rest key := by
    intro key
    by_cases hkey : lowercase p.name = key <;> simp [processesNamed, hkey]
  constructor
  · intro key
    simp only [groupNames, List.map_cons, List.map_append, List.mem_cons, List.mem_append,
      List.mem_map]
    refine or_congr_left ?_
    constructor
    · rintro rfl
      obtain ⟨q, hq⟩ := List.exists_mem_of_ne_nil _ h.nonempty
      exact ⟨q, hq, h.name q hq⟩
    · intro hkey
      obtain ⟨q, hq, hname⟩ := hkey
      rw [← hname, h.name q hq]
  · intro key
    rw [groupCpuPercent, groupCpuPercent, hparts, hwhole]
    split_ifs <;> simp [h.cpu]
  · intro key
    rw [groupWorkingSet, groupWorkingSet, hparts, hwhole]
    split_ifs <;> simp [h.workingSet]
  · simp [totalCpuPercent, h.cpu]
  · simp [totalWorkingSet, h.workingSet]

end Totals

section Names
variable {rt : Runtime} {reading reading' : Reading} {resource : Resource} {g g' : ProcessGroup}

variable (rt reading resource g) in
/-- The label is the name given, with the count behind it where there are several processes. -/
theorem label_answerFor :
    (answerFor rt reading resource g).1.label = nameGiven rt reading resource g ∨
      (answerFor rt reading resource g).1.label =
        s!"{nameGiven rt reading resource g} ({g.count} processes)" := by
  have hlabel : g.label = g.shown ∨ g.label = s!"{g.shown} ({g.count} processes)" := by
    unfold ProcessGroup.label
    dsimp only
    split_ifs
    · exact .inr rfl
    · exact .inl rfl
  unfold answerFor nameGiven
  by_cases hdocker : isDocker rt g.name
  · rw [if_pos hdocker, if_pos hdocker]
    cases resolveContainer rt reading.containers resource with
    | none => exact .inl rfl
    | some c => exact .inl rfl
  · rw [if_neg hdocker, if_neg hdocker]
    cases systemRemediation rt g.name with
    | none => exact hlabel
    | some remedy => exact hlabel

/-- What is said of Docker is never said of anything else. -/
lemma docker_apart (hdocker : isDocker rt g.name) (hnot : ¬isDocker rt g'.name) :
    ¬SameAnswer (answerFor rt reading resource g) (answerFor rt reading' resource g') := by
  rintro ⟨hkind, hremedy⟩
  unfold answerFor at hkind hremedy
  rw [if_pos hdocker, if_neg hnot] at hkind hremedy
  cases hcontainer : resolveContainer rt reading.containers resource <;>
    cases hsystem : systemRemediation rt g'.name <;>
      simp only [hcontainer, hsystem] at hkind hremedy
  · cases hremedy
  · exact hkind
  · exact hkind
  · exact hkind

lemma SameAnswer.symm {answer answer' : Cause × Remediation} (h : SameAnswer answer answer') :
    SameAnswer answer' answer := by
  obtain ⟨hkind, hremedy⟩ := h
  refine ⟨?_, hremedy.symm⟩
  cases hfirst : answer.1.kind <;> cases hsecond : answer'.1.kind <;>
    simp_all [CauseKind.Same]

/-- What is said of two leaders is alike exactly if they are called alike. -/
lemma alike_iff (hcontainers : reading'.containers = reading.containers) :
    (rt.lowercase (nameGiven rt reading resource g) =
        rt.lowercase (nameGiven rt reading' resource g') ∧
      SameAnswer (answerFor rt reading resource g) (answerFor rt reading' resource g')) ↔
      CalledAlike rt g g' := by
  unfold CalledAlike
  by_cases hdocker : isDocker rt g.name <;> by_cases hdocker' : isDocker rt g'.name
  · simp only [hdocker, hdocker', and_self, true_or, iff_true]
    unfold nameGiven answerFor
    rw [hcontainers, if_pos hdocker, if_pos hdocker', if_pos hdocker, if_pos hdocker']
    cases resolveContainer rt reading.containers resource with
    | none => exact ⟨rfl, trivial, rfl⟩
    | some c => exact ⟨rfl, rfl, rfl⟩
  · simp [hdocker, hdocker', docker_apart hdocker hdocker']
  · have hapart :
        ¬SameAnswer (answerFor rt reading resource g) (answerFor rt reading' resource g') :=
      fun h => docker_apart hdocker' hdocker h.symm
    simp [hdocker, hdocker', hapart]
  · simp only [hdocker, hdocker', false_and, not_false_eq_true, true_and, false_or,
      Bool.false_eq_true]
    unfold nameGiven answerFor
    rw [if_neg hdocker, if_neg hdocker', if_neg hdocker, if_neg hdocker']
    refine and_congr_right fun _ => ?_
    cases hsystem : systemRemediation rt g.name <;> cases hsystem' : systemRemediation rt g'.name
    · exact ⟨fun _ => rfl, fun _ => ⟨trivial, rfl⟩⟩
    · exact ⟨fun h => h.kind.elim, fun h => (by cases h)⟩
    · exact ⟨fun h => h.kind.elim, fun h => (by cases h)⟩
    · exact ⟨fun h => congrArg some h.remedy, fun h => ⟨trivial, Option.some.inj h⟩⟩

lemma namedAlike_iff (hcontainers : reading'.containers = reading.containers) :
    NamedAlike rt reading reading' resource ↔ Option.Rel (CalledAlike rt)
      (processLeader rt reading resource) (processLeader rt reading' resource) := by
  have hsplit : NamedAlike rt reading reading' resource ↔
      Option.Rel (fun name name' => rt.lowercase name = rt.lowercase name')
        ((processLeader rt reading resource).map (nameGiven rt reading resource))
        ((processLeader rt reading' resource).map (nameGiven rt reading' resource)) ∧
      Option.Rel SameAnswer
        ((processLeader rt reading resource).map (answerFor rt reading resource))
        ((processLeader rt reading' resource).map (answerFor rt reading' resource)) :=
    ⟨fun h => ⟨h.names, h.answers⟩, fun h => ⟨h.1, h.2⟩⟩
  rw [hsplit]
  cases processLeader rt reading resource <;> cases processLeader rt reading' resource
  · exact ⟨fun _ => .none, fun _ => ⟨.none, .none⟩⟩
  · exact ⟨fun h => (by cases h.1), fun h => (by cases h)⟩
  · exact ⟨fun h => (by cases h.1), fun h => (by cases h)⟩
  · simp only [Option.map_some, Option.rel_some_some, alike_iff hcontainers]

end Names

section Totals
variable {lowercase : String → String} {reading : Reading} {processes : List ProcessReading}
  {resource : Resource} {key : String} {g g' : ProcessGroup}

lemma IsGroupOf.lowercase_shown {l : List ProcessReading} (hg : IsGroupOf lowercase l key g) :
    lowercase g.shown = shownKey lowercase l key := by
  have hdisplay : g.display =
      (processesNamed lowercase l key).findSome? ProcessReading.displayName := by
    rw [(gathers_members hg.mem).display_eq, ← hg.key_eq]
    rfl
  rw [ProcessGroup.shown, shownKey, ← hdisplay]
  cases g.display with
  | none => exact hg.key_eq
  | some display => rfl

/-- Two groups of a name are called alike if it counts as Docker or is shown as one thing. -/
lemma calledAlike_iff {l l' : List ProcessReading} (hg : IsGroupOf lowercase l key g)
    (hg' : IsGroupOf lowercase l' key g') : CalledAlike (.exact lowercase) g g' ↔
      DockerKey key ∨ shownKey lowercase l key = shownKey lowercase l' key := by
  have hdocker : isDocker (.exact lowercase) g.name ↔ DockerKey key := by
    rw [← hg.key_eq]
    rfl
  have hdocker' : isDocker (.exact lowercase) g'.name ↔ DockerKey key := by
    rw [← hg'.key_eq]
    rfl
  have hsystem : systemRemediation (.exact lowercase) g.name =
      systemRemediation (.exact lowercase) g'.name := by
    have hname : lowercase g.name = lowercase g'.name := hg.key_eq.trans hg'.key_eq.symm
    change (systemProcesses.find? fun entry => (lowercase g.name).startsWith entry.1).map _ =
      (systemProcesses.find? fun entry => (lowercase g'.name).startsWith entry.1).map _
    rw [hname]
  have hshown : (Runtime.exact lowercase).lowercase g.shown =
      (Runtime.exact lowercase).lowercase g'.shown ↔
        shownKey lowercase l key = shownKey lowercase l' key := by
    rw [← hg.lowercase_shown, ← hg'.lowercase_shown]
    rfl
  rw [CalledAlike, hdocker, hdocker', hshown, hsystem]
  tauto

/-- The leader is the group of the name that leads by its totals. -/
lemma processLeader_eq_some_iff (hbytes : totalWorkingSet reading.processes ≤ u64Max)
    (hresource : resource ≠ .io) :
    processLeader (.exact lowercase) reading resource = some g ↔
      g ∈ groupByName (.exact lowercase) reading.processes ∧
        LeadsByTotals lowercase reading (lowercase g.name) resource := by
  cases resource with
  | cpu => exact (cpuLeader_eq_some_iff hbytes).trans and_left_comm
  | memory => exact (memoryLeader_eq_some_iff hbytes).trans and_left_comm
  | io => exact absurd rfl hresource

/-- The leaders by totals are groups of one name. -/
lemma rel_processLeader (htotals : SameTotals lowercase reading.processes processes)
    (hbytes : totalWorkingSet reading.processes ≤ u64Max) (hresource : resource ≠ .io) :
    Option.Rel (fun g g' => ∃ key, IsGroupOf lowercase reading.processes key g ∧
        IsGroupOf lowercase processes key g')
      (processLeader (.exact lowercase) reading resource)
      (processLeader (.exact lowercase) { reading with processes := processes } resource) := by
  cases resource with
  | cpu => exact rel_cpuLeader htotals hbytes fun key _ _ hg hg' => ⟨key, hg, hg'⟩
  | memory => exact rel_memoryLeader htotals hbytes fun key _ _ hg hg' => ⟨key, hg, hg'⟩
  | io => exact absurd rfl hresource

lemma LeadsByTotals.mem (h : LeadsByTotals lowercase reading key resource) :
    key ∈ groupNames lowercase reading.processes := by
  cases resource with
  | cpu => exact h.2.1
  | memory => exact h.2.1
  | io => exact h.elim

/-- The leaders by totals are called alike exactly if what leads is shown alike. -/
lemma rel_calledAlike_iff (htotals : SameTotals lowercase reading.processes processes)
    (hbytes : totalWorkingSet reading.processes ≤ u64Max) (hresource : resource ≠ .io) :
    Option.Rel (CalledAlike (.exact lowercase))
        (processLeader (.exact lowercase) reading resource)
        (processLeader (.exact lowercase) { reading with processes := processes } resource) ↔
      ShownAlike lowercase reading processes resource := by
  have hsame := rel_processLeader htotals hbytes hresource
  have hleads (g : ProcessGroup) :
      processLeader (.exact lowercase) reading resource = some g ↔
        g ∈ groupByName (.exact lowercase) reading.processes ∧
          LeadsByTotals lowercase reading (lowercase g.name) resource :=
    processLeader_eq_some_iff hbytes hresource
  constructor
  · intro hcalled key hkey
    obtain ⟨g, hg⟩ := exists_isGroupOf hbytes hkey.mem
    have hleader := (hleads g).mpr ⟨hg.mem, hg.key_eq ▸ hkey⟩
    rw [hleader] at hcalled hsame
    generalize processLeader (.exact lowercase) _ resource = leader' at hcalled hsame
    cases hcalled with
    | some halike =>
      cases hsame with
      | some hboth =>
        obtain ⟨key', hg₁, hg'⟩ := hboth
        obtain rfl : key = key' := hg.key_eq.symm.trans hg₁.key_eq
        exact (calledAlike_iff hg hg').mp halike
  · intro hshown
    generalize hfound : processLeader (.exact lowercase) reading resource = leader at hsame ⊢
    generalize processLeader (.exact lowercase) _ resource = leader' at hsame ⊢
    cases hsame with
    | none => exact .none
    | some hboth =>
      obtain ⟨key, hg, hg'⟩ := hboth
      have hkey := ((hleads _).mp hfound).2
      rw [hg.key_eq] at hkey
      exact .some ((calledAlike_iff hg hg').mpr (hshown key hkey))

/-- The processes of each name all carry one friendly name, or none does. -/
def OneDisplay (lowercase : String → String) (ps : List ProcessReading) : Prop :=
  ∀ p ∈ ps, ∀ q ∈ ps, lowercase p.name = lowercase q.name → p.displayName = q.displayName

lemma findSome?_displayName {members : List ProcessReading} {display : Option String}
    (hne : members ≠ []) (h : ∀ q ∈ members, q.displayName = display) :
    members.findSome? ProcessReading.displayName = display := by
  cases display with
  | none => exact List.findSome?_eq_none_iff.mpr h
  | some name =>
    obtain ⟨q, rest, rfl⟩ := List.exists_cons_of_ne_nil hne
    simp [h q (.head _)]

/-- Whatever leads is then shown as one thing in both lists. -/
theorem shownAlike_of_oneDisplay (htotals : SameTotals lowercase reading.processes processes)
    (hone : OneDisplay lowercase (reading.processes ++ processes)) :
    ShownAlike lowercase reading processes resource := by
  intro key hkey
  obtain ⟨q, hq, hqname⟩ := List.mem_map.mp hkey.mem
  have hdisplay : ∀ l ⊆ reading.processes ++ processes, key ∈ groupNames lowercase l →
      (processesNamed lowercase l key).findSome? ProcessReading.displayName = q.displayName := by
    intro l hsub hmem
    obtain ⟨o, ho, honame⟩ := List.mem_map.mp hmem
    refine findSome?_displayName (List.ne_nil_of_mem (List.mem_filter.mpr ⟨ho, ?_⟩)) ?_
    · exact decide_eq_true honame
    · intro r hr
      obtain ⟨hrl, hrname⟩ := List.mem_filter.mp hr
      exact hone r (hsub hrl) q (List.mem_append_left _ hq)
        ((of_decide_eq_true hrname).trans hqname.symm)
  right
  rw [shownKey, shownKey, hdisplay _ (List.subset_append_left _ _) hkey.mem,
    hdisplay _ (List.subset_append_right _ _) ((htotals.names key).mp hkey.mem)]

end Totals

section Faults
variable {lowercase : String → String} {reading : Reading} {processes : List ProcessReading}

lemma FaultsMost.mem {ps : List ProcessReading} {q : ProcessReading} (h : FaultsMost ps q) :
    q ∈ ps := List.mem_of_mem_filter h.2.mem

variable (lowercase reading) in
/-- The leader for the disk is the process that faults most. -/
lemma ioLeader_eq_some_iff (g : ProcessGroup) : ioLeader (.exact lowercase) reading = some g ↔
    ∃ q, FaultsMost reading.processes q ∧ .single q = g := by
  unfold ioLeader
  dsimp only
  rw [Option.map_eq_some_iff]
  apply exists_congr
  intro q
  refine and_congr_left fun _ => ?_
  have hlow : decide (q.faultRate ≤ 0) = false ↔ 0 < q.faultRate := by
    rw [decide_eq_false_iff_not, not_le]
  have hleader : leader ProcessReading.faultRate (·.faultRate ≤ 0)
      (fun p second => tooClose (.exact lowercase) p.faultRate second.faultRate)
      (reading.processes.filter (·.hardFaultsPerSec.isSome)) = some q ↔
        decide (q.faultRate ≤ 0) = false ∧ Dominates ProcessReading.faultRate dominance
          (reading.processes.filter (·.hardFaultsPerSec.isSome)) q :=
    leader_eq_some_iff_dominates (by norm_num [dominance]) hlow.mp
      fun a b => tooClose_exact_iff lowercase a.faultRate b.faultRate
  exact hleader.trans (and_congr_left fun _ => hlow)

/-- The leaders for the disk are called alike exactly if what faults most is. -/
lemma rel_ioLeader_iff :
    Option.Rel (CalledAlike (.exact lowercase)) (ioLeader (.exact lowercase) reading)
        (ioLeader (.exact lowercase) { reading with processes := processes }) ↔
      SameFaulter (.exact lowercase) reading.processes processes := by
  have hbefore := fun g => ioLeader_eq_some_iff lowercase reading g
  have hafter := fun g => ioLeader_eq_some_iff lowercase { reading with processes := processes } g
  constructor
  · intro hrel
    constructor
    · intro q hq
      rw [(hbefore (.single q)).mpr ⟨q, hq, rfl⟩] at hrel
      cases hfound : ioLeader (.exact lowercase) { reading with processes := processes } with
      | none => rw [hfound] at hrel; cases hrel
      | some g' =>
        rw [hfound] at hrel
        obtain ⟨q', hq', rfl⟩ := (hafter g').mp hfound
        cases hrel with
        | some hcalled => exact ⟨q', hq', hcalled⟩
    · intro hsome
      obtain ⟨q', hq'⟩ := hsome
      rw [(hafter (.single q')).mpr ⟨q', hq', rfl⟩] at hrel
      cases hfound : ioLeader (.exact lowercase) reading with
      | none => rw [hfound] at hrel; cases hrel
      | some g =>
        obtain ⟨q, hq, -⟩ := (hbefore g).mp hfound
        exact ⟨q, hq⟩
  · intro hsame
    cases hfound : ioLeader (.exact lowercase) reading with
    | none =>
      cases hfound' : ioLeader (.exact lowercase) { reading with processes := processes } with
      | none => exact .none
      | some g' =>
        obtain ⟨q', hq', -⟩ := (hafter g').mp hfound'
        obtain ⟨q, hq⟩ := hsame.absent ⟨q', hq'⟩
        exact absurd (hfound.symm.trans ((hbefore _).mpr ⟨q, hq, rfl⟩)) (by simp)
    | some g =>
      obtain ⟨q, hq, rfl⟩ := (hbefore g).mp hfound
      obtain ⟨q', hq', hcalled⟩ := hsame.kept q hq
      rw [(hafter (.single q')).mpr ⟨q', hq', rfl⟩]
      exact .some hcalled

end Faults

/-- One process and several that do the same are named alike for the processor and for memory
exactly if what leads is shown alike, and for the disk exactly if what faults most on its own is
called alike. -/
theorem namedAlike_of_split_iff (lowercase : String → String) (reading : Reading)
    {p : ProcessReading} {parts rest processes : List ProcessReading}
    (hsplits : Splits lowercase p parts) (hbefore : reading.processes.Perm (p :: rest))
    (hafter : processes.Perm (parts ++ rest))
    (hbytes : totalWorkingSet reading.processes ≤ u64Max) (resource : Resource) :
    NamedAlike (.exact lowercase) reading { reading with processes := processes } resource ↔
      ShownAlike lowercase reading processes resource ∧
        (resource = .io → SameFaulter (.exact lowercase) reading.processes processes) := by
  have htotals : SameTotals lowercase reading.processes processes :=
    ((sameTotals_of_perm hbefore).trans (hsplits.sameTotals rest)).trans
      (sameTotals_of_perm hafter.symm)
  have halike : NamedAlike (.exact lowercase) reading { reading with processes := processes }
      resource ↔ _ := namedAlike_iff rfl
  rw [halike]
  by_cases hresource : resource = .io
  · subst hresource
    have hnone : ShownAlike lowercase reading processes .io := fun _ h => h.elim
    simpa [hnone, processLeader] using rel_ioLeader_iff
  · simpa [hresource] using rel_calledAlike_iff htotals hbytes hresource

section Examples

/-- A process of a compiler's name with these figures. -/
def compiler (pid : ℕ) (cpuPercent : ℚ) (workingSetBytes : ℕ) (faults : ℚ) : ProcessReading :=
  ⟨pid, "rustc", none, workingSetBytes, some faults, cpuPercent⟩

def editor : ProcessReading := ⟨900, "code", none, 300, some 80, 8⟩

/-- One compiler beside an editor. -/
def oneCompiler : Reading where
  timestampMs := 0
  stall := ⟨1 / 2, 0, none⟩
  cpu :=
    { allCoreMhz := some 1400, utilizationPct := some 80, reportedBaseMhz := none
      packageWatts := none, packageTempC := none, tjmaxC := none, throttle := ⟨false, none⟩ }
  processes := [compiler 100 72 800 800, editor]
  containers := []

/-- The same work by two of them. -/
def twoCompilers : List ProcessReading :=
  [compiler 101 40 500 400, compiler 102 32 300 400, editor]

lemma splits_twoCompilers : Splits (String.map Char.toLower) (compiler 100 72 800 800)
    [compiler 101 40 500 400, compiler 102 32 300 400] where
  nonempty := by simp
  name := by simp [compiler]
  cpu := by norm_num [compiler]
  workingSet := by norm_num [compiler]
  faults := by decide +kernel

/-- The processor is attributed, and attributed alike. -/
theorem compilers_named_alike :
    (oneCompiler.attribute (.exact (String.map Char.toLower)) .cpu).isSome ∧
      NamedAlike (.exact (String.map Char.toLower)) oneCompiler
        { oneCompiler with processes := twoCompilers } .cpu := by
  have hshown : ShownAlike (String.map Char.toLower) oneCompiler twoCompilers .cpu :=
    shownAlike_of_oneDisplay (splits_twoCompilers.sameTotals [editor])
      (by unfold OneDisplay; decide +kernel)
  refine ⟨by decide +kernel, (namedAlike_of_split_iff _ oneCompiler splits_twoCompilers (.refl _)
    (.refl _) (by decide +kernel) .cpu).mpr ⟨hshown, by simp⟩⟩

/-- The disk was attributed to the one compiler, and to neither of the two. -/
theorem compilers_silent_on_faults :
    Splits (String.map Char.toLower) (compiler 100 72 800 800)
        [compiler 101 40 500 400, compiler 102 32 300 400] ∧
      ¬NamedAlike (.exact (String.map Char.toLower)) oneCompiler
        { oneCompiler with processes := twoCompilers } .io := by
  refine ⟨splits_twoCompilers, fun h => ?_⟩
  have hbefore : (oneCompiler.attribute (.exact (String.map Char.toLower)) .io).isSome := by
    decide +kernel
  have hafter : ({ oneCompiler with processes := twoCompilers }.attribute
      (.exact (String.map Char.toLower)) .io) = none := by
    decide +kernel
  obtain ⟨answer, hanswer⟩ := Option.isSome_iff_exists.mp hbefore
  have hanswers := h.answers
  rw [hanswer, hafter] at hanswers
  cases hanswers

end Examples
end LoadBear
