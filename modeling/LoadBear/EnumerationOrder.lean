import LoadBear.DominatingGroup

/-!
# Attribution in any order

The processes of a machine are listed in no particular order. Whatever leads is far
enough ahead to lead in every order, so a permutation is answered alike.
-/
namespace LoadBear

open Ranking

/-- The same kind of cause, and of containers the same one. -/
def CauseKind.Same : CauseKind → CauseKind → Prop
  | process _, process _ => True
  | container id, container id' => id = id'
  | systemService, systemService => True
  | powerState, powerState => True
  | _, _ => False

/-- The same kind of cause and the same remedy. -/
structure SameAnswer (answer answer' : Cause × Remediation) : Prop where
  kind : answer.1.kind.Same answer'.1.kind
  remedy : answer.2 = answer'.2

/-- One group up to letter case, with one size and one load. -/
structure SameGroup (lowercase : String → String) (g g' : ProcessGroup) : Prop where
  name_eq : lowercase g.name = lowercase g'.name
  count_eq : g.count = g'.count
  cpu_eq : g.cpuPercent = g'.cpuPercent
  workingSet_eq : g.workingSetBytes = g'.workingSetBytes

/-- Nothing leads in either reading, or the same group does and is answered for alike. -/
structure AnsweredAlike (rt : Runtime) (reading reading' : Reading) (resource : Resource) :
    Prop where
  leaders : Option.Rel (SameGroup rt.lowercase) (processLeader rt reading resource)
    (processLeader rt reading' resource)
  answers : Option.Rel SameAnswer (reading.attribute rt resource) (reading'.attribute rt resource)

section Groups
variable {lowercase : String → String} {l l' : List ProcessReading} {key : String}

lemma processesNamed_of_perm (h : l.Perm l') :
    (processesNamed lowercase l key).Perm (processesNamed lowercase l' key) := h.filter _

/-- The groups of a name in either order hold the same. -/
lemma IsGroupOf.same {g g' : ProcessGroup} (h : l.Perm l') (hg : IsGroupOf lowercase l key g)
    (hg' : IsGroupOf lowercase l' key g') : SameGroup lowercase g g' where
  name_eq := hg.key_eq.trans hg'.key_eq.symm
  count_eq := by rw [hg.count_eq, hg'.count_eq, (processesNamed_of_perm h).length_eq]
  cpu_eq := by rw [hg.cpu_eq, hg'.cpu_eq, (sameTotals_of_perm h).cpu]
  workingSet_eq := by rw [hg.workingSet_eq, hg'.workingSet_eq, (sameTotals_of_perm h).workingSet]

end Groups

section Leaders
variable {lowercase : String → String} {reading : Reading} {processes : List ProcessReading}

lemma SameGroup.refl (g : ProcessGroup) : SameGroup lowercase g g := ⟨rfl, rfl, rfl, rfl⟩

/-- The process that leads by hard faults is the same one in every order. -/
lemma ioLeader_of_perm (h : reading.processes.Perm processes) :
    ioLeader (.exact lowercase) reading =
      ioLeader (.exact lowercase) { reading with processes := processes } := by
  refine congrArg (Option.map ProcessGroup.single)
    (leader_eq_of_perm (by norm_num [dominance] : 1 < dominance) (fun p hlow => ?_)
      (fun p q => tooClose_exact_iff lowercase _ _) (h.filter _))
  exact not_le.mp (of_decide_eq_false hlow)

variable (lowercase) in
lemma processLeader_of_perm (h : reading.processes.Perm processes)
    (hbytes : totalWorkingSet reading.processes ≤ u64Max) (resource : Resource) :
    Option.Rel (SameGroup lowercase) (processLeader (.exact lowercase) reading resource)
      (processLeader (.exact lowercase) { reading with processes := processes } resource) := by
  cases resource with
  | cpu => exact rel_cpuLeader (sameTotals_of_perm h) hbytes fun _ _ _ hg hg' => hg.same h hg'
  | memory => exact rel_memoryLeader (sameTotals_of_perm h) hbytes fun _ _ _ hg hg' => hg.same h hg'
  | io =>
    simp only [processLeader, ← ioLeader_of_perm h]
    cases ioLeader (.exact lowercase) reading with
    | none => exact .none
    | some g => exact .some (.refl g)

end Leaders

section Answer
variable {rt : Runtime} {reading reading' : Reading} {g g' : ProcessGroup}

/-- What is said of a leader depends on its name, up to case, and the containers. -/
lemma sameAnswer_answerFor (h : rt.lowercase g.name = rt.lowercase g'.name)
    (hcontainers : reading'.containers = reading.containers) (resource : Resource) :
    SameAnswer (answerFor rt reading resource g) (answerFor rt reading' resource g') := by
  have hdocker : isDocker rt g'.name = isDocker rt g.name := by rw [isDocker, isDocker, h]
  have hsystem : systemRemediation rt g'.name = systemRemediation rt g.name := by
    rw [systemRemediation, systemRemediation, h]
  unfold answerFor
  rw [hdocker, hsystem, hcontainers]
  by_cases hname : isDocker rt g.name
  · rw [if_pos hname, if_pos hname]
    cases resolveContainer rt reading.containers resource with
    | none => exact ⟨trivial, rfl⟩
    | some c => exact ⟨rfl, rfl⟩
  · rw [if_neg hname, if_neg hname]
    cases systemRemediation rt g.name with
    | none => exact ⟨trivial, rfl⟩
    | some remedy => exact ⟨trivial, rfl⟩

lemma rel_answerFor {named named' : Option ProcessGroup} {R : ProcessGroup → ProcessGroup → Prop}
    {resource : Resource}
    (hanswer : ∀ g g', R g g' →
      SameAnswer (answerFor rt reading resource g) (answerFor rt reading' resource g'))
    (h : Option.Rel R named named') :
    Option.Rel SameAnswer (named.map (answerFor rt reading resource))
      (named'.map (answerFor rt reading' resource)) := by
  cases h with
  | none => exact .none
  | some hsame => exact .some (hanswer _ _ hsame)

end Answer

/-- With working sets that fit and exact sums, the order in which the processes are
listed makes no difference to what is named. -/
theorem attribute_of_perm (lowercase : String → String) (reading : Reading)
    (processes : List ProcessReading) (hperm : reading.processes.Perm processes)
    (hbytes : totalWorkingSet reading.processes ≤ u64Max) (resource : Resource) :
    AnsweredAlike (.exact lowercase) reading { reading with processes := processes } resource := by
  have hleaders := processLeader_of_perm lowercase hperm hbytes resource
  refine ⟨hleaders, rel_answerFor (fun g g' hsame => ?_) hleaders⟩
  exact sameAnswer_answerFor hsame.name_eq rfl resource

/-- The compilers listed last to first are answered for alike. -/
theorem build_answered_alike : AnsweredAlike (.exact (String.map Char.toLower)) buildReading
    { buildReading with processes := buildReading.processes.reverse } .cpu :=
  attribute_of_perm _ buildReading _ (List.reverse_perm _).symm (by decide +kernel) .cpu

end LoadBear
