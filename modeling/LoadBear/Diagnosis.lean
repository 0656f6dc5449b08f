import LoadBear.ProcessGroups
import LoadBear.TierReasons

/-!
# What a finding may say

A finding has a cause and a remedy that fits it, or neither, and what it blames is in
the reading: a process of it, or a container of it where Docker leads.
-/
namespace LoadBear

section Leaders
variable {rt : Runtime} {reading : Reading} {resource : Resource} {leader : ProcessGroup}

lemma cpuLeader_mem (h : cpuLeader rt reading = some leader) :
    leader ∈ groupByName rt reading.processes := by
  unfold cpuLeader at h
  cases hcoverage : cpuCoverage rt reading.processes reading.cpu.utilizationPct with
  | none => simp [hcoverage] at h
  | some coverage =>
    simp only [hcoverage] at h
    by_cases hlow : coverage < minCoverage rt
    · simp [hlow] at h
    · rw [if_neg hlow] at h
      exact Ranking.leader_mem h

lemma memoryLeader_mem (h : memoryLeader rt reading = some leader) :
    leader ∈ groupByName rt reading.processes := by
  unfold memoryLeader at h
  dsimp only at h
  split_ifs at h
  exact Ranking.leader_mem h

lemma exists_single_of_ioLeader (h : ioLeader rt reading = some leader) :
    ∃ p ∈ reading.processes, ProcessGroup.single p = leader := by
  obtain ⟨p, hp, hsingle⟩ := Option.map_eq_some_iff.mp h
  exact ⟨p, (List.mem_filter.mp (Ranking.leader_mem hp)).1, hsingle⟩

lemma exists_pid_of_group (hg : leader ∈ groupByName rt reading.processes) :
    ∃ p ∈ reading.processes, p.pid = leader.representativePid := by
  obtain ⟨p, hp, hpid⟩ := representativePid_mem hg
  exact ⟨p, (List.mem_filter.mp hp).1, hpid⟩

/-- The pid of a leader is that of a process of the reading. -/
lemma exists_pid_of_leader (h : processLeader rt reading resource = some leader) :
    ∃ p ∈ reading.processes, p.pid = leader.representativePid := by
  cases resource with
  | cpu => exact exists_pid_of_group (cpuLeader_mem h)
  | memory => exact exists_pid_of_group (memoryLeader_mem h)
  | io =>
    obtain ⟨p, hp, rfl⟩ := exists_single_of_ioLeader h
    exact ⟨p, hp, rfl⟩

/-- No system service is told to stop. -/
lemma systemRemediation_ne_stop {name : String} : systemRemediation rt name ≠ some .stop := by
  have htable : ∀ entry ∈ systemProcesses, entry.2 ≠ .stop := by decide
  intro h
  obtain ⟨entry, hentry, hstop⟩ := Option.map_eq_some_iff.mp h
  exact htable entry (List.mem_of_find?_eq_some hentry) hstop

end Leaders

section Findings
variable (rt : Runtime) (reading : Reading)

/-- A finding says what the attribution of a resource says, or nothing where that is silent. -/
structure Finding.Reports (f : Finding) (resource : Resource) : Prop where
  cause_eq : f.cause = (reading.attribute rt resource).map Prod.fst
  remediation_eq : f.remediation = (reading.attribute rt resource).map Prod.snd

/-- What is true of every finding about a reading. -/
structure Finding.WellFormed (f : Finding) : Prop where
  remedied : f.cause.isSome ↔ f.remediation.isSome
  starved : f.verdict.kind = .powerBelowRating →
    f.cause.map Cause.kind = some .powerState ∧ f.remediation = some .changePowerState
  powerState : f.cause.map Cause.kind = some .powerState → f.verdict.kind = .powerBelowRating
  systemService : f.cause.map Cause.kind = some .systemService → f.remediation ≠ some .stop
  container : ∀ id, f.cause.map Cause.kind = some (.container id) →
    ∃ resource leader c, resourceFor rt reading f.verdict = some resource ∧
      processLeader rt reading resource = some leader ∧ isDocker rt leader.name ∧
      c ∈ reading.containers ∧ c.id = id
  process : ∀ pid, f.cause.map Cause.kind = some (.process pid) →
    ∃ p ∈ reading.processes, p.pid = pid
  attributed : f.verdict.kind ≠ .powerBelowRating →
    ∃ resource, resourceFor rt reading f.verdict = some resource ∧ f.Reports rt reading resource
  stalled : (∃ resource, ∃ level ∈ reading.stall.level resource, stallBraced rt ≤ level) →
    ∃ resource, resourceFor rt reading f.verdict = some resource ∧
      ∃ worst ∈ reading.stall.level resource, stallBraced rt ≤ worst ∧
        ∀ other, ∀ level ∈ reading.stall.level other, level ≤ worst

variable {rt reading} {verdict : Verdict}

lemma resourceFor_of_stalled (h : stallBraced rt ≤ reading.stall.worst.2) :
    resourceFor rt reading verdict = some reading.stall.worst.1 := if_pos h

variable (rt reading) in
/-- Only a starved platform is attributed to no resource. -/
lemma exists_resourceFor (hkind : verdict.kind ≠ .powerBelowRating) :
    ∃ resource, resourceFor rt reading verdict = some resource := by
  by_cases hstalled : stallBraced rt ≤ reading.stall.worst.2
  · exact ⟨_, resourceFor_of_stalled hstalled⟩
  · refine ⟨.cpu, (if_neg hstalled).trans ?_⟩
    cases hverdict : verdict.kind <;> first | rfl | exact absurd hverdict hkind

lemma finding_of_starved (hkind : verdict.kind = .powerBelowRating) :
    finding rt reading verdict = ⟨verdict,
      some ⟨"The power being supplied to this machine", .powerState⟩, some .changePowerState⟩ :=
  if_pos hkind

lemma finding_of_resource {resource : Resource} (hkind : verdict.kind ≠ .powerBelowRating)
    (hresource : resourceFor rt reading verdict = some resource) : finding rt reading verdict =
      ⟨verdict, (reading.attribute rt resource).map Prod.fst,
        (reading.attribute rt resource).map Prod.snd⟩ := by
  rw [finding, if_neg hkind, hresource, Option.bind_some]
  cases reading.attribute rt resource <;> rfl

/-- Where something is stalled enough, the most stalled is what a verdict is attributed to. -/
lemma stalled_resource
    (h : ∃ resource, ∃ level ∈ reading.stall.level resource, stallBraced rt ≤ level) :
    ∃ resource, resourceFor rt reading verdict = some resource ∧
      ∃ worst ∈ reading.stall.level resource, stallBraced rt ≤ worst ∧
        ∀ other, ∀ level ∈ reading.stall.level other, level ≤ worst := by
  obtain ⟨resource, level, hlevel, hbraced⟩ := h
  obtain ⟨hmem, hmost⟩ := reading.stall.worst_spec
  have hworst : stallBraced rt ≤ reading.stall.worst.2 :=
    hbraced.trans (hmost resource level hlevel)
  exact ⟨_, resourceFor_of_stalled hworst, _, hmem, hworst, hmost⟩

lemma wellFormed_of_starved (hkind : verdict.kind = .powerBelowRating) :
    (finding rt reading verdict).WellFormed rt reading := by
  rw [finding_of_starved hkind]
  constructor
  · simp
  · exact fun _ => ⟨rfl, rfl⟩
  · exact fun _ => hkind
  · simp
  · simp
  · simp
  · exact fun h => absurd hkind h
  · exact stalled_resource

lemma wellFormed_of_silent {resource : Resource} (hkind : verdict.kind ≠ .powerBelowRating)
    (hresource : resourceFor rt reading verdict = some resource)
    (hsilent : reading.attribute rt resource = none) :
    (finding rt reading verdict).WellFormed rt reading := by
  rw [finding_of_resource hkind hresource, hsilent]
  constructor
  · simp
  · exact fun h => absurd h hkind
  · simp
  · simp
  · simp
  · simp
  · exact fun _ => ⟨resource, hresource, by rw [hsilent], by rw [hsilent]⟩
  · exact stalled_resource

lemma wellFormed_of_answer {resource : Resource} {cause : Cause} {remedy : Remediation}
    (hkind : verdict.kind ≠ .powerBelowRating)
    (hresource : resourceFor rt reading verdict = some resource)
    (hanswer : reading.attribute rt resource = some (cause, remedy)) :
    (finding rt reading verdict).WellFormed rt reading := by
  obtain ⟨leader, hleader, hsaid⟩ := leader_answers_of_attribute hanswer
  obtain ⟨p, hp, hpid⟩ := exists_pid_of_leader hleader
  rw [finding_of_resource hkind hresource, hanswer]
  constructor
  · simp
  · exact fun h => absurd h hkind
  · cases hsaid <;> simp
  · cases hsaid with
    | systemService _ _ hsystem =>
      rintro - hstop
      exact systemRemediation_ne_stop (hsystem.trans hstop)
    | _ => simp
  · cases hsaid with
    | container c hdocker hc =>
      intro id hid
      exact ⟨resource, leader, c, hresource, hleader, hdocker, Ranking.leader_mem hc, by
        simpa using hid⟩
    | _ => simp
  · cases hsaid with
    | container => simp
    | systemService => simp
    | _ =>
      intro pid hblamed
      exact ⟨p, hp, hpid.trans (by simpa using hblamed)⟩
  · exact fun _ => ⟨resource, hresource, by rw [hanswer], by rw [hanswer]⟩
  · exact stalled_resource

/-- A diagnosis has one finding for each verdict, in order, and every one is well formed. -/
theorem diagnose_wellFormed (rt : Runtime) (reading : Reading) (verdicts : List Verdict) :
    (diagnose rt reading verdicts).map Finding.verdict = verdicts ∧
      ∀ f ∈ diagnose rt reading verdicts, f.WellFormed rt reading := by
  refine ⟨map_verdict_diagnose rt reading verdicts, fun f hf => ?_⟩
  obtain ⟨verdict, -, rfl⟩ := List.mem_map.mp hf
  by_cases hkind : verdict.kind = .powerBelowRating
  · exact wellFormed_of_starved hkind
  · obtain ⟨resource, hresource⟩ := exists_resourceFor rt reading hkind
    cases hanswer : reading.attribute rt resource with
    | none => exact wellFormed_of_silent hkind hresource hanswer
    | some answer => exact wellFormed_of_answer hkind hresource hanswer

end Findings

end LoadBear
