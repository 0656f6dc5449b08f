import LoadBear.Attribution

/-!
# Naming a container

When Docker leads the process layer, a container is named in its place on the
strength of one ranking. The figures decide whether the name rests on evidence:
a machine whose containers report nothing has a first one all the same.
-/
namespace LoadBear

open Ranking

variable (rt : Runtime)

/-- The container's figure is positive and 1.5 times that of every other one. -/
def ContainerEvidence (containers : List ContainerReading) (resource : Resource)
    (c : ContainerReading) : Prop :=
  0 < c.figure resource ∧ Dominates (·.figure resource) dominance containers c

/-- Docker leads the process layer. -/
def DockerLeads (reading : Reading) (resource : Resource) : Prop :=
  ∃ leader ∈ processLeader rt reading resource, isDocker rt leader.name

/-- A container is named only on evidence, Docker itself otherwise, and the same
answer is given for the containers in any order. -/
structure NamedOnEvidence (reading : Reading) (resource : Resource) : Prop where
  container : ∀ label id remedy,
    reading.attribute rt resource = some (⟨label, .container id⟩, remedy) →
      ∃ c, ContainerEvidence reading.containers resource c ∧ c.name = label ∧ c.id = id
  otherwise : ∀ leader ∈ processLeader rt reading resource, isDocker rt leader.name →
    (∀ c, ¬ContainerEvidence reading.containers resource c) →
      reading.attribute rt resource = some (dockerCause leader)
  order : ∀ containers, reading.containers.Perm containers →
    { reading with containers := containers }.attribute rt resource =
      reading.attribute rt resource

/-- Wherever the largest figure falls short of 1.5 times the runner-up's, the
rounded comparison finds the runner-up too close. -/
def ToldApart (containers : List ContainerReading) (resource : Resource) : Prop :=
  ∀ c s rest, containers.Perm (c :: s :: rest) → s.figure resource ≤ c.figure resource →
    (∀ o ∈ rest, o.figure resource ≤ s.figure resource) →
    c.figure resource < dominance * s.figure resource →
      tooClose rt (measured rt resource (c.figure resource))
        (measured rt resource (s.figure resource))

section Resolve
variable {rt} {containers containers' : List ContainerReading} {resource : Resource}
  {c : ContainerReading}

lemma measured_nonpos {figure : ℚ} (h : figure ≤ 0) : measured rt resource figure ≤ 0 := by
  have hbytes : rt.f32 figure ≤ 0 := by simpa using rt.f32.mono h
  cases resource with
  | cpu => exact h
  | memory => exact hbytes
  | io => exact hbytes

lemma not_tooClose_of_nonpos {leader second : ℚ} (h : second ≤ 0) :
    tooClose rt leader second = false := by simp [tooClose, h]

lemma resolveContainer_eq_some_iff : resolveContainer rt containers resource = some c ↔
    ∃ others, rank (·.figure resource) containers = c :: others ∧
      ∀ second ∈ others.head?, tooClose rt (measured rt resource (c.figure resource))
        (measured rt resource (second.figure resource)) = false := by
  simp [resolveContainer, leader_eq_some_iff]

/-- Without a positive figure the first container is named unopposed. -/
lemma resolveContainer_of_nonpos {others : List ContainerReading}
    (hrank : rank (·.figure resource) containers = c :: others)
    (hnonpos : ∀ o ∈ containers, o.figure resource ≤ 0) :
    resolveContainer rt containers resource = some c := by
  refine resolveContainer_eq_some_iff.mpr ⟨others, hrank, fun second hsecond => ?_⟩
  have hmem : second ∈ containers := by
    rw [← mem_rank (·.figure resource), hrank]
    exact .tail _ (List.mem_of_mem_head? hsecond)
  exact not_tooClose_of_nonpos (measured_nonpos (hnonpos second hmem))

variable (rt resource) in
/-- Whether a container is named depends on the figures and not on their order. -/
lemma resolveContainer_isSome_of_perm (hperm : containers.Perm containers') :
    (resolveContainer rt containers resource).isSome =
      (resolveContainer rt containers' resource).isSome := by
  refine leader_isSome_of_perm (fun _ _ _ => rfl) (fun a a' b b' ha hb => ?_) hperm
  dsimp only
  rw [ha, hb]

/-- Where some figure is positive and the comparison is sound, a resolved container
has the evidence. -/
lemma evidence_of_resolveContainer (hpos : ∃ o ∈ containers, 0 < o.figure resource)
    (hapart : ToldApart rt containers resource)
    (h : resolveContainer rt containers resource = some c) :
    ContainerEvidence containers resource c := by
  obtain ⟨others, hrank, hahead⟩ := resolveContainer_eq_some_iff.mp h
  have hc : 0 < c.figure resource := by
    obtain ⟨o, ho, hopos⟩ := hpos
    rcases List.mem_cons.mp (hrank ▸ (mem_rank _).mpr ho) with rfl | ho
    · exact hopos
    · exact hopos.trans_le (le_first hrank o ho)
  refine ⟨hc, (dominates_first_iff_second (by norm_num [dominance]) hrank hc).mpr ?_⟩
  intro second hsecond _
  by_contra hshort
  cases others with
  | nil => cases hsecond
  | cons s rest =>
    obtain rfl : s = second := by simpa using hsecond
    have hperm := (rank_perm (·.figure resource) containers).symm
    rw [hrank] at hperm
    have hclose := hapart c s rest hperm (le_first hrank s (.head _))
      (fun o ho => le_second hrank o (.tail _ ho)) (not_le.mp hshort)
    simp [hahead s rfl] at hclose

lemma ContainerEvidence.of_perm (hperm : containers.Perm containers')
    (h : ContainerEvidence containers resource c) : ContainerEvidence containers' resource c :=
  ⟨h.1, h.2.of_perm hperm⟩

lemma ToldApart.of_perm (hperm : containers.Perm containers')
    (h : ToldApart rt containers resource) : ToldApart rt containers' resource :=
  fun c s rest hrest => h c s rest (hperm.trans hrest)

lemma ContainerEvidence.rank_eq (h : ContainerEvidence containers resource c) :
    ∃ others, rank (·.figure resource) containers = c :: others :=
  rank_of_dominates (by norm_num [dominance]) h.1 h.2

lemma ContainerEvidence.unique {c' : ContainerReading}
    (h : ContainerEvidence containers resource c)
    (h' : ContainerEvidence containers resource c') : c = c' :=
  h.2.unique (by norm_num [dominance]) h.1 h'.1 h'.2

theorem resolveContainer_of_perm (hpos : ∃ o ∈ containers, 0 < o.figure resource)
    (hapart : ToldApart rt containers resource) (hperm : containers.Perm containers') :
    resolveContainer rt containers' resource = resolveContainer rt containers resource := by
  have hsome := resolveContainer_isSome_of_perm rt resource hperm
  cases h : resolveContainer rt containers resource with
  | none => simpa [h] using hsome
  | some c =>
    obtain ⟨c', h'⟩ : ∃ c', resolveContainer rt containers' resource = some c' :=
      Option.isSome_iff_exists.mp (by simpa [h] using hsome)
    have hev := evidence_of_resolveContainer hpos hapart h
    obtain ⟨o, ho, hopos⟩ := hpos
    have hev' := evidence_of_resolveContainer ⟨o, hperm.mem_iff.mp ho, hopos⟩
      (hapart.of_perm hperm) h'
    rw [h', hev'.unique (hev.of_perm hperm)]

end Resolve

section Attribute
variable {rt} {reading : Reading} {resource : Resource} {leader : ProcessGroup}

lemma processLeader_containers (containers : List ContainerReading) :
    processLeader rt { reading with containers := containers } resource =
      processLeader rt reading resource := by
  cases resource <;> rfl

lemma attribute_of_docker (hleader : leader ∈ processLeader rt reading resource)
    (hdocker : isDocker rt leader.name) : reading.attribute rt resource =
      some ((resolveContainer rt reading.containers resource).elim (dockerCause leader)
        (containerCause rt)) := by
  rw [Reading.attribute, Option.mem_def.mp hleader, Option.map_some, answerFor, if_pos hdocker]
  cases resolveContainer rt reading.containers resource <;> rfl

lemma attribute_of_not_docker (hdocker : ¬DockerLeads rt reading resource)
    (containers : List ContainerReading) :
    { reading with containers := containers }.attribute rt resource =
      reading.attribute rt resource := by
  rw [Reading.attribute, Reading.attribute, processLeader_containers]
  refine Option.map_congr fun leader hleader => ?_
  have hname : ¬isDocker rt leader.name := fun h => hdocker ⟨leader, hleader, h⟩
  rw [answerFor, answerFor, if_neg hname, if_neg hname]

lemma dockerLeads_of_container {label id : String} {remedy : Remediation}
    (h : reading.attribute rt resource = some (⟨label, .container id⟩, remedy)) :
    DockerLeads rt reading resource := by
  obtain ⟨leader, hleader, hsaid⟩ := leader_answers_of_attribute h
  cases hsaid with
  | container _ hdocker _ => exact ⟨leader, hleader, hdocker⟩

/-- A container cause names the container that was resolved. -/
lemma resolved_of_container {label id : String} {remedy : Remediation}
    (h : reading.attribute rt resource = some (⟨label, .container id⟩, remedy)) :
    ∃ c, resolveContainer rt reading.containers resource = some c ∧
      c.name = label ∧ c.id = id := by
  obtain ⟨leader, -, hsaid⟩ := leader_answers_of_attribute h
  cases hsaid with
  | container c _ hc => exact ⟨c, hc, rfl, rfl⟩

lemma evidence_of_namedOnEvidence (h : NamedOnEvidence rt reading resource)
    (hleads : DockerLeads rt reading resource) {c : ContainerReading}
    (hc : resolveContainer rt reading.containers resource = some c) :
    ∃ e, ContainerEvidence reading.containers resource e := by
  obtain ⟨leader, hleader, hdocker⟩ := hleads
  have hanswer := attribute_of_docker hleader hdocker
  rw [hc] at hanswer
  obtain ⟨e, he, -⟩ := h.container _ _ _ hanswer
  exact ⟨e, he⟩

lemma exists_pos_of_namedOnEvidence (h : NamedOnEvidence rt reading resource)
    (hleads : DockerLeads rt reading resource) (hne : reading.containers ≠ []) :
    ∃ o ∈ reading.containers, 0 < o.figure resource := by
  by_contra hnone
  push Not at hnone
  cases hrank : rank (·.figure resource) reading.containers with
  | nil =>
    have hperm := rank_perm (·.figure resource) reading.containers
    rw [hrank] at hperm
    exact hne hperm.nil_eq.symm
  | cons first others =>
    obtain ⟨e, hpos, hdom⟩ :=
      evidence_of_namedOnEvidence h hleads (resolveContainer_of_nonpos hrank hnone)
    exact absurd (hnone e hdom.mem) (not_le.mpr hpos)

lemma toldApart_of_namedOnEvidence (h : NamedOnEvidence rt reading resource)
    (hleads : DockerLeads rt reading resource) : ToldApart rt reading.containers resource := by
  intro c s rest hperm hcs hrest hshort
  obtain ⟨first, second, others, hrank, hfirst, hsecond⟩ := rank_of_top_two hperm hcs hrest
  rw [← hfirst, ← hsecond] at hshort ⊢
  by_contra hclose
  have hresolved : resolveContainer rt reading.containers resource = some first := by
    refine resolveContainer_eq_some_iff.mpr ⟨second :: others, hrank, fun s hs => ?_⟩
    obtain rfl : second = s := by simpa using hs
    simpa using hclose
  obtain ⟨e, he⟩ := evidence_of_namedOnEvidence h hleads hresolved
  obtain ⟨others', hrank'⟩ := he.rank_eq
  obtain rfl : first = e := List.head_eq_of_cons_eq (hrank.symm.trans hrank')
  exact absurd ((dominates_first_iff hrank).mp he.2 second (.head _)) (not_le.mpr hshort)

lemma namedOnEvidence_of_docker (hleader : leader ∈ processLeader rt reading resource)
    (hdocker : isDocker rt leader.name)
    (h : reading.containers ≠ [] → (∃ c ∈ reading.containers, 0 < c.figure resource) ∧
      ToldApart rt reading.containers resource) : NamedOnEvidence rt reading resource := by
  have hev : ∀ c, resolveContainer rt reading.containers resource = some c →
      ContainerEvidence reading.containers resource c := by
    intro c hc
    obtain ⟨hpos, hapart⟩ := h (List.ne_nil_of_mem (leader_mem hc))
    exact evidence_of_resolveContainer hpos hapart hc
  refine ⟨fun label id remedy hanswer => ?_, fun leader' hleader' _ hnone => ?_,
    fun containers hperm => ?_⟩
  · obtain ⟨c, hc, hname, hid⟩ := resolved_of_container hanswer
    exact ⟨c, hev c hc, hname, hid⟩
  · obtain rfl := Option.mem_unique hleader hleader'
    rw [attribute_of_docker hleader hdocker]
    cases hc : resolveContainer rt reading.containers resource with
    | none => rfl
    | some c => exact absurd (hev c hc) (hnone c)
  · have hleader' : leader ∈ processLeader rt { reading with containers := containers }
        resource := by
      rwa [processLeader_containers]
    rw [attribute_of_docker hleader hdocker, attribute_of_docker hleader' hdocker]
    by_cases hnil : reading.containers = []
    · rw [hnil] at hperm ⊢
      rw [hperm.nil_eq]
    · obtain ⟨hpos, hapart⟩ := h hnil
      rw [resolveContainer_of_perm hpos hapart hperm]

/-- Containers are named on evidence exactly when, with Docker in the lead and
containers listed, some figure is positive and the rounded comparison is sound. -/
theorem attribute_namedOnEvidence_iff (rt : Runtime) (reading : Reading) (resource : Resource) :
    NamedOnEvidence rt reading resource ↔
      (DockerLeads rt reading resource → reading.containers ≠ [] →
        (∃ c ∈ reading.containers, 0 < c.figure resource) ∧
          ToldApart rt reading.containers resource) := by
  constructor
  · intro h hleads hne
    exact ⟨exists_pos_of_namedOnEvidence h hleads hne, toldApart_of_namedOnEvidence h hleads⟩
  · intro h
    by_cases hleads : DockerLeads rt reading resource
    · obtain ⟨leader, hleader, hdocker⟩ := hleads
      exact namedOnEvidence_of_docker hleader hdocker fun hne =>
        h ⟨leader, hleader, hdocker⟩ hne
    · exact ⟨fun _ _ _ hc => absurd (dockerLeads_of_container hc) hleads,
        fun leader hleader hdocker _ => absurd ⟨leader, hleader, hdocker⟩ hleads,
        fun containers _ => attribute_of_not_docker hleads containers⟩

end Attribute

/-- Docker holds the memory, and the statistics of both its containers could not be
read: a failed request leaves their figures at zero. -/
def unreadContainers : Reading where
  timestampMs := 0
  stall := ⟨1 / 10, 9 / 10, some (1 / 5)⟩
  cpu :=
    { allCoreMhz := some 1400, utilizationPct := some 30, reportedBaseMhz := none
      packageWatts := none, packageTempC := none, tjmaxC := none, throttle := ⟨false, none⟩ }
  processes := [⟨100, "vmmem", none, 11 * 2 ^ 30, none, 5⟩, ⟨200, "code", none, 2 ^ 30, none, 10⟩]
  containers := [⟨"abc123", "postgres", 0, 0, none⟩, ⟨"def456", "redis", 0, 0, none⟩]

/-- The first container of the list is told to stop, on no evidence at all. -/
theorem unread_container_is_named : ¬NamedOnEvidence .ieee unreadContainers .memory := by
  intro h
  have hnamed : unreadContainers.attribute .ieee .memory =
      some (⟨"postgres", .container "abc123"⟩, .stop) := by decide +kernel
  obtain ⟨c, ⟨hpos, hdom⟩, -, -⟩ := h.container _ _ _ hnamed
  have hzero : ∀ o ∈ unreadContainers.containers, o.figure .memory ≤ 0 := by decide +kernel
  exact absurd hpos (not_lt.mpr (hzero c hdom.mem))

end LoadBear
