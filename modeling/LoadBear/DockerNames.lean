import LoadBear.RunningList

/-!
# What counts as Docker

A row that expands into containers and a cause that resolves to one have to agree about
what counts as Docker. The list of the interface and the list of the attribution are kept
apart, and one of their prefixes is shorter in the interface than in the attribution.
-/
namespace LoadBear

variable (rt : Runtime)

/-- The row of a group can have a container under it. -/
def Expands (g : ProcessGroup) : Prop :=
  ∃ reading resource place c, Row.container place c ∈ rowsUnder rt reading resource g

/-- The cause named for a leading group can be a container. -/
def Resolves (g : ProcessGroup) : Prop :=
  ∃ reading resource id, (answerFor rt reading resource g).1.kind = .container id

/-- The interface and the attribution mean the same by a name. -/
structure NameAgreed (name : String) : Prop where
  answers : isDockerName rt name = isDocker rt name
  rows : ∀ g : ProcessGroup, g.name = name → (Expands rt g ↔ Resolves rt g)

section Prefixes

lemma startsWith_of_startsWith {long short : String} (h : long.startsWith short) (name : String)
    (hname : name.startsWith long) : name.startsWith short := by
  rw [String.startsWith_string_iff] at h hname ⊢
  exact h.trans hname

/-- The longer prefixes of the attribution add nothing to the shorter ones. -/
lemma isDocker_iff (name : String) : isDocker rt name ↔
    (rt.lowercase name).startsWith "vmmem" ∨ (rt.lowercase name).startsWith "docker desktop" ∨
      (rt.lowercase name).startsWith "com.docker.backend" := by
  have hwsl := startsWith_of_startsWith (show "vmmemwsl".startsWith "vmmem" by simp)
    (rt.lowercase name)
  have hdocker := startsWith_of_startsWith (show "vmmemdocker".startsWith "vmmem" by simp)
    (rt.lowercase name)
  simp only [isDocker, dockerProcesses, List.any_cons, List.any_nil, Bool.or_false, Bool.or_eq_true]
  tauto

lemma isDockerName_iff (name : String) : isDockerName rt name ↔
    (rt.lowercase name).startsWith "vmmem" ∨ (rt.lowercase name).startsWith "docker desktop" ∨
      (rt.lowercase name).startsWith "com.docker" := by
  simp only [isDockerName, List.any_cons, List.any_nil, Bool.or_false, Bool.or_eq_true]

/-- A name in one of the lists and not in the other. -/
lemma not_start_of_docker {name : String} (h : name.startsWith "com.docker") :
    ¬name.startsWith "vmmem" ∧ ¬name.startsWith "docker desktop" := by
  rw [String.startsWith_string_iff] at h ⊢
  rw [String.startsWith_string_iff]
  obtain ⟨rest, hrest⟩ := h
  rw [← hrest]
  simp

lemma isDockerName_eq_isDocker_iff (name : String) : isDockerName rt name = isDocker rt name ↔
    ((rt.lowercase name).startsWith "com.docker" →
      (rt.lowercase name).startsWith "com.docker.backend") := by
  rw [Bool.eq_iff_iff, isDockerName_iff, isDocker_iff]
  have hshort := startsWith_of_startsWith
    (show "com.docker.backend".startsWith "com.docker" by simp) (rt.lowercase name)
  constructor
  · intro hsame hstart
    obtain ⟨hvm, hdesktop⟩ := not_start_of_docker hstart
    exact ((hsame.mp (.inr (.inr hstart))).resolve_left hvm).resolve_left hdesktop
  · intro hlong
    exact or_congr_right (or_congr_right ⟨hlong, hshort⟩)

end Prefixes

section Groups
variable (g : ProcessGroup)

lemma expands_iff : Expands rt g ↔ isDockerName rt g.name := by
  constructor
  · rintro ⟨reading, resource, place, c, hrow⟩
    unfold rowsUnder at hrow
    split_ifs at hrow with hdocker
    · exact hdocker
    · simp at hrow
  · intro hdocker
    refine ⟨dockerDesktop, .cpu, 0, ⟨"abc123", "postgres", 4, 2 ^ 27, none⟩, ?_⟩
    rw [rowsUnder, if_pos hdocker]
    exact .tail _ (.head _)

lemma resolves_iff : Resolves rt g ↔ isDocker rt g.name := by
  constructor
  · rintro ⟨reading, resource, id, hkind⟩
    unfold answerFor at hkind
    split_ifs at hkind with hdocker
    · exact hdocker
    · split at hkind <;> simp at hkind
  · intro hdocker
    refine ⟨dockerDesktop, .cpu, "abc123", ?_⟩
    rw [answerFor, if_pos hdocker]
    rfl

end Groups

/-- A name means the same on both sides exactly when it is not one of Docker's own
processes other than the backend. -/
theorem nameAgreed_iff (name : String) : NameAgreed rt name ↔
    ((rt.lowercase name).startsWith "com.docker" →
      (rt.lowercase name).startsWith "com.docker.backend") := by
  rw [← isDockerName_eq_isDocker_iff]
  constructor
  · intro h
    exact h.answers
  · intro hanswers
    refine ⟨hanswers, fun g hg => ?_⟩
    rw [expands_iff, resolves_iff, hg, hanswers]

/-- The row of this process expands, and no cause with it for a leader is a container. -/
theorem docker_build_not_agreed :
    isDockerName .ieee "com.docker.build" ∧ ¬isDocker .ieee "com.docker.build" ∧
      ¬NameAgreed .ieee "com.docker.build" := by
  have hname : isDockerName .ieee "com.docker.build" := by decide +kernel
  have hnot : ¬isDocker .ieee "com.docker.build" := by decide +kernel
  refine ⟨hname, hnot, fun h => hnot ?_⟩
  rw [← h.answers]
  exact hname

end LoadBear
