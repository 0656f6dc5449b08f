import LoadBear.Attribution

/-!
# What a group holds of its members

The groups of a process list have distinct names, in order of first appearance,
and each one counts and adds up exactly the processes of its name. Its pid is that
of the last member above the average on arrival, which need not be the biggest.
-/
namespace LoadBear

section Members
variable (lowercase : String → String) (processes : List ProcessReading)

/-- The processes of a name, whatever its case. -/
def processesNamed (key : String) : List ProcessReading :=
  processes.filter fun p => lowercase p.name = key

def groupNames : List String := processes.map fun p => lowercase p.name

def groupCpuPercent (key : String) : ℚ :=
  ((processesNamed lowercase processes key).map ProcessReading.cpuPercent).sum

/-- The processes that share the name of a group. -/
def members (g : ProcessGroup) : List ProcessReading :=
  processesNamed lowercase processes (lowercase g.name)

end Members

/-- The working sets of a list, added up as far as they fit. -/
def cappedWorkingSet (ps : List ProcessReading) : ℕ :=
  min (ps.map ProcessReading.workingSetBytes).sum u64Max

/-- Larger than the average of the members so far, itself included. -/
def AboveAverage (earlier : List ProcessReading) (p : ProcessReading) : Prop :=
  cappedWorkingSet (earlier ++ [p]) / (earlier.length + 1) < p.workingSetBytes

/-- Nothing in the list is bigger. -/
def IsBiggest (ps : List ProcessReading) (p : ProcessReading) : Prop :=
  ∀ q ∈ ps, q.workingSetBytes ≤ p.workingSetBytes

/-- The pid is that of a biggest member. -/
def LeadsToBiggest (ps : List ProcessReading) (pid : ℕ) : Prop :=
  ∃ p ∈ ps, IsBiggest ps p ∧ p.pid = pid

/-- Every member that is above the average on arrival is a biggest one or comes before one. -/
def FollowedByBiggest (ps : List ProcessReading) : Prop :=
  ∀ earlier p later, ps = earlier ++ p :: later → AboveAverage earlier p →
    ∃ q ∈ p :: later, IsBiggest ps q

/-- The first member, or one above the average on arrival. -/
def Takes (earlier : List ProcessReading) (p : ProcessReading) : Prop :=
  earlier = [] ∨ AboveAverage earlier p

/-- The last member above the average on arrival comes after every biggest one, and
none of those shares its pid. -/
def Misled (ps : List ProcessReading) : Prop :=
  ∃ earlier p later, LastToPass Takes ps earlier p later ∧
    (∃ q ∈ earlier, ∀ r ∈ p :: later, r.workingSetBytes < q.workingSetBytes) ∧
    ∀ q ∈ ps, IsBiggest ps q → q.pid ≠ p.pid

instance (ps : List ProcessReading) (p : ProcessReading) : Decidable (IsBiggest ps p) :=
  inferInstanceAs (Decidable (∀ q ∈ ps, q.workingSetBytes ≤ p.workingSetBytes))

instance (ps : List ProcessReading) (pid : ℕ) : Decidable (LeadsToBiggest ps pid) :=
  inferInstanceAs (Decidable (∃ p ∈ ps, IsBiggest ps p ∧ p.pid = pid))

section Gathered
variable (rt : Runtime)

/-- Shares added in turn, each sum rounded. -/
def addedShares : List ℚ → ℚ
  | [] => 0
  | share :: shares => shares.foldl (fun sum share => rt.f32 (sum + share)) share

/-- A group with exactly these members. -/
structure Gathers (ps : List ProcessReading) (g : ProcessGroup) : Prop where
  count_eq : g.count = ps.length
  cpu_eq : g.cpuPercent = addedShares rt (ps.map ProcessReading.cpuPercent)
  workingSet_capped : min g.workingSetBytes u64Max = cappedWorkingSet ps
  workingSet_eq : (∀ p ∈ ps, p.workingSetBytes ≤ u64Max) → g.workingSetBytes = cappedWorkingSet ps
  display_eq : g.display = ps.findSome? ProcessReading.displayName

variable {rt} {ps : List ProcessReading} {g : ProcessGroup} {p : ProcessReading}

lemma addedShares_concat {shares : List ℚ} (h : shares ≠ []) (share : ℚ) :
    addedShares rt (shares ++ [share]) = rt.f32 (addedShares rt shares + share) := by
  cases shares with
  | nil => exact absurd rfl h
  | cons first shares => simp [addedShares]

/-- Where every sum on the way is representable, no share is rounded away. -/
lemma addedShares_eq_sum {shares : List ℚ}
    (h : ∀ earlier, earlier <+: shares → rt.f32 earlier.sum = earlier.sum) :
    addedShares rt shares = shares.sum := by
  induction shares using List.reverseRecOn with
  | nil => rfl
  | append_singleton shares share ih =>
    cases shares with
    | nil => simp [addedShares]
    | cons first shares =>
      have hearlier := ih fun earlier hinit => h earlier (hinit.trans (List.prefix_append _ _))
      rw [addedShares_concat (List.cons_ne_nil _ _), hearlier]
      simpa [add_assoc] using h _ List.prefix_rfl

lemma Gathers.saturatingAdd_eq (h : Gathers rt ps g) (p : ProcessReading) :
    saturatingAdd g.workingSetBytes p.workingSetBytes = cappedWorkingSet (ps ++ [p]) := by
  have hcapped := h.workingSet_capped
  simp only [saturatingAdd, cappedWorkingSet, List.map_append, List.sum_append, List.map_cons,
    List.map_nil, List.sum_cons, List.sum_nil] at hcapped ⊢
  omega

lemma Gathers.add (h : Gathers rt ps g) (hps : ps ≠ []) (p : ProcessReading) :
    Gathers rt (ps ++ [p]) (g.add rt p) := by
  have hshares : ps.map ProcessReading.cpuPercent ≠ [] := by simpa using hps
  have hbytes : (g.add rt p).workingSetBytes = cappedWorkingSet (ps ++ [p]) := h.saturatingAdd_eq p
  constructor
  · simp [ProcessGroup.add, h.count_eq]
  · rw [List.map_append, List.map_cons, List.map_nil, addedShares_concat hshares, ← h.cpu_eq]
    rfl
  · rw [hbytes]
    exact min_eq_left (min_le_right _ _)
  · exact fun _ => hbytes
  · simp [ProcessGroup.add, h.display_eq, List.findSome?_append]

lemma gathers_single (p : ProcessReading) : Gathers rt [p] (.single p) := by
  refine ⟨rfl, rfl, by simp [ProcessGroup.single, cappedWorkingSet], fun hfits => ?_, ?_⟩
  · simpa [ProcessGroup.single, cappedWorkingSet] using hfits
  · simp [ProcessGroup.single]

lemma ne_nil_of_gather (h : (processGrouping rt).gather ps = some g) : ps ≠ [] := by
  rintro rfl
  cases h

/-- What is gathered under a key is a group of those members. -/
theorem gathers_of_gather (h : (processGrouping rt).gather ps = some g) : Gathers rt ps g := by
  apply (processGrouping rt).gather_induction gathers_single _ h
  exact fun ps g p hg ih => ih.add (ne_nil_of_gather hg) p

end Gathered

section Biggest
variable {ps earlier later : List ProcessReading} {p r : ProcessReading}

lemma exists_isBiggest (hps : ps ≠ []) : ∃ q ∈ ps, IsBiggest ps q := by
  obtain ⟨q, hq, hmax⟩ := Finset.exists_max_image ps.toFinset ProcessReading.workingSetBytes
    ((List.toFinset_nonempty_iff ps).mpr hps)
  exact ⟨q, List.mem_toFinset.mp hq, fun r hr => hmax r (List.mem_toFinset.mpr hr)⟩

/-- Something as big as all before it and bigger than some of it is above the average. -/
lemma aboveAverage_of_le (hle : ∀ q ∈ earlier, q.workingSetBytes ≤ p.workingSetBytes)
    (hlt : ∃ q ∈ earlier, q.workingSetBytes < p.workingSetBytes) : AboveAverage earlier p := by
  have hsum : (earlier.map ProcessReading.workingSetBytes).sum <
      earlier.length * p.workingSetBytes := by
    calc (earlier.map ProcessReading.workingSetBytes).sum
        < (earlier.map fun _ => p.workingSetBytes).sum := List.sum_lt_sum _ _ hle hlt
      _ = earlier.length * p.workingSetBytes := by simp
  rw [AboveAverage, Nat.div_lt_iff_lt_mul (Nat.succ_pos _)]
  calc cappedWorkingSet (earlier ++ [p])
      ≤ ((earlier ++ [p]).map ProcessReading.workingSetBytes).sum := min_le_left _ _
    _ = (earlier.map ProcessReading.workingSetBytes).sum + p.workingSetBytes := by simp
    _ < earlier.length * p.workingSetBytes + p.workingSetBytes := Nat.add_lt_add_right hsum _
    _ = p.workingSetBytes * (earlier.length + 1) := by ring

/-- No biggest member comes after the last one above the average, unless that is one too. -/
lemma isBiggest_of_later (hlast : LastToPass Takes ps earlier p later) (hr : r ∈ p :: later)
    (hbig : IsBiggest ps r) : IsBiggest ps p := by
  rcases List.mem_cons.mp hr with rfl | hlater
  · exact hbig
  · intro q hq
    by_contra hlt
    obtain ⟨between, rest, rfl⟩ := List.append_of_mem hlater
    have hsmaller : p.workingSetBytes < r.workingSetBytes := (not_le.mp hlt).trans_le (hbig q hq)
    apply hlast.last between r rest rfl
    refine .inr (aboveAverage_of_le (fun q hq => hbig q ?_) ⟨p, by simp, hsmaller⟩)
    rw [hlast.split]
    simp only [List.mem_append, List.mem_cons] at hq ⊢
    tauto

lemma leadsToBiggest_iff_not_misled (hlast : LastToPass Takes ps earlier p later) :
    LeadsToBiggest ps p.pid ↔ ¬Misled ps := by
  have hp : p ∈ ps := by simp [hlast.split]
  constructor
  · rintro ⟨q, hq, hbig, hpid⟩ ⟨earlier', p', later', hlast', -, hnone⟩
    obtain ⟨-, rfl, -⟩ := hlast.unique hlast'
    exact hnone q hq hbig hpid
  · intro hnot
    by_contra hnone
    have hpids : ∀ q ∈ ps, IsBiggest ps q → q.pid ≠ p.pid :=
      fun q hq hbig hpid => hnone ⟨q, hq, hbig, hpid⟩
    have hlater : ∀ r ∈ p :: later, ¬IsBiggest ps r :=
      fun r hr hbig => hpids p hp (isBiggest_of_later hlast hr hbig) rfl
    obtain ⟨q, hq, hbig⟩ := exists_isBiggest (List.ne_nil_of_mem hp)
    have hsmaller : ∀ r ∈ p :: later, r.workingSetBytes < q.workingSetBytes := by
      intro r hr
      by_contra hle
      exact hlater r hr fun o ho => (hbig o ho).trans (not_lt.mp hle)
    rw [hlast.split, List.mem_append] at hq
    rcases hq with hq | hq
    · exact hnot ⟨earlier, p, later, hlast, ⟨q, hq, hsmaller⟩, hpids⟩
    · exact hlater q hq hbig

/-- Where no pid occurs twice, only the order of the members is left to say. -/
lemma leadsToBiggest_iff_of_nodup (hlast : LastToPass Takes ps earlier p later)
    (hpids : (ps.map ProcessReading.pid).Nodup) :
    LeadsToBiggest ps p.pid ↔ FollowedByBiggest ps := by
  have hp : p ∈ ps := by simp [hlast.split]
  constructor
  · rintro ⟨q, hq, hbig, hpid⟩ earlier' p' later' hsplit habove
    obtain rfl := List.inj_on_of_nodup_map hpids hq hp hpid
    have htakes : Takes earlier' p' := .inr habove
    obtain ⟨_, q', _, hlast', hsuffix⟩ := LastToPass.exists_suffix later' htakes
    obtain ⟨-, rfl, -⟩ := hlast.unique (hsplit ▸ hlast')
    exact ⟨q, hsuffix.subset (.head _), hbig⟩
  · intro hfollowed
    suffices ∃ q ∈ p :: later, IsBiggest ps q by
      obtain ⟨q, hq, hbig⟩ := this
      exact ⟨p, hp, isBiggest_of_later hlast hq hbig, rfl⟩
    rcases hlast.passed with rfl | habove
    · obtain ⟨q, hq, hbig⟩ := exists_isBiggest (List.ne_nil_of_mem hp)
      exact ⟨q, by simpa [hlast.split] using hq, hbig⟩
    · exact hfollowed earlier p later hlast.split habove

end Biggest

section Pid
variable {rt : Runtime} {ps : List ProcessReading} {g : ProcessGroup}

lemma takes_iff (h : Gathers rt ps g) (hps : ps ≠ []) (p : ProcessReading) : Takes ps p ↔
    saturatingAdd g.workingSetBytes p.workingSetBytes / (g.count + 1) < p.workingSetBytes := by
  rw [h.saturatingAdd_eq, h.count_eq, Takes]
  simp [hps, AboveAverage]

/-- The pid of a group is that of the last member above the average on arrival. -/
theorem lastToPass_of_gather (h : (processGrouping rt).gather ps = some g) :
    ∃ earlier p later, LastToPass Takes ps earlier p later ∧ p.pid = g.representativePid := by
  refine (processGrouping rt).gather_induction (P := fun ps g => ∃ earlier p later,
    LastToPass Takes ps earlier p later ∧ p.pid = g.representativePid)
    (fun p => ?_) (fun ps g p hg ih => ?_) h
  · exact ⟨[], p, [], ⟨rfl, .inl rfl, by simp⟩, rfl⟩
  · obtain ⟨earlier, q, later, hlast, hpid⟩ := ih
    have htakes := takes_iff (gathers_of_gather hg) (ne_nil_of_gather hg) p
    by_cases htake : Takes ps p
    · refine ⟨ps, p, [], .concat_pass htake, ?_⟩
      exact (if_pos (htakes.mp htake)).symm
    · refine ⟨earlier, q, later ++ [p], hlast.concat_fail htake, hpid.trans ?_⟩
      exact (if_neg (mt htakes.mpr htake)).symm

end Pid

section Groups
variable {rt : Runtime} {processes : List ProcessReading} {g : ProcessGroup}

lemma gather_members (hg : g ∈ groupByName rt processes) :
    (processGrouping rt).gather (members rt.lowercase processes g) = some g :=
  (processGrouping rt).mem_groups_iff.mp hg

lemma gathers_members (hg : g ∈ groupByName rt processes) :
    Gathers rt (members rt.lowercase processes g) g := gathers_of_gather (gather_members hg)

/-- The pid of a group is that of a process of its name. -/
lemma representativePid_mem (hg : g ∈ groupByName rt processes) :
    ∃ p ∈ members rt.lowercase processes g, p.pid = g.representativePid := by
  obtain ⟨earlier, p, later, hlast, hpid⟩ := lastToPass_of_gather (gather_members hg)
  exact ⟨p, by simp [hlast.split], hpid⟩

/-- The groups have the names of the list in order of first appearance, each with
exactly the processes of its name. -/
theorem groupByName_gathers (rt : Runtime) (processes : List ProcessReading) :
    ((groupByName rt processes).map fun g => rt.lowercase g.name) =
        (groupNames rt.lowercase processes).eraseDups ∧
      ((groupByName rt processes).map fun g => rt.lowercase g.name).Nodup ∧
      (∀ g ∈ groupByName rt processes, Gathers rt (members rt.lowercase processes g) g ∧
        ((∀ earlier, earlier <+:
            (members rt.lowercase processes g).map ProcessReading.cpuPercent →
            rt.f32 earlier.sum = earlier.sum) →
          g.cpuPercent = groupCpuPercent rt.lowercase processes (rt.lowercase g.name))) ∧
      ((groupByName rt processes).map ProcessGroup.count).sum = processes.length := by
  refine ⟨(processGrouping rt).groups_keys processes,
    (processGrouping rt).groups_keys_nodup processes, fun g hg => ⟨gathers_members hg, ?_⟩, ?_⟩
  · intro hexact
    exact (gathers_members hg).cpu_eq.trans (addedShares_eq_sum hexact)
  · exact (processGrouping rt).sum_groups_length _ processes
      fun g hg => (gathers_members hg).count_eq

/-- The pid of a group is that of a biggest member unless a smaller one, above the average on
arrival, comes after all of those and shares its pid with none of them. -/
theorem representativePid_leads_iff (rt : Runtime) (processes : List ProcessReading)
    (g : ProcessGroup) (hg : g ∈ groupByName rt processes) :
    (LeadsToBiggest (members rt.lowercase processes g) g.representativePid ↔
      ¬Misled (members rt.lowercase processes g)) ∧
    (((members rt.lowercase processes g).map ProcessReading.pid).Nodup →
      (LeadsToBiggest (members rt.lowercase processes g) g.representativePid ↔
        FollowedByBiggest (members rt.lowercase processes g))) := by
  obtain ⟨earlier, p, later, hlast, hpid⟩ := lastToPass_of_gather (gather_members hg)
  rw [← hpid]
  exact ⟨leadsToBiggest_iff_not_misled hlast, leadsToBiggest_iff_of_nodup hlast⟩

end Groups

/-- Three compilers: the biggest started first, the third is above the average of them all. -/
def compilers : List ProcessReading :=
  [⟨100, "rustc", none, 900 * 2 ^ 20, none, 16⟩,
    ⟨101, "rustc", none, 100 * 2 ^ 20, none, 1 / 2 ^ 21⟩,
    ⟨102, "rustc", none, 600 * 2 ^ 20, none, 20⟩]

/-- The pid of the group is the third, and the biggest is the first. -/
theorem compilers_pid_is_not_biggest : ¬∀ g ∈ groupByName .ieee compilers,
    LeadsToBiggest (members (String.map Char.toLower) compilers g) g.representativePid := by
  decide +kernel

theorem compilers_misled : ∃ g ∈ groupByName .ieee compilers,
    Misled (members (String.map Char.toLower) compilers g) := by
  have hmem : ∃ g ∈ groupByName .ieee compilers,
      ¬LeadsToBiggest (members (String.map Char.toLower) compilers g) g.representativePid := by
    decide +kernel
  obtain ⟨g, hg, hnot⟩ := hmem
  exact ⟨g, hg, not_not.mp (mt (representativePid_leads_iff .ieee compilers g hg).1.mpr hnot)⟩

/-- The share of the second is rounded away. -/
theorem compilers_share_is_rounded : ¬∀ g ∈ groupByName .ieee compilers,
    g.cpuPercent =
      groupCpuPercent (String.map Char.toLower) compilers (g.name.map Char.toLower) := by
  decide +kernel

end LoadBear
