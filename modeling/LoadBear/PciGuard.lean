import LoadBear.NamedMutex
import LoadBear.Temperature
import LoadBear.Transitions

/-!
# Taking turns at the PCI registers

A register is read by writing its address to one place and reading another, so tools that do this
at the same time read each other's registers. They take turns by a mutex, each of which the helper
holds for all the registers it reads, or does without after half a second.
-/
namespace LoadBear.Pci

open NamedMutex Transitions

/-- The helper and the other tools of the machine. -/
inductive Party
  | helper
  | tool (i : ℕ)
  deriving DecidableEq

/-- Whether there is a handle to close, and whether there is something to release. -/
structure PciGuard where
  handle : Bool
  acquired : Bool
  deriving DecidableEq

/-- Where the helper is: away from the registers, about to wait for the mutex, between two
registers, or with an address written and its register not read. -/
inductive Phase
  | idle
  | opened
  | guarded (g : PciGuard)
  | addressed (g : PciGuard) (address : UInt64)
  deriving DecidableEq

/-- A register asked for, the one that was read, and how the helper stood then. -/
structure Read where
  asked : UInt64
  came : Option UInt64
  guard : PciGuard
  owned : Bool

/-- The mutex, the address written last, where the helper is, how its waits came back and what
it read. -/
structure System where
  mutex : Mutex Party
  index : Option UInt64
  phase : Phase
  answers : List Answer
  reads : List Read

def start (mutex : Mutex Party) (index : Option UInt64) : System :=
  ⟨mutex, index, .idle, [], []⟩

/-- The helper creates or opens the mutex, waits for it, reads registers and drops its guard. A
wait can fail. In between the tools do what they do with the mutex, and write addresses. -/
inductive Action
  | created (found : Bool)
  | waited
  | waitFailed
  | selected (address : UInt64)
  | fetched
  | dropped
  | tool (i : ℕ) (call : Mutex.Call)
  | toolSelected (i : ℕ) (address : UInt64)
  deriving DecidableEq

/-- `Drop`: the mutex is released only if it was acquired. -/
def PciGuard.drop (g : PciGuard) (m : Mutex Party) : Mutex Party :=
  if g.handle then
    if g.acquired then (m.released .helper).closed .helper else m.closed .helper
  else m

/-- A tool writes an address only while the mutex is its own. -/
def step (s : System) (a : Action) : Option System :=
  let m := s.mutex
  match s.phase, a with
  | _, .tool i call => some { s with mutex := m.after (.tool i) call }
  | _, .toolSelected i address =>
    if m.owner = some (.tool i) then some { s with index := some address } else none
  | .idle, .created found =>
    if found then some { s with mutex := m.opened .helper, phase := .opened }
    else some { s with phase := .guarded ⟨false, false⟩ }
  | .opened, .waited =>
    let (answer, m) := m.take .helper
    some { s with
      mutex := m
      phase := .guarded ⟨true, answer = .taken⟩
      answers := s.answers ++ [answer] }
  | .opened, .waitFailed => some { s with phase := .guarded ⟨true, false⟩ }
  | .guarded g, .selected address =>
    some { s with index := some address, phase := .addressed g address }
  | .addressed g address, .fetched =>
    some { s with
      phase := .guarded g
      reads := s.reads ++ [⟨address, s.index, g, m.owner = some .helper⟩] }
  | .guarded g, .dropped => some { s with mutex := g.drop m, phase := .idle }
  | _, _ => none

/-- What a step does. -/
inductive Step (s : System) : Action → System → Prop
  | tool (i call) : Step s (.tool i call) { s with mutex := s.mutex.after (.tool i) call }
  | toolSelected {i} (address) (howner : s.mutex.owner = some (.tool i)) :
    Step s (.toolSelected i address) { s with index := some address }
  | created (hphase : s.phase = .idle) :
    Step s (.created true) { s with mutex := s.mutex.opened .helper, phase := .opened }
  | uncreated (hphase : s.phase = .idle) :
    Step s (.created false) { s with phase := .guarded ⟨false, false⟩ }
  | waited (hphase : s.phase = .opened) :
    Step s .waited
      { s with
        mutex := (s.mutex.take .helper).2
        phase := .guarded ⟨true, (s.mutex.take .helper).1 = .taken⟩
        answers := s.answers ++ [(s.mutex.take .helper).1] }
  | waitFailed (hphase : s.phase = .opened) :
    Step s .waitFailed { s with phase := .guarded ⟨true, false⟩ }
  | selected {g} (address) (hphase : s.phase = .guarded g) :
    Step s (.selected address) { s with index := some address, phase := .addressed g address }
  | fetched {g address} (hphase : s.phase = .addressed g address) :
    Step s .fetched
      { s with
        phase := .guarded g
        reads := s.reads ++ [⟨address, s.index, g, s.mutex.owner = some .helper⟩] }
  | dropped {g} (hphase : s.phase = .guarded g) :
    Step s .dropped { s with mutex := g.drop s.mutex, phase := .idle }

variable {s t : System} {a : Action}

lemma step_cases (h : step s a = some t) : Step s a t := by
  unfold step at h
  dsimp only at h
  split at h
  case h_1 => exact Option.some.inj h ▸ .tool _ _
  case h_2 =>
    rw [Option.ite_none_right_eq_some] at h
    exact Option.some.inj h.2 ▸ .toolSelected _ h.1
  case h_3 found hphase =>
    cases found with
    | false => exact Option.some.inj h ▸ .uncreated hphase
    | true => exact Option.some.inj h ▸ .created hphase
  case h_4 hphase => exact Option.some.inj h ▸ .waited hphase
  case h_5 hphase => exact Option.some.inj h ▸ .waitFailed hphase
  case h_6 hphase => exact Option.some.inj h ▸ .selected _ hphase
  case h_7 hphase => exact Option.some.inj h ▸ .fetched hphase
  case h_8 hphase => exact Option.some.inj h ▸ .dropped hphase
  case h_9 => cases h

/-- The guard that is held. -/
def Phase.guard : Phase → Option PciGuard
  | .idle | .opened => none
  | .guarded g | .addressed g _ => some g

/-- Whether the helper has the mutex open. -/
def Phase.isOpen : Phase → Prop
  | .idle => False
  | .opened => True
  | .guarded g | .addressed g _ => g.handle = true

lemma Phase.isOpen_of_guard {phase : Phase} {g : PciGuard} (hg : g ∈ phase.guard)
    (hopen : g.handle = true) : phase.isOpen := by
  cases phase with
  | idle | opened => cases hg
  | guarded g' =>
    obtain rfl := Option.some.inj hg
    exact hopen
  | addressed g' address =>
    obtain rfl := Option.some.inj hg
    exact hopen

/-- The helper's place at the registers. -/
structure Held (s : System) : Prop where
  handle : s.phase.isOpen → .helper ∈ s.mutex.handles
  acquired : ∀ g ∈ s.phase.guard, g.acquired = true →
    g.handle = true ∧ s.mutex.owner = some .helper
  index : ∀ g address, s.phase = .addressed g address → s.mutex.owner = some .helper →
    s.index = some address
  reads : ∀ r ∈ s.reads, (r.guard.acquired = true → r.owned = true) ∧
    (r.owned = true → r.came = some r.asked)

lemma Held.start (mutex : Mutex Party) (index : Option UInt64) : Held (start mutex index) :=
  ⟨fun h => h.elim, by simp [Pci.start, Phase.guard], by simp [Pci.start], by simp [Pci.start]⟩

/-- What another tool does leaves the helper its place. -/
lemma Held.tool (hs : Held s) (i : ℕ) (call : Mutex.Call) :
    Held { s with mutex := s.mutex.after (.tool i) call } := by
  have hother : Party.helper ≠ .tool i := by simp
  have hhandle : s.phase.isOpen → .helper ∈ (s.mutex.after (.tool i) call).handles :=
    fun hopen => Mutex.mem_after (hs.handle hopen) (.inl hother)
  refine ⟨hhandle, fun g hg hacquired => ?_, fun g address hphase howner => ?_, hs.reads⟩
  · obtain ⟨hopen, howner⟩ := hs.acquired g hg hacquired
    have hplace : s.phase.isOpen := Phase.isOpen_of_guard hg hopen
    exact ⟨hopen, (Mutex.owner_after howner hother (List.ne_nil_of_mem (hhandle hplace))).1⟩
  · exact hs.index g address hphase (Mutex.owner_of_after howner hother).1

lemma Held.step (hs : Held s) (h : Step s a t) : Held t := by
  cases h with
  | tool i call => exact hs.tool i call
  | toolSelected address howner =>
    refine ⟨hs.handle, hs.acquired, fun g address hphase hmine => ?_, hs.reads⟩
    exact absurd (howner.symm.trans hmine) (by simp)
  | created =>
    exact ⟨fun _ => List.mem_cons_self, by simp [Phase.guard], by simp, hs.reads⟩
  | uncreated => exact ⟨by simp [Phase.isOpen], by simp [Phase.guard], by simp, hs.reads⟩
  | waited hphase =>
    have hopen : .helper ∈ s.mutex.handles := hs.handle (by rw [hphase]; trivial)
    refine ⟨fun _ => by simpa using hopen, fun g hg hacquired => ?_, by simp, hs.reads⟩
    obtain rfl := Option.some.inj hg
    have htaken : (s.mutex.take .helper).1 = .taken := of_decide_eq_true hacquired
    exact ⟨rfl, Mutex.take_owner (by rw [htaken]; simp)⟩
  | waitFailed hphase =>
    exact ⟨fun _ => hs.handle (by rw [hphase]; trivial), by simp [Phase.guard], by simp, hs.reads⟩
  | selected address hphase =>
    refine ⟨fun hopen => hs.handle (by rw [hphase]; exact hopen),
      fun g hg => hs.acquired g (by rw [hphase]; exact hg), fun g other haddress _ => ?_, hs.reads⟩
    exact congrArg some (Phase.addressed.inj haddress).2
  | fetched hphase =>
    refine ⟨fun hopen => hs.handle (by rw [hphase]; exact hopen),
      fun g hg => hs.acquired g (by rw [hphase]; exact hg), by simp, fun r hr => ?_⟩
    rcases List.mem_append.mp hr with hbefore | hnow
    · exact hs.reads r hbefore
    · obtain rfl := List.mem_singleton.mp hnow
      refine ⟨fun hacquired => ?_, fun howned => ?_⟩
      · exact decide_eq_true (hs.acquired _ (by rw [hphase]; rfl) hacquired).2
      · exact hs.index _ _ hphase (of_decide_eq_true howned)
  | dropped => exact ⟨fun h => h.elim, by simp [Phase.guard], by simp, hs.reads⟩

variable {mutex : Mutex Party} {index : Option UInt64} {actions : List Action}

lemma held_of_run (h : run step (start mutex index) actions = some s) : Held s :=
  run_keeps (P := Held) (fun _ _ _ hs hstep => hs.step (step_cases hstep)) (.start mutex index) h

/-- Whatever the other tools do in their turns, and even if they crash: under an acquired guard
the helper reads the registers it asks for. -/
theorem reads_addressed (mutex : Mutex Party) (index : Option UInt64) {actions : List Action}
    {s : System} (h : run step (start mutex index) actions = some s) {r : Read}
    (hr : r ∈ s.reads) (hacquired : r.guard.acquired = true) : r.came = some r.asked := by
  obtain ⟨howned, hcame⟩ := (held_of_run h).reads r hr
  exact hcame (howned hacquired)

/-- A tool has its turn, and wants another while the helper reads. -/
def turns : List Action :=
  [.tool 0 .opens, .tool 0 .waits, .toolSelected 0 5, .tool 0 .releases, .created true, .waited,
    .selected smnTempBase, .tool 0 .waits, .fetched, .dropped]

def turnsTaken : System := (run step (start .fresh none) turns).getD (start .fresh none)

lemma run_turns : run step (start .fresh none) turns = some turnsTaken := by rfl

theorem turns_addressed :
    (⟨smnTempBase, some smnTempBase, ⟨true, true⟩, true⟩ : Read).came = some smnTempBase :=
  reads_addressed .fresh none run_turns (by exact List.mem_singleton.mpr rfl) rfl

/-- The helper owns the mutex exactly as long as it holds a guard that has acquired it. -/
structure Balanced (s : System) : Prop where
  acquired : s.mutex.owner = some .helper →
    s.mutex.depth = 1 ∧ ∃ g ∈ s.phase.guard, g.acquired = true

lemma Balanced.not_owner (hs : Balanced s) (hphase : s.phase.guard = none) :
    s.mutex.owner ≠ some .helper := by
  intro howner
  obtain ⟨-, g, hg, -⟩ := hs.acquired howner
  rw [hphase] at hg
  cases hg

/-- What a guard has acquired it gives back when it is dropped. -/
lemma Balanced.drop (hs : Balanced s) (hheld : Held s) {g : PciGuard}
    (hphase : s.phase = .guarded g) : (g.drop s.mutex).owner ≠ some .helper := by
  have hclosed : ∀ m : Mutex Party, m.owner ≠ some .helper →
      (m.closed .helper).owner ≠ some .helper := by
    intro m hm
    rcases Mutex.settled_cases { m with handles := m.handles.erase Party.helper } with heq | heq
    · rw [Mutex.closed, heq]
      exact hm
    · rw [Mutex.closed, heq]
      simp [Mutex.fresh]
  by_cases hacquired : g.acquired = true
  · obtain ⟨hhandle, howner⟩ := hheld.acquired g (by rw [hphase]; rfl) hacquired
    obtain ⟨hdepth, -⟩ := hs.acquired howner
    rw [PciGuard.drop, if_pos hhandle, if_pos hacquired]
    refine hclosed _ ?_
    rw [Mutex.released, if_pos howner, if_pos hdepth.le]
    simp
  · have hnot : s.mutex.owner ≠ some .helper := by
      intro howner
      obtain ⟨-, g', hg', htrue⟩ := hs.acquired howner
      rw [hphase] at hg'
      exact hacquired (Option.some.inj hg' ▸ htrue)
    rw [PciGuard.drop, if_neg hacquired]
    split_ifs
    · exact hclosed _ hnot
    · exact hnot

lemma Balanced.step (hs : Balanced s) (hheld : Held s) (h : Step s a t)
    (hanswers : .abandoned ∉ t.answers) : Balanced t := by
  cases h with
  | tool i call =>
    refine ⟨fun howner => ?_⟩
    obtain ⟨hbefore, hdepth⟩ := Mutex.owner_of_after howner (by simp)
    exact ⟨hdepth.trans (hs.acquired hbefore).1, (hs.acquired hbefore).2⟩
  | toolSelected => exact ⟨hs.acquired⟩
  | created hphase =>
    exact ⟨fun howner => absurd howner (hs.not_owner (by rw [hphase]; rfl))⟩
  | uncreated hphase =>
    exact ⟨fun howner => absurd howner (hs.not_owner (by rw [hphase]; rfl))⟩
  | waitFailed hphase =>
    exact ⟨fun howner => absurd howner (hs.not_owner (by rw [hphase]; rfl))⟩
  | waited hphase =>
    have hnot := hs.not_owner (by rw [hphase]; rfl)
    rcases s.mutex.take_cases Party.helper with ⟨-, htake⟩ | ⟨hown, -⟩ | ⟨q, hq, hother, htake⟩
    · rw [htake] at hanswers ⊢
      have htaken : s.mutex.abandoned = false := by
        by_contra htrue
        simp [htrue] at hanswers
      exact ⟨fun _ => ⟨rfl, _, rfl, by simp [htaken]⟩⟩
    · exact absurd hown hnot
    · rw [htake]
      exact ⟨fun howner => absurd howner hnot⟩
  | selected address hphase =>
    refine ⟨fun howner => ?_⟩
    obtain ⟨hdepth, g, hg, hacquired⟩ := hs.acquired howner
    rw [hphase] at hg
    exact ⟨hdepth, g, hg, hacquired⟩
  | fetched hphase =>
    refine ⟨fun howner => ?_⟩
    obtain ⟨hdepth, g, hg, hacquired⟩ := hs.acquired howner
    rw [hphase] at hg
    exact ⟨hdepth, g, hg, hacquired⟩
  | dropped hphase => exact ⟨fun howner => absurd howner (hs.drop hheld hphase)⟩

lemma answers_subset (h : Step s a t) : s.answers ⊆ t.answers := by
  cases h with
  | waited => exact List.subset_append_left _ _
  | _ => exact List.Subset.refl _

/-- Unless a wait came back with a mutex that somebody else had abandoned, the helper never keeps
the mutex beyond its guard, whatever happens in between. -/
theorem given_back (index : Option UInt64) (hfirst : mutex.owner ≠ some .helper)
    (h : run step (start mutex index) actions = some s) (hanswers : .abandoned ∉ s.answers)
    (hguard : s.phase.guard = none) : s.mutex.owner ≠ some .helper := by
  have hs : Held s ∧ (.abandoned ∉ s.answers → Balanced s) := by
    refine run_keeps (P := fun s => Held s ∧ (.abandoned ∉ s.answers → Balanced s)) ?_
      ⟨.start mutex index, fun _ => ⟨fun howner => absurd howner hfirst⟩⟩ h
    rintro s a t ⟨hheld, hbalanced⟩ hstep
    have hcase := step_cases hstep
    refine ⟨hheld.step hcase, fun hnot => ?_⟩
    exact (hbalanced fun hbefore => hnot (answers_subset hcase hbefore)).step hheld hcase hnot
  exact (hs.2 hanswers).not_owner hguard

theorem turns_given_back : turnsTaken.mutex.owner ≠ some .helper :=
  given_back none (by decide) run_turns (by decide) (by rfl)

/-- How often a guard that is held has acquired the mutex. -/
def Phase.holds (phase : Phase) : ℕ := if phase.guard.any (·.acquired) then 1 else 0

/-- The helper owns the mutex once more than it will release it, and a tool has it open. -/
structure Stuck (i : ℕ) (s : System) : Prop where
  owner : s.mutex.owner = some .helper
  depth : s.phase.holds < s.mutex.depth
  tool : .tool i ∈ s.mutex.handles

variable {i : ℕ}

lemma Stuck.drop (hs : Stuck i s) {g : PciGuard} (hphase : s.phase = .guarded g) :
    (g.drop s.mutex).owner = some .helper ∧ 0 < (g.drop s.mutex).depth ∧
      .tool i ∈ (g.drop s.mutex).handles := by
  have hdepth : (if g.acquired then 1 else 0) < s.mutex.depth := by
    simpa [hphase, Phase.holds, Phase.guard] using hs.depth
  have hother : (.tool i : Party) ≠ .helper := by simp
  have hclosed : ∀ m : Mutex Party, .tool i ∈ m.handles →
      m.closed .helper = { m with handles := m.handles.erase .helper } :=
    fun m hm => Mutex.settled_of_mem (q := .tool i) ((List.mem_erase_of_ne hother).mpr hm)
  have htool : .tool i ∈ s.mutex.handles.erase .helper := (List.mem_erase_of_ne hother).mpr hs.tool
  unfold PciGuard.drop
  split_ifs with hhandle hacquired
  · have hreleased : s.mutex.released .helper = { s.mutex with depth := s.mutex.depth - 1 } := by
      rw [Mutex.released, if_pos hs.owner, if_neg]
      simpa [hacquired] using hdepth
    rw [hreleased, hclosed { s.mutex with depth := s.mutex.depth - 1 } hs.tool]
    refine ⟨hs.owner, ?_, htool⟩
    simp only [hacquired, if_true] at hdepth
    change 0 < s.mutex.depth - 1
    omega
  · rw [hclosed s.mutex hs.tool]
    exact ⟨hs.owner, (Nat.zero_le _).trans_lt hdepth, htool⟩
  · exact ⟨hs.owner, (Nat.zero_le _).trans_lt hdepth, hs.tool⟩

lemma Stuck.step (hs : Stuck i s) (h : Step s a t)
    (hstays : ∀ call, a = .tool i call → call ≠ .closes ∧ call ≠ .dies) : Stuck i t := by
  cases h with
  | tool j call =>
    have htool : .tool i ∈ (s.mutex.after (.tool j) call).handles := by
      refine Mutex.mem_after hs.tool ?_
      by_cases hij : i = j
      · exact .inr (hstays call (by rw [hij]))
      · exact .inl (by simpa using hij)
    obtain ⟨howner, hdepth⟩ :=
      Mutex.owner_after hs.owner (by simp) (List.ne_nil_of_mem htool)
    exact ⟨howner, hdepth ▸ hs.depth, htool⟩
  | toolSelected => exact ⟨hs.owner, hs.depth, hs.tool⟩
  | created hphase =>
    exact ⟨hs.owner, (Nat.zero_le _).trans_lt hs.depth, List.mem_cons_of_mem _ hs.tool⟩
  | uncreated => exact ⟨hs.owner, (Nat.zero_le _).trans_lt hs.depth, hs.tool⟩
  | waitFailed => exact ⟨hs.owner, (Nat.zero_le _).trans_lt hs.depth, hs.tool⟩
  | waited hphase =>
    have htake : s.mutex.take .helper = (.taken, { s.mutex with depth := s.mutex.depth + 1 }) := by
      simp [Mutex.take, hs.owner]
    rw [htake]
    refine ⟨hs.owner, ?_, hs.tool⟩
    have hdepth := hs.depth
    simp only [Phase.holds, Phase.guard, Option.any_some, decide_true, if_true]
    omega
  | selected address hphase =>
    have hdepth := hs.depth
    rw [hphase] at hdepth
    exact ⟨hs.owner, hdepth, hs.tool⟩
  | fetched hphase =>
    have hdepth := hs.depth
    rw [hphase] at hdepth
    exact ⟨hs.owner, hdepth, hs.tool⟩
  | dropped hphase =>
    obtain ⟨howner, hdepth, htool⟩ := hs.drop hphase
    exact ⟨howner, hdepth, htool⟩

/-- A wait that comes back with an abandoned mutex has it, but its guard does not know. -/
lemma Stuck.of_abandoned (habandoned : (s.mutex.take .helper).1 = .abandoned)
    (hi : .tool i ∈ s.mutex.handles) (h : Step s .waited t) : Stuck i t := by
  cases h with
  | waited =>
    rcases s.mutex.take_cases Party.helper with ⟨-, htake⟩ | ⟨-, htake⟩ | ⟨q, -, -, htake⟩
    · rw [habandoned]
      refine ⟨?_, ?_, by simpa using hi⟩
      · exact Mutex.take_owner (by rw [habandoned]; simp)
      · rw [htake]
        simp [Phase.holds, Phase.guard]
    · rw [htake] at habandoned
      cases habandoned
    · rw [htake] at habandoned
      cases habandoned

/-- Once a wait of the helper came back with an abandoned mutex, and as long as some tool keeps
it open, the mutex stays the helper's: no tool ever gets a turn again. -/
theorem locked_out {u : System} {after : List Action}
    (habandoned : (u.mutex.take .helper).1 = .abandoned) (hi : .tool i ∈ u.mutex.handles)
    (hafter : run step u (.waited :: after) = some s)
    (hstays : ∀ call, .tool i call ∈ after → call ≠ .closes ∧ call ≠ .dies) :
    s.mutex.owner = some .helper ∧ ∀ j, (s.mutex.take (.tool j)).1 = .timedOut := by
  obtain ⟨v, hwaited, hrest⟩ := run_cons.mp hafter
  have hv : Stuck i v := .of_abandoned habandoned hi (step_cases hwaited)
  have hs : Stuck i s := by
    refine run_traces (P := fun actions s => (∀ call, .tool i call ∈ actions → call ≠ .closes ∧
      call ≠ .dies) → Stuck i s) (fun _ => hv) (fun actions u a t hu hstep hall => ?_) hrest hstays
    exact (hu fun call hcall => hall call (List.mem_append_left _ hcall)).step (step_cases hstep)
      fun call hcall => hall call (by simp [hcall])
  refine ⟨hs.owner, fun j => ?_⟩
  rcases s.mutex.take_cases (.tool j) with ⟨hfree, -⟩ | ⟨hown, -⟩ | ⟨q, -, -, htake⟩
  · rw [hs.owner] at hfree
    cases hfree
  · rw [hs.owner] at hown
    cases hown
  · rw [htake]

/-- One tool crashes in its turn while another has the mutex open, and the helper is about to
wait. -/
def crashed : System :=
  (run step (start .fresh none) [.tool 0 .opens, .tool 1 .opens, .tool 1 .waits, .tool 1 .dies,
    .created true]).getD (start .fresh none)

/-- The helper reads twice. -/
def afterCrash : List Action := [.dropped, .created true, .waited, .dropped, .tool 0 .waits]

theorem crashed_locked_out : ∃ s, run step crashed (.waited :: afterCrash) = some s ∧
    s.mutex.owner = some .helper ∧ ∀ j, (s.mutex.take (.tool j)).1 = .timedOut := by
  obtain ⟨s, hs⟩ : ∃ s, run step crashed (.waited :: afterCrash) = some s := ⟨_, rfl⟩
  have hstays : ∀ call, .tool 0 call ∈ afterCrash →
      call ≠ Mutex.Call.closes ∧ call ≠ Mutex.Call.dies := by
    intro call hcall
    simp only [afterCrash, List.mem_cons, Action.tool.injEq, reduceCtorEq, List.not_mem_nil,
      or_false, false_or, true_and] at hcall
    simp [hcall]
  exact ⟨s, hs, locked_out (i := 0) (by decide) (by decide) hs hstays⟩

end LoadBear.Pci
