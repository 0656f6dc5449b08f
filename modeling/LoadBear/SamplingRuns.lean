import LoadBear.HelperLoop
import LoadBear.SamplingLoop

/-!
# What the sampling loop keeps

Over any run the status about the tier is the one that the readings of the run give, the graph
is every second pass of the last six hundred, the icon wears the tier that is shown, the list of
processes is never older than four passes, and a crash costs the disk baseline less than a
minute.
-/
namespace LoadBear.SamplingLoop

section Passes
variable (rt : Runtime) (fileDescription : String → Option String) (st : Station)

/-- The passes of a run, each with the loop as it found it. -/
def passes : SamplingLoop → List Event → List (SamplingLoop × Inputs)
  | _, [] => []
  | l, .missed :: events => passes l events
  | l, .enabled :: events => passes { l with reprobe := true } events
  | l, .pass a :: events => (l, a) :: passes (pass rt fileDescription st l a) events

@[simp] lemma run_nil (l : SamplingLoop) : run rt fileDescription st l [] = l := rfl

@[simp] lemma run_concat (l : SamplingLoop) (events : List Event) (e : Event) :
    run rt fileDescription st l (events ++ [e]) =
      step rt fileDescription st (run rt fileDescription st l events) e := by
  simp [run]

lemma run_append (l : SamplingLoop) (events later : List Event) :
    run rt fileDescription st l (events ++ later) =
      run rt fileDescription st (run rt fileDescription st l events) later :=
  List.foldl_append

lemma passes_append (l : SamplingLoop) (events later : List Event) :
    passes rt fileDescription st l (events ++ later) =
      passes rt fileDescription st l events ++
        passes rt fileDescription st (run rt fileDescription st l events) later := by
  induction events generalizing l with
  | nil => rfl
  | cons e events ih =>
    cases e with
    | missed => exact ih l
    | enabled => exact ih _
    | pass a => exact congrArg _ (ih _)

/-- The readings of a run as the tracker sees them. -/
def ticks (l : SamplingLoop) (events : List Event) : List Tick :=
  (passes rt fileDescription st l events).map fun p => tickOf rt fileDescription st p.1 p.2

lemma passes_pass (l : SamplingLoop) (events : List Event) (a : Inputs) :
    passes rt fileDescription st l (events ++ [.pass a]) =
      passes rt fileDescription st l events ++ [(run rt fileDescription st l events, a)] := by
  rw [passes_append]
  rfl

/-- What the loop is but for the flag is changed by passes alone. -/
theorem run_induction {P : SamplingLoop → List (SamplingLoop × Inputs) → Prop} {l : SamplingLoop}
    (hstart : P l []) (hflag : ∀ l ps, P l ps → P { l with reprobe := true } ps)
    (hpass : ∀ l ps a, P l ps → P (pass rt fileDescription st l a) (ps ++ [(l, a)]))
    (events : List Event) :
    P (run rt fileDescription st l events) (passes rt fileDescription st l events) := by
  induction events using List.reverseRecOn with
  | nil => exact hstart
  | append_singleton events e ih =>
    rw [run_concat, passes_append]
    cases e with
    | missed => simpa [passes, step] using ih
    | enabled => simpa [passes, step] using hflag _ _ ih
    | pass a => exact hpass _ _ a ih

end Passes

section Status
variable {rt : Runtime} {fileDescription : String → Option String} {st : Station}

/-- The tracker is fed the readings of the run. -/
lemma tracker_run (logical : ℕ) (store : BaselineStore) (reader : Bool) (events : List Event) :
    (run rt fileDescription st (start logical store reader) events).tracker =
      trackerAfter rt st.spec
        (ticks rt fileDescription st (start logical store reader) events) := by
  refine run_induction rt fileDescription st (P := fun l ps => l.tracker = trackerAfter rt st.spec
    (ps.map fun p => tickOf rt fileDescription st p.1 p.2)) rfl ?_ ?_ events
  · intro l ps h
    exact h
  · intro l ps a h
    rw [List.map_append, trackerAfter, List.foldl_append, ← trackerAfter, ← h]
    rfl

end Status

section Clock
variable {rt : Runtime} {fileDescription : String → Option String} {st : Station}
  (logical : ℕ) (store : BaselineStore) (reader : Bool) (events : List Event)

/-- Wrapping does not break the rhythm of a period that divides the range. -/
lemma ofNat_mod_eq_zero_iff {n k : ℕ} (hk : k ∣ 2 ^ 32) (hsmall : k < 2 ^ 32) :
    UInt32.ofNat n % UInt32.ofNat k = 0 ↔ n % k = 0 := by
  rw [← UInt32.toNat_inj, UInt32.toNat_mod, UInt32.toNat_ofNat', UInt32.toNat_ofNat',
    Nat.mod_eq_of_lt hsmall, Nat.mod_mod_of_dvd _ hk]
  rfl

end Clock

section Graph
variable {α : Type*}

/-- Every second entry of a list. -/
def everySecond : List α → List α
  | [] | [_] => []
  | _ :: x :: rest => x :: everySecond rest

lemma everySecond_concat (xs : List α) (x : α) :
    everySecond (xs ++ [x]) =
      if (xs.length + 1) % 2 = 0 then everySecond xs ++ [x] else everySecond xs := by
  induction xs using everySecond.induct with
  | case1 => rfl
  | case2 y => simp [everySecond]
  | case3 y z rest ih =>
    have hparity : ((y :: z :: rest).length + 1) % 2 = 0 ↔ (rest.length + 1) % 2 = 0 := by
      simp only [List.length_cons]
      omega
    simp only [List.cons_append, everySecond, ih, hparity]
    split <;> rfl

lemma pushPoint_rtake (points : List HistoryPoint) (p : HistoryPoint) :
    pushPoint (points.rtake historyPoints) p = (points ++ [p]).rtake historyPoints := by
  have hlast : ((points.rtake historyPoints ++ [p]).rtake historyPoints) =
      (points ++ [p]).rtake historyPoints := by
    rw [historyPoints, List.rtake_concat_succ, List.rtake_concat_succ,
      OrderStatistic.rtake_rtake points (by norm_num)]
  exact hlast

variable {rt : Runtime} {fileDescription : String → Option String} {st : Station}

/-- A pass is counted before it is asked whether it is a second one. -/
lemma due_iff {l : SamplingLoop} {n k : ℕ} (htick : l.tick = UInt32.ofNat n) (hk : k ∣ 2 ^ 32)
    (hsmall : k < 2 ^ 32) : (l.tick + 1) % UInt32.ofNat k = 0 ↔ (n + 1) % k = 0 := by
  rw [htick, ← ofNat_mod_eq_zero_iff hk hsmall, UInt32.ofNat_add]
  rfl

/-- After any run the graph is every second pass of the last six hundred. -/
theorem history_run (rt : Runtime) (fileDescription : String → Option String) (st : Station)
    (logical : ℕ) (store : BaselineStore) (reader : Bool) (events : List Event) :
    (run rt fileDescription st (start logical store reader) events).history =
      ((everySecond (passes rt fileDescription st (start logical store reader) events)).map
        fun p => point rt fileDescription st p.1 p.2).rtake historyPoints := by
  refine (run_induction rt fileDescription st (P := fun l ps =>
    l.tick = UInt32.ofNat ps.length ∧ l.history =
      ((everySecond ps).map fun p => point rt fileDescription st p.1 p.2).rtake historyPoints)
    ⟨rfl, by simp [start, everySecond, List.rtake]⟩ (fun _ _ h => h) ?_ events).2
  rintro l ps a ⟨htick, hhistory⟩
  refine ⟨?_, ?_⟩
  · rw [List.length_append, List.length_singleton, UInt32.ofNat_add, ← htick]
    rfl
  · have hdue : (l.tick + 1) % historyEvery = 0 ↔ (ps.length + 1) % 2 = 0 :=
      due_iff (k := 2) htick (by norm_num) (by norm_num)
    rw [everySecond_concat, pass_history, recorded]
    by_cases hsecond : (ps.length + 1) % 2 = 0
    · rw [if_pos hsecond, if_pos (hdue.mpr hsecond), hhistory, pushPoint_rtake, List.map_append,
        List.map_singleton]
    · rw [if_neg hsecond, if_neg fun h => hsecond (hdue.mp h), hhistory]

end Graph

section Icon
variable {rt : Runtime} {fileDescription : String → Option String} {st : Station}

/-- How often a sequence of tiers moves, from one on. -/
def moves : Tier → List Tier → ℕ
  | _, [] => 0
  | tier, next :: rest => (if next ≠ tier then 1 else 0) + moves next rest

lemma moves_concat (tier : Tier) (tiers : List Tier) (next : Tier) :
    moves tier (tiers ++ [next]) =
      moves tier tiers + if next ≠ tiers.getLastD tier then 1 else 0 := by
  induction tiers generalizing tier with
  | nil => simp [moves]
  | cons first rest ih =>
    rw [List.cons_append, moves, moves, ih, List.getLastD_cons]
    omega

/-- The tier a pass shows. -/
def tierShown (rt : Runtime) (fileDescription : String → Option String) (st : Station)
    (p : SamplingLoop × Inputs) : Tier :=
  (judge rt fileDescription st p.1 p.2).1.current.tier

/-- The icon, the tier it was last painted for and what the window shows are of one mind. -/
structure Painted (rt : Runtime) (fileDescription : String → Option String) (st : Station)
    (l : SamplingLoop) (ps : List (SamplingLoop × Inputs)) : Prop where
  icon : l.icon = l.lastTier
  last : l.lastTier = (ps.map (tierShown rt fileDescription st)).getLastD .easy
  shown : l.shown.tier = l.lastTier.name
  current : l.lastTier = l.tracker.current.tier
  count : l.painted = moves .easy (ps.map (tierShown rt fileDescription st))

lemma painted_run (logical : ℕ) (store : BaselineStore) (reader : Bool) (events : List Event) :
    Painted rt fileDescription st (run rt fileDescription st (start logical store reader) events)
      (passes rt fileDescription st (start logical store reader) events) := by
  refine run_induction rt fileDescription st (P := Painted rt fileDescription st)
    ⟨rfl, rfl, rfl, rfl, rfl⟩
    (fun _ _ h => ⟨h.icon, h.last, h.shown, h.current, h.count⟩) ?_ events
  · rintro l ps a ⟨hicon, hlast, -, -, hpainted⟩
    refine ⟨?_, ?_, rfl, rfl, ?_⟩
    · change (if _ ≠ l.lastTier then _ else l.icon) = _
      rw [hicon]
      split_ifs with hmoved
      · rfl
      · exact (not_not.mp hmoved).symm
    · rw [List.map_append, List.map_singleton, List.getLastD_concat]
      rfl
    · rw [List.map_append, List.map_singleton, moves_concat, ← hlast, ← hpainted]
      change (if _ ≠ l.lastTier then l.painted + 1 else l.painted) = _
      unfold tierShown
      split_ifs <;> rfl

/-- After any run the icon is in the colour of the tier that the window shows, and it was painted
once for every move of the tier. -/
theorem icon_run (rt : Runtime) (fileDescription : String → Option String) (st : Station)
    (logical : ℕ) (store : BaselineStore) (reader : Bool) (events : List Event) :
    let l := run rt fileDescription st (start logical store reader) events
    l.shown.tier = l.icon.name ∧ l.icon = l.tracker.current.tier ∧
      l.painted = moves .easy
        ((passes rt fileDescription st (start logical store reader) events).map
          (tierShown rt fileDescription st)) := by
  intro l
  have hpainted : Painted rt fileDescription st l _ := painted_run logical store reader events
  exact ⟨hpainted.icon ▸ hpainted.shown, hpainted.icon.trans hpainted.current, hpainted.count⟩

end Icon

section Processes

/-- The list of processes was enumerated in a pass of the run that so many have followed. -/
def EnumeratedAgo (rt : Runtime) (fileDescription : String → Option String) (l : SamplingLoop)
    (ps : List (SamplingLoop × Inputs)) (ago : ℕ) : Prop :=
  ∃ (earlier recent : List (SamplingLoop × Inputs)) (found : SamplingLoop) (a : Inputs),
    ps = earlier ++ (found, a) :: recent ∧ recent.length = ago ∧
      l.processes = (found.processSampler.sample rt fileDescription a.processes a.nowMs).1

/-- After a pass the list of processes is the one enumerated in one of the last four. -/
theorem processes_run (rt : Runtime) (fileDescription : String → Option String) (st : Station)
    (logical : ℕ) (store : BaselineStore) (reader : Bool) (events : List Event) (a : Inputs) :
    ∃ ago < 4, EnumeratedAgo rt fileDescription
      (run rt fileDescription st (start logical store reader) (events ++ [.pass a]))
      (passes rt fileDescription st (start logical store reader) (events ++ [.pass a])) ago := by
  have hrun := run_induction rt fileDescription st
    (P := fun l ps => l.tick = UInt32.ofNat ps.length ∧ (ps = [] → l.processes = []) ∧
      (ps ≠ [] → ∃ ago ≤ ps.length % 4, EnumeratedAgo rt fileDescription l ps ago))
    (l := start logical store reader) ⟨rfl, fun _ => rfl, fun h => absurd rfl h⟩
    (fun _ _ h => h) ?_ (events ++ [.pass a])
  · obtain ⟨ago, hago, henumerated⟩ := hrun.2.2 (by simp [passes_pass])
    exact ⟨ago, hago.trans_lt (Nat.mod_lt _ (by norm_num)), henumerated⟩
  · rintro l ps a ⟨htick, hnone, hsome⟩
    have hdue : (l.tick + 1) % processEvery = 0 ↔ (ps.length + 1) % 4 = 0 :=
      due_iff (k := 4) htick (by norm_num) (by norm_num)
    refine ⟨?_, by simp, fun _ => ?_⟩
    · rw [List.length_append, List.length_singleton, pass_tick, htick]
      simp
    by_cases hnow : (ps.length + 1) % 4 = 0 ∨ l.processes = []
    · refine ⟨0, Nat.zero_le _, ps, [], l, a, rfl, rfl, ?_⟩
      rw [pass_processes, enumerated, if_pos (hnow.imp_left hdue.mpr)]
    · push Not at hnow
      obtain ⟨ago, hago, earlier, recent, found, b, hsplit, hlength, hlist⟩ :=
        hsome fun h => hnow.2 (hnone h)
      refine ⟨ago + 1, ?_, earlier, recent ++ [(l, a)], found, b, by rw [hsplit]; simp,
        by simp [hlength], ?_⟩
      · simp only [List.length_append, List.length_singleton]
        omega
      · rw [pass_processes, enumerated, if_neg fun h => ?_]
        · exact hlist
        · exact h.elim (fun hnext => hnow.1 (hdue.mp hnext)) hnow.2

end Processes

section Durability
variable (store : BaselineStore)

/-- The baseline that the samples of some passes teach. -/
def taught (ps : List (SamplingLoop × Inputs)) : DiskBaseline :=
  ps.foldl (fun b p => b.observe p.2.raw.diskFigures) (.load store)

variable {store}

/-- What is learned of a sample depends on the latencies held and on nothing else. -/
lemma observe_samples_congr {b c : DiskBaseline} (h : b.samples = c.samples) (s : DiskFigures) :
    (b.observe s).samples = (c.observe s).samples := by
  by_cases hs : DiskBaseline.Qualifies s
  · rw [(b.observe_of_qualifies hs).1, (c.observe_of_qualifies hs).1, h]
  · rw [b.observe_of_not_qualifies hs, c.observe_of_not_qualifies hs, h]

/-- A baseline that is clean after a sample has learned nothing from it. -/
lemma observe_of_clean {b : DiskBaseline} {s : DiskFigures} (h : (b.observe s).dirty = false) :
    b.observe s = b := by
  by_cases hs : DiskBaseline.Qualifies s
  · rw [(b.observe_of_qualifies hs).2] at h
    cases h
  · exact b.observe_of_not_qualifies hs

/-- What the store gives back was learned from all but some last passes. -/
structure Stored (store : BaselineStore) (l : SamplingLoop)
    (ps : List (SamplingLoop × Inputs)) : Prop where
  memory : l.diskBaseline.samples = (taught store ps).samples
  clean : l.diskBaseline.dirty = false →
    (DiskBaseline.load l.store).samples = l.diskBaseline.samples
  behind : ∃ earlier recent, ps = earlier ++ recent ∧ recent.length ≤ l.tick.toNat % 120 ∧
    (DiskBaseline.load l.store).samples = (taught store earlier).samples

variable {l : SamplingLoop} {ps : List (SamplingLoop × Inputs)} {a : Inputs}

lemma Stored.learned (hs : Stored store l ps) :
    (l.learned a).samples = (taught store (ps ++ [(l, a)])).samples ∧
      ((l.learned a).dirty = false →
        (DiskBaseline.load l.store).samples = (l.learned a).samples) := by
  refine ⟨?_, fun hclean => ?_⟩
  · rw [taught, List.foldl_concat]
    exact observe_samples_congr hs.memory a.raw.diskFigures
  · have hsame : l.learned a = l.diskBaseline := observe_of_clean hclean
    rw [hsame] at hclean ⊢
    exact hs.clean hclean

/-- A write leaves nothing behind. -/
lemma Stored.written (hs : Stored store l ps) (hdue : (l.tick + 1) % baselineSaveEvery = 0)
    (hsaves : a.saves = true) :
    (l.saved a).1.samples = (l.learned a).samples ∧
      (DiskBaseline.load (l.saved a).2).samples = (l.learned a).samples := by
  rw [saved, if_pos hdue, DiskBaseline.saveIfChanged]
  by_cases hdirty : (l.learned a).dirty = true
  · simp [hdirty, hsaves, DiskBaseline.load_samples]
  · have hclean : (l.learned a).dirty = false := by simpa using hdirty
    simpa [hclean] using hs.learned.2 hclean

/-- Short of its end, and of the wrap, the minute goes on by one pass. -/
lemma minute_succ {tick : UInt32} (h : (tick + 1) % baselineSaveEvery ≠ 0) :
    (tick + 1).toNat % 120 = tick.toNat % 120 + 1 := by
  have hrange : tick.toNat < 2 ^ 32 := tick.toNat_lt
  have hdue : (tick.toNat + 1) % 2 ^ 32 % 120 ≠ 0 := by
    intro hzero
    apply h
    rw [← UInt32.toNat_inj, UInt32.toNat_mod, UInt32.toNat_add]
    exact hzero
  rw [UInt32.toNat_add]
  change (tick.toNat + 1) % 2 ^ 32 % 120 = _
  rcases Nat.lt_or_ge (tick.toNat + 1) (2 ^ 32) with hless | hwrap
  · rw [Nat.mod_eq_of_lt hless] at hdue ⊢
    omega
  · have hzero : tick.toNat + 1 = 2 ^ 32 := le_antisymm hrange hwrap
    simp [hzero] at hdue

lemma Stored.pass {rt : Runtime} {fileDescription : String → Option String} {st : Station}
    (hs : Stored store l ps) (hsaves : a.saves = true) :
    Stored store (pass rt fileDescription st l a) (ps ++ [(l, a)]) := by
  obtain ⟨hlearned, hclean⟩ := hs.learned (a := a)
  by_cases hdue : (l.tick + 1) % baselineSaveEvery = 0
  · obtain ⟨hmemory, hload⟩ := hs.written hdue hsaves
    refine ⟨?_, fun _ => ?_, ps ++ [(l, a)], [], by simp, by simp, ?_⟩
    · rw [pass_diskBaseline, hmemory, hlearned]
    · rw [pass_diskBaseline, pass_store, hmemory, hload]
    · rw [pass_store, hload, hlearned]
  · have hsaved : l.saved a = (l.learned a, l.store) := if_neg hdue
    obtain ⟨earlier, recent, hsplit, hlength, hload⟩ := hs.behind
    refine ⟨?_, ?_, earlier, recent ++ [(l, a)], by rw [hsplit]; simp, ?_, ?_⟩
    · rw [pass_diskBaseline, hsaved, hlearned]
    · rw [pass_diskBaseline, pass_store, hsaved]
      exact hclean
    · rw [pass_tick, minute_succ hdue, List.length_append, List.length_singleton]
      exact Nat.add_le_add_right hlength 1
    · rw [pass_store, hsaved, hload]

lemma of_mem_passes {rt : Runtime} {fileDescription : String → Option String} {st : Station}
    {l : SamplingLoop} {events : List Event} {p : SamplingLoop × Inputs}
    (h : p ∈ passes rt fileDescription st l events) : .pass p.2 ∈ events := by
  induction events generalizing l with
  | nil => cases h
  | cons e events ih =>
    cases e with
    | missed => exact List.mem_cons_of_mem _ (ih h)
    | enabled => exact List.mem_cons_of_mem _ (ih h)
    | pass a =>
      rcases List.mem_cons.mp h with rfl | hlater
      · exact List.mem_cons_self
      · exact List.mem_cons_of_mem _ (ih hlater)

/-- A machine with nothing known of it. -/
def bareStation : Station := .of ⟨[]⟩ none none 8 none none

/-- A pass with a quiet disk, and what the mapping gives it at a time. -/
def quietPass (record : Option SharedTemperature) (nowMs : ℕ) : Inputs where
  raw := { CounterSample.default with diskSecondsPerTransfer := 1 / 1000 }
  saves := true
  opens := true
  version := layoutVersion
  record := record
  readMs := nowMs
  serviceRunning := true
  nowMs := nowMs
  processes := []
  containers := []

/-- Two minutes of passes, the last ten after the write. -/
def twoMinutes : List Event :=
  (List.range 130).map fun k => .pass (quietPass none (1000 * (k + 1)))

end Durability

section Temperature
variable (rt : Runtime) (fileDescription : String → Option String) (st : Station)

lemma fresh_eq_some {l : SamplingLoop} {a : Inputs} {r : SharedTemperature}
    (h : l.fresh a = some r) : a.record = some r ∧ r.isFresh a.readMs = true := by
  unfold fresh at h
  split at h
  · exact Option.filter_eq_some_iff.mp h
  · simp at h

/-- Of temperature and power a pass judges what one pass of the helper measured no more than
fifteen seconds before, and shows that it is available. Else it judges and shows none, and says
that there is some only if nothing has been published and the clock says so shortly after its
epoch. -/
theorem temperature_chain (boot : WindowsTemperature) {u s : Helper.System}
    (hasked : Transitions.Reaches (Helper.step rt boot.tjmaxC) Helper.start u)
    (hread : Transitions.Reaches (Helper.step rt boot.tjmaxC) u s)
    (hoverlap : s.mapping.overlap < 2 ^ 31) (l : SamplingLoop) {a : Inputs}
    (hversion : a.version = u.mapping.memory.version) (hrecord : a.record = s.mapping.returns) :
    let r := reading rt fileDescription st l a
    let panel := panel rt fileDescription st l a
    (∃ p earlier, s.settled = p :: earlier ∧ a.readMs ≤ p.nowMs + staleAfterMs ∧
      r.cpu.packageTempC = (p.source.read rt).packageC.bind F32.value ∧
      r.cpu.packageWatts = (Helper.watts rt earlier p).bind F32.value ∧
      r.cpu.tjmaxC = (boot.tjmaxC.bind F32.value).or (st.spec.bind CpuSpec.tjmaxC) ∧
      panel.tempZones = ((p.source.read rt).zones.take maxZones).map
        (fun z => zoneView rt r.cpu.tjmaxC (z.label, z.celsius)) ∧
      panel.tempAvailable = true ∧ panel.tempOfferable = false) ∨
    (r.cpu.packageTempC = none ∧ r.cpu.packageWatts = none ∧
      r.cpu.tjmaxC = st.spec.bind CpuSpec.tjmaxC ∧ panel.tempZones = [] ∧
      (panel.tempAvailable = false ∧ panel.tempOfferable = !a.serviceRunning ∨
        s.settled = [] ∧ a.readMs ≤ staleAfterMs ∧
          panel.tempAvailable = true ∧ panel.tempOfferable = false)) := by
  intro r panel
  have h := hasked.trans hread
  have hlayout : l.layoutMismatch a = false := by
    simp [layoutMismatch, hversion, Helper.version_of_reaches rt hasked]
  have hstate : temperatureState (l.layoutMismatch a) (l.fresh a) a.serviceRunning =
      (panel.tempAvailable, panel.tempOfferable, panel.tempReason) := rfl
  cases hfresh : l.fresh a with
  | none =>
    right
    rw [hlayout, hfresh] at hstate
    refine ⟨?_, ?_, ?_, ?_, .inl ?_⟩
    · simp [r, reading, hfresh]
    · simp [r, reading, hfresh]
    · simp [r, reading, hfresh]
    · simp [panel, SamplingLoop.panel, hfresh]
    · cases hrunning : a.serviceRunning <;> simp_all [temperatureState]
  | some record =>
    obtain ⟨hgiven, hnow⟩ := fresh_eq_some hfresh
    have hreturns : s.mapping.returns = some record := hrecord ▸ hgiven
    have hage := (Helper.isFresh_of_returns rt boot h hreturns hoverlap a.readMs).mp hnow
    have hcurrent : record.helperIsCurrent = true := by
      rw [Helper.read_latest rt boot h hreturns hoverlap]
      exact Helper.helperIsCurrent_latest rt _ _ _
    rw [hlayout, hfresh] at hstate
    have hshown : panel.tempAvailable = true ∧ panel.tempOfferable = false := by
      simp_all [temperatureState]
    have hpackage : r.cpu.packageTempC = record.package.bind F32.value := by
      simp [r, reading, hfresh]
    have hwatts : r.cpu.packageWatts = record.watts.bind F32.value := by
      simp [r, reading, hfresh]
    have hlimit : r.cpu.tjmaxC =
        (record.tjmax.bind F32.value).or (st.spec.bind CpuSpec.tjmaxC) := by
      simp [r, reading, hfresh]
    have hzones : panel.tempZones = record.zoneList.map (zoneView rt r.cpu.tjmaxC) := by
      simp [panel, SamplingLoop.panel, hfresh, r]
    have hfigures := Helper.figures_of_returns rt boot h hreturns hoverlap
    cases hsettled : s.settled with
    | nil =>
      right
      simp only [hsettled, Helper.figures, Helper.measured, Helper.Figures.mk.injEq] at hfigures
      rw [hfigures.1] at hpackage
      rw [hfigures.2.1] at hwatts
      rw [hfigures.2.2.1] at hlimit
      rw [hfigures.2.2.2] at hzones
      rw [hsettled, Helper.takenMs, Nat.zero_add] at hage
      exact ⟨hpackage, hwatts, hlimit, hzones, .inr ⟨rfl, hage, hshown⟩⟩
    | cons p earlier =>
      left
      simp only [hsettled, Helper.figures, Helper.measured, Helper.Figures.mk.injEq] at hfigures
      rw [hfigures.1] at hpackage
      rw [hfigures.2.1] at hwatts
      rw [hfigures.2.2.1] at hlimit
      rw [hfigures.2.2.2, List.map_map] at hzones
      rw [hsettled] at hage
      exact ⟨p, earlier, rfl, hage, hpackage, hwatts, hlimit, hzones, hshown⟩

/-- The interface reads eleven seconds after the only pass published. -/
theorem between_chain :
    let a := quietPass Helper.between.mapping.returns 31000
    let r := reading .ieee (fun _ => none) bareStation (start 8 .missing false) a
    r.cpu.packageTempC = some 70 ∧ r.cpu.tjmaxC = some 100 ∧
      (panel .ieee (fun _ => none) bareStation (start 8 .missing false) a).tempAvailable := by
  intro a r
  have hasked : Transitions.Reaches (Helper.step .ieee (coolIntel 2).tjmaxC) Helper.start
      Helper.start := ⟨[], rfl⟩
  have hread : Transitions.Reaches (Helper.step .ieee (coolIntel 2).tjmaxC) Helper.start
      Helper.between := Transitions.reaches_getD (by decide +kernel)
  rcases temperature_chain .ieee (fun _ => none) bareStation (coolIntel 2) hasked hread
      (by decide +kernel) (start 8 .missing false) (a := a) rfl rfl with
    ⟨p, earlier, hsettled, -, htemp, -, htjmax, -, havailable, -⟩ | ⟨hnone, -⟩
  · have hpass : (Helper.between.settled.head?.bind fun p =>
        (p.source.read .ieee).packageC.bind F32.value) = some 70 := by decide +kernel
    rw [hsettled] at hpass
    exact ⟨htemp.trans hpass, htjmax.trans (by decide +kernel), havailable⟩
  · exact absurd hnone (by decide +kernel)

end Temperature

end LoadBear.SamplingLoop
