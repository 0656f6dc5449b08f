import LoadBear.SamplingRuns
import LoadBear.TierReasons
import LoadBear.TierStability

/-!
# From the counters to the icon

A run queue that stays at the threshold of the highest tier carries the median from its third
sample on, the median carries the judgement whatever else is found, and a second and a half of
such judgements carry the icon. Where nothing is at a threshold and no check fires, six seconds
of such judgements bring it back.
-/
namespace LoadBear.SamplingLoop

open OrderStatistic TimedHistory

section Overload
variable (rt : Runtime) (logicalCpus : ℕ)

/-- A queue length at the threshold of the highest tier, also as the mean of itself. -/
def Overloaded (queue : ℚ) : Prop :=
  stallStrained rt ≤ share rt (cpus logicalCpus) queue ∧
    stallStrained rt ≤ share rt (cpus logicalCpus) (mean rt queue queue)

instance : DecidablePred (Overloaded rt logicalCpus) := fun _ =>
  inferInstanceAs (Decidable (_ ∧ _))

variable {rt logicalCpus}

lemma Overloaded.mono : Monotone (Overloaded rt logicalCpus) := fun _ _ hab h =>
  ⟨h.1.trans (share_mono cpus_pos.le hab), h.2.trans (share_mono cpus_pos.le (mean_mono hab hab))⟩

/-- An overloaded majority overloads the median. -/
theorem strained_pick {values : List ℚ}
    (h : values.length < 2 * values.countP (Overloaded rt logicalCpus)) :
    stallStrained rt ≤ share rt (cpus logicalCpus) (pick rt values) :=
  pick_of_majority (q := fun queue => stallStrained rt ≤ share rt (cpus logicalCpus) queue)
    Overloaded.mono (fun _ _ hab h => h.trans (share_mono cpus_pos.le hab)) (fun _ h => h) h

variable (rt) in
/-- A value whose share of its saturation point is below the lower threshold, also as the mean of
itself. -/
def Rested (saturated value : ℚ) : Prop :=
  share rt saturated value < stallBraced rt ∧
    share rt saturated (mean rt value value) < stallBraced rt

instance (saturated : ℚ) : DecidablePred (Rested rt saturated) := fun _ =>
  inferInstanceAs (Decidable (_ ∧ _))

lemma Rested.anti {saturated : ℚ} (h : 0 ≤ saturated) : Antitone (Rested rt saturated) :=
  fun _ _ hab hb => ⟨(share_mono h hab).trans_lt hb.1,
    (share_mono h (mean_mono hab hab)).trans_lt hb.2⟩

/-- A majority at rest keeps the median there. -/
theorem rested_pick {saturated : ℚ} (hsaturated : 0 ≤ saturated) {values : List ℚ}
    (h : values.length < 2 * values.countP (Rested rt saturated)) :
    share rt saturated (pick rt values) < stallBraced rt :=
  pick_of_majority_below (q := fun value => share rt saturated value < stallBraced rt)
    (Rested.anti hsaturated) (fun _ _ hab h => (share_mono hsaturated hab).trans_lt h)
    (fun _ h => h) h

/-- Three samples carry a window of four. -/
lemma majority_rtake {f : CounterSample → ℚ} {p : ℚ → Prop} [DecidablePred p]
    (raws recent : List CounterSample) (hlength : 3 ≤ recent.length)
    (hall : ∀ s ∈ recent, p (f s)) :
    let values := ((raws ++ recent).rtake 4).map f
    values.length < 2 * values.countP p := by
  intro values
  have hfour : values.length ≤ 4 := by
    simp only [values, List.length_map, List.rtake, List.length_drop]
    omega
  have hlast : ((raws ++ recent).rtake 4).rtake 3 = recent.rtake 3 := by
    rw [rtake_rtake (raws ++ recent) (by norm_num), rtake_append raws recent hlength]
  have hthree : 3 ≤ values.countP p := by
    calc 3 = (recent.rtake 3).length := by
          rw [List.rtake, List.length_drop]
          omega
      _ = (recent.rtake 3).countP (fun s => decide (p (f s))) := by
          refine (List.countP_eq_length.mpr fun s hs => ?_).symm
          exact decide_eq_true (hall s (List.mem_of_mem_drop hs))
      _ ≤ ((raws ++ recent).rtake 4).countP (fun s => decide (p (f s))) := by
          rw [← hlast]
          exact (List.drop_sublist _ _).countP_le
      _ = values.countP p := by
          rw [List.countP_map]
          rfl
  omega

end Overload

section Judgement
variable {rt : Runtime} {fileDescription : String → Option String} {st : Station}

/-- At the threshold of the processors alone the judgement is of the highest tier. -/
lemma classify_strained {verdicts : List Verdict} {stall : StallSignal}
    (h : stallStrained rt ≤ stall.cpu) : (classify rt verdicts stall).tier = .strained := by
  have hworst : stallStrained rt ≤ stall.worst.2 := h.trans (stall.worst_spec.2 .cpu stall.cpu rfl)
  have hstall : stallTier rt stall.worst.2 = .strained := if_pos hworst
  rw [classify_tier, hstall]
  exact max_eq_right (by cases verdictTier verdicts <;> decide)

/-- The saturation point of the disk bears on nothing but the disk. -/
@[simp] lemma stall_cpu (s : CounterSample) (saturation : Option F64) :
    (stall rt st s saturation).cpu = share rt (cpus st.logical) s.processorQueueLength := by
  unfold stall
  split <;> rfl

@[simp] lemma stall_memory (s : CounterSample) (saturation : Option F64) :
    (stall rt st s saturation).memory = share rt pagesInputSaturated s.pagesInputPerSec := by
  unfold stall
  split <;> rfl

/-- The disk is short of a level if it is against every saturation point it can be held to. -/
lemma stall_io_lt {s : CounterSample} {saturation : Option F64} {level : ℚ} (hlevel : 0 < level)
    (h : ∀ p, saturation = some (.finite p) → 0 < p → share rt p s.diskSecondsPerTransfer < level) :
    ∀ io ∈ (stall rt st s saturation).io, io < level := by
  intro io hio
  unfold stall at hio
  split at hio
  · rename_i p
    obtain ⟨p', hp', rfl⟩ := Option.mem_map.mp hio
    obtain ⟨rfl, hpos⟩ : p = p' ∧ 0 < p' := by simpa [Option.filter_eq_some_iff] using hp'
    exact h p rfl hpos
  · obtain rfl := Option.some.inj hio
    exact hlevel
  · simp [toStall] at hio

/-- The window a pass finds holds the samples of the passes before it. -/
lemma window_run (logical : ℕ) (store : BaselineStore) (reader : Bool) (events : List Event) :
    (run rt fileDescription st (start logical store reader) events).window =
      ((passes rt fileDescription st (start logical store reader) events).map (·.2.raw)).foldl
        Window.push SampleWindow.default := by
  refine run_induction rt fileDescription st
    (P := fun l ps => l.window = (ps.map (·.2.raw)).foldl Window.push SampleWindow.default) rfl
    (fun _ _ h => h) ?_ events
  intro l ps a h
  rw [List.map_append, List.foldl_append, ← h]
  rfl

/-- Judged is the median of the last four samples. -/
lemma judged_run (logical : ℕ) (store : BaselineStore) (reader : Bool) (events : List Event)
    (a : Inputs) :
    Sampler.judged rt
        ((run rt fileDescription st (start logical store reader) events).sampledWindow a) a.raw =
      .fieldwise fun f => pick rt (((((passes rt fileDescription st (start logical store reader)
        events).map (·.2.raw)) ++ [a.raw]).rtake 4).map f) := by
  have hsamples : ((run rt fileDescription st (start logical store reader) events).sampledWindow
      a).samples = (((passes rt fileDescription st (start logical store reader)
        events).map (·.2.raw)) ++ [a.raw]).rtake 4 := by
    have hpushed := Window.foldl_push_samples (((passes rt fileDescription st
      (start logical store reader) events).map (·.2.raw)) ++ [a.raw]) windowSamples
    rw [List.foldl_concat] at hpushed
    rw [sampledWindow, window_run]
    exact hpushed
  have hsome : (((passes rt fileDescription st (start logical store reader)
      events).map (·.2.raw)) ++ [a.raw]).rtake 4 ≠ [] := by
    rw [List.rtake_concat_succ]
    exact List.concat_ne_nil _ _
  rw [Sampler.judged, SampleWindow.median, hsamples, if_neg hsome]
  rfl

end Judgement

section Clocks
variable (rt : Runtime) (fileDescription : String → Option String) (st : Station)

/-- When a pass took its reading. -/
def Event.nowMs : Event → Option ℕ
  | .missed | .enabled => none
  | .pass a => some a.nowMs

def clocks (events : List Event) : List ℕ := events.filterMap Event.nowMs

/-- What the tracker is fed in a run. -/
def observations (l : SamplingLoop) (events : List Event) : List (ℕ × Assessment) :=
  (ticks rt fileDescription st l events).map (observation rt st.spec)

lemma observations_append (l : SamplingLoop) (events later : List Event) :
    observations rt fileDescription st l (events ++ later) =
      observations rt fileDescription st l events ++
        observations rt fileDescription st (run rt fileDescription st l events) later := by
  simp only [observations, ticks, passes_append, List.map_append]

lemma observations_fst (l : SamplingLoop) (events : List Event) :
    (observations rt fileDescription st l events).map Prod.fst = clocks events := by
  induction events generalizing l with
  | nil => rfl
  | cons e events ih =>
    cases e with
    | missed => exact ih l
    | enabled => exact ih { l with reprobe := true }
    | pass a => exact congrArg (a.nowMs :: ·) (ih (pass rt fileDescription st l a))

variable {rt fileDescription st} in
lemma wellTimed_observations (l : SamplingLoop) {events : List Event}
    (hordered : (clocks events).Pairwise (· ≤ ·)) (hfits : ∀ t ∈ clocks events, t ≤ u64Max) :
    WellTimed (observations rt fileDescription st l events) := by
  rw [← observations_fst rt fileDescription st l] at hordered hfits
  exact ⟨List.pairwise_map.mp hordered, fun o ho => hfits o.1 (List.mem_map_of_mem ho)⟩

/-- What the loop is at a pass of a run is what the events before it made of it. -/
lemma passes_split {l found : SamplingLoop} {events : List Event}
    {before after : List (SamplingLoop × Inputs)} {a : Inputs}
    (h : passes rt fileDescription st l events = before ++ (found, a) :: after) :
    ∃ earlier, passes rt fileDescription st l earlier = before ∧
      run rt fileDescription st l earlier = found := by
  induction events generalizing l before with
  | nil => cases before <;> cases h
  | cons e events ih =>
    cases e with
    | missed =>
      obtain ⟨earlier, hbefore, hfound⟩ := ih h
      exact ⟨.missed :: earlier, hbefore, hfound⟩
    | enabled =>
      obtain ⟨earlier, hbefore, hfound⟩ := ih h
      exact ⟨.enabled :: earlier, hbefore, hfound⟩
    | pass b =>
      cases before with
      | nil =>
        obtain ⟨hfirst, -⟩ := List.cons.inj h
        exact ⟨[], rfl, congrArg Prod.fst hfirst⟩
      | cons first before =>
        obtain ⟨hfirst, hrest⟩ := List.cons.inj h
        obtain ⟨earlier, hbefore, hfound⟩ := ih hrest
        exact ⟨.pass b :: earlier, hfirst ▸ congrArg _ hbefore, hfound⟩

end Clocks

section Overloaded
variable {rt : Runtime} {fileDescription : String → Option String} {st : Station}
  {logical : ℕ} {store : BaselineStore} {reader : Bool} {past later : List Event}

/-- From the third of some passes on, the median has what comes of what all their samples have. -/
lemma judged_of_mem_drop {f : CounterSample → ℚ} (hf : ∀ g, f (.fieldwise g) = g f)
    {p q : ℚ → Prop} [DecidablePred p]
    (hpick : ∀ values : List ℚ, values.length < 2 * values.countP p → q (pick rt values))
    (hall : ∀ a, .pass a ∈ later → p (f a.raw)) {found : SamplingLoop} {a : Inputs}
    (hmem : (found, a) ∈ (passes rt fileDescription st
      (run rt fileDescription st (start logical store reader) past) later).drop 2) :
    q (f (Sampler.judged rt (found.sampledWindow a) a.raw)) := by
  set l := run rt fileDescription st (start logical store reader) past
  obtain ⟨mid, after, hsplit⟩ := List.append_of_mem hmem
  have hlong : 2 < (passes rt fileDescription st l later).length := by
    have hlength := congrArg List.length hsplit
    simp only [List.length_drop, List.length_append, List.length_cons] at hlength
    omega
  have hlater : passes rt fileDescription st l later =
      ((passes rt fileDescription st l later).take 2 ++ mid) ++ (found, a) :: after := by
    rw [List.append_assoc, ← hsplit, List.take_append_drop]
  obtain ⟨earlier, hbefore, hfound⟩ := passes_split rt fileDescription st hlater
  have hrun : found = run rt fileDescription st (start logical store reader) (past ++ earlier) := by
    rw [← hfound, run_append]
  have hpasses : ∀ p ∈ passes rt fileDescription st l earlier ++ [(found, a)],
      p ∈ passes rt fileDescription st l later := by
    intro p hp
    rw [hlater, ← hbefore]
    rcases List.mem_append.mp hp with hearly | hlast
    · exact List.mem_append_left _ hearly
    · exact List.mem_append_right _ (List.mem_singleton.mp hlast ▸ List.mem_cons_self)
  have hrecent : ∀ s ∈ (passes rt fileDescription st l earlier ++ [(found, a)]).map (·.2.raw),
      p (f s) := by
    intro s hs
    obtain ⟨pass, hpass, rfl⟩ := List.mem_map.mp hs
    exact hall pass.2 (of_mem_passes (hpasses pass hpass))
  have hmajority := majority_rtake
    ((passes rt fileDescription st (start logical store reader) past).map (·.2.raw)) _
    (by simp [hbefore]; omega) hrecent
  rw [hrun, judged_run, passes_append, hf]
  simpa [l] using hpick _ hmajority

/-- What is observed from the third pass on is what those passes judge. -/
lemma mem_drop_observations {l : SamplingLoop} {o : ℕ × Assessment}
    (ho : o ∈ (observations rt fileDescription st l later).drop 2) :
    ∃ found a, (found, a) ∈ (passes rt fileDescription st l later).drop 2 ∧
      o.2 = judgement rt st.spec (tickOf rt fileDescription st found a) := by
  rw [observations, ticks, List.map_map, ← List.map_drop] at ho
  obtain ⟨⟨found, a⟩, hmem, rfl⟩ := List.mem_map.mp ho
  exact ⟨found, a, hmem, rfl⟩

/-- From the third overloaded pass on, each is judged to be of the highest tier. -/
lemma strained_of_mem_drop
    (hload : ∀ a, .pass a ∈ later → Overloaded rt st.logical a.raw.processorQueueLength)
    {o : ℕ × Assessment}
    (ho : o ∈ (observations rt fileDescription st
      (run rt fileDescription st (start logical store reader) past) later).drop 2) :
    o.2.tier = .strained := by
  obtain ⟨found, a, hmem, hjudged⟩ := mem_drop_observations ho
  have hqueue := judged_of_mem_drop (f := CounterSample.processorQueueLength) (fun _ => rfl)
    (q := fun queue => stallStrained rt ≤ share rt (cpus st.logical) queue)
    (fun _ => strained_pick) hload hmem
  rw [hjudged]
  refine classify_strained ?_
  change stallStrained rt ≤ (stall rt st _ _).cpu
  rw [stall_cpu]
  exact hqueue

/-- A sample of a quiet machine, where the disk may be held to a saturation point. -/
structure Quiet (rt : Runtime) (st : Station) (saturation : Option F64) (s : CounterSample) :
    Prop where
  queue : Rested rt (cpus st.logical) s.processorQueueLength
  pages : Rested rt pagesInputSaturated s.pagesInputPerSec
  disk : ∀ p, saturation = some (.finite p) → 0 < p → Rested rt p s.diskSecondsPerTransfer

/-- From the third quiet pass on, each in which no check fires is judged to be easy. -/
lemma easy_of_mem_drop
    (hcalm : ∀ p ∈ passes rt fileDescription st
      (run rt fileDescription st (start logical store reader) past) later,
      evaluate rt (reading rt fileDescription st p.1 p.2) st.spec = [] ∧
      ∀ a, .pass a ∈ later → Quiet rt st ((p.1.learned p.2).saturationPoint rt) a.raw)
    {o : ℕ × Assessment}
    (ho : o ∈ (observations rt fileDescription st
      (run rt fileDescription st (start logical store reader) past) later).drop 2) :
    o.2.tier = .easy := by
  obtain ⟨found, a, hmem, hjudged⟩ := mem_drop_observations ho
  obtain ⟨hchecks, hquiet⟩ := hcalm _ (List.mem_of_mem_drop hmem)
  have hqueue := judged_of_mem_drop (f := CounterSample.processorQueueLength) (fun _ => rfl)
    (q := fun queue => share rt (cpus st.logical) queue < stallBraced rt)
    (fun _ => rested_pick cpus_pos.le) (fun b hb => (hquiet b hb).queue) hmem
  have hpages := judged_of_mem_drop (f := CounterSample.pagesInputPerSec) (fun _ => rfl)
    (q := fun pages => share rt pagesInputSaturated pages < stallBraced rt)
    (fun _ => rested_pick (by norm_num [pagesInputSaturated])) (fun b hb => (hquiet b hb).pages)
    hmem
  have hdisk : ∀ io ∈ (stall rt st (Sampler.judged rt (found.sampledWindow a) a.raw)
      ((found.learned a).saturationPoint rt)).io, io < stallBraced rt :=
    stall_io_lt stallBraced_pos fun p hp hpos =>
      judged_of_mem_drop (f := CounterSample.diskSecondsPerTransfer) (fun _ => rfl)
        (q := fun latency => share rt p latency < stallBraced rt)
        (fun _ => rested_pick hpos.le) (fun b hb => (hquiet b hb).disk p hp hpos) hmem
  have hjudgement : judgement rt st.spec (tickOf rt fileDescription st found a) =
      classify rt [] (stall rt st (Sampler.judged rt (found.sampledWindow a) a.raw)
        ((found.learned a).saturationPoint rt)) := by
    rw [← hchecks]
    rfl
  rw [hjudged, hjudgement]
  by_contra hworse
  have hcpu := (easy_lt_classify_iff (by simpa using hpages) hdisk).mp
    (Tier.easy_lt_iff.mpr hworse)
  rw [stall_cpu] at hcpu
  exact hcpu.not_gt hqueue

/-- The tier of the icon is the one that the observations of the run show. -/
lemma icon_eq_shownAfter (events : List Event) :
    (run rt fileDescription st (start logical store reader) events).icon =
      (shownAfter escalateMs settleMs (observations rt fileDescription st
        (start logical store reader) events)).tier := by
  have hpainted : Painted rt fileDescription st _ _ := painted_run logical store reader events
  rw [hpainted.icon, hpainted.current, tracker_run, trackerAfter_eq_run]
  rfl

variable (rt fileDescription st) in
/-- The observations of a run stand at the times of its passes. -/
lemma observations_of_clocks (l : SamplingLoop) {first second third last : ℕ} {between : List ℕ}
    (h : clocks later = first :: second :: third :: (between ++ [last])) :
    ∃ o₁ o₂ o₃ mid o, o₃.1 = third ∧ o.1 = last ∧
      observations rt fileDescription st l later = o₁ :: o₂ :: o₃ :: (mid ++ [o]) := by
  have hmap := observations_fst rt fileDescription st l later
  rw [h] at hmap
  obtain ⟨o₁, tail₁, hobs, -, hmap₁⟩ := List.map_eq_cons_iff.mp hmap
  obtain ⟨o₂, tail₂, rfl, -, hmap₂⟩ := List.map_eq_cons_iff.mp hmap₁
  obtain ⟨o₃, tail₃, rfl, hthird, hmap₃⟩ := List.map_eq_cons_iff.mp hmap₂
  obtain ⟨mid, lastly, rfl, -, hlastly⟩ := List.map_eq_append_iff.mp hmap₃
  obtain ⟨o, rfl, hlast⟩ := List.map_eq_singleton_iff.mp hlastly
  exact ⟨o₁, o₂, o₃, mid, o, hthird, hlast, hobs⟩

variable (rt fileDescription st logical store reader) in
/-- A run that goes on over three passes more, as the tracker sees it: of what it observes behind
the second of them nothing is further apart than the tracker looks back. -/
lemma exists_continuation (hordered : (clocks (past ++ later)).Pairwise (· ≤ ·))
    (hfits : ∀ t ∈ clocks (past ++ later), t ≤ u64Max)
    (hgaps : (clocks later).IsChain fun t u => u ≤ t + settleMs)
    {first second third last : ℕ} {between : List ℕ}
    (hlater : clocks later = first :: second :: third :: (between ++ [last])) :
    ∃ before o₃ mid o, o₃.1 = third ∧ o.1 = last ∧
      observations rt fileDescription st (start logical store reader) (past ++ later) =
        before ++ ((o₃ :: mid) ++ [o]) ∧
      WellTimed (before ++ ((o₃ :: mid) ++ [o])) ∧
      GapsAtMost (max escalateMs settleMs) ((o₃ :: mid) ++ [o]) ∧
      ∀ x ∈ (o₃ :: mid) ++ [o], x ∈ (observations rt fileDescription st
        (run rt fileDescription st (start logical store reader) past) later).drop 2 := by
  set l₁ := run rt fileDescription st (start logical store reader) past with hl₁
  obtain ⟨o₁, o₂, o₃, mid, o, hthird, hlast, hobs₁⟩ :=
    observations_of_clocks rt fileDescription st l₁ hlater
  have hseen : observations rt fileDescription st (start logical store reader) (past ++ later) =
      (observations rt fileDescription st (start logical store reader) past ++ [o₁, o₂]) ++
        ((o₃ :: mid) ++ [o]) := by
    rw [observations_append, ← hl₁, hobs₁]
    simp
  have hchain : GapsAtMost settleMs (o₁ :: o₂ :: o₃ :: (mid ++ [o])) := by
    rw [← observations_fst rt fileDescription st l₁, hobs₁] at hgaps
    exact (List.isChain_map _).mp hgaps
  refine ⟨_, o₃, mid, o, hthird, hlast, hseen, ?_, hchain.tail.tail, fun x hx => ?_⟩
  · rw [← hseen]
    exact wellTimed_observations _ hordered hfits
  · rw [hobs₁]
    exact hx

/-- The icon and the window go together. -/
lemma shown_of_icon {events : List Event} {tier : Tier}
    (h : (run rt fileDescription st (start logical store reader) events).icon = tier) :
    (run rt fileDescription st (start logical store reader) events).shown.tier = tier.name := by
  have hpainted : Painted rt fileDescription st _ _ := painted_run logical store reader events
  rw [hpainted.shown, ← hpainted.icon, h]

/-- Whatever came before, and whatever else is found: when no sample of the run queue is short
of the highest tier any more, the icon and the window are at it once a second and a half have
passed since the third such sample. -/
theorem overload_shown (rt : Runtime) (fileDescription : String → Option String) (st : Station)
    (logical : ℕ) (store : BaselineStore) (reader : Bool) {past later : List Event}
    (hordered : (clocks (past ++ later)).Pairwise (· ≤ ·))
    (hfits : ∀ t ∈ clocks (past ++ later), t ≤ u64Max)
    (hgaps : (clocks later).IsChain fun t u => u ≤ t + settleMs)
    (hload : ∀ a, .pass a ∈ later → Overloaded rt st.logical a.raw.processorQueueLength)
    {first second third last : ℕ} {between : List ℕ}
    (hlater : clocks later = first :: second :: third :: (between ++ [last]))
    (hlong : third + escalateMs < last) :
    let l := run rt fileDescription st (start logical store reader) (past ++ later)
    l.icon = .strained ∧ l.shown.tier = "Strained" := by
  obtain ⟨before, o₃, mid, o, rfl, rfl, hseen, hw, hg, hdrop⟩ :=
    exists_continuation rt fileDescription st logical store reader hordered hfits hgaps hlater
  have hstrained : ∀ x ∈ (o₃ :: mid) ++ [o], x.2.tier = .strained := fun x hx =>
    strained_of_mem_drop hload (hdrop x hx)
  have hicon : (run rt fileDescription st (start logical store reader) (past ++ later)).icon =
      .strained := by
    rw [icon_eq_shownAfter, hseen]
    refine le_antisymm (by generalize Assessment.tier _ = tier; cases tier <;> decide) ?_
    refine le_shown_of_continuation hw
      (reachesBack_of_continuation hg (List.mem_append_left _ List.mem_cons_self)
        (le_max_left _ _) hlong) (hstrained o (by simp)).ge ?_
    intro a ha
    obtain ⟨t, ht⟩ := mem_continuation_of_window hw.chronological hlong ha
    exact (hstrained (t, a) ht).ge
  exact ⟨hicon, shown_of_icon hicon⟩

/-- A pass with eight threads waiting. -/
def busyPass (nowMs : ℕ) : Inputs :=
  { quietPass none nowMs with raw := { CounterSample.default with processorQueueLength := 8 } }

/-- After a quiet pass, and with one that could not be sampled. -/
def busyEvents : List Event :=
  [.pass (busyPass 1000), .pass (busyPass 1500), .missed, .pass (busyPass 2000),
    .pass (busyPass 4000)]

theorem busy_shown :
    let l := run .ieee (fun _ => none) bareStation (start 8 .missing false)
      ([.pass (quietPass none 500)] ++ busyEvents)
    l.icon = .strained ∧ l.shown.tier = "Strained" := by
  have hload : ∀ a, .pass a ∈ busyEvents →
      Overloaded .ieee bareStation.logical a.raw.processorQueueLength := by
    have height : Overloaded .ieee 8 8 := by decide +kernel
    intro a ha
    simp only [busyEvents, List.mem_cons, Event.pass.injEq, reduceCtorEq, List.not_mem_nil,
      or_false, false_or] at ha
    rcases ha with rfl | rfl | rfl | rfl <;> exact height
  have hclocks : clocks busyEvents = 1000 :: 1500 :: 2000 :: ([] ++ [4000]) := rfl
  exact overload_shown .ieee (fun _ => none) bareStation 8 .missing false (by decide) (by decide)
    (by decide) hload hclocks (by decide)

/-- Whatever came before: when no sample comes to a threshold any more and no check fires, the
icon and the window are back at the lowest tier once six seconds have passed since the third such
sample. -/
theorem quiet_shown (rt : Runtime) (fileDescription : String → Option String) (st : Station)
    (logical : ℕ) (store : BaselineStore) (reader : Bool) {past later : List Event}
    (hordered : (clocks (past ++ later)).Pairwise (· ≤ ·))
    (hfits : ∀ t ∈ clocks (past ++ later), t ≤ u64Max)
    (hgaps : (clocks later).IsChain fun t u => u ≤ t + settleMs)
    (hcalm : ∀ p ∈ passes rt fileDescription st
      (run rt fileDescription st (start logical store reader) past) later,
      evaluate rt (reading rt fileDescription st p.1 p.2) st.spec = [] ∧
      ∀ a, .pass a ∈ later → Quiet rt st ((p.1.learned p.2).saturationPoint rt) a.raw)
    {first second third last : ℕ} {between : List ℕ}
    (hlater : clocks later = first :: second :: third :: (between ++ [last]))
    (hlong : third + settleMs < last) :
    let l := run rt fileDescription st (start logical store reader) (past ++ later)
    l.icon = .easy ∧ l.shown.tier = "Easy" := by
  obtain ⟨before, o₃, mid, o, rfl, rfl, hseen, hw, hg, hdrop⟩ :=
    exists_continuation rt fileDescription st logical store reader hordered hfits hgaps hlater
  have heasy : ∀ x ∈ (o₃ :: mid) ++ [o], x.2.tier = .easy := fun x hx =>
    easy_of_mem_drop hcalm (hdrop x hx)
  have hicon : (run rt fileDescription st (start logical store reader) (past ++ later)).icon =
      .easy := by
    rw [icon_eq_shownAfter, hseen]
    refine le_antisymm ?_ (Tier.easy_le _)
    refine shown_le_of_continuation hw
      (reachesBack_of_continuation hg (List.mem_append_left _ List.mem_cons_self)
        (le_max_right _ _) hlong) (heasy o (by simp)).le ?_
    intro a ha
    obtain ⟨t, ht⟩ := mem_continuation_of_window hw.chronological hlong ha
    exact (heasy (t, a) ht).le
  exact ⟨hicon, shown_of_icon hicon⟩

/-- A pass on a machine that does nothing. -/
def idlePass (nowMs : ℕ) : Inputs := { quietPass none nowMs with raw := .default }

/-- The load is over, and no pass is more than six seconds behind the one before. -/
def idleEvents : List Event :=
  [.pass (idlePass 4500), .pass (idlePass 5000), .pass (idlePass 5500), .missed,
    .pass (idlePass 9000), .pass (idlePass 12000)]

theorem idle_shown :
    (run .ieee (fun _ => none) bareStation (start 8 .missing false) busyEvents).icon = .strained ∧
    let l := run .ieee (fun _ => none) bareStation (start 8 .missing false)
      (busyEvents ++ idleEvents)
    l.icon = .easy ∧ l.shown.tier = "Easy" := by
  have hpasses : ∀ p ∈ passes .ieee (fun _ => none) bareStation
      (run .ieee (fun _ => none) bareStation (start 8 .missing false) busyEvents) idleEvents,
      evaluate .ieee (reading .ieee (fun _ => none) bareStation p.1 p.2) bareStation.spec = [] ∧
        (p.1.learned p.2).saturationPoint .ieee = none := by decide +kernel
  have hidle : ∀ a, .pass a ∈ idleEvents → Quiet .ieee bareStation none a.raw := by
    intro a ha
    simp only [idleEvents, List.mem_cons, Event.pass.injEq, reduceCtorEq, List.not_mem_nil,
      or_false, false_or] at ha
    rcases ha with rfl | rfl | rfl | rfl | rfl <;>
      exact ⟨by decide +kernel, by decide +kernel, by simp⟩
  have hclocks : clocks idleEvents = 4500 :: 5000 :: 5500 :: ([9000] ++ [12000]) := rfl
  refine ⟨by decide +kernel, quiet_shown .ieee (fun _ => none) bareStation 8 .missing false
    (by decide) (by decide) (by decide) (fun p hp => ⟨(hpasses p hp).1, ?_⟩) hclocks (by decide)⟩
  rw [(hpasses p hp).2]
  exact hidle

end Overloaded

section Held
variable (rt : Runtime) (fileDescription : String → Option String) (st : Station)
  (logical : ℕ) (store : BaselineStore) (reader : Bool)

/-- The graph is never longer than it is drawn. -/
lemma history_length_run (events : List Event) :
    (run rt fileDescription st (start logical store reader) events).history.length ≤
      historyPoints := by
  refine run_induction rt fileDescription st (P := fun l _ => l.history.length ≤ historyPoints)
    (Nat.zero_le _) (fun _ _ h => h) ?_ events
  intro l ps a h
  rw [pass_history, recorded]
  split_ifs
  · rw [pushPoint, List.length_drop]
    omega
  · exact h

/-- Nor is the window longer than the median needs. -/
lemma window_length_run (events : List Event) :
    (run rt fileDescription st (start logical store reader) events).window.samples.length ≤
      windowSamples := by
  rw [window_run, SampleWindow.default, Window.foldl_push_samples, List.rtake,
    List.length_drop]
  change _ ≤ max windowSamples 1
  omega

/-- Of passes so far apart the tracker holds those of twice the settling time. -/
lemma tracker_length_run {events : List Event} {gap : ℕ} (hgap : 0 < gap)
    (hspaced : (clocks events).IsChain fun t u => t + gap ≤ u)
    (hfits : ∀ t ∈ clocks events, t ≤ u64Max) :
    (run rt fileDescription st (start logical store reader) events).tracker.history.length ≤
      2 * settleMs / gap + 1 := by
  rw [tracker_run, trackerAfter_eq_run]
  change ((TierTracker.new escalateMs settleMs).run (observations rt fileDescription st _
    events)).history.length ≤ _
  rw [← observations_fst rt fileDescription st (start logical store reader)] at hspaced hfits
  have hobs : Spaced gap (observations rt fileDescription st (start logical store reader) events) :=
    (List.isChain_map _).mp hspaced
  have hw : WellTimed (observations rt fileDescription st (start logical store reader) events) :=
    ⟨hobs.chronological, fun o ho => hfits o.1 (List.mem_map_of_mem ho)⟩
  cases hseen : observations rt fileDescription st (start logical store reader) events using
    List.reverseRecOn with
  | nil => exact Nat.zero_le _
  | append_singleton seen o =>
    rw [hseen] at hobs hw
    rw [TierTracker.run_concat, TierTracker.observe_history, run_record_history _ _ hw]
    have hfew := hobs.length_since_le (c := o.1 - 2 * max escalateMs settleMs)
    have hspan : o.1 - (o.1 - 2 * max escalateMs settleMs) ≤ 2 * settleMs :=
      tsub_tsub_le.trans (by decide)
    rw [← Nat.add_div_right _ hgap, Nat.le_div_iff_mul_le hgap]
    omega

/-- However long it runs, the loop holds the windows of twelve seconds, four samples, three
hundred points and a bounded number of quiet latencies. -/
theorem held_run {events : List Event} {gap : ℕ} (hgap : 0 < gap)
    (hspaced : (clocks events).IsChain fun t u => t + gap ≤ u)
    (hfits : ∀ t ∈ clocks events, t ≤ u64Max) :
    let l := run rt fileDescription st (start logical store reader) events
    l.tracker.history.length ≤ 2 * settleMs / gap + 1 ∧
      l.window.samples.length ≤ windowSamples ∧ l.history.length ≤ historyPoints ∧
      l.diskBaseline.samples.length ≤ baselineWindow :=
  ⟨tracker_length_run rt fileDescription st logical store reader hgap hspaced hfits,
    window_length_run rt fileDescription st logical store reader events,
    history_length_run rt fileDescription st logical store reader events,
    DiskBaseline.fits _⟩

theorem busy_held :
    let l := run .ieee (fun _ => none) bareStation (start 8 .missing false) busyEvents
    l.tracker.history.length ≤ 25 ∧ l.window.samples.length ≤ windowSamples ∧
      l.history.length ≤ historyPoints ∧ l.diskBaseline.samples.length ≤ baselineWindow :=
  held_run .ieee (fun _ => none) bareStation 8 .missing false (by decide : 0 < 500) (by decide)
    (by decide)

end Held

end LoadBear.SamplingLoop
