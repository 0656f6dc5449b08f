import LoadBear.OrderStatistic

/-!
# The learned disk baseline

The latencies a disk answers in while it is quiet, kept in a window and written to a store
that outlives the run. What a store holds is filtered again when it is loaded, so memory
holds only latencies that would be learned, whatever happened to the file.
-/
namespace LoadBear

open OrderStatistic

/-- A double precision value with its specials. -/
inductive F64
  | nan
  | infinite (negative : Bool)
  | finite (q : ℚ)
  deriving DecidableEq, Repr

namespace F64

def isFinite : F64 → Bool
  | finite _ => true
  | _ => false

/-- The comparison `>` with a constant, which no NaN passes. -/
def above (bound : ℚ) : F64 → Bool
  | nan => false
  | infinite negative => !negative
  | finite q => bound < q

/-- The comparison `<=` with a constant, which no NaN passes. -/
def atMost (bound : ℚ) : F64 → Bool
  | nan => false
  | infinite negative => negative
  | finite q => q ≤ bound

end F64

/-- How many qualifying samples are kept. -/
def baselineWindow : ℕ := 512

def quietQueue : ℚ := 1

/-- The two counters of a sample that the baseline reads. -/
structure DiskFigures where
  secondsPerTransfer : F64
  queueLength : F64
  deriving DecidableEq, Repr

/-- A finite positive number of seconds. -/
def IsLatency (v : F64) : Prop := ∃ q : ℚ, v = .finite q ∧ 0 < q

lemma isLatency_iff {v : F64} : IsLatency v ↔ v.isFinite ∧ v.above 0 := by
  cases v <;> simp [IsLatency, F64.isFinite, F64.above]

lemma isLatency_iff_not_atMost {v : F64} : IsLatency v ↔ v.isFinite ∧ ¬v.atMost 0 := by
  cases v <;> simp [IsLatency, F64.isFinite, F64.atMost]

/-- The content of the store: absent, not a list of numbers, or one. -/
inductive BaselineStore
  | missing
  | corrupt
  | numbers (values : List F64)
  deriving DecidableEq, Repr

/-- The learned latency window for this machine's disk. -/
structure DiskBaseline where
  samples : List F64
  dirty : Bool
  latencies : ∀ v ∈ samples, IsLatency v
  fits : samples.length ≤ baselineWindow

namespace DiskBaseline

/-- An empty baseline. -/
def new : DiskBaseline := ⟨[], false, by simp, by simp⟩

/-- Offer a sample. Only quiet ones with real traffic are kept. -/
def observe (b : DiskBaseline) (s : DiskFigures) : DiskBaseline :=
  let latency := s.secondsPerTransfer
  if h : ¬latency.isFinite ∨ latency.atMost 0 ∨ s.queueLength.above quietQueue then b
  else
    { samples := push baselineWindow b.samples latency
      dirty := true
      latencies := by
        intro v hv
        obtain ⟨hfinite, hpositive, -⟩ := not_or.mp h |>.imp_right not_or.mp
        rcases List.mem_append.mp hv with hold | hnew
        · refine b.latencies v ?_
          split at hold
          · exact List.mem_of_mem_tail hold
          · exact hold
        · rw [List.mem_singleton.mp hnew]
          exact isLatency_iff_not_atMost.mpr ⟨not_not.mp hfinite, hpositive⟩
      fits := length_push_le _ _ _ (by decide) b.fits }

/-- What is kept of the numbers in a store. -/
def accepted (values : List F64) : List F64 :=
  let samples := values.filter fun v => v.isFinite && v.above 0
  if baselineWindow < samples.length then samples.drop (samples.length - baselineWindow)
  else samples

lemma accepted_eq (values : List F64) : accepted values =
    (values.filter fun v => v.isFinite && v.above 0).rtake baselineWindow := by
  unfold accepted
  dsimp only
  split_ifs with h
  · rfl
  · exact (rtake_eq_self (not_lt.mp h)).symm

/-- Read the stored baseline, or an empty one. -/
def load : BaselineStore → DiskBaseline
  | .missing | .corrupt => new
  | .numbers values =>
    { samples := accepted values
      dirty := false
      latencies := by
        intro v hv
        rw [accepted_eq] at hv
        have hkept := (List.mem_filter.mp ((List.drop_sublist _ _).mem hv)).2
        exact isLatency_iff.mpr (by simpa using hkept)
      fits := by
        rw [accepted_eq, List.rtake, List.length_drop]
        omega }

/-- Write the baseline out, if it has changed since the last write. A write can fail, which
leaves the store as it was. -/
def saveIfChanged (b : DiskBaseline) (store : BaselineStore) (writes : Bool) :
    Bool × DiskBaseline × BaselineStore :=
  if ¬b.dirty then (false, b, store)
  else if writes then (true, { b with dirty := false }, .numbers b.samples)
  else (false, b, store)

section Spec

/-- A latency of a quiet disk, whose queue is not above what it reads while serving one
request. A queue that is no number passes: the comparison that rejects a sample is false of it. -/
def Qualifies (s : DiskFigures) : Prop :=
  IsLatency s.secondsPerTransfer ∧ ¬s.queueLength.above quietQueue

instance : DecidablePred Qualifies := fun _ =>
  decidable_of_iff ((_ ∧ _) ∧ _) (and_congr_left' isLatency_iff.symm)

example {v : F64} : Qualifies ⟨v, .nan⟩ ↔ IsLatency v := by
  simp [Qualifies, F64.above]

lemma observe_of_qualifies (b : DiskBaseline) {s : DiskFigures} (h : Qualifies s) :
    (b.observe s).samples = push baselineWindow b.samples s.secondsPerTransfer ∧
      (b.observe s).dirty = true := by
  obtain ⟨hlatency, hquiet⟩ := h
  obtain ⟨hfinite, hpositive⟩ := isLatency_iff_not_atMost.mp hlatency
  simp [observe, hfinite, hpositive, hquiet]

lemma observe_of_not_qualifies (b : DiskBaseline) {s : DiskFigures} (h : ¬Qualifies s) :
    b.observe s = b := by
  rw [Qualifies, isLatency_iff_not_atMost] at h
  unfold observe
  apply dif_pos
  by_contra hnot
  push Not at hnot
  exact h ⟨⟨hnot.1, by simp [hnot.2.1]⟩, by simp [hnot.2.2]⟩

/-- What was written is read back as it was. -/
lemma load_samples (b : DiskBaseline) : (load (.numbers b.samples)).samples = b.samples := by
  have hall : b.samples.filter (fun v => v.isFinite && v.above 0) = b.samples := by
    rw [List.filter_eq_self]
    intro v hv
    simpa using isLatency_iff.mp (b.latencies v hv)
  change accepted b.samples = b.samples
  rw [accepted_eq, hall]
  exact rtake_eq_self b.fits

end Spec

section Life

inductive Action
  | observe (s : DiskFigures)
  | save (writes : Bool)
  | restart

/-- The baseline, its store, and what happened: the samples last loaded, the latencies learned
since, and the samples as of the last write. -/
structure Life where
  memory : DiskBaseline
  store : BaselineStore
  loaded : List F64
  learned : List F64
  saved : Option (List F64)

namespace Life

def start (store : BaselineStore) : Life :=
  { memory := load store
    store := store
    loaded := (load store).samples
    learned := []
    saved := none }

def step (l : Life) : Action → Life
  | .observe s =>
    { l with
      memory := l.memory.observe s
      learned := if Qualifies s then l.learned ++ [s.secondsPerTransfer] else l.learned }
  | .save writes =>
    let (written, memory, store) := l.memory.saveIfChanged l.store writes
    { l with
      memory := memory
      store := store
      saved := if written then some l.memory.samples else l.saved }
  | .restart =>
    { l with
      memory := load l.store
      loaded := (load l.store).samples
      learned := [] }

def run (store : BaselineStore) (actions : List Action) : Life :=
  actions.foldl step (start store)

/-- Memory holds the last of what was loaded and learned, a clean baseline is the stored one,
and the store holds what was written last. -/
structure Linked (l : Life) : Prop where
  samples : l.memory.samples = (l.loaded ++ l.learned).rtake baselineWindow
  clean : l.memory.dirty = false → (load l.store).samples = l.memory.samples
  stored : (load l.store).samples = l.saved.getD l.loaded

lemma start_linked (store : BaselineStore) : (start store).Linked where
  samples := by
    rw [start, List.append_nil]
    exact (rtake_eq_self (load store).fits).symm
  clean _ := rfl
  stored := rfl

/-- A changed baseline whose write succeeds is what was written last, and any other save leaves
all as it was. -/
lemma step_save (l : Life) (writes : Bool) : l.step (.save writes) =
    if l.memory.dirty ∧ writes then
      { l with
        memory := { l.memory with dirty := false }
        store := .numbers l.memory.samples
        saved := some l.memory.samples }
    else l := by
  unfold Life.step saveIfChanged
  split_ifs <;> simp_all

lemma Linked.step {l : Life} (h : l.Linked) (a : Action) : (l.step a).Linked := by
  cases a with
  | observe s =>
    by_cases hs : Qualifies s
    · obtain ⟨hsamples, hdirty⟩ := observe_of_qualifies l.memory hs
      refine ⟨?_, fun hclean => ?_, h.stored⟩
      · simp only [Life.step, hs, if_true, hsamples, h.samples]
        rw [push_rtake _ _ _ (by decide), List.append_assoc]
      · simp [Life.step, hdirty] at hclean
    · have hsame : l.step (.observe s) = l := by
        simp [Life.step, hs, observe_of_not_qualifies l.memory hs]
      rw [hsame]
      exact h
  | save writes =>
    rw [step_save]
    split
    · have hload := load_samples l.memory
      exact ⟨h.samples, fun _ => hload, hload⟩
    · exact h
  | restart =>
    refine ⟨?_, fun _ => rfl, ?_⟩
    · rw [Life.step, List.append_nil]
      exact (rtake_eq_self (load l.store).fits).symm
    · rw [Life.step, h.stored]
      cases l.saved <;> simp

lemma run_linked (store : BaselineStore) (actions : List Action) : (run store actions).Linked := by
  induction actions using List.reverseRecOn with
  | nil => exact start_linked store
  | append_singleton actions a ih =>
    rw [run, List.foldl_concat]
    exact ih.step a

end Life
end Life

end DiskBaseline
end LoadBear
