import Mathlib.Algebra.Ring.Nat
import Mathlib.Data.Fintype.Basic
import Mathlib.Data.Finset.Erase
import Mathlib.Logic.Relation

/-!
# Sequence locks

One writer and one reader share a record whose fields are stored and loaded one at a time,
in any order. The writer makes the sequence number odd, stores the record, and makes the
number even again. The reader copies the record between two loads of the number and keeps
the copy when both gave the same even value. A writer may also start over: it then stores a
blank record with nothing to mark it.
-/
namespace LoadBear

/-- A record stored and loaded one field at a time, with a sequence number among its fields. -/
class SequencedRecord (R : Type) where
  Cell : Type
  [decidableEq : DecidableEq Cell]
  [fintype : Fintype Cell]
  Value : Cell → Type
  get : (i : Cell) → R → Value i
  /-- The second record with one field of the first. -/
  copy : Cell → R → R → R
  sequenceCell : Cell
  sequence : R → UInt32
  withSequence : R → UInt32 → R
  /-- The record a writer that starts over stores. -/
  blank : R
  /-- What is stored of a record, under the sequence number that marks the write. -/
  payload : R → UInt32 → R
  /-- How often a read tries before it gives up. -/
  attempts : ℕ
  ext_get : ∀ {a b : R}, (∀ i, get i a = get i b) → a = b
  get_copy_self : ∀ i source target, get i (copy i source target) = get i source
  get_copy_of_ne : ∀ {i j}, j ≠ i → ∀ source target, get j (copy i source target) = get j target
  sequence_congr : ∀ {a b : R}, get sequenceCell a = get sequenceCell b → sequence a = sequence b
  sequence_withSequence : ∀ record word, sequence (withSequence record word) = word
  sequence_payload : ∀ record word, sequence (payload record word) = word
  sequence_blank : sequence blank % 2 = 0

namespace Seqlock

open SequencedRecord

variable {R : Type} [SequencedRecord R]

instance : DecidableEq (Cell R) := decidableEq

instance : Fintype (Cell R) := fintype

/-- Where the writer stands. -/
inductive Writer (R : Type) [SequencedRecord R] where
  | idle
  | resetting (pending : Finset (Cell R))
  | loaded (record : R)
  | writing (record : R) (pending : Finset (Cell R))

/-- Where the reader stands: how many attempts are left, and in an attempt the first load of
the sequence number, the copy so far and how many publishes the attempt has met. -/
inductive Reader (R : Type) [SequencedRecord R] where
  | idle
  | trying (left : ℕ)
  | copying (left : ℕ) (before : UInt32) (snapshot : R) (pending : Finset (Cell R)) (overlap : ℕ)

/-- The shared record and both parties. The last three say what was written whole: the record
last settled, the one settled when the present writer started, and those it has published.
No step depends on them. -/
structure State (R : Type) [SequencedRecord R] where
  memory : R
  writer : Writer R
  reader : Reader R
  current : R
  inherited : R
  published : List R

/-- A step of the writer: `create` and `created` start over and are done with it, `load` begins
a publish. -/
inductive WriterAction (R : Type) [SequencedRecord R] where
  | create
  | reset (i : Cell R)
  | created
  | load (reading : R)
  | raise
  | store (i : Cell R)
  | settle

/-- A step of the reader: `read` is the call, `check` and `recheck` are the two loads of the
sequence number. -/
inductive ReaderAction (R : Type) [SequencedRecord R] where
  | read
  | check
  | copy (i : Cell R)
  | recheck

inductive Action (R : Type) [SequencedRecord R] where
  | writer (a : WriterAction R)
  | reader (a : ReaderAction R)

/-- Publishes that have begun and are not over. -/
def Writer.publishing : Writer R → ℕ
  | .idle | .resetting _ => 0
  | .loaded _ | .writing _ _ => 1

/-- Whether the writer is starting over. -/
def Writer.resets : Writer R → Bool
  | .resetting _ => true
  | _ => false

/-- Whether an attempt is between its two loads. -/
def Reader.copies : Reader R → Bool
  | .copying _ _ _ _ _ => true
  | _ => false

/-- An attempt in progress meets one more publish. -/
def Reader.meet : Reader R → Reader R
  | .copying left before snapshot pending overlap =>
    .copying left before snapshot pending (overlap + 1)
  | reader => reader

lemma Reader.meet_eq_copying {r : Reader R} {left : ℕ} {before : UInt32} {snapshot : R}
    {pending : Finset (Cell R)} {overlap : ℕ} :
    r.meet = .copying left before snapshot pending overlap ↔
      ∃ met, r = .copying left before snapshot pending met ∧ met + 1 = overlap := by
  cases r <;> simp [Reader.meet]
  grind

/-- A settled record before any publish. -/
def start (first : R) : State R :=
  { memory := first
    writer := .idle
    reader := .idle
    current := first
    inherited := first
    published := [] }

/-- The record that the read in progress returns if its last load comes now. -/
def State.returns (s : State R) : Option R :=
  match s.reader with
  | .copying _ before snapshot pending _ =>
    if pending = ∅ ∧ sequence s.memory = before then some snapshot else none
  | _ => none

/-- How many publishes the attempt in progress has met. -/
def State.overlap (s : State R) : ℕ :=
  match s.reader with
  | .copying _ _ _ _ overlap => overlap
  | _ => 0

/-- One step of the writer. -/
def writerStep (s : State R) : WriterAction R → Option (State R)
  | .create =>
    some { s with writer := .resetting Finset.univ, inherited := s.current, published := [] }
  | .reset i =>
    match s.writer with
    | .resetting pending =>
      if i ∈ pending then
        some { s with
          memory := SequencedRecord.copy i blank s.memory
          writer := .resetting (pending.erase i) }
      else none
    | _ => none
  | .created =>
    match s.writer with
    | .resetting pending =>
      if pending = ∅ then some { s with writer := .idle, current := blank } else none
    | _ => none
  | .load reading =>
    match s.writer with
    | .idle =>
      some { s with
        writer := .loaded (payload reading (sequence s.memory + 1))
        reader := s.reader.meet }
    | _ => none
  | .raise =>
    match s.writer with
    | .loaded record =>
      some { s with
        memory := withSequence s.memory (sequence record)
        writer := .writing record Finset.univ }
    | _ => none
  | .store i =>
    match s.writer with
    | .writing record pending =>
      if i ∈ pending then
        some { s with
          memory := SequencedRecord.copy i record s.memory
          writer := .writing record (pending.erase i) }
      else none
    | _ => none
  | .settle =>
    match s.writer with
    | .writing record pending =>
      if pending = ∅ then
        let whole := withSequence record (sequence record + 1)
        some { s with
          memory := withSequence s.memory (sequence record + 1)
          writer := .idle
          current := whole
          published := whole :: s.published }
      else none
    | _ => none

/-- One step of the reader. -/
def readerStep (s : State R) : ReaderAction R → Option (State R)
  | .read =>
    match s.reader with
    | .idle => some { s with reader := .trying (attempts R) }
    | _ => none
  | .check =>
    match s.reader with
    | .trying 0 => some { s with reader := .idle }
    | .trying (left + 1) =>
      if sequence s.memory % 2 ≠ 0 then some { s with reader := .trying left }
      else some { s with
        reader := .copying left (sequence s.memory) blank Finset.univ s.writer.publishing }
    | _ => none
  | .copy i =>
    match s.reader with
    | .copying left before snapshot pending overlap =>
      if i ∈ pending then
        some { s with
          reader := .copying left before (SequencedRecord.copy i s.memory snapshot)
            (pending.erase i) overlap }
      else none
    | _ => none
  | .recheck =>
    match s.reader with
    | .copying left before _ pending _ =>
      if pending = ∅ then
        some { s with reader := if sequence s.memory = before then .idle else .trying left }
      else none
    | _ => none

def step (s : State R) : Action R → Option (State R)
  | .writer a => writerStep s a
  | .reader a => readerStep s a

section Inversion
variable {s t : State R} {i : Cell R}

lemma writerStep_reset : writerStep s (.reset i) = some t ↔
    ∃ pending, s.writer = .resetting pending ∧ i ∈ pending ∧
      { s with
        memory := SequencedRecord.copy i blank s.memory
        writer := .resetting (pending.erase i) } = t := by
  cases hw : s.writer <;> simp [writerStep, hw]

lemma writerStep_created : writerStep s .created = some t ↔
    s.writer = .resetting ∅ ∧ { s with writer := .idle, current := blank } = t := by
  cases hw : s.writer <;> simp [writerStep, hw]

lemma writerStep_load {reading : R} : writerStep s (.load reading) = some t ↔
    s.writer = .idle ∧
      { s with
        writer := .loaded (payload reading (sequence s.memory + 1))
        reader := s.reader.meet } = t := by
  cases hw : s.writer <;> simp [writerStep, hw]

lemma writerStep_raise : writerStep s .raise = some t ↔
    ∃ record, s.writer = .loaded record ∧
      { s with
        memory := withSequence s.memory (sequence record)
        writer := .writing record Finset.univ } = t := by
  cases hw : s.writer <;> simp [writerStep, hw]

lemma writerStep_store : writerStep s (.store i) = some t ↔
    ∃ record pending, s.writer = .writing record pending ∧ i ∈ pending ∧
      { s with
        memory := SequencedRecord.copy i record s.memory
        writer := .writing record (pending.erase i) } = t := by
  cases hw : s.writer <;> simp [writerStep, hw]

lemma writerStep_settle : writerStep s .settle = some t ↔
    ∃ record, s.writer = .writing record ∅ ∧
      { s with
        memory := withSequence s.memory (sequence record + 1)
        writer := .idle
        current := withSequence record (sequence record + 1)
        published := withSequence record (sequence record + 1) :: s.published } = t := by
  cases hw : s.writer with
  | writing record pending =>
    by_cases hpending : pending = ∅ <;> simp [writerStep, hw, hpending]
  | _ => simp [writerStep, hw]

lemma readerStep_copy : readerStep s (.copy i) = some t ↔
    ∃ left before snapshot pending overlap,
      s.reader = .copying left before snapshot pending overlap ∧ i ∈ pending ∧
      { s with
        reader := .copying left before (SequencedRecord.copy i s.memory snapshot)
          (pending.erase i) overlap } = t := by
  cases hr : s.reader <;> simp [readerStep, hr]

end Inversion

section Runs
variable (condition : State R → Action R → Prop)

/-- What steps that all satisfy a condition lead to. -/
def Reaches : State R → State R → Prop :=
  Relation.ReflTransGen fun s t => ∃ a, condition s a ∧ step s a = some t

/-- The steps one after the other, the condition checked at each. -/
def run [∀ s a, Decidable (condition s a)] (s : State R) : List (Action R) → Option (State R)
  | [] => some s
  | a :: actions => if condition s a then (step s a).bind (run · actions) else none

variable {condition}

lemma reaches_of_run [∀ s a, Decidable (condition s a)] {s t : State R}
    {actions : List (Action R)} (h : run condition s actions = some t) :
    Reaches condition s t := by
  induction actions generalizing s with
  | nil =>
    obtain rfl := Option.some.inj h
    exact .refl
  | cons a actions ih =>
    by_cases hc : condition s a
    · rw [run, if_pos hc] at h
      obtain ⟨u, hstep, hrest⟩ := Option.bind_eq_some_iff.mp h
      exact .head ⟨a, hc, hstep⟩ (ih hrest)
    · simp [run, hc] at h

lemma reaches_getD_run [∀ s a, Decidable (condition s a)] {s : State R}
    {actions : List (Action R)} (h : (run condition s actions).isSome) :
    Reaches condition s ((run condition s actions).getD s) := by
  obtain ⟨t, ht⟩ := Option.isSome_iff_exists.mp h
  rw [ht]
  exact reaches_of_run ht

/-- What every step keeps, a run keeps. -/
lemma Reaches.keeps {P : State R → Prop} {s t : State R} (h : Reaches condition s t)
    (hstep : ∀ s t a, P s → condition s a → step s a = some t → P t) (hs : P s) : P t := by
  induction h with
  | refl => exact hs
  | tail _ hlast ih =>
    obtain ⟨a, hc, hnext⟩ := hlast
    exact hstep _ _ a ih hc hnext

end Runs

section Words

lemma even_succ {w : UInt32} (h : w % 2 = 0) : (w + 1) % 2 = 1 := by
  have h' := congrArg UInt32.toNat h
  apply UInt32.toNat.inj
  simp at h' ⊢
  omega

lemma odd_succ {w : UInt32} (h : w % 2 = 1) : (w + 1) % 2 = 0 := by
  have h' := congrArg UInt32.toNat h
  apply UInt32.toNat.inj
  simp at h' ⊢
  omega

lemma add_ofNat_succ (w : UInt32) (k : ℕ) : w + UInt32.ofNat k + 1 = w + UInt32.ofNat (k + 1) := by
  simp [UInt32.add_assoc]

/-- A word comes back to itself only after all the others. -/
lemma eq_zero_of_add_ofNat {w : UInt32} {k : ℕ} (h : w + UInt32.ofNat k = w) (hk : k < 2 ^ 32) :
    k = 0 := by
  have hzero := congrArg UInt32.toNat (show UInt32.ofNat k = 0 by simpa using h)
  simp at hzero
  omega

end Words

section Invariant

/-- What the phase of the writer says of the record. -/
def State.Written (s : State R) : Prop :=
  match s.writer with
  | .idle => s.memory = s.current ∧ sequence s.memory % 2 = 0
  | .resetting pending => ∀ i ∉ pending, get i s.memory = get i blank
  | .loaded record =>
    s.memory = s.current ∧ sequence s.memory % 2 = 0 ∧ sequence record = sequence s.memory + 1
  | .writing record pending =>
    sequence s.memory = sequence record ∧ sequence record % 2 = 1 ∧
      ∀ i ∉ pending, get i s.memory = get i record

/-- Stores of the sequence number the publish has yet to make. -/
@[simp]
def Writer.toRaise : Writer R → ℕ
  | .idle | .resetting _ => 0
  | .loaded _ => 2
  | .writing _ _ => 1

/-- The record is the settled one, or wholly the blank one of a writer that starts over. -/
def State.Whole (s : State R) : Prop :=
  s.memory = s.current ∨ s.writer.resets ∧ s.memory = blank

/-- Since the first load of an attempt the number was raised `k` times, and while it was not,
the copy is one of a whole record. -/
structure State.Since (s : State R) (before : UInt32) (snapshot : R) (pending : Finset (Cell R))
    (overlap k : ℕ) : Prop where
  sequence_eq : sequence s.memory = before + UInt32.ofNat k
  count_le : k + s.writer.toRaise ≤ 2 * overlap
  pos_of_writing : s.writer.toRaise = 1 → 0 < k
  whole : k = 0 → s.Whole ∧ ∀ i ∉ pending, get i snapshot = get i s.memory

def State.Attempted (s : State R) : Prop :=
  ∀ left before snapshot pending overlap,
    s.reader = .copying left before snapshot pending overlap →
      ∃ k, s.Since before snapshot pending overlap k

/-- No attempt begins from an even number on a record that the writer starting over has half
replaced, and nothing that starting over stores changes the record under an attempt. -/
def Undisturbed (s : State R) : Action R → Prop
  | .reader .check =>
    s.writer.resets → sequence s.memory % 2 = 1 ∨ s.memory = s.current ∨ s.memory = blank
  | .writer (.reset i) => s.reader.copies → get i s.memory = get i blank
  | _ => True

instance [DecidableEq R] [∀ i : Cell R, DecidableEq (Value i)] (s : State R) (a : Action R) :
    Decidable (Undisturbed s a) :=
  match a with
  | .reader .check => inferInstanceAs (Decidable (_ → _))
  | .writer (.reset _) => inferInstanceAs (Decidable (_ → _))
  | .reader .read | .reader (.copy _) | .reader .recheck => isTrue trivial
  | .writer .create | .writer .created | .writer (.load _) => isTrue trivial
  | .writer .raise | .writer (.store _) | .writer .settle => isTrue trivial

/-- Storing a field of a record with the same number leaves the number. -/
lemma sequence_copy_of_eq {source target : R} (h : sequence target = sequence source)
    (i : Cell R) : sequence (SequencedRecord.copy i source target) = sequence source := by
  by_cases hi : i = sequenceCell
  · exact sequence_congr (hi ▸ get_copy_self i source target)
  · rw [← h]
    exact sequence_congr (get_copy_of_ne (Ne.symm hi) source target)

lemma copy_eq_self {source target : R} {i : Cell R} (h : get i target = get i source) :
    SequencedRecord.copy i source target = target := by
  apply ext_get
  intro j
  by_cases hj : j = i
  · rw [hj, get_copy_self, h]
  · exact get_copy_of_ne hj source target

/-- Storing one more field of a record leaves the others as they were. -/
lemma get_copy_of_erased {source target : R} {i : Cell R} {pending : Finset (Cell R)}
    (h : ∀ j ∉ pending, get j target = get j source) {j : Cell R} (hj : j ∉ pending.erase i) :
    get j (SequencedRecord.copy i source target) = get j source := by
  by_cases hji : j = i
  · rw [hji, get_copy_self]
  · rw [get_copy_of_ne hji]
    exact h j fun hmem => hj (Finset.mem_erase.mpr ⟨hji, hmem⟩)

lemma eq_of_none_pending {a b : R} {pending : Finset (Cell R)}
    (h : ∀ i ∉ pending, get i a = get i b) (hpending : pending = ∅) : a = b :=
  ext_get fun i => h i (by simp [hpending])

/-- The reader changes nothing but its own place. -/
lemma readerStep_frame {s t : State R} {a : ReaderAction R} (h : readerStep s a = some t) :
    t = { s with reader := t.reader } := by
  cases a <;> simp only [readerStep] at h <;> split at h <;> try split at h
  all_goals simp_all
  all_goals subst h; rfl

/-- Each step of the writer leaves the record as its next phase says. -/
lemma written_writerStep {s t : State R} {a : WriterAction R} (hs : s.Written)
    (h : writerStep s a = some t) : t.Written := by
  unfold State.Written at hs
  cases a with
  | create =>
    obtain rfl := Option.some.inj h
    exact fun i hi => absurd (Finset.mem_univ i) hi
  | reset i =>
    obtain ⟨pending, hw, -, rfl⟩ := writerStep_reset.mp h
    simp only [hw] at hs
    exact fun j hj => get_copy_of_erased hs hj
  | created =>
    obtain ⟨hw, rfl⟩ := writerStep_created.mp h
    simp only [hw] at hs
    have hblank := eq_of_none_pending hs rfl
    refine ⟨hblank, ?_⟩
    rw [hblank]
    exact sequence_blank
  | load reading =>
    obtain ⟨hw, rfl⟩ := writerStep_load.mp h
    simp only [hw] at hs
    exact ⟨hs.1, hs.2, sequence_payload _ _⟩
  | raise =>
    obtain ⟨record, hw, rfl⟩ := writerStep_raise.mp h
    simp only [hw] at hs
    obtain ⟨-, heven, hrecord⟩ := hs
    refine ⟨sequence_withSequence _ _, ?_, fun i hi => absurd (Finset.mem_univ i) hi⟩
    rw [hrecord]
    exact even_succ heven
  | store i =>
    obtain ⟨record, pending, hw, -, rfl⟩ := writerStep_store.mp h
    simp only [hw] at hs
    obtain ⟨hsequence, hodd, hfields⟩ := hs
    exact ⟨sequence_copy_of_eq hsequence i, hodd, fun j hj => get_copy_of_erased hfields hj⟩
  | settle =>
    obtain ⟨record, hw, rfl⟩ := writerStep_settle.mp h
    simp only [hw] at hs
    obtain ⟨-, hodd, hfields⟩ := hs
    refine ⟨congrArg (withSequence · _) (eq_of_none_pending hfields rfl), ?_⟩
    rw [sequence_withSequence]
    exact odd_succ hodd

/-- A publish under an attempt makes one of its two stores of the number. -/
lemma State.Since.raised {s t : State R} {before : UInt32} {snapshot : R}
    {pending : Finset (Cell R)} {overlap k : ℕ} (hk : s.Since before snapshot pending overlap k)
    (hnumber : sequence t.memory = sequence s.memory + 1)
    (hphase : t.writer.toRaise + 1 = s.writer.toRaise) :
    t.Since before snapshot pending overlap (k + 1) := by
  have hcount := hk.count_le
  refine ⟨?_, by omega, fun _ => k.succ_pos, nofun⟩
  rw [hnumber, hk.sequence_eq, add_ofNat_succ]

/-- Under an attempt the number only goes up, and by no more than the publishes it meets. -/
lemma attempted_writerStep {s t : State R} {a : WriterAction R} (hw : s.Written)
    (hs : s.Attempted) (hcalm : Undisturbed s (.writer a)) (h : writerStep s a = some t) :
    t.Attempted := by
  unfold State.Written at hw
  intro left before snapshot pending overlap hreader
  cases a with
  | create =>
    obtain rfl := Option.some.inj h
    obtain ⟨k, hk⟩ := hs _ _ _ _ _ hreader
    refine ⟨k, hk.sequence_eq, (Nat.le_add_right _ _).trans hk.count_le, nofun, fun hzero => ?_⟩
    obtain ⟨hwhole, hcopied⟩ := hk.whole hzero
    exact ⟨hwhole.imp_right fun hblank => ⟨rfl, hblank.2⟩, hcopied⟩
  | reset i =>
    obtain ⟨left', hphase, -, rfl⟩ := writerStep_reset.mp h
    obtain ⟨k, hk⟩ := hs _ _ _ _ _ hreader
    have hsame : SequencedRecord.copy i blank s.memory = s.memory :=
      copy_eq_self (hcalm (by rw [hreader]; rfl))
    refine ⟨k, ?_, ?_, nofun, fun hzero => ?_⟩
    · simpa only [hsame] using hk.sequence_eq
    · simpa [hphase] using hk.count_le
    · obtain ⟨hwhole, hcopied⟩ := hk.whole hzero
      simp only [hsame, State.Whole]
      exact ⟨hwhole.imp_right fun hblank => ⟨rfl, hblank.2⟩, hcopied⟩
  | created =>
    obtain ⟨hphase, rfl⟩ := writerStep_created.mp h
    obtain ⟨k, hk⟩ := hs _ _ _ _ _ hreader
    simp only [hphase] at hw
    refine ⟨k, hk.sequence_eq, by simpa [hphase] using hk.count_le, nofun, fun hzero => ?_⟩
    exact ⟨.inl (eq_of_none_pending hw rfl), (hk.whole hzero).2⟩
  | load reading =>
    obtain ⟨hphase, rfl⟩ := writerStep_load.mp h
    obtain ⟨met, hreader', rfl⟩ := Reader.meet_eq_copying.mp hreader
    obtain ⟨k, hk⟩ := hs _ _ _ _ _ hreader'
    have hcount := hk.count_le
    simp only [hphase] at hw
    refine ⟨k, hk.sequence_eq, ?_, nofun, fun hzero => ⟨.inl hw.1, (hk.whole hzero).2⟩⟩
    simp only [Writer.toRaise]
    omega
  | raise =>
    obtain ⟨record, hphase, rfl⟩ := writerStep_raise.mp h
    obtain ⟨k, hk⟩ := hs _ _ _ _ _ hreader
    simp only [hphase] at hw
    refine ⟨k + 1, hk.raised ?_ (by rw [hphase]; rfl)⟩
    rw [sequence_withSequence, hw.2.2]
  | store i =>
    obtain ⟨record, left', hphase, -, rfl⟩ := writerStep_store.mp h
    obtain ⟨k, hk⟩ := hs _ _ _ _ _ hreader
    simp only [hphase] at hw
    have hpos : 0 < k := hk.pos_of_writing (by rw [hphase]; rfl)
    refine ⟨k, ?_, by simpa [hphase] using hk.count_le, fun _ => hpos, by omega⟩
    rw [sequence_copy_of_eq hw.1 i, ← hw.1, hk.sequence_eq]
  | settle =>
    obtain ⟨record, hphase, rfl⟩ := writerStep_settle.mp h
    obtain ⟨k, hk⟩ := hs _ _ _ _ _ hreader
    simp only [hphase] at hw
    refine ⟨k + 1, hk.raised ?_ (by rw [hphase]; rfl)⟩
    rw [sequence_withSequence, ← hw.1]

/-- An even number stands on a whole record. -/
lemma whole_of_even {s : State R} (hs : s.Written) (hcalm : Undisturbed s (.reader .check))
    (heven : sequence s.memory % 2 = 0) : s.Whole ∧ s.writer.toRaise ≠ 1 := by
  have hodd : sequence s.memory % 2 ≠ 1 := by
    rw [heven]
    decide
  unfold State.Written at hs
  cases hw : s.writer with
  | idle =>
    simp only [hw] at hs
    exact ⟨.inl hs.1, by simp⟩
  | loaded record =>
    simp only [hw] at hs
    exact ⟨.inl hs.1, by simp⟩
  | resetting pending =>
    have hresets : s.writer.resets := by rw [hw]; rfl
    have hwhole := (hcalm hresets).resolve_left hodd
    exact ⟨hwhole.imp_right fun hblank => ⟨hresets, hblank⟩, by simp⟩
  | writing record pending =>
    simp only [hw] at hs
    exact absurd (hs.1 ▸ hs.2.1) hodd

/-- An attempt begins with a whole record, and copies it field by field. -/
lemma attempted_readerStep {s t : State R} {a : ReaderAction R} (hw : s.Written)
    (hs : s.Attempted) (hcalm : Undisturbed s (.reader a)) (h : readerStep s a = some t) :
    t.Attempted := by
  intro left before snapshot pending overlap hreader
  cases a with
  | read =>
    simp only [readerStep] at h
    split at h
    · obtain rfl := Option.some.inj h
      simp at hreader
    · simp at h
  | check =>
    simp only [readerStep] at h
    split at h
    · obtain rfl := Option.some.inj h
      simp at hreader
    · split at h
      · obtain rfl := Option.some.inj h
        simp at hreader
      · rename_i heven
        obtain rfl := Option.some.inj h
        have hparity : sequence s.memory % 2 = 0 := not_not.mp heven
        obtain ⟨hwhole, hraise⟩ := whole_of_even hw hcalm hparity
        simp only [Reader.copying.injEq] at hreader
        obtain ⟨-, rfl, rfl, rfl, rfl⟩ := hreader
        refine ⟨0, by simp, ?_, fun hone => absurd hone hraise, fun _ => ⟨hwhole, by simp⟩⟩
        cases s.writer <;> simp [Writer.publishing]
    · simp at h
  | copy i =>
    obtain ⟨left', before', snapshot', pending', overlap', hphase, -, rfl⟩ :=
      readerStep_copy.mp h
    simp only [Reader.copying.injEq] at hreader
    obtain ⟨rfl, rfl, rfl, rfl, rfl⟩ := hreader
    obtain ⟨k, hk⟩ := hs _ _ _ _ _ hphase
    refine ⟨k, hk.sequence_eq, hk.count_le, hk.pos_of_writing, fun hzero => ?_⟩
    exact ⟨(hk.whole hzero).1, fun j hj => get_copy_of_erased (hk.whole hzero).2 hj⟩
  | recheck =>
    simp only [readerStep] at h
    split at h
    · split at h
      · obtain rfl := Option.some.inj h
        split at hreader <;> simp at hreader
      · simp at h
    · simp at h

end Invariant

section Runs

/-- What a run keeps: the phase of each party says what it has stored or copied. -/
def State.Sound (s : State R) : Prop := s.Written ∧ s.Attempted

lemma start_sound {first : R} (h : sequence first % 2 = 0) : (start first).Sound :=
  ⟨⟨rfl, h⟩, nofun⟩

lemma sound_step {s t : State R} {a : Action R} (hs : s.Sound) (hcalm : Undisturbed s a)
    (h : step s a = some t) : t.Sound := by
  cases a with
  | writer a => exact ⟨written_writerStep hs.1 h, attempted_writerStep hs.1 hs.2 hcalm h⟩
  | reader a =>
    refine ⟨?_, attempted_readerStep hs.1 hs.2 hcalm h⟩
    rw [readerStep_frame h]
    exact hs.1

/-- A read that met fewer publishes than there are even numbers returns the whole record that
is there when it returns. -/
theorem returns_whole {s : State R} (hs : s.Sound) {r : R} (hr : s.returns = some r)
    (hoverlap : s.overlap < 2 ^ 31) : s.Whole ∧ r = s.memory := by
  unfold State.returns at hr
  unfold State.overlap at hoverlap
  split at hr
  · rename_i left before snapshot pending overlap hreader
    obtain ⟨⟨hpending, hword⟩, hsnapshot⟩ := Option.ite_none_right_eq_some.mp hr
    obtain rfl := Option.some.inj hsnapshot
    obtain ⟨k, hk⟩ := hs.2 _ _ _ _ _ hreader
    simp only [hreader] at hoverlap
    have hcount := hk.count_le
    have hzero : k = 0 := eq_zero_of_add_ofNat (hk.sequence_eq.symm.trans hword) (by omega)
    obtain ⟨hwhole, hcopied⟩ := hk.whole hzero
    exact ⟨hwhole, eq_of_none_pending hcopied hpending⟩
  · simp at hr

/-- The settled record is the one the writer started from, a blank one or one it published. -/
def State.Accounted (s : State R) : Prop :=
  s.current = s.inherited ∨ s.current = blank ∨ s.current ∈ s.published

lemma accounted_step {s t : State R} {a : Action R} (hs : s.Accounted) (h : step s a = some t) :
    t.Accounted := by
  cases a with
  | reader a => rwa [readerStep_frame h]
  | writer a =>
    cases a with
    | create =>
      obtain rfl := Option.some.inj h
      exact .inl rfl
    | reset i =>
      obtain ⟨pending, -, -, rfl⟩ := writerStep_reset.mp h
      exact hs
    | created =>
      obtain ⟨-, rfl⟩ := writerStep_created.mp h
      exact .inr (.inl rfl)
    | load reading =>
      obtain ⟨-, rfl⟩ := writerStep_load.mp h
      exact hs
    | raise =>
      obtain ⟨record, -, rfl⟩ := writerStep_raise.mp h
      exact hs
    | store i =>
      obtain ⟨record, pending, -, -, rfl⟩ := writerStep_store.mp h
      exact hs
    | settle =>
      obtain ⟨record, -, rfl⟩ := writerStep_settle.mp h
      exact .inr (.inr List.mem_cons_self)

/-- A run in which the writer never starts over. -/
def Continues (_ : State R) : Action R → Prop
  | .writer .create => False
  | _ => True

instance (s : State R) (a : Action R) : Decidable (Continues s a) :=
  match a with
  | .writer .create => isFalse id
  | .writer (.reset _) | .writer .created | .writer (.load _) => isTrue trivial
  | .writer .raise | .writer (.store _) | .writer .settle => isTrue trivial
  | .reader _ => isTrue trivial

/-- The writer of such a run has not started over, and the settled record is the first one
or one it published. -/
structure State.Continued (first : R) (s : State R) : Prop where
  sound : s.Sound
  resets : s.writer.resets = false
  current : s.current = first ∨ s.current ∈ s.published

lemma undisturbed_of_continued {first : R} {s t : State R} {a : Action R}
    (hs : s.Continued first) (h : step s a = some t) : Undisturbed s a := by
  have hreset : s.writer.resets ≠ true := by simp [hs.resets]
  cases a with
  | reader a =>
    cases a with
    | check => exact fun hresets => absurd hresets hreset
    | _ => trivial
  | writer a =>
    cases a with
    | reset i =>
      obtain ⟨pending, hphase, -⟩ := writerStep_reset.mp h
      exact absurd (by rw [hphase]; rfl) hreset
    | _ => trivial

lemma continued_step {first : R} {s t : State R} {a : Action R} (hs : s.Continued first)
    (hc : Continues s a) (h : step s a = some t) : t.Continued first := by
  have hsound := sound_step hs.sound (undisturbed_of_continued hs h) h
  have hreset := hs.resets
  cases a with
  | reader a =>
    refine ⟨hsound, ?_, ?_⟩ <;> rw [readerStep_frame h]
    · exact hreset
    · exact hs.current
  | writer a =>
    cases a with
    | create => exact hc.elim
    | reset i =>
      obtain ⟨pending, hphase, -⟩ := writerStep_reset.mp h
      simp [hphase, Writer.resets] at hreset
    | created =>
      obtain ⟨hphase, -⟩ := writerStep_created.mp h
      simp [hphase, Writer.resets] at hreset
    | load reading =>
      obtain ⟨-, rfl⟩ := writerStep_load.mp h
      exact ⟨hsound, rfl, hs.current⟩
    | raise =>
      obtain ⟨record, -, rfl⟩ := writerStep_raise.mp h
      exact ⟨hsound, rfl, hs.current⟩
    | store i =>
      obtain ⟨record, pending, -, -, rfl⟩ := writerStep_store.mp h
      exact ⟨hsound, rfl, hs.current⟩
    | settle =>
      obtain ⟨record, -, rfl⟩ := writerStep_settle.mp h
      exact ⟨hsound, rfl, .inr List.mem_cons_self⟩

/-- While one writer publishes, the settled record is the first one or one it published. -/
theorem continued_of_reaches {first : R} (hfirst : sequence first % 2 = 0) {s : State R}
    (h : Reaches Continues (start first) s) : s.Continued first :=
  h.keeps (fun _ _ _ hs hc hstep => continued_step hs hc hstep)
    ⟨start_sound hfirst, rfl, .inl rfl⟩

/-- Between publishes the number is even. -/
lemma even_of_idle {s : State R} (hs : s.Sound) (hidle : s.writer = .idle) :
    sequence s.memory % 2 = 0 := by
  have hwritten := hs.1
  unfold State.Written at hwritten
  simp only [hidle] at hwritten
  exact hwritten.2

/-- Under an even number the record is the settled one, also where a publish has begun but has
not raised the number yet. -/
lemma State.Continued.memory_of_even {first : R} {s : State R} (hs : s.Continued first)
    (heven : sequence s.memory % 2 = 0) : s.memory = s.current := by
  have hwritten := hs.sound.1
  unfold State.Written at hwritten
  cases hw : s.writer with
  | idle =>
    simp only [hw] at hwritten
    exact hwritten.1
  | resetting pending => simpa [hw, Writer.resets] using hs.resets
  | loaded record =>
    simp only [hw] at hwritten
    exact hwritten.1
  | writing record pending =>
    simp only [hw] at hwritten
    rw [hwritten.1, hwritten.2.1] at heven
    exact absurd heven (by decide)

end Runs
end Seqlock
end LoadBear
