import Mathlib.Data.Fintype.Card
import LoadBear.Seqlock

/-!
# The register a sequence lock implements

Seen from outside, a publish is the moment its number becomes even again and a read the moment
of its second load. In that order the publishes and the reads of a run are those of one
register, written and read in a single step. A read needs a bounded number of its own steps,
whatever the writer does meanwhile, and with the writer at rest it gets the record at its first
attempt.
-/
namespace LoadBear

namespace Register

variable {R : Type}

/-- What happens to a register. -/
inductive Event (R : Type) where
  | write (r : R)
  | read (r : R)
  deriving DecidableEq

/-- Each read of the events gives what the register holds, and `last` is what it holds after
them. -/
inductive Accepts : R → List (Event R) → R → Prop
  | nil (r : R) : Accepts r [] r
  | write {r new last : R} {events : List (Event R)} (h : Accepts new events last) :
      Accepts r (.write new :: events) last
  | read {r last : R} {events : List (Event R)} (h : Accepts r events last) :
      Accepts r (.read r :: events) last

lemma Accepts.append {r middle last : R} {events later : List (Event R)}
    (h : Accepts r events middle) (h' : Accepts middle later last) :
    Accepts r (events ++ later) last := by
  induction h with
  | nil => exact h'
  | write _ ih => exact .write (ih h')
  | read _ ih => exact .read (ih h')

/-- What the register holds after the events. -/
def latest (r : R) : List (Event R) → R
  | [] => r
  | .write new :: events => latest new events
  | .read _ :: events => latest r events

/-- A read gives what was written last before it. -/
lemma Accepts.read_eq {r seen last : R} {earlier later : List (Event R)}
    (h : Accepts r (earlier ++ .read seen :: later) last) : seen = latest r earlier := by
  induction earlier generalizing r with
  | nil =>
    cases h
    rfl
  | cons event earlier ih =>
    cases h with
    | write h => exact ih h
    | read h => exact ih h

lemma latest_append (r : R) (events later : List (Event R)) :
    latest r (events ++ later) = latest (latest r events) later := by
  induction events generalizing r with
  | nil => rfl
  | cons event events ih => cases event <;> exact ih _

/-- The register holds what it held before, or what was written since. -/
lemma latest_eq_or_mem (r : R) (events : List (Event R)) :
    latest r events = r ∨ .write (latest r events) ∈ events := by
  induction events generalizing r with
  | nil => exact .inl rfl
  | cons event events ih =>
    cases event with
    | write new =>
      rcases ih new with hsame | hmem
      · refine .inr ?_
        rw [latest, hsame]
        exact List.mem_cons_self
      · exact .inr (List.mem_cons_of_mem _ hmem)
    | read seen => exact (ih r).imp_right (List.mem_cons_of_mem _)

/-- Of two reads the later gives what the earlier gave, or what was written between them. -/
lemma Accepts.read_of_read {r seen again last : R} {earlier between later : List (Event R)}
    (h : Accepts r (earlier ++ .read seen :: (between ++ .read again :: later)) last) :
    again = seen ∨ .write again ∈ between := by
  have hseen : seen = latest r earlier := h.read_eq
  have hassoc : earlier ++ .read seen :: (between ++ .read again :: later) =
      (earlier ++ .read seen :: between) ++ .read again :: later := by simp
  have hagain : again = latest seen between := by
    rw [hassoc] at h
    rw [h.read_eq, latest_append, hseen]
    rfl
  rw [hagain]
  exact latest_eq_or_mem seen between

end Register

namespace Seqlock

open SequencedRecord Register

variable {R : Type} [SequencedRecord R]

/-- What a step does to the register: a settled record is written, a record returned is read. -/
def event (s : State R) : Action R → List (Event R)
  | .writer .settle =>
    match s.writer with
    | .writing record _ => [.write (withSequence record (sequence record + 1))]
    | _ => []
  | .reader .recheck => (s.returns.map Event.read).toList
  | _ => []

/-- What the steps do to the register, one after the other. -/
def history (s : State R) : List (Action R) → List (Event R)
  | [] => []
  | a :: actions => event s a ++ ((step s a).map (history · actions)).getD []

/-- One writer publishes, and no read returns after meeting as many publishes as there are even
numbers. -/
def Bounded (s : State R) : Action R → Prop
  | .writer .create => False
  | .reader .recheck => s.overlap < 2 ^ 31
  | _ => True

instance (s : State R) (a : Action R) : Decidable (Bounded s a) :=
  match a with
  | .writer .create => isFalse id
  | .writer (.reset _) | .writer .created | .writer (.load _) => isTrue trivial
  | .writer .raise | .writer (.store _) | .writer .settle => isTrue trivial
  | .reader .recheck => inferInstanceAs (Decidable (_ < _))
  | .reader .read | .reader .check | .reader (.copy _) => isTrue trivial

lemma Bounded.continues {s : State R} {a : Action R} (h : Bounded s a) : Continues s a := by
  cases a with
  | reader a => trivial
  | writer a => cases a <;> first | exact h.elim | trivial

/-- A step writes the record it settles, and reads the settled one. -/
lemma accepts_step {first : R} {s t : State R} {a : Action R} (hs : s.Continued first)
    (hbound : Bounded s a) (h : step s a = some t) : Accepts s.current (event s a) t.current := by
  cases a with
  | reader a =>
    rw [readerStep_frame h]
    cases a with
    | recheck =>
      cases hr : s.returns with
      | none =>
        simp only [event, hr]
        exact .nil _
      | some r =>
        obtain ⟨hwhole, rfl⟩ := returns_whole hs.sound hr hbound
        have hcurrent : s.memory = s.current := hwhole.resolve_right (by simp [hs.resets])
        simp only [event, hr, hcurrent]
        exact .read (.nil _)
    | _ => exact .nil _
  | writer a =>
    cases a with
    | settle =>
      obtain ⟨record, hphase, rfl⟩ := writerStep_settle.mp h
      simp only [event, hphase]
      exact .write (.nil _)
    | create => exact hbound.elim
    | created =>
      obtain ⟨hphase, -⟩ := writerStep_created.mp h
      have hreset := hs.resets
      simp [hphase, Writer.resets] at hreset
    | reset i =>
      obtain ⟨pending, -, -, rfl⟩ := writerStep_reset.mp h
      exact .nil _
    | load reading =>
      obtain ⟨-, rfl⟩ := writerStep_load.mp h
      exact .nil _
    | raise =>
      obtain ⟨record, -, rfl⟩ := writerStep_raise.mp h
      exact .nil _
    | store i =>
      obtain ⟨record, pending, -, -, rfl⟩ := writerStep_store.mp h
      exact .nil _

/-- The publishes and the reads of a run are those of one register. -/
theorem accepts_history {first : R} {s t : State R} (hs : s.Continued first)
    {actions : List (Action R)} (h : run Bounded s actions = some t) :
    Accepts s.current (history s actions) t.current := by
  induction actions generalizing s with
  | nil =>
    obtain rfl := Option.some.inj h
    exact .nil _
  | cons a actions ih =>
    by_cases hbound : Bounded s a
    · rw [run, if_pos hbound] at h
      obtain ⟨u, hstep, hrest⟩ := Option.bind_eq_some_iff.mp h
      have htail := ih (continued_step hs hbound.continues hstep) hrest
      rw [history, hstep]
      exact (accepts_step hs hbound hstep).append htail
    · simp [run, hbound] at h

section Progress

/-- The steps that a read has left to take at most. -/
def Reader.rank : Reader R → ℕ
  | .idle => 0
  | .trying left => left * (Fintype.card (Cell R) + 2) + 1
  | .copying left _ _ pending _ => left * (Fintype.card (Cell R) + 2) + 1 + (pending.card + 1)

def Action.isReader : Action R → Bool
  | .reader _ => true
  | .writer _ => false

/-- The call of a read. -/
def Action.isCall : Action R → Bool
  | .reader .read => true
  | _ => false

@[simp] lemma rank_meet (r : Reader R) : r.meet.rank = r.rank := by
  cases r <;> rfl

/-- The writer takes no step of the reader and adds none. -/
lemma rank_writerStep {s t : State R} {a : WriterAction R} (h : writerStep s a = some t) :
    t.reader.rank = s.reader.rank := by
  cases a with
  | create =>
    obtain rfl := Option.some.inj h
    rfl
  | reset i =>
    obtain ⟨pending, -, -, rfl⟩ := writerStep_reset.mp h
    rfl
  | created =>
    obtain ⟨-, rfl⟩ := writerStep_created.mp h
    rfl
  | load reading =>
    obtain ⟨-, rfl⟩ := writerStep_load.mp h
    exact rank_meet s.reader
  | raise =>
    obtain ⟨record, -, rfl⟩ := writerStep_raise.mp h
    rfl
  | store i =>
    obtain ⟨record, pending, -, -, rfl⟩ := writerStep_store.mp h
    rfl
  | settle =>
    obtain ⟨record, -, rfl⟩ := writerStep_settle.mp h
    rfl

/-- Every step of a read is one of those it has left. -/
lemma rank_readerStep {s t : State R} {a : ReaderAction R} (hcall : a ≠ .read)
    (h : readerStep s a = some t) : t.reader.rank < s.reader.rank := by
  cases a with
  | read => exact absurd rfl hcall
  | check =>
    simp only [readerStep] at h
    split at h
    · rename_i hr
      obtain rfl := Option.some.inj h
      simp [hr, Reader.rank]
    · rename_i left hr
      have hpositive : 0 < Fintype.card (Cell R) + 2 := Nat.succ_pos _
      have hnext := Nat.succ_mul left (Fintype.card (Cell R) + 2)
      split at h
      · obtain rfl := Option.some.inj h
        simp only [hr, Reader.rank, Nat.succ_eq_add_one] at hnext ⊢
        omega
      · obtain rfl := Option.some.inj h
        simp only [hr, Reader.rank, Nat.succ_eq_add_one, Finset.card_univ] at hnext ⊢
        omega
    · simp at h
  | copy i =>
    obtain ⟨left, before, snapshot, pending, overlap, hr, hmem, rfl⟩ := readerStep_copy.mp h
    have hless := Finset.card_erase_lt_of_mem hmem
    simp only [hr, Reader.rank]
    omega
  | recheck =>
    simp only [readerStep] at h
    split at h
    · rename_i left before snapshot pending overlap hr
      split at h
      · obtain rfl := Option.some.inj h
        rw [hr]
        split <;> simp only [Reader.rank] <;> omega
      · simp at h
    · simp at h

/-- Until the next call, a run takes no more steps of a read than it has left. -/
theorem countP_isReader_le (condition : State R → Action R → Prop)
    [∀ s a, Decidable (condition s a)] {s t : State R} {actions : List (Action R)}
    (hcall : ∀ a ∈ actions, a.isCall = false) (h : run condition s actions = some t) :
    actions.countP Action.isReader + t.reader.rank ≤ s.reader.rank := by
  induction actions generalizing s with
  | nil =>
    obtain rfl := Option.some.inj h
    simp
  | cons a actions ih =>
    by_cases hc : condition s a
    · rw [run, if_pos hc] at h
      obtain ⟨u, hstep, hrest⟩ := Option.bind_eq_some_iff.mp h
      have htail := ih (fun b hb => hcall b (List.mem_cons_of_mem a hb)) hrest
      cases a with
      | writer a =>
        rw [rank_writerStep hstep] at htail
        simpa [List.countP_cons, Action.isReader] using htail
      | reader a =>
        have hread : a ≠ .read := by
          rintro rfl
          simpa [Action.isCall] using hcall _ List.mem_cons_self
        have hless := rank_readerStep hread hstep
        simp only [List.countP_cons, Action.isReader, if_true]
        omega
    · simp [run, hc] at h

/-- A read that is not over can always take a step. -/
lemma exists_readerStep {s : State R} (h : s.reader ≠ .idle) :
    ∃ a t, a ≠ .read ∧ readerStep s a = some t := by
  cases hr : s.reader with
  | idle => exact absurd hr h
  | trying left =>
    refine ⟨.check, ?_⟩
    cases left with
    | zero => simp [readerStep, hr]
    | succ left =>
      simp only [readerStep, hr]
      split <;> exact ⟨_, by simp, rfl⟩
  | copying left before snapshot pending overlap =>
    by_cases hpending : pending = ∅
    · refine ⟨.recheck, ?_⟩
      simp [readerStep, hr, hpending]
    · obtain ⟨i, hi⟩ := Finset.nonempty_iff_ne_empty.mpr hpending
      refine ⟨.copy i, ?_⟩
      simp [readerStep, hr, hi]

end Progress

section AtRest
variable {condition : State R → Action R → Prop} [∀ s a, Decidable (condition s a)]

lemma run_append {s : State R} (actions later : List (Action R)) :
    run condition s (actions ++ later) =
      (run condition s actions).bind (run condition · later) := by
  induction actions generalizing s with
  | nil => rfl
  | cons a actions ih =>
    by_cases hc : condition s a
    · simp only [List.cons_append, run, if_pos hc, ih, Option.bind_assoc]
    · simp [run, hc]

/-- The loads of a read up to its second one of the number, the fields in some order. -/
def attempt (order : List (Cell R)) : List (Action R) :=
  [.reader .read, .reader .check] ++ order.map fun i => .reader (.copy i)

variable (condition) in
/-- With nobody writing, the copy of each field is the one in the record. -/
lemma run_copies {s : State R} {left overlap : ℕ} {before : UInt32} {snapshot : R}
    {pending : Finset (Cell R)} {order : List (Cell R)}
    (hcopy : ∀ t i, condition t (.reader (.copy i)))
    (hr : s.reader = .copying left before snapshot pending overlap) (hnodup : order.Nodup)
    (hpending : ∀ i, i ∈ order ↔ i ∈ pending)
    (hcopied : ∀ i ∉ pending, get i snapshot = get i s.memory) :
    run condition s (order.map fun i => .reader (.copy i)) =
      some { s with reader := .copying left before s.memory ∅ overlap } := by
  induction order generalizing s snapshot pending with
  | nil =>
    have hempty : pending = ∅ := Finset.eq_empty_of_forall_notMem fun i hi => by
      simpa using (hpending i).mpr hi
    subst hempty
    rw [eq_of_none_pending hcopied rfl] at hr
    rw [← hr]
    rfl
  | cons i order ih =>
    obtain ⟨hfresh, hnodup⟩ := List.nodup_cons.mp hnodup
    have hi : i ∈ pending := (hpending i).mp List.mem_cons_self
    have hstep : step s (.reader (.copy i)) = some { s with
        reader := .copying left before (SequencedRecord.copy i s.memory snapshot)
          (pending.erase i) overlap } :=
      readerStep_copy.mpr ⟨_, _, _, _, _, hr, hi, rfl⟩
    have hrest : ∀ j, j ∈ order ↔ j ∈ pending.erase i := by
      intro j
      rw [Finset.mem_erase, ← hpending j, List.mem_cons]
      grind
    rw [List.map_cons, run, if_pos (hcopy s i), hstep, Option.bind_some]
    exact ih (s := { s with
      reader := .copying left before (SequencedRecord.copy i s.memory snapshot)
        (pending.erase i) overlap }) rfl hnodup hrest fun j hj => get_copy_of_erased hcopied hj

variable (condition) in
/-- A read that begins between publishes and meets none returns the record at its first
attempt, in whatever order its fields are loaded. -/
theorem returns_at_rest {s : State R} (hcondition : ∀ t a, a ≠ .recheck → condition t (.reader a))
    (hreader : s.reader = .idle) (heven : sequence s.memory % 2 = 0) (hattempts : attempts R ≠ 0)
    {order : List (Cell R)} (hnodup : order.Nodup) (hall : ∀ i, i ∈ order) :
    ∃ t, run condition s (attempt order) = some t ∧ t.returns = some s.memory ∧
      t.memory = s.memory ∧ t.overlap = s.writer.publishing := by
  obtain ⟨left, hleft⟩ := Nat.exists_eq_succ_of_ne_zero hattempts
  have hread : step s (.reader .read) = some { s with reader := .trying (left + 1) } := by
    simp [step, readerStep, hreader, hleft]
  have hcheck : step { s with reader := .trying (left + 1) } (.reader .check) = some { s with
      reader := .copying left (sequence s.memory) blank Finset.univ s.writer.publishing } := by
    simp [step, readerStep, heven]
  have hcopies := run_copies condition
    (s := { s with
      reader := .copying left (sequence s.memory) blank Finset.univ s.writer.publishing })
    (fun t i => hcondition t _ (by simp)) rfl hnodup (by simpa using hall) (by simp)
  refine ⟨{ s with reader := .copying left (sequence s.memory) s.memory ∅ s.writer.publishing },
    ?_, by simp [State.returns], rfl, rfl⟩
  rw [attempt, List.cons_append, run, if_pos (hcondition _ _ (by simp)), hread, Option.bind_some,
    List.cons_append, run, if_pos (hcondition _ _ (by simp)), hcheck, Option.bind_some,
    List.nil_append]
  exact hcopies

/-- Under an odd number nothing is read, however long the reader goes on. -/
theorem returns_none_of_odd {s t : State R} {actions : List (Action R)}
    (hreader : s.reader.copies = false) (hodd : sequence s.memory % 2 = 1)
    (honly : ∀ a ∈ actions, a.isReader) (h : run condition s actions = some t) :
    t.returns = none ∧ t.memory = s.memory := by
  induction actions generalizing s with
  | nil =>
    obtain rfl := Option.some.inj h
    refine ⟨?_, rfl⟩
    cases hr : s.reader <;> simp_all [State.returns, Reader.copies]
  | cons a actions ih =>
    by_cases hc : condition s a
    · rw [run, if_pos hc] at h
      obtain ⟨u, hstep, hrest⟩ := Option.bind_eq_some_iff.mp h
      cases a with
      | writer a => simpa [Action.isReader] using honly _ List.mem_cons_self
      | reader a =>
        have hmemory : u.memory = s.memory := by rw [readerStep_frame hstep]
        have hcopies : u.reader.copies = false := by
          cases hr : s.reader with
          | idle =>
            cases a with
            | read =>
              simp [step, readerStep, hr] at hstep
              simp [← hstep, Reader.copies]
            | _ => simp [step, readerStep, hr] at hstep
          | trying left =>
            cases a with
            | check =>
              cases left <;> simp [step, readerStep, hr, hodd] at hstep <;>
                simp [← hstep, Reader.copies]
            | _ => simp [step, readerStep, hr] at hstep
          | copying left before snapshot pending overlap => simp [hr, Reader.copies] at hreader
        have hrun := ih hcopies (hmemory ▸ hodd)
          (fun b hb => honly b (List.mem_cons_of_mem _ hb)) hrest
        exact ⟨hrun.1, hrun.2.trans hmemory⟩
    · simp [run, hc] at h

end AtRest
end Seqlock
end LoadBear
