import LoadBear.AtomicRegister
import LoadBear.SharedMapping

/-!
# Publishes and reads as they follow each other

While one helper publishes, the mapping behaves as one register. A read ends soon whatever the
helper does, and once the helper does nothing more it either gets the last record or, if the
helper was killed after it made the number odd, none.
-/
namespace LoadBear.Mapping

open Seqlock

/-- Each read gets the record published last before it returns, so of two reads the later gets
what the earlier got or what was published between them. -/
theorem reads_atomic {first : SharedTemperature} (hfirst : first.sequence % 2 = 0) {s : Mapping}
    {actions : List MappingAction} (h : run Bounded (start first) actions = some s) :
    Register.Accepts first (history (start first) actions) s.current ∧
      ∀ earlier seen between again later,
        history (start first) actions =
            earlier ++ .read seen :: (between ++ .read again :: later) →
          again = seen ∨ .write again ∈ between := by
  have haccepts : Register.Accepts first (history (start first) actions) s.current :=
    accepts_history (continued_of_reaches hfirst .refl) h
  refine ⟨haccepts, fun earlier seen between again later hhistory => ?_⟩
  rw [hhistory] at haccepts
  exact haccepts.read_of_read

/-- A publish, a read, and both again. -/
def twice : List MappingAction :=
  publish warm ++ readOnce ++ [.reader .recheck] ++ publish warm ++ readOnce ++ [.reader .recheck]

theorem twice_atomic :
    Register.Accepts lastNumber
      [.write warm, .read warm, .write { warm with sequence := 2 },
        .read { warm with sequence := 2 }] { warm with sequence := 2 } := by
  obtain ⟨s, hs⟩ := Option.isSome_iff_exists.mp
    (show (run Bounded (start lastNumber) twice).isSome by decide +kernel)
  have hcurrent : s.current = { warm with sequence := 2 } := by
    have h : (run Bounded (start lastNumber) twice).map (·.current) =
        some { warm with sequence := 2 } := by decide +kernel
    simpa [hs] using h
  have hhistory : history (start lastNumber) twice =
      [.write warm, .read warm, .write { warm with sequence := 2 },
        .read { warm with sequence := 2 }] := by decide +kernel
  have haccepts := (reads_atomic (by rfl) hs).1
  rwa [hcurrent, hhistory] at haccepts

/-- Whatever the helper does meanwhile, a read is over after at most ninety-seven of its own
steps, and until then it can always take the next. -/
theorem read_ends {s t : Mapping} {actions : List MappingAction}
    (hcall : ∀ a ∈ actions, a.isCall = false)
    (h : run (fun _ _ => True) s (.reader .read :: actions) = some t) :
    actions.countP Action.isReader ≤ 97 ∧
      (t.reader ≠ .idle → ∃ a u, a ≠ .read ∧ readerStep t a = some u) := by
  refine ⟨?_, exists_readerStep⟩
  rw [run, if_pos trivial] at h
  obtain ⟨u, hread, hrest⟩ := Option.bind_eq_some_iff.mp h
  have hrank : u.reader.rank = 97 := by
    cases hr : s.reader <;> simp [step, readerStep, hr] at hread
    rw [← hread]
    rfl
  have hcount := countP_isReader_le _ hcall hrest
  omega

/-- Eight attempts that each meet a publish. -/
def starved : List MappingAction :=
  (List.replicate 8 (.reader .check :: MappingField.all.map (fun i => .reader (.copy i)) ++
    publish warm ++ [.reader .recheck])).flatten ++ [.reader .check]

theorem starved_ends : 97 ≤ starved.countP Action.isReader ∧
    starved.countP Action.isReader ≤ 97 := by
  obtain ⟨t, ht⟩ := Option.isSome_iff_exists.mp
    (show (run (fun _ _ => True) (start lastNumber) (.reader .read :: starved)).isSome by
      decide +kernel)
  exact ⟨by decide +kernel, (read_ends (by decide +kernel) ht).1⟩

/-- With the helper at work no more, a read gets the last record at its first attempt if the
number is even, in whatever order it copies the fields, and nothing if it is odd. -/
theorem read_of_stopped {first : SharedTemperature} (hfirst : first.sequence % 2 = 0)
    {s : Mapping} (hrun : Reaches Continues (start first) s) (hreader : s.reader = .idle) :
    (s.memory.sequence % 2 = 0 → ∀ order : List MappingField, order.Nodup → (∀ i, i ∈ order) →
      ∃ t, run Bounded s (attempt order) = some t ∧ t.returns = some s.current) ∧
    (s.memory.sequence % 2 = 1 → ∀ actions t,
      (∀ a ∈ actions, a.isReader) → run Bounded s actions = some t → t.returns = none) := by
  have hs := continued_of_reaches hfirst hrun
  refine ⟨fun heven order hnodup hall => ?_, fun hodd actions t honly h => ?_⟩
  · obtain ⟨t, hattempt, hreturns, -⟩ := returns_at_rest Bounded
      (fun t a ha => by cases a <;> trivial)
      hreader heven (by decide) hnodup hall
    exact ⟨t, hattempt, by rw [hreturns, hs.memory_of_even heven]⟩
  · exact (returns_none_of_odd (by rw [hreader]; rfl) hodd honly h).1

/-- A helper killed at the start of its second publish, before it makes the number odd. -/
def begun : Mapping :=
  (run Continues (start lastNumber) (publish warm ++ [.writer (.load warm)])).getD
    (start lastNumber)

/-- A helper killed between the two numbers of its publish. -/
def killed : Mapping :=
  (run Continues (start lastNumber) ((publish warm).dropLast)).getD (start lastNumber)

/-- A read that meets the odd number at each of its attempts. -/
def unread : List MappingAction := .reader .read :: List.replicate 9 (.reader .check)

theorem killed_unread :
    (∃ t, run Bounded begun (attempt MappingField.all) = some t ∧ t.returns = some warm) ∧
    ∃ t, run Bounded killed unread = some t ∧ t.reader = .idle ∧ t.returns = none := by
  have hbegun : Reaches Continues (start lastNumber) begun := reaches_getD_run (by decide +kernel)
  have hcurrent : begun.current = warm := by decide +kernel
  refine ⟨hcurrent ▸ (read_of_stopped (by rfl) hbegun (by rfl)).1 (by decide +kernel)
    MappingField.all (by decide) (by decide), ?_⟩
  have hkilled : Reaches Continues (start lastNumber) killed := reaches_getD_run (by decide +kernel)
  obtain ⟨t, ht⟩ := Option.isSome_iff_exists.mp
    (show (run Bounded killed unread).isSome by decide +kernel)
  have hover : t.reader.rank = 0 := by
    have h : (run Bounded killed unread).map (·.reader.rank) = some 0 := by decide +kernel
    simpa [ht] using h
  have hidle : t.reader = .idle := by
    cases h : t.reader <;> simp_all [Reader.rank]
  exact ⟨t, ht, hidle,
    (read_of_stopped (by rfl) hkilled (by rfl)).2 (by decide +kernel) unread t (by decide) ht⟩

end LoadBear.Mapping
