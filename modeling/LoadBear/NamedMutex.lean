import Mathlib.Data.List.Basic

/-!
# A mutex found by its name

The mutex exists as long as somebody has it open. It belongs to one party at a time, which may
take it again and then has to give it up as often. If its owner goes away instead, whoever takes
it next is told that it was abandoned, and owns it none the less.

The definitions follow what Windows documents of its calls. `CreateMutex` opens the mutex of that
name that is there or makes one that nobody owns (`opened`, `fresh`). `CloseHandle` on the last
handle destroys it (`closed`, `settled`), and gives no ownership back. A wait comes back with
`WAIT_OBJECT_0` for a free mutex and for the owner itself, which then owns it once more, with
`WAIT_ABANDONED` for one whose owner ended without releasing it, and with `WAIT_TIMEOUT` otherwise
(`take`). `ReleaseMutex` fails for anybody but the owner, and frees the mutex when it was called as
often as a wait was granted (`released`). The system closes the handles of a process that ends
(`died`).
-/
namespace LoadBear.NamedMutex

/-- How a wait for the mutex comes back. -/
inductive Answer
  | taken
  | abandoned
  | timedOut
  deriving DecidableEq, Repr

/-- Who has it open, once for each handle, and whose it is how many times over. -/
structure Mutex (π : Type*) where
  handles : List π
  owner : Option π
  depth : ℕ
  abandoned : Bool
  deriving DecidableEq

variable {π : Type*}

def Mutex.fresh : Mutex π := ⟨[], none, 0, false⟩

namespace Mutex
variable {m : Mutex π} {p q : π}

/-- With its last handle the mutex goes away. -/
def settled (m : Mutex π) : Mutex π := if m.handles = [] then fresh else m

lemma settled_of_mem (h : q ∈ m.handles) : m.settled = m :=
  if_neg (List.ne_nil_of_mem h)

lemma mem_handles_settled (h : q ∈ m.handles) : q ∈ m.settled.handles := by
  rw [settled_of_mem h]
  exact h

lemma settled_of_handles_ne_nil (h : m.settled.handles ≠ []) : m.settled = m := by
  unfold settled at h ⊢
  split_ifs with hnil
  · simp [hnil, fresh] at h
  · rfl

/-- The mutex goes on as it is, or goes away. -/
lemma settled_cases (m : Mutex π) : m.settled = m ∨ m.settled = fresh := by
  unfold settled
  split_ifs
  · exact .inr rfl
  · exact .inl rfl

variable [DecidableEq π]

section Calls
variable (m : Mutex π) (p : π)

def opened : Mutex π := { m with handles := p :: m.handles }

def closed : Mutex π := { m with handles := m.handles.erase p }.settled

/-- A wait, as it comes back and as it leaves the mutex. -/
def take : Answer × Mutex π :=
  match m.owner with
  | none =>
    (if m.abandoned then .abandoned else .taken,
      { m with owner := some p, depth := 1, abandoned := false })
  | some q => if q = p then (.taken, { m with depth := m.depth + 1 }) else (.timedOut, m)

/-- Only its owner can release it. -/
def released : Mutex π :=
  if m.owner = some p then
    if m.depth ≤ 1 then { m with owner := none, depth := 0 } else { m with depth := m.depth - 1 }
  else m

/-- A party that goes away leaves what it owned behind. -/
def died : Mutex π :=
  { m with
    handles := m.handles.filter (· ≠ p)
    owner := m.owner.filter (· ≠ p)
    abandoned := m.abandoned || m.owner = some p }.settled

/-- What a party can do with the mutex. -/
inductive Call
  | opens
  | waits
  | releases
  | closes
  | dies
  deriving DecidableEq

def after : Call → Mutex π
  | .opens => m.opened p
  | .waits => (m.take p).2
  | .releases => m.released p
  | .closes => m.closed p
  | .dies => m.died p

end Calls

section Owner

variable (m p) in
/-- A wait finds the mutex free, or its own already, or somebody else's. -/
lemma take_cases :
    (m.owner = none ∧ m.take p = (if m.abandoned then .abandoned else .taken,
      { m with owner := some p, depth := 1, abandoned := false })) ∨
    (m.owner = some p ∧ m.take p = (.taken, { m with depth := m.depth + 1 })) ∨
    ∃ q, q ≠ p ∧ m.owner = some q ∧ m.take p = (.timedOut, m) := by
  unfold take
  split
  · rename_i hfree
    exact .inl ⟨hfree, rfl⟩
  · rename_i q hq
    by_cases hqp : q = p
    · rw [if_pos hqp]
      exact .inr (.inl ⟨hqp ▸ hq, rfl⟩)
    · rw [if_neg hqp]
      exact .inr (.inr ⟨q, hqp, hq, rfl⟩)

@[simp] lemma take_handles : (m.take p).2.handles = m.handles := by
  rcases take_cases m p with ⟨-, h⟩ | ⟨-, h⟩ | ⟨q, -, -, h⟩ <;> rw [h]

@[simp] lemma released_handles : (m.released p).handles = m.handles := by
  unfold released
  split_ifs <;> rfl

/-- A wait that is told something comes back with the mutex. -/
lemma take_owner (h : (m.take p).1 ≠ .timedOut) : (m.take p).2.owner = some p := by
  rcases take_cases m p with ⟨-, htake⟩ | ⟨hown, htake⟩ | ⟨q, -, -, htake⟩
  · rw [htake]
  · rw [htake]
    exact hown
  · exact absurd (by rw [htake]) h

variable {c : Call}

/-- Its own handles are all that a party closes. -/
theorem mem_after (h : q ∈ m.handles) (hq : q ≠ p ∨ (c ≠ .closes ∧ c ≠ .dies)) :
    q ∈ (m.after p c).handles := by
  cases c with
  | opens => exact List.mem_cons_of_mem _ h
  | waits => simpa [after] using h
  | releases => simpa [after] using h
  | closes =>
    have hother : q ≠ p := hq.resolve_right fun hkept => hkept.1 rfl
    exact mem_handles_settled ((List.mem_erase_of_ne hother).mpr h)
  | dies =>
    have hother : q ≠ p := hq.resolve_right fun hkept => hkept.2 rfl
    exact mem_handles_settled (List.mem_filter.mpr ⟨h, by simpa using hother⟩)

/-- As long as anybody has the mutex open, what others do leaves it to its owner. -/
theorem owner_after (howner : m.owner = some q) (hq : q ≠ p)
    (hopen : (m.after p c).handles ≠ []) :
    (m.after p c).owner = some q ∧ (m.after p c).depth = m.depth := by
  cases c with
  | opens => exact ⟨howner, rfl⟩
  | waits =>
    rcases take_cases m p with ⟨hfree, -⟩ | ⟨hown, -⟩ | ⟨r, -, -, htake⟩
    · simp [hfree] at howner
    · exact absurd (Option.some.inj (howner.symm.trans hown)) hq
    · rw [after, htake]
      exact ⟨howner, rfl⟩
  | releases =>
    rw [after, released, if_neg (by simpa [howner] using hq)]
    exact ⟨howner, rfl⟩
  | closes =>
    rw [after, closed, settled_of_handles_ne_nil hopen]
    exact ⟨howner, rfl⟩
  | dies =>
    rw [after, died, settled_of_handles_ne_nil hopen]
    exact ⟨by simpa [howner] using hq, rfl⟩

/-- Nobody becomes an owner by what others do. -/
theorem owner_of_after (h : (m.after p c).owner = some q) (hq : q ≠ p) :
    m.owner = some q ∧ (m.after p c).depth = m.depth := by
  cases c with
  | opens => exact ⟨h, rfl⟩
  | waits =>
    rcases take_cases m p with ⟨-, htake⟩ | ⟨hown, htake⟩ | ⟨r, -, -, htake⟩
    · rw [after, htake] at h
      exact absurd (Option.some.inj h).symm hq
    · rw [after, htake] at h
      exact absurd (Option.some.inj (h.symm.trans hown)) hq
    · rw [after, htake] at h ⊢
      exact ⟨h, rfl⟩
  | releases =>
    rw [after, released] at h ⊢
    by_cases howner : m.owner = some p
    · rw [if_pos howner] at h
      split_ifs at h
      exact absurd (Option.some.inj (h.symm.trans howner)) hq
    · rw [if_neg howner] at h ⊢
      exact ⟨h, rfl⟩
  | closes =>
    rw [after, closed] at h ⊢
    rcases settled_cases { m with handles := m.handles.erase p } with heq | hgone
    · rw [heq] at h ⊢
      exact ⟨h, rfl⟩
    · rw [hgone] at h
      cases h
  | dies =>
    rw [after, died] at h ⊢
    rcases settled_cases { m with
      handles := m.handles.filter (· ≠ p)
      owner := m.owner.filter (· ≠ p)
      abandoned := m.abandoned || m.owner = some p } with heq | hgone
    · rw [heq] at h ⊢
      exact ⟨(Option.filter_eq_some_iff.mp h).1, rfl⟩
    · rw [hgone] at h
      cases h

end Owner

end Mutex
end LoadBear.NamedMutex
