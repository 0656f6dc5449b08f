import Mathlib.Algebra.Order.Group.Nat
import Mathlib.Data.List.Basic

/-!
# Reading a stream under a limit

A reader asks a stream for one piece after the other and keeps them, until the stream ends or
fails or has given more than is wanted. How the stream is divided makes no difference to what
the reader ends with, and at no time does it hold more than the limit and one piece.
-/
namespace LoadBear.BoundedRead

variable {α : Type*}

/-- Why a reader asks no more. -/
inductive Stop
  | waiting
  | ended
  | failed
  | tooLong
  deriving DecidableEq, Repr

/-- What a reader holds, and why it asks no more. -/
structure Gathered (α : Type*) where
  held : List α
  stop : Stop

/-- The stream answers with a piece, with an empty one at its end, or with a failure. A reader
that had no answer yet is waiting for it. -/
def gather (limit : ℕ) : List α → List (Option (List α)) → Gathered α
  | held, [] => ⟨held, .waiting⟩
  | held, none :: _ => ⟨held, .failed⟩
  | held, some [] :: _ => ⟨held, .ended⟩
  | held, some (x :: piece) :: answers =>
    if limit < (held ++ x :: piece).length then ⟨held ++ x :: piece, .tooLong⟩
    else gather limit (held ++ x :: piece) answers

section Bounds
variable {limit n : ℕ} {held : List α} {answers : List (Option (List α))}

/-- A reader that has given up holds more than the limit, any other one no more. -/
lemma stop_iff (h : held.length ≤ limit) :
    (gather limit held answers).stop = .tooLong ↔
      limit < (gather limit held answers).held.length := by
  induction answers generalizing held with
  | nil => simpa [gather] using h
  | cons answer answers ih =>
    match answer with
    | none => simpa [gather] using h
    | some [] => simpa [gather] using h
    | some (x :: piece) =>
      rw [gather]
      by_cases hlong : limit < (held ++ x :: piece).length
      · simpa only [if_pos hlong, true_iff] using hlong
      · rw [if_neg hlong]
        exact ih (not_lt.mp hlong)

/-- What is held stays below the limit and one piece. -/
theorem held_le (h : held.length ≤ limit)
    (hpieces : ∀ piece, some piece ∈ answers → piece.length ≤ n) :
    (gather limit held answers).held.length ≤ limit + n := by
  induction answers generalizing held with
  | nil => exact h.trans (Nat.le_add_right _ _)
  | cons answer answers ih =>
    match answer with
    | none => exact h.trans (Nat.le_add_right _ _)
    | some [] => exact h.trans (Nat.le_add_right _ _)
    | some (x :: piece) =>
      rw [gather]
      have hpiece := hpieces (x :: piece) List.mem_cons_self
      by_cases hlong : limit < (held ++ x :: piece).length
      · rw [if_pos hlong, List.length_append]
        omega
      · rw [if_neg hlong]
        exact ih (not_lt.mp hlong) fun other hother => hpieces other (List.mem_cons_of_mem _ hother)

end Bounds

section Division
variable {limit : ℕ} {held : List α} {pieces : List (List α)} {answers : List (Option (List α))}

/-- Pieces that fit are kept one after the other. -/
lemma gather_pieces (hne : ∀ piece ∈ pieces, piece ≠ [])
    (hfits : (held ++ pieces.flatten).length ≤ limit) :
    gather limit held (pieces.map some ++ answers) =
      gather limit (held ++ pieces.flatten) answers := by
  induction pieces generalizing held with
  | nil => simp
  | cons piece pieces ih =>
    obtain ⟨x, rest, rfl⟩ := List.exists_cons_of_ne_nil (hne piece List.mem_cons_self)
    have hshort : ¬limit < (held ++ x :: rest).length := by
      simp only [List.flatten_cons, List.length_append] at hfits ⊢
      omega
    rw [List.map_cons, List.cons_append, gather, if_neg hshort,
      ih (fun other hother => hne other (List.mem_cons_of_mem _ hother)) (by simpa using hfits)]
    simp

/-- Pieces that do not fit make the reader give up. -/
lemma gather_long (hne : ∀ piece ∈ pieces, piece ≠ [])
    (hlong : limit < (held ++ pieces.flatten).length) (hheld : held.length ≤ limit) :
    (gather limit held (pieces.map some ++ answers)).stop = .tooLong := by
  induction pieces generalizing held with
  | nil =>
    simp only [List.flatten_nil, List.append_nil] at hlong
    omega
  | cons piece pieces ih =>
    obtain ⟨x, rest, rfl⟩ := List.exists_cons_of_ne_nil (hne piece List.mem_cons_self)
    rw [List.map_cons, List.cons_append, gather]
    split_ifs with hnow
    · rfl
    · exact ih (fun other hother => hne other (List.mem_cons_of_mem _ hother))
        (by simpa using hlong) (not_lt.mp hnow)

/-- A stream that gives some pieces and then ends or fails. -/
def stream (pieces : List (List α)) (fails : Bool) : List (Option (List α)) :=
  pieces.map some ++ [if fails then none else some []]

/-- However a stream is divided, it is read whole if it fits and given up if it does not. -/
theorem gather_stream (limit : ℕ) (fails : Bool) (hne : ∀ piece ∈ pieces, piece ≠ []) :
    if limit < pieces.flatten.length then
      (gather limit [] (stream pieces fails)).stop = .tooLong
    else
      gather limit [] (stream pieces fails) =
        ⟨pieces.flatten, if fails then .failed else .ended⟩ := by
  split_ifs with hlong hfails
  · exact gather_long hne (by simpa using hlong) (Nat.zero_le _)
  · rw [stream, gather_pieces hne (by simpa using hlong), hfails]
    rfl
  · rw [stream, gather_pieces hne (by simpa using hlong), if_neg hfails]
    rfl

end Division

end LoadBear.BoundedRead
