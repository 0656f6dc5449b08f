import LoadBear.Rounding
import Mathlib.Data.Prod.Lex

/-!
# Double precision values

The finite values of the format with both infinities and a NaN of either sign. Values are
ordered totally, a NaN beyond the infinity of its sign, and an operation is the exact one
followed by a rounding that overflows to an infinity.
-/
namespace LoadBear

open Rounding

/-- The format of double precision. -/
def doubleFormat : Format := ⟨53, -1074⟩

/-- What a finite value stays below. -/
def doubleBound : ℚ := 2 ^ 1024

inductive Double
  | nan (negative : Bool)
  | infinite (negative : Bool)
  | finite (q : ℚ) (representable : doubleFormat.Representable q) (bounded : |q| < doubleBound)
  deriving DecidableEq

namespace Double

/-- The class of a value, and the number that a finite one denotes. -/
def key : Double → ℤ ×ₗ ℚ
  | nan negative => toLex (if negative then -2 else 2, 0)
  | infinite negative => toLex (if negative then -1 else 1, 0)
  | finite q _ _ => toLex (0, q)

lemma key_injective : Function.Injective key := by
  intro a b h
  rcases a with s | s | ⟨p, hp, hp'⟩ <;> rcases b with t | t | ⟨q, hq, hq'⟩ <;>
    simp only [key, toLex_inj, Prod.mk.injEq] at h
  · cases s <;> cases t <;> simp_all
  · cases s <;> cases t <;> simp_all
  · cases s <;> simp_all
  · cases s <;> cases t <;> simp_all
  · cases s <;> cases t <;> simp_all
  · cases s <;> simp_all
  · cases t <;> simp_all
  · cases t <;> simp_all
  · obtain rfl := h.2
    rfl

/-- The total order of values. -/
instance : LinearOrder Double := LinearOrder.lift' key key_injective

lemma key_mono : Monotone key := fun _ _ h => h

def zero : Double := finite 0 ⟨0, -1074, by decide, le_rfl, by simp⟩ (by decide +kernel)

/-- The largest finite value. -/
def largest : Double :=
  finite ((2 ^ 53 - 1) * 2 ^ 971) ⟨2 ^ 53 - 1, 971, by decide, by decide, by norm_num⟩
    (by decide +kernel)

/-- The number a finite value denotes. -/
def toRat : Double → ℚ
  | finite q _ _ => q
  | _ => 0

def isFinite : Double → Bool
  | finite _ _ _ => true
  | _ => false

/-- The value nearest to a number, an infinity for one out of range. -/
def ofExact (q : ℚ) : Double :=
  if h : |binary64 q| < doubleBound then
    finite (binary64 q) (doubleFormat.representable_round (by decide) q) h
  else infinite (q < 0)

/-- The sum. Of opposite infinities it is a NaN. -/
def add : Double → Double → Double
  | nan s, _ | _, nan s => nan s
  | infinite s, infinite t => if s = t then infinite s else nan false
  | infinite s, finite _ _ _ | finite _ _ _, infinite s => infinite s
  | finite p _ _, finite q _ _ => ofExact (p + q)

/-- The value divided by two. -/
def half : Double → Double
  | nan s => nan s
  | infinite s => infinite s
  | finite q _ _ => ofExact (q / 2)

/-- Within two bounds. No special value is. -/
def Between (lo hi : ℚ) (d : Double) : Prop := toLex (0, lo) ≤ d.key ∧ d.key ≤ toLex (0, hi)

instance (lo hi : ℚ) : DecidablePred (Between lo hi) := fun _ => inferInstanceAs (Decidable (_ ∧ _))

variable {lo hi : ℚ} {a b : Double}

lemma between_iff : Between lo hi a ↔ ∃ q hq hq', a = finite q hq hq' ∧ lo ≤ q ∧ q ≤ hi := by
  unfold Between
  cases a with
  | nan negative => cases negative <;> simp [key, Prod.Lex.toLex_le_toLex]
  | infinite negative => cases negative <;> simp [key, Prod.Lex.toLex_le_toLex]
  | finite q hq hq' => simp [key, Prod.Lex.toLex_le_toLex, hq, hq']

lemma toRat_le_iff (ha : a.isFinite) (hb : b.isFinite) : a ≤ b ↔ a.toRat ≤ b.toRat := by
  rcases a with _ | _ | ⟨p, hp, hp'⟩
  · cases ha
  · cases ha
  · rcases b with _ | _ | ⟨q, hq, hq'⟩
    · cases hb
    · cases hb
    · change toLex ((0 : ℤ), p) ≤ toLex ((0 : ℤ), q) ↔ p ≤ q
      simp [Prod.Lex.toLex_le_toLex]

lemma not_between_of_not_isFinite (h : ¬a.isFinite) : ¬Between lo hi a := by
  rw [between_iff]
  rintro ⟨q, hq, hq', rfl, -⟩
  exact h rfl

lemma binary64_of_representable {q : ℚ} (h : doubleFormat.Representable q) : binary64 q = q :=
  doubleFormat.round_of_representable h

/-- Rounding leaves half of a rounded sum between its two representable parts. -/
lemma binary64_half_sum {p q : ℚ} (hp : doubleFormat.Representable p)
    (hq : doubleFormat.Representable q) (hpq : p ≤ q) :
    p ≤ binary64 (binary64 (p + q) / 2) ∧ binary64 (binary64 (p + q) / 2) ≤ q := by
  have hlow : 2 * p ≤ binary64 (p + q) := by
    rw [← binary64_of_representable hp.double]
    exact binary64.mono (by linarith)
  have hhigh : binary64 (p + q) ≤ 2 * q := by
    rw [← binary64_of_representable hq.double]
    exact binary64.mono (by linarith)
  constructor
  · calc p = binary64 p := (binary64_of_representable hp).symm
      _ ≤ binary64 (binary64 (p + q) / 2) := binary64.mono (by linarith)
  · calc binary64 (binary64 (p + q) / 2) ≤ binary64 q := binary64.mono (by linarith)
      _ = q := binary64_of_representable hq

lemma add_comm_of_finite {p q : ℚ} (hp hp' hq hq') :
    add (finite p hp hp') (finite q hq hq') = add (finite q hq hq') (finite p hp hp') := by
  rw [add, add, add_comm]

lemma Between.mono {lo' hi' : ℚ} (h : Between lo hi a) (hlo : lo' ≤ lo) (hhi : hi ≤ hi') :
    Between lo' hi' a := by
  obtain ⟨q, hq, hq', rfl, hlow, hhigh⟩ := between_iff.mp h
  exact between_iff.mpr ⟨q, hq, hq', rfl, hlo.trans hlow, hhigh.trans hhi⟩

/-- Where the sum does not overflow, halving it does not either. -/
lemma half_add_of_le {p q : ℚ} (hp hp' hq hq') (hpq : p ≤ q)
    (hsum : (add (finite p hp hp') (finite q hq hq')).isFinite) :
    ∃ h h', half (add (finite p hp hp') (finite q hq hq')) =
      finite (binary64 (binary64 (p + q) / 2)) h h' := by
  obtain ⟨hlow, hhigh⟩ := binary64_half_sum hp hq hpq
  have hbounded : |binary64 (p + q)| < doubleBound := by
    by_contra hover
    rw [add, ofExact, dif_neg hover] at hsum
    cases hsum
  have hinside : |binary64 (binary64 (p + q) / 2)| < doubleBound := by
    rw [abs_lt] at hp' hq' ⊢
    exact ⟨hp'.1.trans_le hlow, hhigh.trans_lt hq'.2⟩
  have hadd : add (finite p hp hp') (finite q hq hq') = finite (binary64 (p + q))
      (doubleFormat.representable_round (by decide) _) hbounded := dif_pos hbounded
  have hhalf : half (finite (binary64 (p + q)) (doubleFormat.representable_round (by decide) _)
      hbounded) = finite (binary64 (binary64 (p + q) / 2))
        (doubleFormat.representable_round (by decide) _) hinside := dif_pos hinside
  rw [hadd, hhalf]
  exact ⟨_, _, rfl⟩

lemma between_half_add_of_le {p q : ℚ} (hp hp' hq hq') (hpq : p ≤ q)
    (hsum : (add (finite p hp hp') (finite q hq hq')).isFinite) :
    Between p q (half (add (finite p hp hp') (finite q hq hq'))) := by
  obtain ⟨hlow, hhigh⟩ := binary64_half_sum hp hq hpq
  obtain ⟨h, h', hhalf⟩ := half_add_of_le hp hp' hq hq' hpq hsum
  rw [hhalf]
  exact between_iff.mpr ⟨_, _, _, rfl, hlow, hhigh⟩

lemma toRat_half_add (ha : a.isFinite) (hb : b.isFinite) (hsum : (add a b).isFinite) :
    (half (add a b)).toRat = binary64 (binary64 (a.toRat + b.toRat) / 2) := by
  rcases a with _ | _ | ⟨p, hp, hp'⟩
  · cases ha
  · cases ha
  · rcases b with _ | _ | ⟨q, hq, hq'⟩
    · cases hb
    · cases hb
    · rcases le_total p q with hpq | hqp
      · obtain ⟨h, h', hhalf⟩ := half_add_of_le hp hp' hq hq' hpq hsum
        rw [hhalf]
        rfl
      · rw [add_comm_of_finite] at hsum ⊢
        obtain ⟨h, h', hhalf⟩ := half_add_of_le hq hq' hp hp' hqp hsum
        rw [hhalf, toRat, toRat, toRat, add_comm p q]

/-- Half the sum of two values, where the sum does not overflow, is between them. -/
theorem between_half_add (ha : Between lo hi a) (hb : Between lo hi b)
    (hsum : (add a b).isFinite) : Between lo hi (half (add a b)) := by
  obtain ⟨p, hp, hp', rfl, hlop, hphi⟩ := between_iff.mp ha
  obtain ⟨q, hq, hq', rfl, hloq, hqhi⟩ := between_iff.mp hb
  rcases le_total p q with hpq | hqp
  · exact (between_half_add_of_le hp hp' hq hq' hpq hsum).mono hlop hqhi
  · rw [add_comm_of_finite] at hsum ⊢
    exact (between_half_add_of_le hq hq' hp hp' hqp hsum).mono hloq hphi

lemma half_of_not_isFinite (h : ¬a.isFinite) : ¬(half a).isFinite := by
  cases a with
  | nan => exact h
  | infinite => exact h
  | finite => exact absurd rfl h

end Double
end LoadBear
