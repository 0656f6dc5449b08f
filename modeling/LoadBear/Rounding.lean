import Mathlib.Algebra.Order.Floor.Ring
import Mathlib.Data.Int.Log
import Mathlib.Data.Rat.Floor
import Mathlib.Tactic

/-!
# Rounding to a binary floating-point format

A finite floating-point value is the rational it denotes, and an operation is
the exact one followed by a rounding. Results about a program are proved for
every `Rounding`; `exact` reads its arithmetic as exact and `binary32` and
`binary64` round to nearest, ties to even, subnormals included. Overflow to an
infinity is not part of a format.
-/
namespace LoadBear.Rounding

/-- The nearest integer, a tie going to the even neighbour. -/
def halfEven (q : ℚ) : ℤ :=
  if q - ⌊q⌋ < 1 / 2 then ⌊q⌋
  else if 1 / 2 < q - ⌊q⌋ then ⌊q⌋ + 1
  else if ⌊q⌋ % 2 = 0 then ⌊q⌋ else ⌊q⌋ + 1

@[simp] lemma halfEven_intCast (z : ℤ) : halfEven z = z := by simp [halfEven]

@[simp] lemma halfEven_zero : halfEven 0 = 0 := by simp [halfEven]

lemma floor_le_halfEven (q : ℚ) : ⌊q⌋ ≤ halfEven q := by
  unfold halfEven
  split_ifs <;> omega

lemma halfEven_le_floor_succ (q : ℚ) : halfEven q ≤ ⌊q⌋ + 1 := by
  unfold halfEven
  split_ifs <;> omega

theorem halfEven_mono : Monotone halfEven := by
  intro x y hxy
  rcases (Int.floor_mono hxy).lt_or_eq with hlt | heq
  · calc halfEven x ≤ ⌊x⌋ + 1 := halfEven_le_floor_succ x
      _ ≤ ⌊y⌋ := hlt
      _ ≤ halfEven y := floor_le_halfEven y
  · have hgap : x - ⌊x⌋ ≤ y - ⌊y⌋ := by rw [heq]; linarith
    unfold halfEven
    rw [heq] at hgap ⊢
    split_ifs <;> first | omega | (exfalso; linarith)

theorem halfEven_neg (q : ℚ) : halfEven (-q) = -halfEven q := by
  by_cases hint : q = ⌊q⌋
  · rw [hint, ← Int.cast_neg, halfEven_intCast, halfEven_intCast]
  · have hlt : (⌊q⌋ : ℚ) < q := lt_of_le_of_ne (Int.floor_le q) (Ne.symm hint)
    have hup := Int.lt_floor_add_one q
    have hfloor : ⌊-q⌋ = -⌊q⌋ - 1 := by
      rw [Int.floor_eq_iff]
      push_cast
      constructor <;> linarith
    unfold halfEven
    rw [hfloor]
    push_cast
    split_ifs <;> first | omega | (exfalso; linarith)

/-- Significand width, counting the implicit bit, and the exponent of the
smallest subnormal. -/
structure Format where
  precision : ℕ
  minExponent : ℤ

namespace Format

/-- Exponent of the last significand bit of a value this large. -/
def exponent (f : Format) (q : ℚ) : ℤ :=
  max f.minExponent (Int.log 2 |q| + 1 - f.precision)

def ulp (f : Format) (q : ℚ) : ℚ := 2 ^ f.exponent q

/-- Round to nearest, ties to even. -/
def round (f : Format) (q : ℚ) : ℚ := halfEven (q / f.ulp q) * f.ulp q

lemma ulp_pos (f : Format) (q : ℚ) : 0 < f.ulp q := zpow_pos (by norm_num) _

@[simp] lemma round_zero (f : Format) : f.round 0 = 0 := by simp [round]

lemma exponent_neg (f : Format) (q : ℚ) : f.exponent (-q) = f.exponent q := by
  simp [exponent]

lemma round_neg (f : Format) (q : ℚ) : f.round (-q) = -f.round q := by
  simp [round, ulp, exponent_neg, neg_div, halfEven_neg]

lemma exponent_mono (f : Format) {x y : ℚ} (hx : 0 < x) (hxy : x ≤ y) :
    f.exponent x ≤ f.exponent y := by
  have hlog := Int.log_mono_right (b := 2) hx hxy
  simp only [exponent, abs_of_pos hx, abs_of_pos (hx.trans_le hxy)]
  omega

/-- A value lies below the power of two its significand can reach. -/
lemma lt_zpow_exponent (f : Format) {x : ℚ} (hx : 0 < x) :
    x < 2 ^ (f.exponent x + f.precision) := by
  have hlog := Int.lt_zpow_succ_log_self (b := 2) (by norm_num) x
  calc x < ((2 : ℕ) : ℚ) ^ (Int.log 2 x + 1) := hlog
    _ ≤ 2 ^ (f.exponent x + f.precision) := by
      rw [Nat.cast_ofNat]
      apply zpow_le_zpow_right₀ (by norm_num)
      simp only [exponent, abs_of_pos hx]
      omega

/-- Above the subnormals the leading significand bit is set. -/
lemma zpow_exponent_le (f : Format) {x : ℚ} (hx : 0 < x)
    (he : f.minExponent < f.exponent x) : 2 ^ (f.exponent x + f.precision - 1) ≤ x := by
  have hlog := Int.zpow_log_le_self (b := 2) (by norm_num) hx
  have heq : f.exponent x + f.precision - 1 = Int.log 2 x := by
    simp only [exponent, abs_of_pos hx] at he ⊢
    omega
  rw [heq]
  simpa using hlog

lemma round_nonneg (f : Format) {x : ℚ} (hx : 0 ≤ x) : 0 ≤ f.round x := by
  have hscaled := halfEven_mono (div_nonneg hx (f.ulp_pos x).le)
  rw [halfEven_zero] at hscaled
  exact mul_nonneg (by exact_mod_cast hscaled) (f.ulp_pos x).le

/-- Rounding does not carry a value past a multiple of its last place. -/
lemma round_le_of_le_mul (f : Format) {x : ℚ} {z : ℤ} (h : x ≤ z * f.ulp x) :
    f.round x ≤ z * f.ulp x := by
  have hscaled := halfEven_mono ((div_le_iff₀ (f.ulp_pos x)).mpr h)
  rw [halfEven_intCast] at hscaled
  exact mul_le_mul_of_nonneg_right (by exact_mod_cast hscaled) (f.ulp_pos x).le

lemma le_round_of_mul_le (f : Format) {x : ℚ} {z : ℤ} (h : z * f.ulp x ≤ x) :
    z * f.ulp x ≤ f.round x := by
  have hscaled := halfEven_mono ((le_div_iff₀ (f.ulp_pos x)).mpr h)
  rw [halfEven_intCast] at hscaled
  exact mul_le_mul_of_nonneg_right (by exact_mod_cast hscaled) (f.ulp_pos x).le

lemma round_mono_pos (f : Format) (hp : 0 < f.precision) {x y : ℚ} (hx : 0 < x)
    (hxy : x ≤ y) : f.round x ≤ f.round y := by
  have hy := hx.trans_le hxy
  rcases (f.exponent_mono hx hxy).lt_or_eq with hlt | heq
  · have hcast : (((2 ^ f.precision : ℕ) : ℤ) : ℚ) = 2 ^ (f.precision : ℤ) := by push_cast; simp
    have hcast' : (((2 ^ (f.precision - 1) : ℕ) : ℤ) : ℚ) = 2 ^ ((f.precision : ℤ) - 1) := by
      rw [show (f.precision : ℤ) - 1 = ((f.precision - 1 : ℕ) : ℤ) by omega, zpow_natCast]
      push_cast
      rfl
    -- the two values sit in different binades, and a power of two separates them
    have hlow : f.round x ≤ 2 ^ (f.exponent x + f.precision) := by
      have h := f.round_le_of_le_mul (x := x) (z := ((2 ^ f.precision : ℕ) : ℤ)) (by
        rw [hcast, ulp, ← zpow_add₀ (by norm_num), add_comm]
        exact (f.lt_zpow_exponent hx).le)
      rwa [hcast, ulp, ← zpow_add₀ (by norm_num), add_comm] at h
    have hhigh : 2 ^ (f.exponent y + f.precision - 1) ≤ f.round y := by
      have h := f.le_round_of_mul_le (x := y) (z := ((2 ^ (f.precision - 1) : ℕ) : ℤ)) (by
        rw [hcast', ulp, ← zpow_add₀ (by norm_num)]
        have := f.zpow_exponent_le hy (lt_of_le_of_lt (le_max_left _ _) hlt)
        rwa [show (f.precision : ℤ) - 1 + f.exponent y = f.exponent y + f.precision - 1 by ring])
      rwa [hcast', ulp, ← zpow_add₀ (by norm_num),
        show (f.precision : ℤ) - 1 + f.exponent y = f.exponent y + f.precision - 1 by ring] at h
    calc f.round x ≤ 2 ^ (f.exponent x + f.precision) := hlow
      _ ≤ 2 ^ (f.exponent y + f.precision - 1) := zpow_le_zpow_right₀ (by norm_num) (by omega)
      _ ≤ f.round y := hhigh
  · have hulp : f.ulp x = f.ulp y := by rw [ulp, ulp, heq]
    have hscaled := halfEven_mono (div_le_div_of_nonneg_right hxy (f.ulp_pos y).le)
    rw [round, round, hulp]
    exact mul_le_mul_of_nonneg_right (by exact_mod_cast hscaled) (f.ulp_pos y).le

theorem round_mono (f : Format) (hp : 0 < f.precision) : Monotone f.round := by
  intro x y hxy
  rcases lt_trichotomy x 0 with hx | rfl | hx
  · rcases lt_or_ge y 0 with hy | hy
    · have h := f.round_mono_pos hp (x := -y) (y := -x) (by linarith) (by linarith)
      rw [round_neg, round_neg] at h
      linarith
    · have h := f.round_nonneg (x := -x) (by linarith)
      rw [round_neg] at h
      linarith [f.round_nonneg hy]
  · rw [round_zero]
    exact f.round_nonneg hxy
  · exact f.round_mono_pos hp hx hxy

/-- An integer of the significand's width, scaled by a power of two. -/
def Representable (f : Format) (q : ℚ) : Prop :=
  ∃ z e : ℤ, |z| < 2 ^ f.precision ∧ f.minExponent ≤ e ∧ q = z * 2 ^ e

/-- What is representable is its own rounding. -/
theorem round_of_representable (f : Format) {q : ℚ} (h : f.Representable q) : f.round q = q := by
  obtain ⟨z, e, hz, he, rfl⟩ := h
  rcases eq_or_ne z 0 with rfl | hz0
  · simp
  have hpos : (0 : ℚ) < |(z : ℚ) * 2 ^ e| := abs_pos.mpr (by positivity)
  have hexp : f.exponent (z * 2 ^ e) ≤ e := by
    have hsmall : |(z : ℚ) * 2 ^ e| < ((2 : ℕ) : ℚ) ^ ((f.precision : ℤ) + e) := by
      rw [abs_mul, abs_of_pos (zpow_pos (by norm_num : (0 : ℚ) < 2) e), Nat.cast_ofNat,
        zpow_add₀ (by norm_num), zpow_natCast]
      exact mul_lt_mul_of_pos_right (by exact_mod_cast hz) (zpow_pos (by norm_num) e)
    have hlog := (Int.lt_zpow_iff_log_lt (b := 2) (by norm_num) hpos).mp hsmall
    simp only [exponent]
    omega
  obtain ⟨d, hd⟩ : ∃ d : ℕ, e = f.exponent (z * 2 ^ e) + d :=
    ⟨(e - f.exponent (z * 2 ^ e)).toNat, by omega⟩
  have hscale : (z : ℚ) * 2 ^ e / f.ulp (z * 2 ^ e) = ((z * 2 ^ d : ℤ) : ℚ) := by
    have hpow : (2 : ℚ) ^ e = 2 ^ d * f.ulp (z * 2 ^ e) := by
      calc (2 : ℚ) ^ e = 2 ^ (f.exponent (z * 2 ^ e) + d) := congrArg _ hd
        _ = 2 ^ d * f.ulp (z * 2 ^ e) := by
            rw [zpow_add₀ (by norm_num), zpow_natCast, ulp, mul_comm]
    rw [div_eq_iff (f.ulp_pos _).ne', Int.cast_mul, Int.cast_pow, Int.cast_ofNat, mul_assoc, ← hpow]
  rw [round, hscale, halfEven_intCast, ← hscale, div_mul_cancel₀ _ (f.ulp_pos _).ne']

/-- A short dyadic is its own rounding. -/
theorem round_dyadic (f : Format) (hp : 24 ≤ f.precision) (he : f.minExponent ≤ -149)
    (k : ℤ) (j : ℕ) (hk : |k| < 2 ^ 24) (hj : j ≤ 149) :
    f.round (k / 2 ^ j) = k / 2 ^ j := by
  refine f.round_of_representable ⟨k, -j, ?_, by omega, ?_⟩
  · exact hk.trans_le (pow_le_pow_right₀ (by norm_num) hp)
  · rw [zpow_neg, zpow_natCast, div_eq_mul_inv]

/-- Twice a representable value is one. -/
lemma Representable.double {f : Format} {q : ℚ} (h : f.Representable q) :
    f.Representable (2 * q) := by
  obtain ⟨z, e, hz, he, rfl⟩ := h
  refine ⟨z, e + 1, hz, by omega, ?_⟩
  rw [zpow_add_one₀ (by norm_num)]
  ring

lemma Representable.neg {f : Format} {q : ℚ} (h : f.Representable q) : f.Representable (-q) := by
  obtain ⟨z, e, hz, he, rfl⟩ := h
  refine ⟨-z, e, by rwa [abs_neg], he, ?_⟩
  push_cast
  ring

lemma representable_round_pos (f : Format) (hp : 0 < f.precision) {q : ℚ} (hq : 0 < q) :
    f.Representable (f.round q) := by
  have hlow : (0 : ℤ) ≤ halfEven (q / f.ulp q) := by
    simpa using halfEven_mono (div_nonneg hq.le (f.ulp_pos q).le)
  have hhigh : halfEven (q / f.ulp q) ≤ 2 ^ f.precision := by
    have hle : q / f.ulp q ≤ ((2 ^ f.precision : ℤ) : ℚ) := by
      rw [div_le_iff₀ (f.ulp_pos q)]
      push_cast
      calc q ≤ 2 ^ (f.exponent q + f.precision) := (f.lt_zpow_exponent hq).le
        _ = 2 ^ f.precision * f.ulp q := by
          rw [zpow_add₀ (by norm_num), zpow_natCast, ulp, mul_comm]
    have hmono := halfEven_mono hle
    rwa [halfEven_intCast] at hmono
  have hmin : f.minExponent ≤ f.exponent q := le_max_left _ _
  rcases hhigh.lt_or_eq with hlt | heq
  · exact ⟨halfEven (q / f.ulp q), f.exponent q, by rwa [abs_of_nonneg hlow], hmin, rfl⟩
  · -- the rounding carried into the next binade, where half as many units are the same
    obtain ⟨n, hn⟩ := Nat.exists_eq_succ_of_ne_zero hp.ne'
    refine ⟨2 ^ n, f.exponent q + 1, ?_, by omega, ?_⟩
    · rw [abs_of_nonneg (by positivity), hn]
      exact pow_lt_pow_right₀ (by norm_num) (by omega)
    · rw [round, heq, ulp, hn, zpow_add_one₀ (by norm_num), pow_succ]
      push_cast
      ring

/-- A rounding is representable. -/
theorem representable_round (f : Format) (hp : 0 < f.precision) (q : ℚ) :
    f.Representable (f.round q) := by
  rcases lt_trichotomy q 0 with hq | rfl | hq
  · have h := (f.representable_round_pos hp (q := -q) (by linarith)).neg
    rwa [round_neg, neg_neg] at h
  · rw [round_zero]
    exact ⟨0, f.minExponent, by positivity, le_rfl, by simp⟩
  · exact f.representable_round_pos hp hq

end Format
end LoadBear.Rounding

namespace LoadBear

/-- What the results about floating-point code rest on: the order of values is kept
and short dyadics are represented. -/
structure Rounding where
  apply : ℚ → ℚ
  mono : Monotone apply
  dyadic : ∀ (k : ℤ) (j : ℕ), |k| < 2 ^ 24 → j ≤ 149 → apply (k / 2 ^ j) = k / 2 ^ j

namespace Rounding

instance : CoeFun Rounding (fun _ => ℚ → ℚ) := ⟨apply⟩

/-- Arithmetic read as exact. -/
def exact : Rounding where
  apply q := q
  mono := monotone_id
  dyadic _ _ _ _ := rfl

@[simp] theorem exact_apply (q : ℚ) : exact q = q := rfl

def ofFormat (f : Format) (hp : 24 ≤ f.precision) (he : f.minExponent ≤ -149) : Rounding where
  apply := f.round
  mono := f.round_mono (by omega)
  dyadic := f.round_dyadic hp he

/-- IEEE single precision. -/
def binary32 : Rounding := ofFormat ⟨24, -149⟩ (by norm_num) (by norm_num)

/-- IEEE double precision. -/
def binary64 : Rounding := ofFormat ⟨53, -1074⟩ (by norm_num) (by norm_num)

@[simp] theorem intCast (r : Rounding) (k : ℤ) (hk : |k| < 2 ^ 24) : r k = k := by
  simpa using r.dyadic k 0 hk (by norm_num)

@[simp] theorem zero (r : Rounding) : r 0 = 0 := by simpa using r.intCast 0 (by norm_num)

end Rounding
end LoadBear
