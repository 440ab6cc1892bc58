import Mathlib.Algebra.Order.Round
import Mathlib.Data.Int.Log

/-! Rounding to the nearest number of a binary floating-point format, ties to even. There is no
largest exponent. -/

namespace CellNet.Library

variable {K : Type*} [Field K] [LinearOrder K] [FloorRing K]

/-- The integer next to `x`. -/
def roundEven (x : K) : ℤ :=
  if Int.fract x < 2⁻¹ then ⌊x⌋
  else if 2⁻¹ < Int.fract x then ⌊x⌋ + 1
  else if Even ⌊x⌋ then ⌊x⌋ else ⌊x⌋ + 1

/-- The conversion to an integer, towards zero. -/
def truncate (x : K) : ℤ := if 0 ≤ x then ⌊x⌋ else ⌈x⌉

/-- The numbers `m * 2 ^ e` with `precision` bits in `m`, and `emin ≤ e`. -/
structure FloatFormat where
  precision : ℕ
  emin : ℤ
  precision_pos : 0 < precision
  emin_nonpos : emin ≤ 0

namespace FloatFormat

/-- The exponent of the last bit of a number of the size of `x`. -/
def exponent (F : FloatFormat) (x : K) : ℤ := max (Int.log 2 x + 1 - F.precision) F.emin

/-- The rounded `x`, for `0 ≤ x`. -/
def magnitude (F : FloatFormat) (x : K) : K :=
  roundEven (x / 2 ^ F.exponent x) * 2 ^ F.exponent x

def round (F : FloatFormat) (x : K) : K :=
  if x < 0 then -F.magnitude (-x) else F.magnitude x

end FloatFormat

section Integers

variable [IsStrictOrderedRing K] {x y : K}

omit [IsStrictOrderedRing K] in
theorem roundEven_cases (x : K) : roundEven x = ⌊x⌋ ∨ roundEven x = ⌊x⌋ + 1 := by
  rw [roundEven]
  split_ifs <;> simp

theorem roundEven_intCast (n : ℤ) : roundEven (n : K) = n := by
  simp [roundEven]

theorem roundEven_mono (h : x ≤ y) : roundEven x ≤ roundEven y := by
  rcases (Int.floor_mono h).lt_or_eq with hlt | heq
  · have hx := roundEven_cases x
    have hy := roundEven_cases y
    omega
  · have hfract : Int.fract x ≤ Int.fract y := by
      rw [Int.fract, Int.fract, heq]
      linarith
    rw [roundEven, roundEven, heq]
    split_ifs <;> first | omega | (exfalso; linarith)

theorem truncate_le {n : ℤ} (h : x ≤ n) : truncate x ≤ n := by
  rw [truncate]
  split
  · exact_mod_cast (Int.floor_le x).trans h
  · exact Int.ceil_le.mpr h

end Integers

namespace FloatFormat

variable [IsStrictOrderedRing K] {F : FloatFormat} {x y : K}

/-- A multiple of the last bit bounds the rounded number as it bounds the number. -/
theorem magnitude_le {m : ℤ} (h : x ≤ m * 2 ^ F.exponent x) :
    F.magnitude x ≤ m * 2 ^ F.exponent x := by
  have hpos : (0 : K) < 2 ^ F.exponent x := zpow_pos two_pos _
  have hle := roundEven_mono ((div_le_iff₀ hpos).mpr h)
  rw [roundEven_intCast] at hle
  exact mul_le_mul_of_nonneg_right (by exact_mod_cast hle) hpos.le

theorem le_magnitude {m : ℤ} (h : m * 2 ^ F.exponent x ≤ x) :
    m * 2 ^ F.exponent x ≤ F.magnitude x := by
  have hpos : (0 : K) < 2 ^ F.exponent x := zpow_pos two_pos _
  have hle := roundEven_mono ((le_div_iff₀ hpos).mpr h)
  rw [roundEven_intCast] at hle
  exact mul_le_mul_of_nonneg_right (by exact_mod_cast hle) hpos.le

theorem magnitude_nonneg (h : 0 ≤ x) : 0 ≤ F.magnitude x := by
  have hle : ((0 : ℤ) : K) * 2 ^ F.exponent x ≤ F.magnitude x := le_magnitude (by simpa using h)
  simpa using hle

@[simp] theorem magnitude_zero : F.magnitude (0 : K) = 0 := by
  have hzero : roundEven (0 : K) = 0 := by simpa using roundEven_intCast (K := K) 0
  simp [magnitude, hzero]

/-- A power of two is a multiple of each smaller one. -/
theorem zpow_eq_mul {l e : ℤ} (h : e ≤ l) : (2 : K) ^ l = (2 ^ (l - e).toNat : ℤ) * 2 ^ e := by
  have hnat : ((l - e).toNat : ℤ) = l - e := Int.toNat_of_nonneg (by omega)
  rw [Int.cast_pow, Int.cast_ofNat, ← zpow_natCast, hnat, ← zpow_add₀ two_ne_zero, sub_add_cancel]

/-- In different binades the smaller power of two of the larger number lies between. -/
theorem magnitude_mono (hx : 0 ≤ x) (h : x ≤ y) : F.magnitude x ≤ F.magnitude y := by
  rcases hx.lt_or_eq with hx | rfl
  · have hy := hx.trans_le h
    have hlog := Int.log_mono_right (b := 2) hx h
    have hexp : F.exponent x ≤ F.exponent y := max_le_max (by omega) le_rfl
    rcases hexp.lt_or_eq with hlt | heq
    · have hprec := F.precision_pos
      have hey : F.exponent y = Int.log 2 y + 1 - F.precision := by
        simp only [exponent] at hlt ⊢
        omega
      have hltlog : Int.log 2 x < Int.log 2 y := by
        simp only [exponent] at hlt
        omega
      have hxle : x ≤ 2 ^ Int.log 2 y := by
        have hlt := (Int.lt_zpow_iff_log_lt one_lt_two hx).mpr hltlog
        exact_mod_cast hlt.le
      have hley : (2 : K) ^ Int.log 2 y ≤ y := by
        exact_mod_cast Int.zpow_log_le_self one_lt_two hy
      have hgridx := zpow_eq_mul (K := K) (show F.exponent x ≤ Int.log 2 y by omega)
      have hgridy := zpow_eq_mul (K := K) (show F.exponent y ≤ Int.log 2 y by omega)
      calc F.magnitude x ≤ 2 ^ Int.log 2 y := by
            rw [hgridx] at hxle ⊢
            exact magnitude_le hxle
        _ ≤ F.magnitude y := by
            rw [hgridy] at hley ⊢
            exact le_magnitude hley
    · rw [magnitude, magnitude, heq]
      have hpos : (0 : K) < 2 ^ F.exponent y := zpow_pos two_pos _
      have hle := roundEven_mono ((div_le_div_iff_of_pos_right hpos).mpr h)
      exact mul_le_mul_of_nonneg_right (by exact_mod_cast hle) hpos.le
  · rw [magnitude_zero]
    exact magnitude_nonneg h

theorem round_mono (F : FloatFormat) : Monotone (F.round : K → K) := by
  intro x y h
  rw [round, round]
  split_ifs with hx hy hy
  · exact neg_le_neg (magnitude_mono (by linarith) (neg_le_neg h))
  · have hneg := magnitude_nonneg (F := F) (x := -x) (by linarith)
    have hpos := magnitude_nonneg (F := F) (not_lt.mp hy)
    linarith
  · linarith
  · exact magnitude_mono (not_lt.mp hx) h

theorem magnitude_natCast {n : ℕ} (hn : n < 2 ^ F.precision) : F.magnitude (n : K) = n := by
  have hexp : F.exponent (n : K) ≤ 0 := by
    have hlog : Int.log 2 (n : K) < F.precision := by
      rw [Int.log_natCast]
      rcases Nat.eq_zero_or_pos n with rfl | hpos
      · simpa using F.precision_pos
      · exact_mod_cast Nat.log_lt_of_lt_pow hpos.ne' hn
    exact max_le (by omega) F.emin_nonpos
  have hgrid := zpow_eq_mul (K := K) hexp
  have hpos : (0 : K) < 2 ^ F.exponent (n : K) := zpow_pos two_pos _
  have hcast : (n : K) = ((n * 2 ^ (0 - F.exponent (n : K)).toNat : ℤ) : K) *
      2 ^ F.exponent (n : K) := by
    rw [Int.cast_mul, mul_assoc, ← hgrid, zpow_zero, mul_one, Int.cast_natCast]
  have hdiv : (n : K) / 2 ^ F.exponent (n : K) =
      ((n * 2 ^ (0 - F.exponent (n : K)).toNat : ℤ) : K) :=
    (div_eq_iff hpos.ne').mpr hcast
  rw [magnitude, hdiv, roundEven_intCast, ← hcast]

/-- The integers of the precision are numbers of the format. -/
theorem round_intCast {n : ℤ} (hn : n.natAbs < 2 ^ F.precision) : F.round (n : K) = n := by
  have hmag := magnitude_natCast (K := K) hn
  rw [round]
  split
  · next hneg =>
      have hneg : n < 0 := by exact_mod_cast hneg
      have habs : ((n.natAbs : ℕ) : K) = -(n : K) := by
        rw [← Int.cast_natCast, Int.ofNat_natAbs_of_nonpos hneg.le, Int.cast_neg]
      rw [habs] at hmag
      rw [hmag, neg_neg]
  · next hpos =>
      have hpos : 0 ≤ n := by exact_mod_cast not_lt.mp hpos
      have habs : ((n.natAbs : ℕ) : K) = (n : K) := by
        rw [← Int.cast_natCast, Int.natAbs_of_nonneg hpos]
      rwa [habs] at hmag

/-- A quotient by at least 1 is rounded to no more than the dividend. -/
theorem round_div_le {n : ℤ} {t : K} (hn : 0 ≤ n) (hp : n.natAbs < 2 ^ F.precision) (ht : 1 ≤ t) :
    F.round ((n : K) / t) ≤ n := by
  have hdiv : (n : K) / t ≤ n := div_le_self (by exact_mod_cast hn) ht
  calc F.round ((n : K) / t) ≤ F.round (n : K) := F.round_mono hdiv
    _ = n := round_intCast hp

theorem round_nonpos (h : x ≤ 0) : F.round x ≤ 0 := by
  have hzero : F.round (0 : K) = 0 := by simp [round]
  exact (F.round_mono h).trans_eq hzero

end FloatFormat

end CellNet.Library
