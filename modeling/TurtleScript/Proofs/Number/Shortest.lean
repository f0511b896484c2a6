import TurtleScript.Number.Decimal
import TurtleScript.Proofs.Number.Rounding

/-!
The decimal chosen for a finite magnitude reads as that magnitude. Whatever the grid proposes is
read once more before it is taken, and what is taken in its place has the value of the magnitude.
-/

namespace TurtleScript

namespace Binary64

variable {magnitude : Nat}

theorem zpow_le_value (hpos : 0 < magnitude) : (2 : ℚ) ^ (-1074 : Int) ≤ value magnitude := by
  have hparts := madeOf_parts magnitude
  have hmantissa : (1 : ℚ) ≤ (parts magnitude).1 := by
    exact_mod_cast hparts.mantissa_pos hpos
  have hpower : (2 : ℚ) ^ (-1074 : Int) ≤ 2 ^ (parts magnitude).2 :=
    zpow_le_zpow_right₀ (by norm_num) hparts.reachable
  calc (2 : ℚ) ^ (-1074 : Int) ≤ 2 ^ (parts magnitude).2 := hpower
    _ ≤ (parts magnitude).1 * 2 ^ (parts magnitude).2 :=
        le_mul_of_one_le_left (by positivity) hmantissa

theorem value_lt (hfinite : magnitude < infinity) : value magnitude < 2 ^ (1024 : Int) := by
  obtain ⟨hbounded, hreachable, hfull, hwhole⟩ := madeOf_parts magnitude
  have htop : (parts magnitude).2 ≤ 971 := by
    change magnitude < 2047 * 2 ^ 52 at hfinite
    unfold leastUnit at hreachable hfull hwhole
    omega
  have hmantissa : ((parts magnitude).1 : ℚ) < 2 ^ (53 : Int) := by exact_mod_cast hbounded
  calc value magnitude < 2 ^ (53 : Int) * 2 ^ (parts magnitude).2 :=
        mul_lt_mul_of_pos_right hmantissa (by positivity)
    _ ≤ 2 ^ (53 : Int) * 2 ^ (971 : Int) :=
        mul_le_mul_of_nonneg_left (zpow_le_zpow_right₀ (by norm_num) htop) (by positivity)
    _ = 2 ^ (1024 : Int) := by
        rw [← zpow_add₀ (by norm_num)]
        rfl

end Binary64

namespace Decimal

/-- The number that a decimal stands for. -/
def value (x : Decimal) : ℚ :=
  x.coefficient * 10 ^ x.exponent

theorem divideByPower_eq_scale (n d : Nat) (e : Int) :
    divideByPower n d e = Binary64.scale 10 n d e := by
  cases e <;> rfl

/-- A decimal with a great exponent has no finite magnitude. -/
theorem le_value {x : Decimal} (hpos : 0 < x.coefficient) (h : 310 ≤ x.exponent) :
    (2 : ℚ) ^ (1024 : Int) ≤ x.value := by
  have hcoefficient : (1 : ℚ) ≤ x.coefficient := by exact_mod_cast hpos
  have hpowers : (2 : ℚ) ^ (1024 : Int) ≤ 10 ^ (310 : Int) := by
    have hnat : 2 ^ 1024 ≤ 10 ^ 310 := by decide +kernel
    exact_mod_cast hnat
  calc (2 : ℚ) ^ (1024 : Int) ≤ 10 ^ (310 : Int) := hpowers
    _ ≤ 10 ^ x.exponent := zpow_le_zpow_right₀ (by norm_num) h
    _ ≤ x.value := le_mul_of_one_le_left (by positivity) hcoefficient

/-- A decimal of small length and exponent is below every positive magnitude. -/
theorem value_lt {x : Decimal} (h : (x.coefficient.log2 : Int) + 1081 + 3 * x.exponent < 0) :
    x.value < 2 ^ (-1074 : Int) := by
  have hpower : (10 : ℚ) ^ x.exponent ≤ 2 ^ (3 * x.exponent) := by
    obtain ⟨k, hk⟩ := Int.eq_ofNat_of_zero_le (show 0 ≤ -x.exponent by omega)
    have hexponent : x.exponent = -(k : Int) := by omega
    have height : (2 : ℚ) ^ (3 : Int) = 8 := by norm_num
    rw [zpow_mul, height, hexponent, zpow_neg, zpow_neg, zpow_natCast, zpow_natCast]
    exact inv_anti₀ (by positivity) (pow_le_pow_left₀ (by norm_num) (by norm_num) k)
  calc x.value < 2 ^ ((x.coefficient.log2 : Int) + 1) * 10 ^ x.exponent :=
        mul_lt_mul_of_pos_right (Binary64.lt_zpow_log2 _) (by positivity)
    _ ≤ 2 ^ ((x.coefficient.log2 : Int) + 1) * 2 ^ (3 * x.exponent) :=
        mul_le_mul_of_nonneg_left hpower (by positivity)
    _ = 2 ^ ((x.coefficient.log2 : Int) + 1 + 3 * x.exponent) :=
        (zpow_add₀ (by norm_num) _ _).symm
    _ ≤ 2 ^ (-1074 : Int) := zpow_le_zpow_right₀ (by norm_num) (by omega)

variable {magnitude : Nat}

/-- A decimal with the value of a finite magnitude reads as that magnitude. -/
theorem magnitude_eq {x : Decimal} (hpos : 0 < magnitude) (hfinite : magnitude < Binary64.infinity)
    (h : x.value = Binary64.value magnitude) : x.magnitude = magnitude := by
  have hleast := Binary64.zpow_le_value hpos
  have hgreatest := Binary64.value_lt hfinite
  have hcoefficient : 0 < x.coefficient := by
    apply Nat.pos_of_ne_zero
    intro hzero
    have hvalue : x.value = 0 := by simp [value, hzero]
    have hpositive : (0 : ℚ) < 2 ^ (-1074 : Int) := by positivity
    linarith
  have hlow : ¬ 310 ≤ x.exponent := by
    intro hexponent
    have hle := le_value hcoefficient hexponent
    linarith
  have hhigh : ¬ (x.coefficient.log2 : Int) + 1081 + 3 * x.exponent < 0 := by
    intro hlength
    have hlt := value_lt hlength
    linarith
  unfold Decimal.magnitude
  rw [if_neg (by omega), if_neg hlow, if_neg hhigh]
  simp only [divideByPower_eq_scale]
  apply Binary64.nearest_eq hfinite (Binary64.fst_scale_pos (by decide) hcoefficient _ _)
    (Binary64.snd_scale_pos (by decide) _ (by decide) _)
  rw [← h]
  change Binary64.ratio _ = _
  rw [Binary64.ratio_scale, zpow_neg, value]
  simp

/-- All digits of a magnitude together have its value. -/
theorem value_exact (magnitude : Nat) : (exact magnitude).value = Binary64.value magnitude := by
  unfold exact Binary64.value
  simp only
  split
  · rename_i e he
    rw [he]
    simp [value]
  · rename_i e he
    rw [he]
    simp only [value, zpow_negSucc, Nat.pow_eq]
    push_cast
    rw [mul_assoc]
    have hten : (10 : ℚ) ^ (e + 1) = 5 ^ (e + 1) * 2 ^ (e + 1) := by
      rw [← mul_pow]
      norm_num
    rw [hten, mul_inv, mul_inv_cancel_left₀ (by positivity)]

/-- What is written for a finite magnitude reads as that magnitude. -/
theorem magnitude_shortest (hpos : 0 < magnitude) (hfinite : magnitude < Binary64.infinity) :
    (shortest magnitude).magnitude = magnitude := by
  unfold shortest
  cases hfilter : ((grid magnitude).coarsest? 18).filter fun x => x.magnitude == magnitude with
  | none => exact magnitude_eq hpos hfinite (value_exact magnitude)
  | some x =>
      have hreads := (Option.filter_eq_some_iff.mp hfilter).2
      simpa using hreads

end Decimal

end TurtleScript
