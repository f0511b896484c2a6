import Mathlib.Algebra.Order.Field.Power
import Mathlib.Data.Rat.Cast.Order
import Mathlib.Tactic.FieldSimp
import Mathlib.Tactic.Linarith
import Mathlib.Tactic.NormNum
import TurtleScript.Number.Binary64

/-!
Rounding does nothing to a ratio that has a magnitude already. The lengths of the numerator and the
denominator fix the power of two up to one, and the mantissa says which of the two it is.
-/

namespace TurtleScript

namespace Binary64

/-- The number that a finite magnitude stands for. -/
def value (magnitude : Nat) : ℚ :=
  (parts magnitude).1 * 2 ^ (parts magnitude).2

/-- How a finite magnitude is made up of a mantissa and a power of two. -/
structure MadeOf (magnitude mantissa : Nat) (power : Int) : Prop where
  bounded : mantissa < 2 ^ 53
  reachable : leastUnit ≤ power
  /-- Only next to zero the mantissa may lack its first bit. -/
  full : 2 ^ 52 ≤ mantissa ∨ power = leastUnit
  whole : (power - leastUnit).toNat * 2 ^ 52 + mantissa = magnitude

theorem parts_eq (magnitude : Nat) :
    parts magnitude =
      if magnitude / 2 ^ 52 = 0 then (magnitude % 2 ^ 52, leastUnit)
      else (magnitude % 2 ^ 52 + 2 ^ 52, leastUnit + (magnitude / 2 ^ 52 - 1 : Nat)) := rfl

theorem madeOf_parts (magnitude : Nat) :
    MadeOf magnitude (parts magnitude).1 (parts magnitude).2 := by
  have hfraction : magnitude % 2 ^ 52 < 2 ^ 52 := Nat.mod_lt _ (by decide)
  rw [parts_eq]
  by_cases hexponent : magnitude / 2 ^ 52 = 0
  · rw [if_pos hexponent]
    exact ⟨by omega, Int.le_refl _, Or.inr rfl, by simp only; omega⟩
  · rw [if_neg hexponent]
    exact ⟨by omega, by simp only; omega, Or.inl (by simp only; omega), by simp only; omega⟩

theorem MadeOf.mantissa_pos {magnitude mantissa : Nat} {power : Int}
    (h : MadeOf magnitude mantissa power) (hpos : 0 < magnitude) : 0 < mantissa := by
  obtain ⟨-, -, hfull, hwhole⟩ := h
  rcases hfull with hfull | rfl
  · omega
  · simp only [Int.sub_self, Int.toNat_zero] at hwhole
    omega

/-- The ratio of two numbers. -/
def ratio (nd : Nat × Nat) : ℚ :=
  nd.1 / nd.2

/-- The ratio `n / d` divided by a power of a base. -/
def scale (base n d : Nat) : Int → Nat × Nat
  | .ofNat e => (n, d * base ^ e)
  | .negSucc e => (n * base ^ (e + 1), d)

theorem ratio_scale (base n d : Nat) (e : Int) :
    ratio (scale base n d e) = (n / d : ℚ) / base ^ e := by
  cases e with
  | ofNat e => simp [ratio, scale, div_div]
  | negSucc e =>
      simp only [ratio, scale, zpow_negSucc, div_inv_eq_mul]
      push_cast
      rw [div_mul_eq_mul_div]

theorem snd_scale_pos {base d : Nat} (hbase : 0 < base) (n : Nat) (hd : 0 < d) (e : Int) :
    0 < (scale base n d e).2 := by
  cases e with
  | ofNat e => exact Nat.mul_pos hd (Nat.pow_pos hbase)
  | negSucc e => exact hd

theorem fst_scale_pos {base n : Nat} (hbase : 0 < base) (hn : 0 < n) (d : Nat) (e : Int) :
    0 < (scale base n d e).1 := by
  cases e with
  | ofNat e => exact hn
  | negSucc e => exact Nat.mul_pos hn (Nat.pow_pos hbase)

theorem divideByPower_eq_scale (n d : Nat) (e : Int) : divideByPower n d e = scale 2 n d e := by
  cases e <;> rfl

theorem ratio_divideByPower (n d : Nat) (e : Int) :
    ratio (divideByPower n d e) = (n / d : ℚ) / 2 ^ e := by
  rw [divideByPower_eq_scale]
  exact ratio_scale 2 n d e

theorem snd_divideByPower_pos {d : Nat} (n : Nat) (hd : 0 < d) (e : Int) :
    0 < (divideByPower n d e).2 := by
  rw [divideByPower_eq_scale]
  exact snd_scale_pos (by decide) n hd e

theorem zpow_log2_le {n : Nat} (hn : 0 < n) : (2 : ℚ) ^ (n.log2 : Int) ≤ n := by
  rw [zpow_natCast]
  exact_mod_cast Nat.log2_self_le (Nat.ne_of_gt hn)

theorem lt_zpow_log2 (n : Nat) : (n : ℚ) < 2 ^ ((n.log2 : Int) + 1) := by
  have hlt : n < 2 ^ (n.log2 + 1) := Nat.lt_log2_self
  exact_mod_cast hlt

/-- The lengths of two numbers bound their ratio from below and above. -/
theorem ratio_log2_bounds {n d : Nat} (hn : 0 < n) (hd : 0 < d) :
    (2 : ℚ) ^ ((n.log2 : Int) - d.log2 - 1) < n / d ∧
      (n / d : ℚ) < 2 ^ ((n.log2 : Int) - d.log2 + 1) := by
  have hd' : (0 : ℚ) < d := by exact_mod_cast hd
  have htwo : (2 : ℚ) ≠ 0 := by norm_num
  constructor
  · rw [lt_div_iff₀ hd']
    calc (2 : ℚ) ^ ((n.log2 : Int) - d.log2 - 1) * d
        < 2 ^ ((n.log2 : Int) - d.log2 - 1) * 2 ^ ((d.log2 : Int) + 1) :=
          mul_lt_mul_of_pos_left (lt_zpow_log2 d) (by positivity)
      _ = 2 ^ (n.log2 : Int) := by
          rw [← zpow_add₀ htwo]
          congr 1
          omega
      _ ≤ n := zpow_log2_le hn
  · rw [div_lt_iff₀ hd']
    calc (n : ℚ) < 2 ^ ((n.log2 : Int) + 1) := lt_zpow_log2 n
      _ = 2 ^ ((n.log2 : Int) - d.log2 + 1) * 2 ^ (d.log2 : Int) := by
          rw [← zpow_add₀ htwo]
          congr 1
          omega
      _ ≤ 2 ^ ((n.log2 : Int) - d.log2 + 1) * d :=
          mul_le_mul_of_nonneg_left (zpow_log2_le hd) (by positivity)

theorem lt_mul_iff_ratio_lt {nd : Nat × Nat} (hd : 0 < nd.2) (k : Nat) :
    nd.1 < k * nd.2 ↔ ratio nd < k := by
  have hd' : (0 : ℚ) < nd.2 := by exact_mod_cast hd
  rw [ratio, div_lt_iff₀ hd']
  norm_cast

variable {n d magnitude mantissa : Nat} {power : Int}

/-- Of the two powers that the lengths leave, the mantissa of the ratio picks its own. -/
theorem unit_eq (hparts : MadeOf magnitude mantissa power) (hn : 0 < n) (hd : 0 < d)
    (h : (n / d : ℚ) = mantissa * 2 ^ power) : unit n d = power := by
  obtain ⟨hbounded, hreachable, hfull, -⟩ := hparts
  obtain ⟨hlower, hupper⟩ := ratio_log2_bounds hn hd
  have htwo : (2 : ℚ) ≠ 0 := by norm_num
  have hpower : (0 : ℚ) < 2 ^ power := by positivity
  have hbelow : (mantissa : ℚ) < 2 ^ 53 := by exact_mod_cast hbounded
  -- The ratio has at most 53 bits before its last one.
  have hshort : (n.log2 : Int) - d.log2 - 53 ≤ power := by
    have hlt : (2 : ℚ) ^ ((n.log2 : Int) - d.log2 - 1) < 2 ^ (53 + power) := by
      calc (2 : ℚ) ^ ((n.log2 : Int) - d.log2 - 1) < n / d := hlower
        _ = mantissa * 2 ^ power := h
        _ < 2 ^ 53 * 2 ^ power := mul_lt_mul_of_pos_right hbelow hpower
        _ = 2 ^ (53 + power) := by rw [zpow_add₀ htwo]; norm_num
    have hlt' := (zpow_lt_zpow_iff_right₀ (by norm_num)).mp hlt
    omega
  have hratio : ∀ low : Int, ratio (divideByPower n d low) = mantissa * 2 ^ (power - low) := by
    intro low
    rw [ratio_divideByPower, h, zpow_sub₀ htwo, mul_div_assoc]
  have hpositive : ∀ low, 0 < (divideByPower n d low).2 := snd_divideByPower_pos n hd
  -- If the lower candidate is not the power itself, then the mantissa is full.
  have hcandidates : max ((n.log2 : Int) - d.log2 - 53) leastUnit = power ∨
      (max ((n.log2 : Int) - d.log2 - 53) leastUnit = power - 1 ∧ 2 ^ 52 ≤ mantissa) := by
    rcases hfull with hfull | hleast
    · have hlong : power ≤ (n.log2 : Int) - d.log2 - 53 + 1 := by
        have habove : (2 : ℚ) ^ 52 ≤ mantissa := by exact_mod_cast hfull
        have hlt : (2 : ℚ) ^ (52 + power) < 2 ^ ((n.log2 : Int) - d.log2 + 1) := by
          calc (2 : ℚ) ^ (52 + power) = 2 ^ 52 * 2 ^ power := by
                rw [zpow_add₀ htwo]; norm_num
            _ ≤ mantissa * 2 ^ power := mul_le_mul_of_nonneg_right habove hpower.le
            _ = n / d := h.symm
            _ < 2 ^ ((n.log2 : Int) - d.log2 + 1) := hupper
        have hlt' := (zpow_lt_zpow_iff_right₀ (by norm_num)).mp hlt
        omega
      omega
    · omega
  unfold unit
  simp only
  rcases hcandidates with hlow | ⟨hlow, hfull⟩
  · rw [hlow, if_pos]
    rw [lt_mul_iff_ratio_lt (hpositive power), hratio, sub_self, zpow_zero, mul_one]
    exact_mod_cast hbounded
  · rw [hlow, if_neg]
    · omega
    · rw [lt_mul_iff_ratio_lt (hpositive (power - 1)), hratio]
      have habove : (2 : ℚ) ^ 52 ≤ mantissa := by exact_mod_cast hfull
      have hone : power - (power - 1) = 1 := by omega
      rw [hone, zpow_one]
      push_cast
      linarith

theorem roundHalfEven_mul (k : Nat) {d : Nat} (hd : 0 < d) : roundHalfEven (k * d) d = k := by
  simp [roundHalfEven, Nat.mul_div_cancel k hd, hd]

/-- A ratio that has a finite magnitude is not rounded. -/
theorem nearest_eq (hfinite : magnitude < infinity) (hn : 0 < n) (hd : 0 < d)
    (h : (n / d : ℚ) = value magnitude) : nearest n d = magnitude := by
  have hparts := madeOf_parts magnitude
  have hunit := unit_eq hparts hn hd h
  have hratio : ratio (divideByPower n d (parts magnitude).2) = (parts magnitude).1 := by
    rw [ratio_divideByPower, h, value, mul_div_assoc, div_self (by positivity), mul_one]
  have hd' := snd_divideByPower_pos n hd (parts magnitude).2
  have hexact : (divideByPower n d (parts magnitude).2).1 =
      (parts magnitude).1 * (divideByPower n d (parts magnitude).2).2 := by
    have hne : ((divideByPower n d (parts magnitude).2).2 : ℚ) ≠ 0 := by
      exact_mod_cast Nat.ne_of_gt hd'
    rw [ratio, div_eq_iff hne] at hratio
    exact_mod_cast hratio
  unfold nearest
  rw [if_neg (by omega)]
  simp only [hunit]
  rw [hexact, roundHalfEven_mul _ hd', Nat.pow_eq, hparts.whole]
  exact Nat.min_eq_left hfinite.le

end Binary64

end TurtleScript
