import Mathlib
import TurtleScript.Number.Binary64

/-!
Finite numbers and their bit patterns. Building a number from a bit pattern takes the pattern apart
into sign, exponent and mantissa and puts these together again, so that the pattern of a finite
number stays as it is. Main statement: a finite number is built from its sign and its magnitude.
-/

namespace TurtleScript

namespace Binary64

open Float.Model (Format)

open Float.Model.UnpackedFloat (Sign packComponents unpackMantissa unpackExponent unpackSign)

theorem toNat_append {v w : Nat} (a : BitVec v) (b : BitVec w) :
    (a ++ b).toNat = a.toNat * 2 ^ w + b.toNat := by
  rw [BitVec.toNat_append, ← Nat.shiftLeft_add_eq_or_of_lt b.isLt, Nat.shiftLeft_eq]

theorem toNat_unpackMantissa (b : BitVec Format.binary64.numBits) :
    (unpackMantissa b).toNat = b.toNat % 2 ^ 52 := by
  simp [unpackMantissa]

theorem toNat_unpackExponent (b : BitVec Format.binary64.numBits) :
    (unpackExponent b).toNat = b.toNat / 2 ^ 52 % 2 ^ 11 := by
  simp [unpackExponent, Nat.shiftRight_eq_div_pow]

theorem toNat_unpackSign (b : BitVec Format.binary64.numBits) :
    (unpackSign b).toNat = b.toNat / 2 ^ 63 := by
  have hlt : b.toNat < 2 ^ 64 := b.isLt
  simp only [unpackSign, BitVec.toNat_cast, BitVec.extractLsb_toNat, Nat.shiftRight_eq_div_pow]
  omega

theorem toBitVec_ofBitVec (b : BitVec 1) : (Sign.ofBitVec b).toBitVec = b := by
  revert b
  decide

/-- The fields of a bit pattern make up the pattern. -/
theorem packComponents_fields (b : BitVec Format.binary64.numBits) :
    packComponents Format.binary64 (Sign.ofBitVec (unpackSign b)) (unpackExponent b)
      (unpackMantissa b) = b := by
  apply BitVec.eq_of_toNat_eq
  rw [packComponents, toBitVec_ofBitVec, toNat_append, toNat_append, toNat_unpackMantissa,
    toNat_unpackExponent, toNat_unpackSign]
  change (b.toNat / 2 ^ 63 * 2 ^ 11 + b.toNat / 2 ^ 52 % 2 ^ 11) * 2 ^ 52 + b.toNat % 2 ^ 52 = _
  omega

/-- A number with a mantissa below the implicit bit is packed with exponent zero. -/
theorem pack_subnormal (s : Sign) {m : BitVec 52} (hm : 0 < m.toNat) :
    Float.Model.UnpackedFloat.pack Format.binary64 (.finite s m.toNat (-1074) hm) =
      packComponents Format.binary64 s 0#11 m := by
  have hlog : m.toNat.log2 < 52 := (Nat.log2_lt (by omega)).mpr m.isLt
  have hbits : m.toNat.log2 + 1 ≠ Format.binary64.mantissaBits := by
    change m.toNat.log2 + 1 ≠ 53
    omega
  simp only [Float.Model.UnpackedFloat.pack]
  rw [if_neg (by decide), if_neg hbits, BitVec.ofNat_toNat, BitVec.setWidth_eq]

/-- A number with an implicit bit is packed without it. -/
theorem pack_normal (s : Sign) {e : BitVec 11} (m : BitVec 52) (he : e.toNat < 2047)
    (hm : 0 < (1#1 ++ m).toNat) :
    Float.Model.UnpackedFloat.pack Format.binary64
        (.finite s (1#1 ++ m).toNat (e.toNat - 1075) hm) =
      packComponents Format.binary64 s e m := by
  have hvalue : (1#1 ++ m).toNat = 2 ^ 52 + m.toNat := by
    rw [toNat_append]
    simp
  have hlog : (1#1 ++ m).toNat.log2 + 1 = Format.binary64.mantissaBits := by
    have hlt := m.isLt
    change (1#1 ++ m).toNat.log2 + 1 = 53
    have hlog2 : (1#1 ++ m).toNat.log2 = 52 := by
      rw [Nat.log2_eq_iff (by omega), hvalue]
      omega
    omega
  have hbiased : ((e.toNat : Int) - 1075 + (Format.binary64.exponentBias : Nat) +
      (Format.binary64.mantissaBitsWithoutImplicit : Nat)).toNat = e.toNat := by
    change ((e.toNat : Int) - 1075 + 1023 + 52).toNat = e.toNat
    omega
  simp only [Float.Model.UnpackedFloat.pack]
  rw [hbiased, if_neg (by omega), if_pos hlog, BitVec.ofNat_toNat, BitVec.setWidth_eq]
  congr 1
  apply BitVec.eq_of_toNat_eq
  have hlt := m.isLt
  rw [BitVec.toNat_ofNat, hvalue]
  omega

/-- Packing undoes unpacking unless the exponent is the one of infinity. -/
theorem pack_unpack {b : BitVec Format.binary64.numBits}
    (hfinite : (unpackExponent b).toNat < 2047) :
    Float.Model.UnpackedFloat.pack Format.binary64
      (Float.Model.UnpackedFloat.unpack Format.binary64 b) = b := by
  have hwhole := packComponents_fields b
  have hexponent : unpackExponent b ≠ -1#11 := by
    intro h
    rw [h] at hfinite
    exact absurd hfinite (by decide)
  unfold Float.Model.UnpackedFloat.unpack
  simp only
  rw [if_neg hexponent]
  split
  · rename_i hzero
    rw [hzero] at hwhole
    split
    · rename_i hmantissa
      rw [hmantissa] at hwhole
      exact hwhole
    · have hunit : ((unpackExponent b).toNat : Int) - ((Format.binary64.exponentBias : Nat) +
          (Format.binary64.mantissaBitsWithoutImplicit : Nat)) + 1 = -1074 := by
        rw [hzero]
        rfl
      simp only [hunit]
      rw [pack_subnormal]
      exact hwhole
  · have hunit : ((unpackExponent b).toNat : Int) - ((Format.binary64.exponentBias : Nat) +
        (Format.binary64.mantissaBitsWithoutImplicit : Nat)) = (unpackExponent b).toNat - 1075 :=
      rfl
    simp only [hunit]
    rw [pack_normal _ _ hfinite]
    exact hwhole

theorem magnitude_eq_mod (x : Float) : magnitude x = x.toBits.toNat % 2 ^ 63 := rfl

theorem eq_of_toBits_eq {x y : Float} (h : x.toBits = y.toBits) : x = y := by
  obtain ⟨⟨a, ha⟩⟩ := x
  obtain ⟨⟨b, hb⟩⟩ := y
  have hab : a = b := h
  subst hab
  rfl

/-- The pattern of a finite number is kept as it is. -/
theorem toBits_ofBits {b : UInt64} (hfinite : b.toNat % 2 ^ 63 < infinity) :
    (Float.ofBits b).toBits = b := by
  have hexponent : (@unpackExponent Format.binary64 b.toBitVec).toNat < 2047 := by
    rw [toNat_unpackExponent]
    change b.toNat / 2 ^ 52 % 2 ^ 11 < 2047
    change b.toNat % 2 ^ 63 < 2047 * 2 ^ 52 at hfinite
    omega
  change UInt64.ofBitVec (Float.Model.UnpackedFloat.pack Format.binary64
    (Float.Model.UnpackedFloat.unpack Format.binary64 b.toBitVec)) = b
  rw [pack_unpack hexponent]

theorem ofBits_toBits {x : Float} (hfinite : magnitude x < infinity) :
    Float.ofBits x.toBits = x :=
  eq_of_toBits_eq (toBits_ofBits hfinite)

/-- A finite number is built from its sign and its magnitude. -/
theorem ofMagnitude_magnitude {x : Float} (hfinite : magnitude x < infinity) :
    ofMagnitude (isNegative x) (magnitude x) = x := by
  have hlt : x.toBits.toNat < 2 ^ 64 := x.toBits.toNat_lt
  have hbits : (if isNegative x then Nat.pow 2 63 + magnitude x else magnitude x) =
      x.toBits.toNat := by
    have hmagnitude := magnitude_eq_mod x
    by_cases hnegative : 2 ^ 63 ≤ x.toBits.toNat
    · have hsign : isNegative x = true := decide_eq_true hnegative
      rw [hsign, if_pos rfl, Nat.pow_eq]
      omega
    · have hsign : isNegative x = false := decide_eq_false hnegative
      rw [hsign, if_neg Bool.false_ne_true]
      omega
  rw [ofMagnitude, hbits, UInt64.ofNat_toNat]
  exact ofBits_toBits hfinite

end Binary64

end TurtleScript
