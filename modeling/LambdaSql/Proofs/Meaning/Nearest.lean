import LambdaSql.Number.Binary
import Mathlib

/-!
# The nearest number of a format

Rounding a ratio gives a mantissa and an exponent that have a place in the format. The `Float` that is made of them is
read back with the sign that it was given, which a zero has, too.

## Main results

* `Number.toBits_ofBits` - a `Float` that is made of bits consists of them, unless it is no number.
* `Number.BinaryFormat.round_bounds` - what a ratio is rounded to has a place in the format.
* `Number.read_ofRatio` - the sign of the nearest `Float`.
-/

namespace LambdaSql.Number

/-! ## Bits of a `Float` -/

section Bits

open Float.Model Float.Model.UnpackedFloat

/-- A sign bit is the bit of its sign. -/
private theorem toBitVec_ofBitVec (b : BitVec 1) : (Sign.ofBitVec b).toBitVec = b := by
  revert b
  decide

/-- Sixty-four bits are a sign, an exponent field and a fraction. -/
theorem packComponents_fields (b : BitVec 64) :
    packComponents .binary64 (Sign.ofBitVec (@unpackSign .binary64 b)) (@unpackExponent .binary64 b)
      (@unpackMantissa .binary64 b) = b := by
  apply BitVec.eq_of_getLsbD_eq
  intro i hi
  have hi : i < 64 := hi
  simp only [packComponents, toBitVec_ofBitVec, BitVec.getLsbD_append, unpackSign, unpackExponent, unpackMantissa,
    BitVec.getLsbD_cast, BitVec.getLsbD_extractLsb]
  by_cases hm : i < 52
  · simp [hm]
  · by_cases he : i - 52 < 11
    · simp [hm, he, show 52 + (i - 52) = i by omega]
    · obtain rfl : i = 63 := by omega
      simp

/-- The fraction of a normal number is its mantissa without the hidden bit. -/
theorem pack_normal (s : Sign) (e : BitVec 11) (m : BitVec 52) (he : e ≠ -1#11) (h : 0 < (1#1 ++ m).toNat) :
    UnpackedFloat.pack .binary64
      (finite s (1#1 ++ m).toNat (e.toNat - (Format.binary64.exponentBias + (52 : Nat))) h) =
      packComponents .binary64 s e m := by
  have hlt := m.isLt
  have hm : (1#1 ++ m).toNat = 2 ^ 52 + m.toNat := by
    rw [BitVec.toNat_append, Nat.shiftLeft_eq, Nat.mul_comm, ← Nat.two_pow_add_eq_or_of_lt hlt]
    rfl
  have hlog : (1#1 ++ m).toNat.log2 = 52 := by
    rw [Nat.log2_eq_iff h.ne', hm]
    omega
  have hfield : e.toNat ≠ 2047 := fun heq => he (BitVec.eq_of_toNat_eq heq)
  have hbiased : ((e.toNat : Int) - (Format.binary64.exponentBias + (52 : Nat)) + Format.binary64.exponentBias +
      (52 : Nat)).toNat = e.toNat := by omega
  have hle := e.isLt
  simp only [UnpackedFloat.pack, hbiased, hlog]
  rw [if_neg (by omega), if_pos (by decide), BitVec.ofNat_toNat, BitVec.setWidth_eq]
  congr 1
  apply BitVec.eq_of_toNat_eq
  rw [BitVec.toNat_ofNat, hm]
  omega

/-- The fraction of a number without hidden bit is its mantissa. -/
theorem pack_subnormal (s : Sign) (m : BitVec 52) (h : 0 < m.toNat) :
    UnpackedFloat.pack .binary64
      (finite s m.toNat ((0 : Nat) - (Format.binary64.exponentBias + (52 : Nat)) + 1) h) =
      packComponents .binary64 s 0 m := by
  have hlog : m.toNat.log2 < 52 := (Nat.log2_lt h.ne').mpr m.isLt
  have hbits : m.toNat.log2 + 1 ≠ Format.binary64.mantissaBits := by
    rw [show Format.binary64.mantissaBits = 53 by decide]
    omega
  have hbiased : (((0 : Nat) : Int) - (Format.binary64.exponentBias + (52 : Nat)) + 1 + Format.binary64.exponentBias +
      (52 : Nat)).toNat = 1 := by omega
  simp only [UnpackedFloat.pack, hbiased]
  rw [if_neg (by decide), if_neg hbits, BitVec.ofNat_toNat, BitVec.setWidth_eq]
  rfl

/-- A valid bit pattern is packed again from what is unpacked of it.

**Proof sketch.** By the exponent. The largest one is that of infinity, or of the one pattern for what is no number,
and the smallest one that of zero and of numbers that lack a leading digit. -/
private theorem pack_unpack {b : BitVec 64} (h : Format.binary64.Valid b) :
    UnpackedFloat.pack .binary64 (UnpackedFloat.unpack .binary64 b) = b := by
  have hb := packComponents_fields b
  unfold UnpackedFloat.unpack
  dsimp only
  split
  · next hinf =>
    split
    · next hzero =>
      rw [hinf, hzero] at hb
      exact hb
    · next hnan => exact (h.eq_packedNaN hinf hnan).symm
  · next hfinite =>
    split
    · next hsub =>
      rw [hsub] at hb ⊢
      split
      · next hzero =>
        rw [hzero] at hb
        exact hb
      · exact (pack_subnormal _ _ _).trans hb
    · exact (pack_normal _ _ _ hfinite _).trans hb

/-- A `Float` that is made of bits consists of them, unless they are those of what is no number. -/
theorem toBits_ofBits {b : UInt64} (h : Format.binary64.Valid b.toBitVec) : (Float.ofBits b).toBits = b := by
  change UInt64.ofBitVec (UnpackedFloat.pack .binary64 (UnpackedFloat.unpack .binary64 b.toBitVec)) = b
  rw [pack_unpack h]

/-- Bit patterns without the largest exponent are valid. -/
private theorem valid_of_finite {b : BitVec 64} (h : b.toNat / 2 ^ 52 % 2048 ≠ 2047) : Format.binary64.Valid b := by
  refine ⟨fun he => absurd ?_ h⟩
  have he := congrArg BitVec.toNat he
  simpa [unpackExponent, Nat.shiftRight_eq_div_pow] using he

end Bits

/-- The bits of a sign. -/
def signBits (negative : Bool) : Nat := if negative then signBit else 0

/-- A finite number is read from its sign, its exponent field and its fraction. -/
theorem read_fields (negative : Bool) {field fraction : Nat} (hfield : field < 2047) (hfraction : fraction < hiddenBit) :
    ∃ m e, read (Float.ofBits (UInt64.ofNat (signBits negative + field * hiddenBit + fraction))) =
      .finite ⟨negative, m, e⟩ := by
  have hsign : signBits negative = 0 ∧ negative = false ∨ signBits negative = signBit ∧ negative = true := by
    cases negative <;> simp [signBits]
  generalize hn : signBits negative + field * hiddenBit + fraction = n
  simp only [signBit, hiddenBit] at *
  have hlt : n < 2 ^ 64 := by omega
  have hbits : (UInt64.ofNat n).toNat = n := UInt64.toNat_ofNat_of_lt hlt
  have hvalid : Float.Model.Format.binary64.Valid (UInt64.ofNat n).toBitVec := by
    refine valid_of_finite ?_
    change (UInt64.ofNat n).toNat / _ % _ ≠ _
    rw [hbits]
    omega
  have hnegative : decide (n / 0x8000000000000000 = 1) = negative := by
    rcases hsign with ⟨h, rfl⟩ | ⟨h, rfl⟩ <;> simp only [decide_eq_true_eq, decide_eq_false_iff_not] <;> omega
  simp only [read, toBits_ofBits hvalid, hbits, signBit, hiddenBit, hnegative]
  rw [if_neg (by omega)]
  split
  · exact ⟨_, _, rfl⟩
  · exact ⟨_, _, rfl⟩

/-- The infinities are read as such. -/
private theorem read_infinity (negative : Bool) : read (infinity negative) = .infinite negative := by
  cases negative <;> decide

/-! ## Rounding a ratio -/

/-- A scaled fraction keeps a positive denominator. -/
private theorem scaled_pos {num den : Nat} (hden : 0 < den) (e : Int) : 0 < (scaled num den e).2 := by
  unfold scaled
  split
  · exact hden
  · exact Nat.mul_pos hden (Nat.pow_pos (by decide))

/-- Scaling divides by a power of two. -/
theorem scaled_eq {num den : Nat} (hden : 0 < den) (e : Int) :
    ((scaled num den e).1 : ℚ) = num / den * 2 ^ (-e) * (scaled num den e).2 := by
  have hne : (den : ℚ) ≠ 0 := by exact_mod_cast hden.ne'
  unfold scaled
  split
  · next he =>
    have hk : -e = (e.natAbs : Int) := by omega
    rw [hk, zpow_natCast]
    push_cast [Nat.pow_eq]
    field_simp
  · next he =>
    have hk : e = (e.toNat : Int) := by omega
    rw [zpow_neg, hk, zpow_natCast]
    push_cast [Nat.pow_eq, Int.toNat_natCast]
    field_simp

/-- How many bits the quotient of scaled numbers has. -/
theorem scaled_lt_iff {num den : Nat} (hden : 0 < den) (e : Int) (bits : Nat) :
    (scaled num den e).1 < (scaled num den e).2 * Nat.pow 2 bits ↔ (num / den : ℚ) < 2 ^ (e + bits) := by
  have hpos : (0 : ℚ) < (scaled num den e).2 := by exact_mod_cast scaled_pos hden e
  rw [← Nat.cast_lt (α := ℚ), scaled_eq hden, Nat.cast_mul, mul_comm, mul_lt_mul_iff_right₀ hpos, zpow_neg,
    ← div_eq_mul_inv, div_lt_iff₀ (by positivity), zpow_add₀ (by norm_num), zpow_natCast, mul_comm]
  push_cast [Nat.pow_eq]
  rfl

/-- A ratio of natural numbers is less than a power of two that their numbers of bits tell. -/
theorem ratio_lt (num : Nat) {den : Nat} (hden : 0 < den) :
    (num / den : ℚ) < 2 ^ ((Nat.log2 num : Int) - Nat.log2 den + 1) := by
  have hnum : (num : ℚ) < 2 ^ (Nat.log2 num + 1) := by exact_mod_cast Nat.lt_log2_self
  have hle : (2 : ℚ) ^ Nat.log2 den ≤ den := by exact_mod_cast Nat.log2_self_le hden.ne'
  have hpow : (0 : ℚ) < 2 ^ Nat.log2 den := by positivity
  have hsplit : (2 : ℚ) ^ ((Nat.log2 num : Int) - Nat.log2 den + 1) = 2 ^ (Nat.log2 num + 1) / 2 ^ Nat.log2 den := by
    rw [eq_div_iff hpow.ne', ← zpow_natCast, ← zpow_natCast, ← zpow_add₀ (by norm_num)]
    congr 1
    push_cast
    ring
  rw [hsplit]
  calc (num / den : ℚ) ≤ num / 2 ^ Nat.log2 den := by gcongr
    _ < 2 ^ (Nat.log2 num + 1) / 2 ^ Nat.log2 den := by gcongr

/-- Rounding does not go beyond a whole bound. -/
private theorem roundHalfEven_le {num den bound : Nat} (h : num < den * bound) : roundHalfEven num den ≤ bound := by
  have hq : num / den < bound := Nat.div_lt_of_lt_mul h
  unfold roundHalfEven
  dsimp only
  split
  · omega
  · split
    · omega
    · split <;> omega

namespace BinaryFormat

variable {f : BinaryFormat} {num den m : Nat} {e : Int}

/-- **What a ratio is rounded to has a place in the format.**

**Proof sketch.** The exponent is guessed from the lengths of both numbers, one too low at most, so the ratio in its
unit is below the bound of the precision. Rounding may reach the bound, and then carries into the next exponent. -/
theorem round_bounds (hf : f.minExponent ≤ f.maxExponent) (hden : 0 < den) (h : f.round num den = some (m, e)) :
    m < 2 ^ f.precision ∧ f.minExponent ≤ e ∧ e ≤ f.maxExponent := by
  unfold round at h
  split at h
  · obtain ⟨rfl, rfl⟩ := Prod.mk.inj (Option.some.inj h)
    exact ⟨Nat.two_pow_pos _, le_rfl, hf⟩
  · dsimp only at h
    set guess : Int := (Nat.log2 num : Int) - Nat.log2 den - f.precision with hguess
    set start := max f.minExponent
      (if (scaled num den guess).1 < (scaled num den guess).2 * Nat.pow 2 f.precision then guess else guess + 1)
      with hstart
    have hratio : (num / den : ℚ) < 2 ^ (start + f.precision) := by
      by_cases hlt : (scaled num den guess).1 < (scaled num den guess).2 * Nat.pow 2 f.precision
      · rw [if_pos hlt] at hstart
        refine ((scaled_lt_iff hden _ _).mp hlt).trans_le (zpow_le_zpow_right₀ (by norm_num) ?_)
        omega
      · rw [if_neg hlt] at hstart
        refine (ratio_lt num hden).trans_le (zpow_le_zpow_right₀ (by norm_num) ?_)
        omega
    have hm := roundHalfEven_le ((scaled_lt_iff hden start f.precision).mpr hratio)
    have hmin : f.minExponent ≤ start := le_max_left _ _
    have hpow : 0 < Nat.pow 2 f.precision := Nat.pow_pos (by decide)
    have htwo : (2 : Nat) ^ f.precision = Nat.pow 2 f.precision := rfl
    rw [htwo]
    split at h
    · next hcarry =>
      split at h
      · cases h
      · obtain ⟨rfl, rfl⟩ := Prod.mk.inj (Option.some.inj h)
        omega
    · next hcarry =>
      split at h
      · cases h
      · obtain ⟨rfl, rfl⟩ := Prod.mk.inj (Option.some.inj h)
        omega

end BinaryFormat

/-! ## Signs -/

/-- **The nearest `Float` of a ratio has the sign that it was given**, even if it is zero or infinite.

**Proof sketch.** What the ratio is rounded to is in range and has its sign bit set apart, as have the infinities. -/
theorem read_ofRatio (negative : Bool) (num : Nat) {den : Nat} (hden : 0 < den) :
    read (ofRatio negative num den) = .infinite negative ∨
      ∃ m e, read (ofRatio negative num den) = .finite ⟨negative, m, e⟩ := by
  unfold ofRatio
  cases h : double.round num den with
  | none => exact .inl (read_infinity negative)
  | some rounded =>
    obtain ⟨m, e⟩ := rounded
    obtain ⟨hm, hmin, hmax⟩ := BinaryFormat.round_bounds (by decide) hden h
    have hm : m < 2 * hiddenBit := hm
    have hmin : -1074 ≤ e := hmin
    have hmax : e ≤ 971 := hmax
    right
    dsimp only
    split
    · next hlt => simpa [signBits] using read_fields negative (show 0 < 2047 by decide) hlt
    · exact read_fields negative (by omega) (by omega)

end LambdaSql.Number
