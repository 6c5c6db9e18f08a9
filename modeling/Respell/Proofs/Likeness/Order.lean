import Mathlib
import Respell.Likeness.Score

/-! # The order of scores -/

namespace Respell.Likeness

open Float.Model UnpackedFloat

/-- No sign is set. What is no number has none. -/
def Unsigned : UnpackedFloat → Prop
  | .notANumber => True
  | .infinity sign => sign = .positive
  | .zero sign => sign = .positive
  | .finite sign _ _ _ => sign = .positive

theorem unsigned_roundWithAccuracy (spec : Format) (mantissa : Nat) (exponent : Int)
    (accuracy : Accuracy) :
    Unsigned (roundWithAccuracy spec .positive mantissa exponent accuracy) := by
  unfold roundWithAccuracy
  dsimp only
  split <;> rfl

section Operations

variable {f g : UnpackedFloat} (hf : Unsigned f) (hg : Unsigned g) (spec : Format)

include hf hg

theorem Unsigned.mul : Unsigned (UnpackedFloat.mul spec f g) := by
  cases f <;> cases g <;> cases hf <;> cases hg <;>
    first
    | trivial
    | rfl
    | exact unsigned_roundWithAccuracy _ _ _ _

theorem Unsigned.div : Unsigned (UnpackedFloat.div spec f g) := by
  cases f <;> cases g <;> cases hf <;> cases hg <;>
    first
    | trivial
    | rfl
    | exact unsigned_roundWithAccuracy _ _ _ _

end Operations

theorem unsigned_ofNat (spec : Format) (n : Nat) : Unsigned (UnpackedFloat.ofNat spec n) := by
  unfold UnpackedFloat.ofNat UnpackedFloat.ofInt UnpackedFloat.normalize
  cases hn : compare (n : Int) 0 with
  | lt =>
      have hnegative : (n : Int) < 0 := Std.compare_eq_lt.mp hn
      omega
  | eq => rfl
  | gt => exact unsigned_roundWithAccuracy _ _ _ _

theorem unsigned_ofScientific (spec : Format) (m : Nat) (e : Int) :
    Unsigned (UnpackedFloat.ofScientific spec m e) := by
  unfold UnpackedFloat.ofScientific
  split
  · rfl
  · split
    · rfl
    · split
      · rfl
      · split
        · exact unsigned_roundWithAccuracy _ _ _ _
        · exact unsigned_roundWithAccuracy _ _ _ _

section Fields

variable (bits : BitVec Format.binary64.numBits)

theorem toNat_unpackMantissa : (unpackMantissa bits).toNat = bits.toNat % 2 ^ 52 := by
  simp [unpackMantissa]

theorem toNat_unpackExponent : (unpackExponent bits).toNat = bits.toNat / 2 ^ 52 % 2 ^ 11 := by
  simp [unpackExponent, Nat.shiftRight_eq_div_pow]

theorem toNat_unpackSign : (unpackSign bits).toNat = bits.toNat / 2 ^ 63 % 2 := by
  simp [unpackSign, Nat.shiftRight_eq_div_pow]

end Fields

theorem toNat_packComponents_lt (exponent : BitVec 11) (mantissa : BitVec 52) :
    (packComponents Format.binary64 .positive exponent mantissa).toNat < 2 ^ 63 := by
  have hsign : (0#1 ++ exponent ++ mantissa).msb = false := by
    rw [BitVec.msb_append, BitVec.msb_append]
    rfl
  have hlt : 2 * (0#1 ++ exponent ++ mantissa).toNat < 2 ^ 64 :=
    BitVec.msb_eq_false_iff_two_mul_lt.mp hsign
  show (0#1 ++ exponent ++ mantissa).toNat < 2 ^ 63
  omega

theorem toBits_pack_lt {f : UnpackedFloat} (hf : Unsigned f) :
    (Float.Model.pack f).toBits.toNat < 2 ^ 63 := by
  show (UnpackedFloat.pack Format.binary64 f).toNat < 2 ^ 63
  cases f with
  | notANumber => exact toNat_packComponents_lt _ _
  | infinity sign =>
      cases hf
      exact toNat_packComponents_lt _ _
  | zero sign =>
      cases hf
      exact toNat_packComponents_lt _ _
  | finite sign mantissa exponent positive =>
      cases hf
      unfold UnpackedFloat.pack
      dsimp only
      split
      · exact toNat_packComponents_lt _ _
      · split <;> exact toNat_packComponents_lt _ _

theorem ofBitVec_unpackSign {bits : BitVec Format.binary64.numBits} (h : bits.toNat < 2 ^ 63) :
    Sign.ofBitVec (unpackSign bits) = .positive := by
  have hzero : unpackSign bits = 0#1 := by
    apply BitVec.eq_of_toNat_eq
    rw [toNat_unpackSign, Nat.div_eq_of_lt h]
    rfl
  rw [hzero]
  rfl

theorem unsigned_unpack {x : Float.Model} (hx : x.toBits.toNat < 2 ^ 63) : Unsigned x.unpack := by
  unfold Float.Model.unpack UnpackedFloat.unpack
  dsimp only
  rw [ofBitVec_unpackSign hx]
  split
  · split <;> trivial
  · split
    · split <;> rfl
    · rfl

theorem unsigned_pack {f : UnpackedFloat} (hf : Unsigned f) :
    Unsigned (Float.Model.pack f).unpack :=
  unsigned_unpack (toBits_pack_lt hf)

theorem unsigned_float (n : Nat) : Unsigned (Float.ofNat n).toModel.unpack := by
  show Unsigned (Float.ofScientific n false 0).toModel.unpack
  unfold Float.ofScientific
  split
  · have hone : Float.exactlyRepresentablePowersOfTen[0].toModel.toBits.toNat < 2 ^ 63 := by
      decide +kernel
    apply unsigned_pack
    apply Unsigned.mul
    · exact unsigned_pack (unsigned_ofNat _ _)
    · exact unsigned_unpack hone
  · exact unsigned_pack (unsigned_ofScientific _ _ _)

theorem toBits_score_lt (a b : String) : (score a b).toBits.toNat < 2 ^ 63 := by
  unfold score
  dsimp only
  split
  · decide +kernel
  · apply toBits_pack_lt
    exact Unsigned.div (unsigned_float _) (unsigned_float _) _

/-- What the bits of a number without a sign are as a whole number. The mantissa of the numbers with
the least exponent begins at one, that of the others halfway to its bound. -/
inductive Reads : UnpackedFloat → Nat → Prop
  | zero : Reads (.zero .positive) 0
  | finite {mantissa bits : Nat} {exponent : Int} (positive : 0 < mantissa)
      (bits_eq : (bits : Int) = (exponent + 1074) * 2 ^ 52 + mantissa) (least : -1074 ≤ exponent)
      (mantissa_lt : mantissa < 2 ^ 53) (normal : -1074 < exponent → 2 ^ 52 ≤ mantissa)
      (bits_lt : bits < 2047 * 2 ^ 52) :
      Reads (.finite .positive mantissa exponent positive) bits
  | infinity : Reads (.infinity .positive) (2047 * 2 ^ 52)

theorem toNat_one_append (mantissa : BitVec 52) :
    (1#1 ++ mantissa).toNat = 2 ^ 52 + mantissa.toNat := by
  rw [BitVec.toNat_append, ← Nat.shiftLeft_add_eq_or_of_lt mantissa.isLt]
  rfl

theorem reads_unpack {x : Float.Model} (hx : x.toBits.toNat < 2 ^ 63)
    (hnumber : x.unpack ≠ .notANumber) : Reads x.unpack x.toBits.toNat := by
  have hmantissa : (@unpackMantissa Format.binary64 x.toBits.toBitVec).toNat =
      x.toBits.toNat % 2 ^ 52 := toNat_unpackMantissa _
  have hexponent : (@unpackExponent Format.binary64 x.toBits.toBitVec).toNat =
      x.toBits.toNat / 2 ^ 52 := by
    rw [toNat_unpackExponent]
    apply Nat.mod_eq_of_lt
    exact Nat.div_lt_of_lt_mul hx
  have happend : (1#1 ++ @unpackMantissa Format.binary64 x.toBits.toBitVec).toNat =
      2 ^ 52 + x.toBits.toNat % 2 ^ 52 := by
    rw [toNat_one_append, hmantissa]
  have hbias : Format.binary64.exponentBias = 1023 := by decide
  have hones : (-1#11).toNat = 2047 := by decide
  revert hnumber
  unfold Float.Model.unpack UnpackedFloat.unpack
  simp only [ofBitVec_unpackSign hx, hbias, ← BitVec.toNat_inj, hmantissa, hexponent, happend,
    hones, BitVec.toNat_ofNat, Nat.zero_mod]
  split
  · split
    · intro _
      have hbits : x.toBits.toNat = 2047 * 2 ^ 52 := by omega
      rw [hbits]
      exact Reads.infinity
    · intro hnumber
      exact absurd rfl hnumber
  · intro _
    split
    · split
      · have hbits : x.toBits.toNat = 0 := by omega
        rw [hbits]
        exact Reads.zero
      · apply Reads.finite <;> omega
    · apply Reads.finite <;> omega

private theorem compare_finite {m m' a b : Nat} {e e' : Int}
    (ha : (a : Int) = (e + 1074) * 2 ^ 52 + m) (hb : (b : Int) = (e' + 1074) * 2 ^ 52 + m')
    (hm : m < 2 ^ 53) (hm' : m' < 2 ^ 53) (hnormal : e' < e → 2 ^ 52 ≤ m)
    (hnormal' : e < e' → 2 ^ 52 ≤ m') :
    (compare e e').then (compare m m') = compare a b := by
  rcases Int.lt_trichotomy e e' with he | rfl | he
  · have hhalf := hnormal' he
    have hless : a < b := by omega
    rw [Std.compare_eq_lt.mpr he, Std.compare_eq_lt.mpr hless]
    rfl
  · rw [Std.compare_self, Ordering.eq_then]
    rcases Nat.lt_trichotomy m m' with hless | rfl | hless
    · rw [Std.compare_eq_lt.mpr hless, Std.compare_eq_lt.mpr (by omega)]
    · obtain rfl : a = b := by omega
      rw [Std.compare_self, Std.compare_self]
    · rw [Std.compare_eq_gt.mpr hless, Std.compare_eq_gt.mpr (by omega)]
  · have hhalf := hnormal he
    have hless : b < a := by omega
    rw [Std.compare_eq_gt.mpr he, Std.compare_eq_gt.mpr hless]
    rfl

theorem Reads.compare {f g : UnpackedFloat} {a b : Nat} (hf : Reads f a) (hg : Reads g b) :
    f.compare g = some (Ord.compare a b) := by
  cases hf with
  | zero =>
      cases hg with
      | zero => rfl
      | finite positive bits_eq least mantissa_lt normal bits_lt =>
          rw [Std.compare_eq_lt.mpr (by omega)]
          rfl
      | infinity => rfl
  | @finite mantissa bits exponent positive bits_eq least mantissa_lt normal bits_lt =>
      cases hg with
      | zero =>
          rw [Std.compare_eq_gt.mpr (by omega)]
          rfl
      | @finite mantissa' bits' exponent' positive' bits_eq' least' mantissa_lt' normal' bits_lt' =>
          apply congrArg some
          apply compare_finite bits_eq bits_eq' mantissa_lt mantissa_lt'
          · intro hless
            exact normal (by omega)
          · intro hless
            exact normal' (by omega)
      | infinity =>
          rw [Std.compare_eq_lt.mpr bits_lt]
          rfl
  | infinity =>
      cases hg with
      | zero => rfl
      | finite positive bits_eq least mantissa_lt normal bits_lt =>
          rw [Std.compare_eq_gt.mpr bits_lt]
          rfl
      | infinity => rfl

theorem ne_notANumber_of_le {x cutoff : Float} (h : cutoff ≤ x) :
    x.toModel.unpack ≠ .notANumber := by
  intro hnone
  have hle : cutoff.toModel.unpack.le x.toModel.unpack = true := of_decide_eq_true h
  rw [hnone, UnpackedFloat.le] at hle
  cases hcutoff : cutoff.toModel.unpack <;> rw [hcutoff] at hle <;> cases hle

theorem eq_of_toNat_toBits_eq {x y : Float} (h : x.toBits.toNat = y.toBits.toNat) : x = y := by
  have hbits : x.toModel.toBits = y.toModel.toBits := UInt64.toNat_inj.mp h
  cases x with
  | ofModel x =>
      cases y with
      | ofModel y =>
          cases x
          cases y
          simpa using hbits

section Cutoff

variable {x y cutoff : Float} (hx : x.toBits.toNat < 2 ^ 63) (hy : y.toBits.toNat < 2 ^ 63)
  (hxc : cutoff ≤ x) (hyc : cutoff ≤ y)

include hx hy hxc hyc

theorem lt_iff_toBits_lt : x < y ↔ x.toBits.toNat < y.toBits.toNat := by
  have hcompare := (reads_unpack hx (ne_notANumber_of_le hxc)).compare
    (reads_unpack hy (ne_notANumber_of_le hyc))
  have hlt : x < y ↔ x.toModel.unpack.lt y.toModel.unpack = true := decide_eq_true_iff
  rw [hlt, UnpackedFloat.lt, hcompare, beq_iff_eq, Option.some.injEq]
  exact Std.compare_eq_lt

/-- Among the scores that reach a cutoff, the order of the bits is the order of the values. -/
theorem atLeast_iff : atLeast x y = true ↔ y < x ∨ y = x := by
  have heq : y.toBits.toNat = x.toBits.toNat ↔ y = x :=
    ⟨eq_of_toNat_toBits_eq, fun h => by rw [h]⟩
  rw [lt_iff_toBits_lt hy hx hyc hxc, ← heq, atLeast, decide_eq_true_iff, UInt64.le_iff_toNat_le]
  exact Nat.le_iff_lt_or_eq

end Cutoff

end Respell.Likeness
