import Respell.Proofs.Likeness.Order

/-! # Rounding keeps the order -/

namespace Respell.Likeness

open Float.Model UnpackedFloat

def nearest (x : ℚ) : ℕ :=
  if x - ⌊x⌋₊ < 1 / 2 then ⌊x⌋₊
  else if 1 / 2 < x - ⌊x⌋₊ then ⌊x⌋₊ + 1
  else ⌊x⌋₊ + ⌊x⌋₊ % 2

theorem floor_le_nearest (x : ℚ) : ⌊x⌋₊ ≤ nearest x := by
  unfold nearest
  split_ifs <;> omega

theorem nearest_le_floor (x : ℚ) : nearest x ≤ ⌊x⌋₊ + 1 := by
  unfold nearest
  split_ifs <;> omega

theorem nearest_mono {x y : ℚ} (h : x ≤ y) : nearest x ≤ nearest y := by
  rcases (Nat.floor_mono h).lt_or_eq with hless | hsame
  · exact (nearest_le_floor x).trans (Nat.le_trans hless (floor_le_nearest y))
  · unfold nearest
    rw [hsame]
    split_ifs <;> first | omega | (exfalso; linarith)

theorem nearest_natCast (n : ℕ) : nearest n = n := by
  unfold nearest
  rw [Nat.floor_natCast, sub_self, if_pos (by norm_num)]

/-- A mantissa and the two bits after it, of which the last stands for all that follow, tell between
which halves a value lies. -/
def Represents (em : ExtendedMantissa) (x : ℚ) : Prop :=
  match em.roundBit, em.stickyBit with
  | false, false => x = em.mantissa
  | false, true => em.mantissa < x ∧ x < em.mantissa + 1 / 2
  | true, false => x = em.mantissa + 1 / 2
  | true, true => em.mantissa + 1 / 2 < x ∧ x < em.mantissa + 1

theorem Represents.bounds {em : ExtendedMantissa} {x : ℚ} (h : Represents em x) :
    (em.mantissa : ℚ) ≤ x ∧ x < em.mantissa + 1 := by
  obtain ⟨m, r, s⟩ := em
  cases r <;> cases s <;> simp only [Represents] at h <;> constructor <;> linarith

theorem Represents.roundedMantissa_eq {em : ExtendedMantissa} {x : ℚ} (h : Represents em x) :
    em.roundedMantissa = nearest x := by
  have hfloor : ⌊x⌋₊ = em.mantissa := by
    obtain ⟨hle, hlt⟩ := h.bounds
    have hnonneg : 0 ≤ x := le_trans (Nat.cast_nonneg _) hle
    exact (Nat.floor_eq_iff hnonneg).mpr ⟨hle, hlt⟩
  unfold nearest
  rw [hfloor]
  obtain ⟨m, r, s⟩ := em
  cases r <;> cases s <;> simp only [Represents] at h
  · rw [if_pos (by linarith)]
    rfl
  · rw [if_pos (by linarith)]
    rfl
  · rw [if_neg (by linarith), if_neg (by linarith)]
    rfl
  · rw [if_neg (by linarith), if_pos (by linarith)]
    rfl

theorem Represents.shiftRightOne {em : ExtendedMantissa} {x : ℚ} (h : Represents em x) :
    Represents em.shiftRightOne (x / 2) := by
  obtain ⟨m, r, s⟩ := em
  have hdivide : (m : ℚ) = 2 * (m / 2 : ℕ) + (m % 2 : ℕ) := by
    exact_mod_cast (Nat.div_add_mod m 2).symm
  rcases Nat.mod_two_eq_zero_or_one m with hm | hm <;> rw [hm] at hdivide <;>
    cases r <;> cases s <;>
    simp [Represents, ExtendedMantissa.shiftRightOne, hm] at h hdivide ⊢ <;>
    first
    | linarith
    | constructor <;> linarith

theorem Represents.shiftRight {em : ExtendedMantissa} {x : ℚ} (h : Represents em x) (n : ℕ) :
    Represents (em >>> n) (x / 2 ^ n) := by
  induction n with
  | zero =>
      rw [pow_zero, div_one]
      exact h
  | succ n ih =>
      rw [pow_succ, ← div_div]
      exact ih.shiftRightOne

theorem represents_exact (m : ℕ) :
    Represents (ExtendedMantissa.ofMantissaAndAccuracy m .exact) m := rfl

theorem represents_fraction (m n : ℕ) (hn : 0 < n) :
    Represents (ExtendedMantissa.ofMantissaAndAccuracy (m / n) (accuracyOfFraction (m % n) n))
      (m / n : ℚ) := by
  have hpos : (0 : ℚ) < n := Nat.cast_pos.mpr hn
  have hdivide : (m : ℚ) / n = (m / n : ℕ) + (m % n : ℕ) / n := by
    rw [eq_comm, ← mul_right_inj' hpos.ne']
    field_simp
    exact_mod_cast Nat.div_add_mod m n
  have hless : ((m % n : ℕ) : ℚ) / n < 1 := by
    rw [div_lt_one hpos]
    exact_mod_cast Nat.mod_lt m hn
  rw [hdivide, accuracyOfFraction]
  by_cases hzero : m % n = 0
  · simp [hzero, Represents, ExtendedMantissa.ofMantissaAndAccuracy]
  · have hsome : (0 : ℚ) < (m % n : ℕ) / n :=
      div_pos (Nat.cast_pos.mpr (Nat.pos_of_ne_zero hzero)) hpos
    rw [if_neg hzero]
    rcases Nat.lt_trichotomy (2 * (m % n)) n with hhalf | hhalf | hhalf
    · have hlt : ((m % n : ℕ) : ℚ) / n < 1 / 2 := by
        rw [div_lt_div_iff₀ hpos two_pos]
        exact_mod_cast (by omega)
      rw [Std.compare_eq_lt.mpr hhalf]
      show ((m / n : ℕ) : ℚ) < _ ∧ _ < ((m / n : ℕ) : ℚ) + 1 / 2
      constructor <;> linarith
    · have heq : ((m % n : ℕ) : ℚ) / n = 1 / 2 := by
        rw [div_eq_div_iff hpos.ne' two_ne_zero]
        exact_mod_cast (by omega)
      rw [Nat.compare_eq_eq.mpr hhalf, heq]
      rfl
    · have hgt : (1 : ℚ) / 2 < (m % n : ℕ) / n := by
        rw [div_lt_div_iff₀ two_pos hpos]
        exact_mod_cast (by omega)
      rw [Std.compare_eq_gt.mpr hhalf]
      show ((m / n : ℕ) : ℚ) + 1 / 2 < _ ∧ _ < ((m / n : ℕ) : ℚ) + 1
      constructor <;> linarith

/-- The exponent that a value is written with: the mantissa is less than 2 ^ 53, and at least half
of that unless the exponent is the least one. -/
structure HasExponent (v : ℚ) (t : ℤ) : Prop where
  least : -1074 ≤ t
  lt : v < 2 ^ (t + 53)
  le : t = -1074 ∨ 2 ^ (t + 52) ≤ v

def RoundsTo (v : ℚ) (bits : ℕ) : Prop :=
  ∃ t, HasExponent v t ∧
    (bits : ℤ) = min ((t + 1074) * 2 ^ 52 + nearest (v / 2 ^ t)) (2047 * 2 ^ 52)

theorem HasExponent.mono {v w : ℚ} {t u : ℤ} (hv : HasExponent v t) (hw : HasExponent w u)
    (h : v ≤ w) : t ≤ u := by
  by_contra hless
  have hlow : (2 : ℚ) ^ (t + 52) ≤ v := hv.le.resolve_left (by have := hw.least; omega)
  have hpow : (2 : ℚ) ^ (u + 53) ≤ 2 ^ (t + 52) := zpow_le_zpow_right₀ (by norm_num) (by omega)
  have hhigh := hw.lt
  linarith

theorem HasExponent.nearest_le {v : ℚ} {t : ℤ} (hv : HasExponent v t) :
    nearest (v / 2 ^ t) ≤ 2 ^ 53 := by
  have hpos : (0 : ℚ) < 2 ^ t := zpow_pos two_pos t
  have hle : v / 2 ^ t ≤ ((2 ^ 53 : ℕ) : ℚ) := by
    have hlt := hv.lt
    rw [zpow_add₀ two_ne_zero] at hlt
    rw [div_le_iff₀ hpos]
    push_cast
    linarith
  rw [← nearest_natCast (2 ^ 53)]
  exact nearest_mono hle

theorem HasExponent.le_nearest {v : ℚ} {t : ℤ} (hv : HasExponent v t) (ht : t ≠ -1074) :
    2 ^ 52 ≤ nearest (v / 2 ^ t) := by
  have hpos : (0 : ℚ) < 2 ^ t := zpow_pos two_pos t
  have hle : ((2 ^ 52 : ℕ) : ℚ) ≤ v / 2 ^ t := by
    have hlow := hv.le.resolve_left ht
    rw [zpow_add₀ two_ne_zero] at hlow
    rw [le_div_iff₀ hpos]
    push_cast
    linarith
  rw [← nearest_natCast (2 ^ 52)]
  exact nearest_mono hle

/-- Rounding keeps the order of values. -/
theorem RoundsTo.mono {v w : ℚ} {a b : ℕ} (hv : RoundsTo v a) (hw : RoundsTo w b) (h : v ≤ w) :
    a ≤ b := by
  obtain ⟨t, ht, ha⟩ := hv
  obtain ⟨u, hu, hb⟩ := hw
  have hnearest : (t + 1074) * 2 ^ 52 + nearest (v / 2 ^ t) ≤
      (u + 1074) * 2 ^ 52 + (nearest (w / 2 ^ u) : ℤ) := by
    rcases (ht.mono hu h).eq_or_lt with rfl | hless
    · have hle : nearest (v / 2 ^ t) ≤ nearest (w / 2 ^ t) :=
        nearest_mono (div_le_div_of_nonneg_right h (zpow_pos two_pos t).le)
      omega
    · have hleast := ht.least
      have hhigh := ht.nearest_le
      have hlow := hu.le_nearest (by omega)
      omega
  omega

theorem toNat_packComponents (exponent : BitVec 11) (mantissa : BitVec 52) :
    (packComponents Format.binary64 .positive exponent mantissa).toNat =
      exponent.toNat * 2 ^ 52 + mantissa.toNat := by
  show ((0#1 ++ exponent) ++ mantissa).toNat = _
  rw [BitVec.toNat_append, BitVec.toNat_append, ← Nat.shiftLeft_add_eq_or_of_lt mantissa.isLt]
  simp [Nat.shiftLeft_eq]

theorem toNat_pack_finite {m : ℕ} {e : ℤ} (positive : 0 < m) (hm : m < 2 ^ 53) (least : -1074 ≤ e)
    (normal : e ≠ -1074 → 2 ^ 52 ≤ m) :
    ((UnpackedFloat.pack Format.binary64 (.finite .positive m e positive)).toNat : ℤ) =
      min ((e + 1074) * 2 ^ 52 + m) (2047 * 2 ^ 52) := by
  have hbias : (Format.binary64.exponentBias : ℤ) = 1023 := by decide
  have hbits : Format.binary64.mantissaBits = 53 := rfl
  unfold UnpackedFloat.pack
  simp only [hbias, hbits]
  split_ifs with hlarge hlog
  · have hones : (-1#11).toNat = 2047 := by decide
    change 2 ^ 11 ≤ _ at hlarge
    have hlow := normal (by omega)
    have hinfinity : (packedInfinity Format.binary64 .positive).toNat = 2047 * 2 ^ 52 := by
      rw [packedInfinity, toNat_packComponents]
      change (-1#11).toNat * 2 ^ 52 + (0#52).toNat = _
      rw [hones, BitVec.toNat_ofNat, Nat.zero_mod, Nat.add_zero]
    rw [hinfinity]
    omega
  · have hlow := Nat.log2_self_le positive.ne'
    rw [Nat.succ_injective hlog] at hlow
    change ¬ 2 ^ 11 ≤ _ at hlarge
    rw [toNat_packComponents, BitVec.toNat_ofNat, BitVec.toNat_ofNat]
    omega
  · have hlow : m < 2 ^ 52 := by
      by_contra hge
      have hlow := (Nat.le_log2 positive.ne').mpr (not_lt.mp hge)
      have hhigh := (Nat.log2_lt positive.ne').mpr hm
      omega
    have he : e = -1074 := by
      by_contra hne
      exact absurd (normal hne) (by omega)
    rw [toNat_packComponents, BitVec.toNat_ofNat, BitVec.toNat_ofNat, Nat.zero_mod]
    omega

theorem targetExponent_eq (m : ℕ) (e : ℤ) :
    Format.binary64.targetExponent (totalExponent m e) = max (m.log2 + e - 52) (-1074) := by
  have hbits : Format.binary64.mantissaBits = 53 := rfl
  have hleast : Format.binary64.minExponent = -1074 := by decide
  rw [Format.targetExponent, totalExponent, hbits, hleast]
  omega

/-- What the first shift leaves is kept, but what is rounded up to the next power of two is
halved. -/
theorem shiftToTargetExponent_rounded {r : ℕ} {t : ℤ} (hr : r ≤ 2 ^ 53) (least : -1074 ≤ t) :
    let shifted := shiftToTargetExponent Format.binary64 r t .exact
    (r < 2 ^ 53 → shifted.1.mantissa = r ∧ shifted.2 = t) ∧
      (r = 2 ^ 53 → shifted.1.mantissa = 2 ^ 52 ∧ shifted.2 = t + 1) := by
  dsimp only
  rw [shiftToTargetExponent, targetExponent_eq]
  constructor
  · intro hless
    have hlog : r.log2 ≤ 52 := by
      by_cases hzero : r = 0
      · rw [hzero]
        decide
      · exact Nat.le_of_lt_succ ((Nat.log2_lt hzero).mpr hless)
    have hshift : (max (r.log2 + t - 52) (-1074) - t).toNat = 0 := by omega
    rw [shiftToExponent, hshift]
    exact ⟨rfl, Int.add_zero t⟩
  · rintro rfl
    have hshift : (max (((2 ^ 53 : ℕ).log2 : ℤ) + t - 52) (-1074) - t).toNat = 1 := by
      rw [Nat.log2_two_pow]
      omega
    rw [shiftToExponent, hshift]
    exact ⟨rfl, rfl⟩

theorem hasExponent_target {m : ℕ} {e : ℤ} {x : ℚ} (hlow : (m : ℚ) ≤ x) (hhigh : x < m + 1)
    (wide : 52 ≤ m.log2 ∨ e ≤ -1074) :
    HasExponent (x * 2 ^ e) (max (m.log2 + e - 52) (-1074)) := by
  have hpos : (0 : ℚ) < 2 ^ e := zpow_pos two_pos e
  refine ⟨le_max_right _ _, ?_, ?_⟩
  · have hupper : x < 2 ^ (m.log2 + 1) := by
      have hm : ((m + 1 : ℕ) : ℚ) ≤ ((2 ^ (m.log2 + 1) : ℕ) : ℚ) :=
        Nat.cast_le.mpr (Nat.lt_log2_self)
      push_cast at hm
      linarith
    calc x * 2 ^ e < 2 ^ (m.log2 + 1) * 2 ^ e := mul_lt_mul_of_pos_right hupper hpos
      _ = 2 ^ (((m.log2 + 1 : ℕ) : ℤ) + e) := by rw [zpow_add₀ two_ne_zero, zpow_natCast]
      _ ≤ 2 ^ (max (m.log2 + e - 52) (-1074) + 53) :=
        zpow_le_zpow_right₀ one_le_two (by omega)
  · by_cases htarget : max (m.log2 + e - 52) (-1074) = -1074
    · exact Or.inl htarget
    · have hm : m ≠ 0 := by
        rintro rfl
        rw [show Nat.log2 0 = 0 from by decide] at wide htarget
        omega
      have hlower : (2 : ℚ) ^ m.log2 ≤ x := by
        have hself : ((2 ^ m.log2 : ℕ) : ℚ) ≤ (m : ℚ) := Nat.cast_le.mpr (Nat.log2_self_le hm)
        push_cast at hself
        exact hself.trans hlow
      refine Or.inr ?_
      calc (2 : ℚ) ^ (max (m.log2 + e - 52) (-1074) + 52) = 2 ^ ((m.log2 : ℤ) + e) := by
            congr 1
            omega
        _ = 2 ^ m.log2 * 2 ^ e := by rw [zpow_add₀ two_ne_zero, zpow_natCast]
        _ ≤ x * 2 ^ e := mul_le_mul_of_nonneg_right hlower hpos.le

/-- A value that is given by a mantissa, with enough bits, and by where it lies above that, is
rounded to a number. -/
theorem roundsTo_round {m : ℕ} {e : ℤ} {accuracy : Accuracy} {x : ℚ}
    (hx : Represents (ExtendedMantissa.ofMantissaAndAccuracy m accuracy) x)
    (wide : 52 ≤ m.log2 ∨ e ≤ -1074) :
    RoundsTo (x * 2 ^ e) (UnpackedFloat.pack Format.binary64
      (roundWithAccuracy Format.binary64 .positive m e accuracy)).toNat := by
  have hmantissa : (ExtendedMantissa.ofMantissaAndAccuracy m accuracy).mantissa = m := by
    rcases accuracy with _ | (_ | _ | _) <;> rfl
  obtain ⟨hlow, hhigh⟩ := hx.bounds
  rw [hmantissa] at hlow hhigh
  obtain ⟨t, htarget⟩ : ∃ t : ℤ, t = max (m.log2 + e - 52) (-1074) := ⟨_, rfl⟩
  obtain ⟨s, hs⟩ : ∃ s : ℕ, s = (t - e).toNat := ⟨_, rfl⟩
  have hes : e + s = t := by omega
  have hscale : x * 2 ^ e / 2 ^ t = x / 2 ^ s := by
    rw [← hes, zpow_add₀ two_ne_zero, zpow_natCast]
    field_simp
  have hexponent : HasExponent (x * 2 ^ e) t := htarget ▸ hasExponent_target hlow hhigh wide
  obtain ⟨r, hr⟩ : ∃ r, r = nearest (x / 2 ^ s) := ⟨_, rfl⟩
  have hrle : r ≤ 2 ^ 53 := by
    rw [hr, ← hscale]
    exact hexponent.nearest_le
  have hrnormal : t ≠ -1074 → 2 ^ 52 ≤ r := by
    rw [hr, ← hscale]
    exact hexponent.le_nearest
  refine ⟨t, hexponent, ?_⟩
  rw [hscale, ← hr]
  have hfirst : shiftToTargetExponent Format.binary64 m e accuracy =
      (ExtendedMantissa.ofMantissaAndAccuracy m accuracy >>> s, t) := by
    rw [shiftToTargetExponent, targetExponent_eq, ← htarget, shiftToExponent, ← hs, hes]
  have hrounded :
      (ExtendedMantissa.ofMantissaAndAccuracy m accuracy >>> s).roundedMantissa = r := by
    rw [hr]
    exact (hx.shiftRight s).roundedMantissa_eq
  obtain ⟨hkeep, hhalve⟩ := shiftToTargetExponent_rounded hrle hexponent.least
  rw [roundWithAccuracy, hfirst]
  dsimp only
  rw [hrounded]
  generalize shiftToTargetExponent Format.binary64 r t .exact = shifted at hkeep hhalve
  have hleast := hexponent.least
  split_ifs with hzero
  · obtain rfl : r = 0 := by omega
    obtain rfl : t = -1074 := by omega
    rfl
  · rcases hrle.lt_or_eq with hless | hfull
    · obtain ⟨hm, he⟩ := hkeep hless
      rw [toNat_pack_finite _ (by omega) (by omega) (by omega), hm, he]
    · obtain ⟨hm, he⟩ := hhalve hfull
      rw [toNat_pack_finite _ (by omega) (by omega) (by omega), hm, he, hfull]
      push_cast
      congr 1
      omega

end Respell.Likeness
