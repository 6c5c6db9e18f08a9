import Respell.Proofs.Likeness.Rounding

namespace Respell.Likeness

open Float.Model UnpackedFloat

inductive HasValue : UnpackedFloat → ℚ → Prop
  | zero : HasValue (.zero .positive) 0
  | finite (mantissa : ℕ) (exponent : ℤ) (positive : 0 < mantissa) :
      HasValue (.finite .positive mantissa exponent positive) (mantissa * 2 ^ exponent)

theorem roundsTo_zero : RoundsTo 0 0 := by
  refine ⟨-1074, ⟨le_refl _, zpow_pos two_pos _, Or.inl rfl⟩, ?_⟩
  have hnearest : nearest 0 = 0 := by exact_mod_cast nearest_natCast 0
  rw [zero_div, hnearest]
  rfl

theorem Reads.roundsTo {f : UnpackedFloat} {bits : ℕ} {v : ℚ} (hf : Reads f bits)
    (hv : HasValue f v) : RoundsTo v bits := by
  cases hv with
  | zero =>
      cases hf
      exact roundsTo_zero
  | finite m e positive =>
      cases hf with
      | finite _ bits_eq least mantissa_lt normal bits_lt =>
          have hpos : (0 : ℚ) < 2 ^ e := zpow_pos two_pos e
          have hm : (m : ℚ) < 2 ^ 53 := by exact_mod_cast mantissa_lt
          refine ⟨e, ⟨least, ?_, ?_⟩, ?_⟩
          · rw [add_comm, zpow_add₀ two_ne_zero]
            exact mul_lt_mul_of_pos_right hm hpos
          · by_cases he : e = -1074
            · exact Or.inl he
            · have hhalf : (2 : ℚ) ^ 52 ≤ m := by exact_mod_cast normal (by omega)
              refine Or.inr ?_
              rw [add_comm, zpow_add₀ two_ne_zero]
              exact mul_le_mul_of_nonneg_right hhalf hpos.le
          · rw [mul_div_cancel_right₀ _ hpos.ne', nearest_natCast]
            omega

theorem Reads.lt {f : UnpackedFloat} {bits : ℕ} (hf : Reads f bits) : bits < 2 ^ 63 := by
  cases hf <;> omega

theorem Reads.value_le {f g : UnpackedFloat} {a b : ℕ} {v w : ℚ} (hf : Reads f a)
    (hv : HasValue f v) (hg : Reads g b) (hw : HasValue g w) (h : a ≤ b) : v ≤ w := by
  cases hv with
  | zero =>
      cases hw with
      | zero => exact le_refl 0
      | finite m e positive => exact mul_nonneg (Nat.cast_nonneg m) (zpow_pos two_pos e).le
  | finite m e positive =>
      cases hf with
      | finite _ bits_eq least mantissa_lt normal bits_lt =>
          cases hw with
          | zero =>
              cases hg
              omega
          | finite m' e' positive' =>
              cases hg with
              | finite _ bits_eq' least' mantissa_lt' normal' bits_lt' =>
                  rcases Int.lt_trichotomy e e' with hless | rfl | hless
                  · have hm : (m : ℚ) ≤ 2 ^ 53 := by exact_mod_cast mantissa_lt.le
                    have hm' : (2 : ℚ) ^ 52 ≤ m' := by exact_mod_cast normal' (by omega)
                    calc (m : ℚ) * 2 ^ e ≤ 2 ^ 53 * 2 ^ e :=
                          mul_le_mul_of_nonneg_right hm (zpow_pos two_pos e).le
                      _ = 2 ^ 52 * 2 ^ (e + 1) := by rw [zpow_add₀ two_ne_zero]; ring
                      _ ≤ 2 ^ 52 * 2 ^ e' := by
                          apply mul_le_mul_of_nonneg_left _ (by positivity)
                          exact zpow_le_zpow_right₀ one_le_two (by omega)
                      _ ≤ m' * 2 ^ e' := mul_le_mul_of_nonneg_right hm' (zpow_pos two_pos e').le
                  · have hm : (m : ℚ) ≤ m' := by exact_mod_cast (show m ≤ m' by omega)
                    exact mul_le_mul_of_nonneg_right hm (zpow_pos two_pos e).le
                  · have hhalf := normal (by omega)
                    omega

theorem Reads.exists_value_le {f g : UnpackedFloat} {a b : ℕ} {w : ℚ} (hf : Reads f a)
    (hg : Reads g b) (hw : HasValue g w) (h : a ≤ b) : ∃ v, HasValue f v ∧ v ≤ w := by
  have hvalue : ∀ v, HasValue f v → v ≤ w := fun v hv => hf.value_le hv hg hw h
  cases hf with
  | zero => exact ⟨0, .zero, hvalue 0 .zero⟩
  | finite positive => exact ⟨_, .finite _ _ positive, hvalue _ (.finite _ _ positive)⟩
  | infinity =>
      cases hw with
      | zero =>
          cases hg
          omega
      | finite m e positive =>
          cases hg
          omega

theorem toNat_pack_zero : (UnpackedFloat.pack Format.binary64 (.zero .positive)).toNat = 0 := by
  decide

theorem roundsTo_mul {f : UnpackedFloat} {v : ℚ} (hf : HasValue f v) {n : ℕ} {e : ℤ}
    (positive : 0 < n) (hn : 2 ^ 52 ≤ n) :
    RoundsTo (v * (n * 2 ^ e)) (UnpackedFloat.pack Format.binary64
      (UnpackedFloat.mul Format.binary64 f (.finite .positive n e positive))).toNat := by
  cases hf with
  | zero =>
      rw [zero_mul]
      exact toNat_pack_zero.symm ▸ roundsTo_zero
  | finite m e' positive' =>
      have hwide : 52 ≤ (m * n).log2 := by
        rw [Nat.le_log2 (Nat.mul_pos positive' positive).ne']
        exact hn.trans (Nat.le_mul_of_pos_left n positive')
      have hvalue : (m : ℚ) * 2 ^ e' * (n * 2 ^ e) = (m * n : ℕ) * 2 ^ (e' + e) := by
        rw [zpow_add₀ two_ne_zero]
        push_cast
        ring
      rw [hvalue]
      exact roundsTo_round (represents_exact (m * n)) (Or.inl hwide)

theorem two_pow_le_shift {n : ℕ} (hn : 0 < n) (s : ℕ) : 2 ^ (n.log2 + s) ≤ n <<< s := by
  rw [Nat.shiftLeft_eq, pow_add]
  exact Nat.mul_le_mul_right _ (Nat.log2_self_le hn.ne')

/-- The mantissa of a dividend is shifted until the quotient has all its bits, or the exponent is
the least one. -/
theorem divCore_eq (m n : ℕ) (e e' : ℤ) :
    ∃ s : ℕ, divCore Format.binary64 m e n e' =
        ((m <<< s) / n, e - e' - s, accuracyOfFraction ((m <<< s) % n) n) ∧
      (53 + n.log2 ≤ m.log2 + s ∨ e - e' - s ≤ -1074) := by
  obtain ⟨t, ht⟩ : ∃ t : ℤ, t = min (e - e') (Format.binary64.targetExponent
      (totalExponent m e - totalExponent n e')) := ⟨_, rfl⟩
  have hshift : e - e' - ((e - e' - t).toNat : ℤ) = t := by omega
  refine ⟨(e - e' - t).toNat, ?_, ?_⟩
  · rw [divCore, ← ht, hshift]
  · have hbits : Format.binary64.mantissaBits = 53 := rfl
    have hleast : Format.binary64.minExponent = -1074 := by decide
    rw [Format.targetExponent, totalExponent, totalExponent, hbits, hleast] at ht
    omega

/-- A quotient is rounded once. -/
theorem roundsTo_div {f : UnpackedFloat} {v : ℚ} (hf : HasValue f v) {n : ℕ} {e : ℤ}
    (positive : 0 < n) :
    RoundsTo (v / (n * 2 ^ e)) (UnpackedFloat.pack Format.binary64
      (UnpackedFloat.div Format.binary64 f (.finite .positive n e positive))).toNat := by
  cases hf with
  | zero =>
      rw [zero_div]
      exact toNat_pack_zero.symm ▸ roundsTo_zero
  | finite m e' positive' =>
      obtain ⟨s, hcore, hs⟩ := divCore_eq m n e' e
      have hvalue : (m : ℚ) * 2 ^ e' / (n * 2 ^ e) = ((m <<< s : ℕ) / n) * 2 ^ (e' - e - s) := by
        have hn : (n : ℚ) ≠ 0 := by exact_mod_cast positive.ne'
        rw [Nat.shiftLeft_eq, zpow_sub₀ two_ne_zero, zpow_sub₀ two_ne_zero, zpow_natCast]
        push_cast
        field_simp
      have hwide : 52 ≤ ((m <<< s) / n).log2 ∨ e' - e - s ≤ -1074 := by
        refine hs.imp_left fun hbits => ?_
        have hquotient : 2 ^ 52 ≤ (m <<< s) / n := by
          rw [Nat.le_div_iff_mul_le positive]
          calc 2 ^ 52 * n ≤ 2 ^ 52 * 2 ^ (n.log2 + 1) :=
                Nat.mul_le_mul_left _ Nat.lt_log2_self.le
            _ = 2 ^ (53 + n.log2) := by rw [← pow_add]; congr 1; omega
            _ ≤ 2 ^ (m.log2 + s) := Nat.pow_le_pow_right two_pos hbits
            _ ≤ m <<< s := two_pow_le_shift positive' s
        rw [Nat.le_log2 (by omega)]
        exact hquotient
      rw [hvalue]
      have hround := roundsTo_round (represents_fraction (m <<< s) n positive) hwide
      simp only [UnpackedFloat.div, hcore]
      exact hround

theorem roundsTo_shift {n s : ℕ} {e : ℤ} (hs : e = -s) (wide : 52 ≤ (n <<< s).log2) :
    RoundsTo n (UnpackedFloat.pack Format.binary64
      (roundWithAccuracy Format.binary64 .positive (n <<< s) e .exact)).toNat := by
  have hvalue : (n : ℚ) = (n <<< s : ℕ) * 2 ^ e := by
    rw [hs, Nat.shiftLeft_eq, zpow_neg, zpow_natCast]
    push_cast
    field_simp
  have hround := roundsTo_round (represents_exact (n <<< s)) (Or.inl wide : _ ∨ e ≤ -1074)
  rwa [← hvalue] at hround

theorem le_log2_shift {n s : ℕ} (hn : 0 < n) (hs : 52 ≤ n.log2 + s) : 52 ≤ (n <<< s).log2 := by
  rw [Nat.le_log2 (Nat.shiftLeft_pos_iff.mpr hn).ne']
  exact (Nat.pow_le_pow_right two_pos hs).trans (two_pow_le_shift hn s)

theorem roundsTo_unpacked_ofNat (n : ℕ) :
    RoundsTo n (UnpackedFloat.pack Format.binary64
      (UnpackedFloat.ofNat Format.binary64 n)).toNat := by
  rw [UnpackedFloat.ofNat, UnpackedFloat.ofInt, UnpackedFloat.normalize]
  rcases Nat.eq_zero_or_pos n with rfl | hn
  · rw [Nat.cast_zero]
    exact toNat_pack_zero.symm ▸ roundsTo_zero
  · rw [Int.compare_eq_gt.mpr (Int.natCast_pos.mpr hn)]
    dsimp only
    rw [UnpackedFloat.round, targetExponent_eq, Int.toNat_natCast]
    exact roundsTo_shift (by omega) (le_log2_shift hn (by omega))

theorem Reads.mul_one {f : UnpackedFloat} {bits : ℕ} (hf : Reads f bits) :
    (UnpackedFloat.pack Format.binary64 (UnpackedFloat.mul Format.binary64 f
      (.finite .positive (2 ^ 52) (-52) (by decide)))).toNat = bits := by
  have hkeeps : ∀ v, HasValue f v → (UnpackedFloat.pack Format.binary64
      (UnpackedFloat.mul Format.binary64 f
        (.finite .positive (2 ^ 52) (-52) (by decide)))).toNat = bits := by
    intro v hv
    have hproduct := roundsTo_mul hv (e := -52) (show 0 < 2 ^ 52 by decide) (le_refl _)
    have hone : v * ((2 ^ 52 : ℕ) * 2 ^ (-52 : ℤ)) = v := by
      norm_num
    rw [hone] at hproduct
    exact le_antisymm (hproduct.mono (hf.roundsTo hv) (le_refl v))
      ((hf.roundsTo hv).mono hproduct (le_refl v))
  cases hf with
  | zero => exact hkeeps 0 HasValue.zero
  | finite positive => exact hkeeps _ (HasValue.finite _ _ positive)
  | infinity => decide

theorem ne_notANumber_of_toBits_le {x : Float.Model} (h : x.toBits.toNat ≤ 2047 * 2 ^ 52) :
    x.unpack ≠ .notANumber := by
  have hmantissa : (@unpackMantissa Format.binary64 x.toBits.toBitVec).toNat =
      x.toBits.toNat % 2 ^ 52 := toNat_unpackMantissa _
  have hexponent : (@unpackExponent Format.binary64 x.toBits.toBitVec).toNat =
      x.toBits.toNat / 2 ^ 52 % 2 ^ 11 := toNat_unpackExponent _
  have hones : (-1#11).toNat = 2047 := by decide
  unfold Float.Model.unpack UnpackedFloat.unpack
  simp only [← BitVec.toNat_inj, hmantissa, hexponent, hones, BitVec.toNat_ofNat, Nat.zero_mod]
  split_ifs
  · exact UnpackedFloat.noConfusion
  · omega
  all_goals exact UnpackedFloat.noConfusion

theorem RoundsTo.reads {v : ℚ} {x : Float.Model} (h : RoundsTo v x.toBits.toNat) :
    Reads x.unpack x.toBits.toNat := by
  obtain ⟨t, -, hbits⟩ := h
  exact reads_unpack (by omega) (ne_notANumber_of_toBits_le (by omega))

theorem roundsTo_ofNat (n : ℕ) : RoundsTo n (Float.ofNat n).toBits.toNat := by
  show RoundsTo n (Float.ofScientific n false 0).toBits.toNat
  unfold Float.ofScientific
  split
  · rename_i hfast
    obtain ⟨x, hx⟩ : ∃ x, x = n.toUInt64.toFloat.toModel := ⟨_, rfl⟩
    have hn : RoundsTo n x.toBits.toNat := by
      have hsame : n.toUInt64.toNat = n := Nat.mod_eq_of_lt (by omega)
      have hround : RoundsTo n.toUInt64.toNat n.toUInt64.toFloat.toModel.toBits.toNat :=
        roundsTo_unpacked_ofNat n.toUInt64.toNat
      rwa [hsame, ← hx] at hround
    rw [← hn.reads.mul_one] at hn
    have hone : Float.exactlyRepresentablePowersOfTen[0].toModel.unpack =
        .finite .positive (2 ^ 52) (-52) (by decide) := by
      rfl
    show RoundsTo n (UnpackedFloat.pack Format.binary64 (UnpackedFloat.mul Format.binary64
      n.toUInt64.toFloat.toModel.unpack
      Float.exactlyRepresentablePowersOfTen[0].toModel.unpack)).toNat
    rw [← hx, hone]
    exact hn
  · rename_i hslow
    have hn : n ≠ 0 := by omega
    have hround := roundsTo_shift (n := n) (s := 53) (e := -53) rfl
      (le_log2_shift (Nat.pos_of_ne_zero hn) (by omega))
    show RoundsTo n (UnpackedFloat.pack Format.binary64
      (UnpackedFloat.ofScientific Format.binary64 n 0)).toNat
    unfold UnpackedFloat.ofScientific
    have hpow : (0 : ℤ) ≤ 2 ^ Format.binary64.exponentBits := by positivity
    have hbits : Format.binary64.mantissaBits = 53 := rfl
    rw [dif_neg hn, if_neg (by omega), if_neg (by omega), if_pos (le_refl 0), UnpackedFloat.mul]
    simp only [Int.toNat_zero, pow_zero, Nat.mul_one, Int.add_zero, hbits]
    exact hround

theorem toNat_ofNatClamp_le (n : ℕ) : (UInt64.ofNatClamp n).toNat ≤ n := by
  unfold UInt64.ofNatClamp
  split
  · exact le_refl n
  · rename_i hlarge
    exact not_lt.mp fun h => hlarge (h.trans (UInt64.toNat_lt_size _))

theorem HasValue.toUInt64_le {f : UnpackedFloat} {v : ℚ} (hv : HasValue f v) :
    (f.toUInt64.toNat : ℚ) ≤ v := by
  cases hv with
  | zero => exact le_of_eq Nat.cast_zero
  | finite m e positive =>
      obtain ⟨k, hk⟩ : ∃ k : ℕ, k = (e - 0).toNat := ⟨_, rfl⟩
      obtain ⟨n, hn⟩ : ∃ n : ℕ, n = (0 - (e - k)).toNat := ⟨_, rfl⟩
      obtain ⟨whole, hwhole⟩ : ∃ whole : ExtendedMantissa,
        whole = ExtendedMantissa.ofMantissaAndAccuracy (m <<< k) .exact >>> n := ⟨_, rfl⟩
      have hint : roundToInt .positive m e = whole.mantissa := by
        rw [roundToInt, decreaseExponent, ← hk]
        dsimp only
        rw [shiftToExponent, ← hn, ← hwhole]
        rfl
      have hvalue : ((m <<< k : ℕ) : ℚ) / 2 ^ n = m * 2 ^ e := by
        have he : e = k - n := by omega
        rw [he, zpow_sub₀ two_ne_zero, zpow_natCast, zpow_natCast, Nat.shiftLeft_eq]
        push_cast
        ring
      have hle : (whole.mantissa : ℚ) ≤ m * 2 ^ e := by
        rw [← hvalue, hwhole]
        exact ((represents_exact (m <<< k)).shiftRight n).bounds.1
      rw [UnpackedFloat.toUInt64, UnpackedFloat.toInt, hint, Int.toNat_natCast]
      exact le_trans (Nat.cast_le.mpr (toNat_ofNatClamp_le _)) hle

structure Denotes (x : Float) (v : ℚ) : Prop where
  reads : Reads x.toModel.unpack x.toBits.toNat
  value : HasValue x.toModel.unpack v

section Denotes

variable {x c : Float} {v w : ℚ}

theorem denotes_of_unpack {m : ℕ} {e : ℤ} {positive : 0 < m} (hbits : c.toBits.toNat < 2 ^ 63)
    (hunpack : c.toModel.unpack = .finite .positive m e positive) : Denotes c (m * 2 ^ e) where
  reads := reads_unpack hbits (by rw [hunpack]; exact UnpackedFloat.noConfusion)
  value := hunpack ▸ HasValue.finite m e positive

theorem Denotes.roundsTo (hc : Denotes c w) : RoundsTo w c.toBits.toNat :=
  hc.reads.roundsTo hc.value

theorem Denotes.unique (hx : Denotes x v) (hc : Denotes c v) : x = c :=
  eq_of_toNat_toBits_eq (le_antisymm (hx.roundsTo.mono hc.roundsTo (le_refl v))
    (hc.roundsTo.mono hx.roundsTo (le_refl v)))

theorem Denotes.not_lt_iff (hc : Denotes c w) (hx : Reads x.toModel.unpack x.toBits.toNat) :
    ¬ c < x ↔ x.toBits.toNat ≤ c.toBits.toNat := by
  have hlt : c < x ↔ c.toModel.unpack.lt x.toModel.unpack = true := decide_eq_true_iff
  rw [hlt, UnpackedFloat.lt, hc.reads.compare hx, beq_iff_eq, Option.some.injEq,
    Std.compare_eq_lt, not_lt]

theorem Denotes.not_lt (hc : Denotes c w) (hx : RoundsTo v x.toBits.toNat) (h : v ≤ w) :
    ¬ c < x :=
  (hc.not_lt_iff hx.reads).mpr (hx.mono hc.roundsTo h)

theorem not_lt_of_notANumber (h : x.toModel.unpack = .notANumber) : ¬ c < x := by
  have hcompare : c.toModel.unpack.compare .notANumber = none := by
    cases c.toModel.unpack <;> rfl
  have hlt : c < x ↔ c.toModel.unpack.lt x.toModel.unpack = true := decide_eq_true_iff
  rw [hlt, UnpackedFloat.lt, h, hcompare]
  decide

theorem Denotes.exists_le (hc : Denotes c w) (hx : x.toBits.toNat < 2 ^ 63) (h : ¬ c < x) :
    x.toModel.unpack = .notANumber ∨ ∃ v ≤ w, Denotes x v := by
  refine or_iff_not_imp_left.mpr fun hnumber => ?_
  have hreads : Reads x.toModel.unpack x.toBits.toNat := reads_unpack hx hnumber
  obtain ⟨v, hv, hle⟩ := hreads.exists_value_le hc.reads hc.value ((hc.not_lt_iff hreads).mp h)
  exact ⟨v, hle, hreads, hv⟩

end Denotes

end Respell.Likeness
