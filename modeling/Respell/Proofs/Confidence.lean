import Respell.Confidence
import Respell.Proofs.Likeness.Matching
import Respell.Proofs.Likeness.Values
import Respell.Proofs.Sound.Canonical

namespace Respell

namespace Likeness

open Float.Model UnpackedFloat

theorem unpack_one : (1.0 : Float).toModel.unpack =
    .finite .positive (2 ^ 52) (-52) (by decide) := by
  rfl

theorem unpack_hundred : (100.0 : Float).toModel.unpack =
    .finite .positive (100 * 2 ^ 46) (-46) (by decide) := by
  rfl

theorem denotes_one : Denotes 1.0 1 := by
  have hvalue : (1 : ℚ) = (2 ^ 52 : ℕ) * 2 ^ (-52 : ℤ) := by norm_num
  have hbits : (1.0 : Float).toBits.toNat = 1023 * 2 ^ 52 := by rfl
  exact hvalue ▸ denotes_of_unpack (hbits.trans_lt (by decide)) unpack_one

theorem denotes_hundred : Denotes 100.0 100 := by
  have hvalue : (100 : ℚ) = (100 * 2 ^ 46 : ℕ) * 2 ^ (-46 : ℤ) := by norm_num
  have hbits : (100.0 : Float).toBits.toNat = 1028 * 2 ^ 52 + 100 * 2 ^ 46 := by rfl
  exact hvalue ▸ denotes_of_unpack (hbits.trans_lt (by decide)) unpack_hundred

theorem Reads.div_cases {f g : UnpackedFloat} {a b : ℕ} (hf : Reads f a) (hg : Reads g b)
    (h : a ≤ b) :
    UnpackedFloat.div Format.binary64 f g = .notANumber ∨
      ∃ v ≤ 1, RoundsTo v (UnpackedFloat.pack Format.binary64
        (UnpackedFloat.div Format.binary64 f g)).toNat := by
  cases hg with
  | zero =>
      cases hf with
      | zero => exact Or.inl rfl
      | finite positive bits_eq => omega
      | infinity => omega
  | @finite m _ e positive bits_eq least mantissa_lt normal bits_lt =>
      have hw := HasValue.finite m e positive
      have hg := Reads.finite positive bits_eq least mantissa_lt normal bits_lt
      have hpos : (0 : ℚ) < m * 2 ^ e := mul_pos (Nat.cast_pos.mpr positive) (zpow_pos two_pos e)
      obtain ⟨v, hv, hle⟩ := hf.exists_value_le hg hw h
      exact Or.inr ⟨_, (div_le_one hpos).mpr hle, roundsTo_div hv positive⟩
  | infinity =>
      cases hf with
      | zero => exact Or.inr ⟨0, zero_le_one, toNat_pack_zero.symm ▸ roundsTo_zero⟩
      | finite positive => exact Or.inr ⟨0, zero_le_one, toNat_pack_zero.symm ▸ roundsTo_zero⟩
      | infinity => exact Or.inl rfl

theorem not_one_lt_div {x y : Float} (hx : Reads x.toModel.unpack x.toBits.toNat)
    (hy : Reads y.toModel.unpack y.toBits.toNat) (h : x.toBits.toNat ≤ y.toBits.toNat) :
    ¬ 1.0 < x / y := by
  rcases hx.div_cases hy h with hnone | ⟨v, hle, hround⟩
  · apply not_lt_of_notANumber
    show (Float.Model.pack (UnpackedFloat.div Format.binary64 _ _)).unpack = _
    rw [hnone]
    rfl
  · exact denotes_one.not_lt hround hle

theorem not_one_lt_score (a b : String) : ¬ 1.0 < score a b := by
  unfold score
  dsimp only
  split
  · exact denotes_one.not_lt denotes_one.roundsTo (le_refl 1)
  · have hx := roundsTo_ofNat (2 * matched a.toList b.toList)
    have hy := roundsTo_ofNat (a.toList.length + b.toList.length)
    apply not_one_lt_div hx.reads hy.reads
    exact hx.mono hy (Nat.cast_le.mpr (two_mul_matched_le a.toList b.toList))

theorem not_hundred_lt_mul {x : Float} (hx : x.toBits.toNat < 2 ^ 63) (h : ¬ 1.0 < x) :
    ¬ 100.0 < x * 100.0 := by
  have hproduct : (x * 100.0).toBits.toNat = (UnpackedFloat.pack Format.binary64
      (UnpackedFloat.mul Format.binary64 x.toModel.unpack (100.0 : Float).toModel.unpack)).toNat :=
    rfl
  rcases denotes_one.exists_le hx h with hnone | ⟨v, hle, hv⟩
  · apply not_lt_of_notANumber
    show (Float.Model.pack (UnpackedFloat.mul Format.binary64 x.toModel.unpack _)).unpack = _
    rw [hnone]
    rfl
  · have hround := roundsTo_mul hv.value (e := -46) (show 0 < 100 * 2 ^ 46 by decide) (by decide)
    rw [← unpack_hundred, ← hproduct] at hround
    apply denotes_hundred.not_lt hround
    norm_num
    linarith

end Likeness

theorem roundHalfUp_le_hundred {x : Float} (hx : x.toBits.toNat < 2 ^ 63) (h : ¬ 100.0 < x) :
    roundHalfUp x ≤ 100 := by
  have hnext : roundHalfUp x ≤ x.toUInt64.toNat + 1 := by
    unfold roundHalfUp
    dsimp only
    split_ifs <;> omega
  rcases Likeness.denotes_hundred.exists_le hx h with hnone | ⟨v, hle, hv⟩
  · have hzero : x.toUInt64.toNat = 0 := by
      show x.toModel.unpack.toUInt64.toNat = 0
      rw [hnone]
      rfl
    omega
  · have hwhole : (x.toUInt64.toNat : ℚ) ≤ v := hv.value.toUInt64_le
    rcases hle.lt_or_eq with hless | rfl
    · have hlt : x.toUInt64.toNat < 100 := by exact_mod_cast hwhole.trans_lt hless
      omega
    · have hhundred : roundHalfUp 100.0 = 100 := by rfl
      rw [hv.unique Likeness.denotes_hundred, hhundred]

theorem percent_le_hundred (a b : String) : percent a b ≤ 100 := by
  have hscore := Likeness.toBits_score_lt a b
  have hhundred := Likeness.denotes_hundred.reads.lt
  apply roundHalfUp_le_hundred
  · apply Likeness.toBits_pack_lt
    exact Likeness.Unsigned.mul (Likeness.unsigned_unpack hscore)
      (Likeness.unsigned_unpack hhundred) _
  · exact Likeness.not_hundred_lt_mul hscore (Likeness.not_one_lt_score a b)

theorem Bonus.apply_le_cap (bonus : Bonus) (score : Nat) : bonus.apply score ≤ bonus.cap :=
  Nat.min_le_right _ _

theorem Bonus.min_le_apply (bonus : Bonus) (score : Nat) :
    min score bonus.cap ≤ bonus.apply score := by
  unfold Bonus.apply
  omega

/-- A raise takes something away exactly from a score above its cap. -/
theorem Bonus.apply_lt_iff (bonus : Bonus) (score : Nat) :
    bonus.apply score < score ↔ bonus.cap < score := by
  unfold Bonus.apply
  omega

/-- The likeness in percent of two words without regard to case, before any raise. -/
def plain (word candidate : String) : Nat := percent (Text.lower word) (Text.lower candidate)

def heard (word candidate : String) : Nat :=
  if Sound.alike word candidate then Bonus.sound.apply (plain word candidate)
  else plain word candidate

section Raise

variable (word candidate : String)

theorem plain_le_hundred : plain word candidate ≤ 100 := percent_le_hundred _ _

theorem min_le_heard : min (plain word candidate) Bonus.sound.cap ≤ heard word candidate := by
  unfold heard
  split_ifs
  · exact Bonus.min_le_apply _ _
  · exact Nat.min_le_left _ _

theorem heard_le_hundred : heard word candidate ≤ 100 := by
  unfold heard
  split_ifs
  · exact (Bonus.apply_le_cap _ _).trans (by decide)
  · exact plain_le_hundred word candidate

variable {word candidate}

theorem confidence_of_ne (h : Text.lower word ≠ Text.lower candidate) :
    confidence word candidate =
      if sharesLead (Text.lower word) (Text.lower candidate)
      then Bonus.lead.apply (heard word candidate) else heard word candidate := by
  obtain ⟨led, hled⟩ : ∃ led, led = if sharesLead (Text.lower word) (Text.lower candidate)
    then Bonus.lead.apply (heard word candidate) else heard word candidate := ⟨_, rfl⟩
  have hle : led ≤ 100 := by
    rw [hled]
    split_ifs with hlead
    · exact (Bonus.apply_le_cap _ _).trans (by decide)
    · exact heard_le_hundred word candidate
  have hconfidence : confidence word candidate = min led 100 := by
    rw [hled]
    exact if_neg h
  rw [hconfidence, Nat.min_eq_left hle, hled]

end Raise

/-- The confidence is below the plain likeness in percent exactly if that is above the cap of the
last raise that is given, and then by five points at most. -/
theorem confidence_lt_plain_iff (word candidate : String) :
    (confidence word candidate < plain word candidate ↔
      Text.lower word ≠ Text.lower candidate ∧
        if sharesLead (Text.lower word) (Text.lower candidate)
        then Bonus.lead.cap < plain word candidate
        else Sound.alike word candidate = true ∧ Bonus.sound.cap < plain word candidate) ∧
    plain word candidate ≤ confidence word candidate + 5 := by
  have hplain : plain word candidate ≤ 100 := plain_le_hundred word candidate
  by_cases hsame : Text.lower word = Text.lower candidate
  · have hfull : confidence word candidate = 100 := if_pos hsame
    exact ⟨⟨fun hless => absurd hless (by omega), fun h => absurd hsame h.1⟩, by omega⟩
  · rw [confidence_of_ne hsame, and_iff_right hsame]
    have hlow : min (plain word candidate) 95 ≤ heard word candidate :=
      min_le_heard word candidate
    by_cases hled : sharesLead (Text.lower word) (Text.lower candidate)
    · -- What was taken for the sound is given back here: a raise by ten is more than five.
      rw [if_pos hled, if_pos hled]
      have hlead : Bonus.lead.apply (heard word candidate) = min (heard word candidate + 10) 98 :=
        rfl
      have hcap : Bonus.lead.cap = 98 := rfl
      omega
    · rw [if_neg hled, if_neg hled]
      refine ⟨?_, by omega⟩
      unfold heard
      by_cases halike : Sound.alike word candidate
      · rw [if_pos halike, Bonus.apply_lt_iff, and_iff_right halike]
      · rw [if_neg halike]
        exact ⟨fun hless => absurd hless (lt_irrefl _), fun h => absurd h.1 halike⟩

/-- Two words that differ in the length of their first vowel, in a hundred characters, sound alike.
Their likeness is rounded to 100 percent, and the raise takes five points from it. -/
theorem confidence_lt_plain_aann :
    plain (String.ofList ('a' :: 'a' :: List.replicate 99 'n'))
      (String.ofList ('a' :: List.replicate 99 'n')) = 100 ∧
    confidence (String.ofList ('a' :: 'a' :: List.replicate 99 'n'))
      (String.ofList ('a' :: List.replicate 99 'n')) = 95 := by
  obtain ⟨long, hlong⟩ : ∃ l, l = 'a' :: 'a' :: List.replicate 99 'n' := ⟨_, rfl⟩
  obtain ⟨short, hshort⟩ : ∃ l, l = 'a' :: List.replicate 99 'n' := ⟨_, rfl⟩
  rw [← hlong, ← hshort]
  have hlower : Text.lower (String.ofList long) = String.ofList long ∧
      Text.lower (String.ofList short) = String.ofList short := by
    have hsmall : ∀ c ∈ long, Sound.isSmall c = true := by
      intro c hc
      have hletter : c = 'a' ∨ c = 'n' := by simpa [hlong] using hc
      rcases hletter with rfl | rfl <;> decide
    have htail : short ⊆ long := by
      rw [hlong, hshort]
      exact List.subset_cons_self _ _
    exact ⟨Sound.lower_ofList hsmall, Sound.lower_ofList fun c hc => hsmall c (htail hc)⟩
  have hplain : plain (String.ofList long) (String.ofList short) = 100 := by
    have hmatched : Likeness.matched long short = 100 := by
      rw [Likeness.matched_of_infix ⟨['a'], [], by rw [hlong, hshort]; rfl⟩, hshort]
      rfl
    have htotal : long.length + short.length = 201 := by
      rw [hlong, hshort]
      rfl
    rw [plain, hlower.1, hlower.2, percent, Likeness.score, String.toList_ofList,
      String.toList_ofList, hmatched, htotal]
    rfl
  have halike : Sound.alike (String.ofList long) (String.ofList short) = true := by
    have hkept : ∀ cluster ∈ Sound.clusters.take 11,
        Sound.replaceCluster long cluster = long := by
      rw [hlong]
      decide +kernel
    have hvowel : Sound.replaceCluster long ("aa", "a") = short := by
      rw [hlong, hshort]
      decide +kernel
    have hrest : ∀ cluster ∈ Sound.clusters, Sound.replaceCluster short cluster = short := by
      rw [hshort]
      decide +kernel
    exact Sound.alike_of_replaceCluster rfl hkept hvowel hrest
  have hne : Text.lower (String.ofList long) ≠ Text.lower (String.ofList short) := by
    rw [hlower.1, hlower.2, ne_eq, String.ofList_inj, hlong, hshort]
    decide
  have hlead : ¬ sharesLead (Text.lower (String.ofList long))
      (Text.lower (String.ofList short)) := by
    rw [hlower.1, hlower.2, sharesLead, String.toList_ofList, String.toList_ofList, hlong, hshort]
    decide
  refine ⟨hplain, ?_⟩
  rw [confidence_of_ne hne, if_neg hlead, heard, if_pos halike, hplain]
  rfl

end Respell
