import Mathlib
import Stencil.Numeral.Reading

/-!
# Comparing floats

Floats compare as their unpacked forms do, by sign, exponent and mantissa, so that two floats compare
in one way at most (`not_lt_of_beq`). Rounding gives a number always, infinity included: a whole
number and a decimal stand for numbers (`isNaN_ofInt`, `isNaN_toFloat`), and the only numeral
without one is the word for no number (`exists_isNaN_iff`).
-/

namespace Stencil.Numeral

open Float.Model (UnpackedFloat Format)
open Float.Model.UnpackedFloat

/-! ## Two floats side by side -/

section Pair

variable {x y : Float}

theorem beq_iff : (x == y) = true ↔ x.toModel.unpack.compare y.toModel.unpack = some .eq := by
  show (_ == some Ordering.eq) = true ↔ _
  exact beq_iff_eq

theorem lt_iff : x < y ↔ x.toModel.unpack.compare y.toModel.unpack = some .lt := by
  show decide _ = true ↔ _
  rw [decide_eq_true_iff]
  exact beq_iff_eq

theorem isNaN_eq (x : Float) : x.isNaN = x.toModel.unpack.isNaN := rfl

theorem not_lt_of_beq (h : (x == y) = true) : ¬x < y := by
  rw [lt_iff, beq_iff.1 h]
  simp

end Pair

/-! ## What rounding gives -/

theorem isNaN_unpack (spec : Format) (b : BitVec spec.numBits) :
    (unpack spec b).isNaN = true ↔ unpackExponent b = -1#_ ∧ unpackMantissa b ≠ 0#_ := by
  unfold unpack
  simp only
  split
  · next he => split <;> simp_all [UnpackedFloat.isNaN]
  · next he =>
    split
    · split <;> simp [UnpackedFloat.isNaN, he]
    · simp [UnpackedFloat.isNaN, he]

/-- Packing may overflow to infinity, but makes no number of what is none and the reverse. -/
theorem isNaN_pack (u : UnpackedFloat) : (Float.Model.pack u).unpack.isNaN = u.isNaN := by
  show (unpack Format.binary64 (pack Format.binary64 u)).isNaN = _
  rw [Bool.eq_iff_iff, isNaN_unpack]
  fun_cases pack with
  | case1 => simp [UnpackedFloat.isNaN, packedNaN]
  | case2 s => simp [UnpackedFloat.isNaN, packedInfinity]
  | case3 s => simp [UnpackedFloat.isNaN, packedZero]
  | case4 s m e hm biased h => simp [UnpackedFloat.isNaN, packedInfinity]
  | case5 s m e hm bits biased h h' =>
    -- the exponent of a normal number is below the one of infinity
    have hfits : ¬2 ^ 11 ≤ biased + 1 := h
    have hexp : biased % 2048 ≠ 2047 := by omega
    simp [UnpackedFloat.isNaN, BitVec.neg_one_eq_allOnes, ← BitVec.toNat_inj, hexp]
  | case6 s m e hm bits biased h h' => simp [UnpackedFloat.isNaN]

section Rounding

variable (spec : Format) (s : Sign) (m : Nat) (e : Int)

theorem isNaN_roundWithAccuracy (a : Accuracy) :
    (roundWithAccuracy spec s m e a).isNaN = false := by
  simp only [roundWithAccuracy]
  split <;> rfl

theorem isNaN_ofNat (n : Nat) : (UnpackedFloat.ofNat spec n).isNaN = false := by
  simp only [UnpackedFloat.ofNat, UnpackedFloat.ofInt, UnpackedFloat.normalize]
  split
  · exact isNaN_roundWithAccuracy ..
  · rfl
  · exact isNaN_roundWithAccuracy ..

/-- A number times a finite one other than zero is a number. -/
theorem isNaN_mul_finite {u : UnpackedFloat} (h : u.isNaN = false) (hm : 0 < m) :
    (mul spec u (.finite s m e hm)).isNaN = false := by
  cases u with
  | notANumber => cases h
  | finite => exact isNaN_roundWithAccuracy ..
  | _ => rfl

/-- A number divided by a finite one other than zero is a number. -/
theorem isNaN_div_finite {u : UnpackedFloat} (h : u.isNaN = false) (hm : 0 < m) :
    (div spec u (.finite s m e hm)).isNaN = false := by
  cases u with
  | notANumber => cases h
  | finite => exact isNaN_roundWithAccuracy ..
  | _ => rfl

theorem isNaN_scientific : (UnpackedFloat.ofScientific spec m e).isNaN = false := by
  unfold UnpackedFloat.ofScientific
  split_ifs
  · rfl
  · rfl
  · rfl
  · exact isNaN_mul_finite _ _ _ _ rfl _
  · exact isNaN_div_finite _ _ _ _ rfl _

end Rounding

/-! ## What a numeral stands for -/

theorem isNaN_neg (x : Float) : (-x).isNaN = x.isNaN := by
  have h : (-x).isNaN = x.toModel.unpack.neg.isNaN := isNaN_pack _
  rw [h, isNaN_eq]
  cases x.toModel.unpack <;> rfl

theorem powers_finite : ∀ p ∈ Float.exactlyRepresentablePowersOfTen.toList,
    p.isFinite = true ∧ (p == 0.0) = false := by
  decide +kernel

/-- The powers of ten that are floats are finite and not zero. -/
theorem exists_power {p : Float} (h : p ∈ Float.exactlyRepresentablePowersOfTen) :
    ∃ s m e hm, p.toModel.unpack = .finite s m e hm := by
  obtain ⟨hfinite, hzero⟩ := powers_finite p h.val
  have hf : p.toModel.unpack.isFinite = true := hfinite
  cases hu : p.toModel.unpack with
  | finite s m e hm => exact ⟨s, m, e, hm, rfl⟩
  | zero s =>
    have h0 : (0.0 : Float).toModel.unpack = .zero .positive := rfl
    rw [← Bool.not_eq_true, beq_iff, hu, h0] at hzero
    exact absurd rfl hzero
  | _ => rw [hu] at hf; cases hf

theorem isNaN_ofScientific (m : Nat) (negative : Bool) (e : Nat) :
    (Float.ofScientific m negative e).isNaN = false := by
  unfold Float.ofScientific
  split
  · next h =>
    have he : e < Float.exactlyRepresentablePowersOfTen.size := Nat.lt_succ_of_le h.2
    obtain ⟨t, n, k, hn, hp⟩ := exists_power (Array.getElem_mem he)
    have hm : m.toUInt64.toFloat.toModel.unpack.isNaN = false :=
      (isNaN_pack _).trans (isNaN_ofNat Format.binary64 m.toUInt64.toNat)
    cases negative with
    | true =>
      refine (isNaN_pack _).trans ?_
      rw [hp]
      exact isNaN_div_finite _ _ _ _ hm hn
    | false =>
      refine (isNaN_pack _).trans ?_
      rw [hp]
      exact isNaN_mul_finite _ _ _ _ hm hn
  · exact (isNaN_pack _).trans (isNaN_scientific ..)

theorem isNaN_ofInt (n : Int) : (Float.ofInt n).isNaN = false := by
  cases n with
  | ofNat n => exact isNaN_ofScientific ..
  | negSucc n => exact (isNaN_neg _).trans (isNaN_ofScientific ..)

theorem isNaN_toFloat (d : Decimal) : d.toFloat.isNaN = false := by
  have hmagnitude : d.magnitude.isNaN = false := by
    unfold Decimal.magnitude
    simp only
    split_ifs
    · exact isNaN_ofScientific ..
    · decide +kernel
    · exact isNaN_ofScientific ..
    · exact isNaN_ofScientific ..
  unfold Decimal.toFloat
  split
  · rw [isNaN_neg, hmagnitude]
  · exact hmagnitude

/-- **The only numeral without a number** is the word for none, with a sign or not. -/
theorem exists_isNaN_iff {t : Text} :
    (∃ x, float? t = some x ∧ x.isNaN = true) ↔ Text.toLower (splitSign t).2 = "nan".toList := by
  have hinfinity :
      (if (splitSign t).1 then -Decimal.infinity else Decimal.infinity).isNaN = false := by
    split <;> decide +kernel
  unfold float?
  simp only
  split
  · next hw =>
    have hword : Text.toLower (splitSign t).2 ≠ "nan".toList := by
      rcases Bool.or_eq_true_iff.1 hw with hw | hw <;> rw [beq_iff_eq.1 hw] <;> decide
    simp only [hword, iff_false]
    rintro ⟨x, hx, hnan⟩
    rw [← Option.some.inj hx, hinfinity] at hnan
    cases hnan
  split
  · next hw =>
    exact iff_of_true ⟨_, rfl, by decide +kernel⟩ (beq_iff_eq.1 hw)
  · next hw =>
    refine iff_of_false ?_ fun e => hw (beq_iff_eq.2 e)
    rintro ⟨x, hx, hnan⟩
    obtain ⟨d, -, rfl⟩ := Option.map_eq_some_iff.1 hx
    rw [isNaN_toFloat] at hnan
    cases hnan

end Stencil.Numeral
