/-
# How large a float becomes

A float is looked at as a mantissa times a power of two.  `Below T` says that it is a real number
and less than `2 ^ T` in absolute value, `AtLeast B` that it is not less than `2 ^ B`.  Every
operation loses at most one power of two to rounding, so bounds go through it, and whatever stays
below `2 ^ 972` is still a real number once it is packed into 64 bits.

The smallest exponent of a float is -1074 and the greatest 971; its mantissa has 53 bits.
-/

import Mathlib.Algebra.Group.Int.Defs
import Mathlib.Algebra.Group.Nat.Defs
import MappingCanvas.Json.Number

namespace MappingCanvas
namespace Magnitude

open Float.Model UnpackedFloat

/-! ### Mantissas and exponents -/

theorem mantissaBits_eq : Format.binary64.mantissaBits = 53 := rfl

/-- Below 2 ^ -1021 the exponent no longer sinks with the number. -/
theorem targetExponent_eq (t : Int) :
    Format.binary64.targetExponent t = max (t - 53) (-1074) := rfl

theorem exponentBias_eq : Format.binary64.exponentBias = 1023 := rfl

/-- `m * 2 ^ e` lies below `2 ^ T`. -/
def Scaled (T : Int) (m : Nat) (e : Int) : Prop := e ≤ T ∧ m < 2 ^ (T - e).toNat

namespace Scaled

variable {T e : Int} {m : Nat}

/-- The bits of a number below a power of two do not go beyond it. -/
theorem totalExponent_le (h : Scaled T m e) : totalExponent m e ≤ T + 1 := by
  obtain ⟨he, hm⟩ := h
  unfold totalExponent
  by_cases h0 : m = 0
  · subst h0
    simp only [Nat.log2_zero]
    omega
  · have := (Nat.log2_lt h0).2 hm
    omega

/-- To drop the last bits of a mantissa keeps the number below. -/
theorem shiftRight (h : Scaled T m e) {k : Nat} (hk : e + k ≤ T) :
    Scaled T (m / 2 ^ k) (e + k) := by
  refine ⟨hk, Nat.div_lt_of_lt_mul ?_⟩
  rw [← Nat.pow_add, show k + (T - (e + k)).toNat = (T - e).toNat by omega]
  exact h.2

/-- To write a number with more bits leaves it where it is. -/
theorem shiftLeft (h : Scaled T m e) (k : Nat) : Scaled T (m <<< k) (e - k) := by
  obtain ⟨he, hm⟩ := h
  refine ⟨by omega, ?_⟩
  rw [show (T - (e - k)).toNat = (T - e).toNat + k by omega, Nat.pow_add, Nat.shiftLeft_eq]
  exact Nat.mul_lt_mul_of_pos_right hm (Nat.two_pow_pos k)

/-- Rounding up costs at most one power of two. -/
theorem succ (h : Scaled T m e) {r : Nat} (hr : r ≤ m + 1) : Scaled (T + 1) r e := by
  obtain ⟨he, hm⟩ := h
  refine ⟨by omega, ?_⟩
  rw [show (T + 1 - e).toNat = (T - e).toNat + 1 by omega, Nat.pow_succ]
  omega

/-- The bounds of factors add up to one of the product. -/
theorem mul {S e₁ e₂ : Int} {m₁ m₂ : Nat} (h₁ : Scaled S m₁ e₁) (h₂ : Scaled T m₂ e₂) :
    Scaled (S + T) (m₁ * m₂) (e₁ + e₂) := by
  obtain ⟨he₁, hm₁⟩ := h₁
  obtain ⟨he₂, hm₂⟩ := h₂
  refine ⟨by omega, ?_⟩
  rw [show (S + T - (e₁ + e₂)).toNat = (S - e₁).toNat + (T - e₂).toNat by omega, Nat.pow_add]
  exact Nat.mul_lt_mul'' hm₁ hm₂

end Scaled

/-- A number that is not below a power of two has bits beyond it. -/
theorem lt_totalExponent {B e : Int} {m : Nat} (h : 2 ^ (B - e).toNat ≤ m) :
    B < totalExponent m e := by
  have hpos : 0 < m := Nat.lt_of_lt_of_le (Nat.two_pow_pos _) h
  have := (Nat.le_log2 (by omega)).2 h
  unfold totalExponent
  omega

/-- A shift takes as many bits off a mantissa as it goes. -/
theorem log2_div_pow {m k : Nat} (hpos : 0 < m) (hk : k ≤ m.log2) :
    (m / 2 ^ k).log2 = m.log2 - k := by
  have hlow : 2 ^ (m.log2 - k) ≤ m / 2 ^ k := by
    rw [Nat.le_div_iff_mul_le (Nat.two_pow_pos k), ← Nat.pow_add, Nat.sub_add_cancel hk]
    exact Nat.log2_self_le (by omega)
  have hhigh : m / 2 ^ k < 2 ^ (m.log2 - k + 1) := by
    refine Nat.div_lt_of_lt_mul ?_
    rw [← Nat.pow_add, show k + (m.log2 - k + 1) = m.log2 + 1 by omega]
    exact Nat.lt_log2_self
  have hne := Nat.ne_of_gt (Nat.lt_of_lt_of_le (Nat.two_pow_pos _) hlow)
  exact (Nat.log2_eq_iff hne).2 ⟨hlow, hhigh⟩

/-! ### Rounding -/

/-- A shifted mantissa is cut off; what is lost is only remembered for rounding. -/
theorem mantissa_shiftRight (em : ExtendedMantissa) (k : Nat) :
    (em >>> k).mantissa = em.mantissa / 2 ^ k := by
  induction k with
  | zero => simp [HShiftRight.hShiftRight, Nat.repeat]
  | succ k ih =>
    change (em >>> k).mantissa / 2 = _
    rw [ih, Nat.div_div_eq_div_mul, Nat.pow_succ]

/-- How exact a mantissa is does not change it. -/
theorem mantissa_ofMantissaAndAccuracy (m : Nat) (acc : Accuracy) :
    (ExtendedMantissa.ofMantissaAndAccuracy m acc).mantissa = m := by
  unfold ExtendedMantissa.ofMantissaAndAccuracy
  split <;> rfl

/-- **Rounding adds at most one to a mantissa.** -/
theorem roundedMantissa_bounds (em : ExtendedMantissa) :
    em.mantissa ≤ em.roundedMantissa ∧ em.roundedMantissa ≤ em.mantissa + 1 := by
  unfold ExtendedMantissa.roundedMantissa Accuracy.roundToNearestEven
  split <;> omega

/-- To bring a number to the exponent that floats have at its size keeps it below. -/
theorem Scaled.shiftToTargetExponent {T e : Int} {m : Nat} (h : Scaled T m e) (hT : -1074 ≤ T)
    (acc : Accuracy) :
    Scaled T (UnpackedFloat.shiftToTargetExponent .binary64 m e acc).1.mantissa
      (UnpackedFloat.shiftToTargetExponent .binary64 m e acc).2 := by
  unfold UnpackedFloat.shiftToTargetExponent shiftToExponent
  simp only [mantissa_shiftRight, mantissa_ofMantissaAndAccuracy]
  refine h.shiftRight ?_
  have := h.totalExponent_le
  have := h.1
  rw [targetExponent_eq]
  omega

/-- What is beyond 53 bits is shifted away. -/
theorem shiftToTargetExponent_of_large {m : Nat} {e : Int} (acc : Accuracy) (hm : 52 ≤ m.log2)
    (he : -1021 ≤ totalExponent m e) :
    (shiftToTargetExponent .binary64 m e acc).1.mantissa = m / 2 ^ (m.log2 - 52) ∧
      (shiftToTargetExponent .binary64 m e acc).2 = e + (m.log2 - 52 : Nat) := by
  have hk : (Format.binary64.targetExponent (totalExponent m e) - e).toNat = m.log2 - 52 := by
    simp only [targetExponent_eq, totalExponent] at *
    omega
  unfold UnpackedFloat.shiftToTargetExponent shiftToExponent
  simp only [mantissa_shiftRight, mantissa_ofMantissaAndAccuracy, hk, and_self]

/-- Mantissa and exponent after rounding: the mantissa is shifted, rounded, and shifted again in
case it was rounded up to one bit more. -/
def rounded (m : Nat) (e : Int) (acc : Accuracy) : Nat × Int :=
  let first := shiftToTargetExponent .binary64 m e acc
  let second := shiftToTargetExponent .binary64 first.1.roundedMantissa first.2 .exact
  (second.1.mantissa, second.2)

/-- What is rounded is zero, or a real number with the rounded mantissa and exponent. -/
theorem roundWithAccuracy_cases (s : Sign) (m : Nat) (e : Int) (acc : Accuracy) :
    (rounded m e acc).1 = 0 ∧ roundWithAccuracy .binary64 s m e acc = .zero s ∨
      ∃ h, roundWithAccuracy .binary64 s m e acc =
        .finite s (rounded m e acc).1 (rounded m e acc).2 h := by
  by_cases hzero : (rounded m e acc).1 = 0
  · exact .inl ⟨hzero, dif_pos hzero⟩
  · exact .inr ⟨Nat.pos_of_ne_zero hzero, dif_neg hzero⟩

/-- **A number is rounded to at most one power of two more.** -/
theorem Scaled.rounded {T e : Int} {m : Nat} (h : Scaled T m e) (hT : -1074 ≤ T) (acc : Accuracy) :
    Scaled (T + 1) (rounded m e acc).1 (Magnitude.rounded m e acc).2 :=
  ((h.shiftToTargetExponent hT acc).succ (roundedMantissa_bounds _).2).shiftToTargetExponent
    (by omega) .exact

/-- A mantissa with 53 bits or more is rounded to one with 53. -/
theorem log2_rounded {m : Nat} {e : Int} (acc : Accuracy) (hm : 52 ≤ m.log2)
    (he : -1021 ≤ totalExponent m e) :
    (rounded m e acc).1.log2 = 52 ∧ totalExponent m e ≤ (rounded m e acc).2 + 53 := by
  have hpos : 0 < m := by
    rcases Nat.eq_zero_or_pos m with rfl | h
    · simp at hm
    · exact h
  obtain ⟨hfirst, hfirst'⟩ := shiftToTargetExponent_of_large acc hm he
  have hlog := log2_div_pow hpos (show m.log2 - 52 ≤ m.log2 by omega)
  rw [← hfirst, show m.log2 - (m.log2 - 52) = 52 by omega] at hlog
  unfold rounded
  generalize shiftToTargetExponent .binary64 m e acc = first at hfirst' hlog ⊢
  obtain ⟨em, e₁⟩ := first
  dsimp only at hfirst' hlog ⊢
  have hbounds : 2 ^ 52 ≤ em.roundedMantissa ∧ em.roundedMantissa < 2 ^ 54 := by
    have := roundedMantissa_bounds em
    have hne : em.mantissa ≠ 0 := by
      intro h0
      simp [h0] at hlog
    have := (Nat.log2_eq_iff hne).1 hlog
    omega
  have hlog₁ : 52 ≤ em.roundedMantissa.log2 := (Nat.le_log2 (by omega)).2 hbounds.1
  have htotal : totalExponent m e ≤ e₁ + 53 := by
    unfold totalExponent
    omega
  have htotal₁ : e₁ + 53 ≤ totalExponent em.roundedMantissa e₁ := by
    unfold totalExponent
    omega
  obtain ⟨hsecond, hsecond'⟩ := shiftToTargetExponent_of_large (e := e₁) .exact hlog₁ (by omega)
  have hlog₂ := log2_div_pow (m := em.roundedMantissa) (by omega)
    (show em.roundedMantissa.log2 - 52 ≤ em.roundedMantissa.log2 by omega)
  rw [← hsecond, show em.roundedMantissa.log2 - (em.roundedMantissa.log2 - 52) = 52 by omega]
    at hlog₂
  exact ⟨hlog₂, by omega⟩

/-- A real number of absolute value below `2 ^ T`. -/
def Below (T : Int) : UnpackedFloat → Prop
  | .finite _ m e _ => Scaled T m e
  | .zero _ => True
  | .infinity _ | .notANumber => False

/-- For a real number the bound is that of its mantissa. -/
theorem below_finite {T e : Int} {s : Sign} {m : Nat} {hm : 0 < m} :
    Below T (.finite s m e hm) ↔ Scaled T m e :=
  Iff.rfl

/-- A number with a bound is real, neither infinite nor undefined. -/
theorem Below.isFinite {T : Int} {u : UnpackedFloat} (h : Below T u) : u.isFinite = true := by
  cases u with
  | infinity _ | notANumber => exact h.elim
  | zero _ | finite => rfl

/-- Every real number has some bound. -/
theorem exists_below {u : UnpackedFloat} (h : u.isFinite = true) : ∃ T, 0 ≤ T ∧ Below T u := by
  cases u with
  | infinity _ | notANumber => cases h
  | zero _ => exact ⟨0, by decide, trivial⟩
  | finite s m e hm =>
    refine ⟨max 0 (e + (m.log2 + 1 : Nat)), by omega, by omega, ?_⟩
    exact Nat.lt_of_lt_of_le Nat.lt_log2_self (Nat.pow_le_pow_right (by decide) (by omega))

/-- **A rounded number stays below one power of two more.** -/
theorem below_roundWithAccuracy {T e : Int} {m : Nat} (h : Scaled T m e) (hT : -1074 ≤ T)
    (s : Sign) (acc : Accuracy) : Below (T + 1) (roundWithAccuracy .binary64 s m e acc) := by
  rcases roundWithAccuracy_cases s m e acc with ⟨-, heq⟩ | ⟨_, heq⟩
  · rw [heq]
    trivial
  · rw [heq]
    exact h.rounded hT acc

/-- A number of 53 bits and of absolute value at least `2 ^ B`. -/
def Normal (B : Int) : UnpackedFloat → Prop
  | .finite _ m e _ => m.log2 = 52 ∧ B ≤ e + 52
  | .zero _ | .infinity _ | .notANumber => False

/-- **A number with all its bits keeps them when it is rounded**, so it stays as large as it was. -/
theorem normal_roundWithAccuracy {B e : Int} {m : Nat} (s : Sign) (acc : Accuracy)
    (hm : 52 ≤ m.log2) (hlow : -1022 ≤ B) (hB : B < totalExponent m e) :
    Normal B (roundWithAccuracy .binary64 s m e acc) := by
  obtain ⟨hlog, htotal⟩ := log2_rounded (e := e) acc hm (by omega)
  rcases roundWithAccuracy_cases s m e acc with ⟨hzero, -⟩ | ⟨_, heq⟩
  · rw [hzero] at hlog
    simp at hlog
  · rw [heq]
    exact ⟨hlog, by omega⟩

/-! ### Operations -/

/-- A number of absolute value at least `2 ^ B`. -/
def AtLeast (B : Int) : UnpackedFloat → Prop
  | .finite _ m e _ => 2 ^ (B - e).toNat ≤ m
  | .zero _ | .infinity _ | .notANumber => False

instance (B : Int) (u : UnpackedFloat) : Decidable (AtLeast B u) :=
  match u with
  | .finite _ m e _ => inferInstanceAs (Decidable (2 ^ (B - e).toNat ≤ m))
  | .zero _ | .infinity _ | .notANumber => inferInstanceAs (Decidable False)

/-- For a real number the lower bound is that of its mantissa. -/
theorem atLeast_finite {B e : Int} {s : Sign} {m : Nat} {hm : 0 < m} :
    AtLeast B (.finite s m e hm) ↔ 2 ^ (B - e).toNat ≤ m :=
  Iff.rfl

/-- A number with a lower bound is real. -/
theorem AtLeast.isFinite {B : Int} {u : UnpackedFloat} (h : AtLeast B u) : u.isFinite = true := by
  cases u with
  | infinity _ | notANumber | zero _ => exact h.elim
  | finite => rfl

/-- A natural number becomes a float of its size. -/
theorem below_ofNat {T : Int} {n : Nat} (h : Scaled T n 0) :
    Below (T + 1) (UnpackedFloat.ofNat .binary64 n) := by
  have hT := h.1
  unfold UnpackedFloat.ofNat UnpackedFloat.ofInt UnpackedFloat.normalize
  split
  · rename_i hlt
    have := Int.compare_eq_lt.1 hlt
    omega
  · trivial
  · unfold UnpackedFloat.round
    exact below_roundWithAccuracy (h.shiftLeft _) (by omega) _ _

/-- **A product lies below the product of the bounds**, up to one power of two. -/
theorem Below.mul {S T : Int} {u v : UnpackedFloat} (hu : Below S u) (hv : Below T v)
    (hlow : -1074 ≤ S + T) : Below (S + T + 1) (UnpackedFloat.mul .binary64 u v) := by
  cases u with
  | infinity _ | notANumber => exact hu.elim
  | zero _ =>
    cases v with
    | infinity _ | notANumber => exact hv.elim
    | zero _ | finite => trivial
  | finite s₁ m₁ e₁ _ =>
    cases v with
    | infinity _ | notANumber => exact hv.elim
    | zero _ => trivial
    | finite s₂ m₂ e₂ _ => exact below_roundWithAccuracy (Scaled.mul hu hv) hlow _ _

/-- **A quotient lies below the quotient of the bounds**, up to one power of two. -/
theorem Below.div {T B : Int} {u v : UnpackedFloat} (hu : Below T u) (hv : AtLeast B v)
    (hT : -1074 ≤ T - B) : Below (T - B + 1) (UnpackedFloat.div .binary64 u v) := by
  cases v with
  | infinity _ | notANumber | zero _ => exact hv.elim
  | finite s₂ m₂ e₂ _ =>
    cases u with
    | infinity _ | notANumber => exact hu.elim
    | zero _ => trivial
    | finite s₁ m₁ e₁ _ =>
      refine below_roundWithAccuracy ?_ hT _ _
      have hm₁ := hu.2
      have hm₂ : 2 ^ (B - e₂).toNat ≤ m₂ := hv
      have htop := Scaled.totalExponent_le hu
      have hbottom := lt_totalExponent hm₂
      -- the exponent of the quotient, low enough for all bits of the mantissa
      obtain ⟨t, ht⟩ : ∃ t, min (e₁ - e₂) (Format.binary64.targetExponent
        (totalExponent m₁ e₁ - totalExponent m₂ e₂)) = t := ⟨_, rfl⟩
      simp only [ht]
      have hte : t ≤ T - B := by
        rw [targetExponent_eq] at ht
        omega
      refine ⟨hte, Nat.div_lt_of_lt_mul ?_⟩
      have hpow : (T - e₁).toNat + (e₁ - e₂ - t).toNat ≤ (B - e₂).toNat + (T - B - t).toNat := by
        have := hu.1
        omega
      calc m₁ <<< (e₁ - e₂ - t).toNat
          < 2 ^ (T - e₁).toNat * 2 ^ (e₁ - e₂ - t).toNat := by
            rw [Nat.shiftLeft_eq]
            exact Nat.mul_lt_mul_of_pos_right hm₁ (Nat.two_pow_pos _)
        _ ≤ 2 ^ (B - e₂).toNat * 2 ^ (T - B - t).toNat := by
            rw [← Nat.pow_add, ← Nat.pow_add]
            exact Nat.pow_le_pow_right (by decide) hpow
        _ ≤ m₂ * 2 ^ (T - B - t).toNat := Nat.mul_le_mul_right _ hm₂

/-! ### Packing -/

/-- The float with the given biased exponent and last bits of the mantissa. -/
def packed (s : Sign) (b m : Nat) : BitVec 64 :=
  packComponents .binary64 s (BitVec.ofNat 11 b) (BitVec.ofNat 52 m)

/-- A biased exponent below the greatest fits its eleven bits. -/
theorem toNat_exponent {b : Nat} (hb : b < 2047) : (BitVec.ofNat 11 b).toNat = b := by
  rw [BitVec.toNat_ofNat]
  omega

/-- The leading bit of a mantissa is not stored and is put in front again. -/
theorem toNat_append (m : BitVec 52) : (1#1 ++ m).toNat = 2 ^ 52 + m.toNat := by
  rw [BitVec.toNat_append, ← Nat.shiftLeft_add_eq_or_of_lt m.isLt]
  rfl

/-- The exponent that was packed is the one that is unpacked. -/
theorem toNat_unpackExponent_packed (s : Sign) {b : Nat} (m : Nat) (hb : b < 2047) :
    (@unpackExponent .binary64 (packed s b m)).toNat = b := by
  rw [packed, unpackExponent_packComponents, toNat_exponent hb]

/-- Packed floats are told apart by their exponents. -/
theorem unpackExponent_packed_ne (s : Sign) {b c : Nat} (m : Nat) (hb : b < 2047) (hc : c < 2048)
    (h : b ≠ c) : @unpackExponent .binary64 (packed s b m) ≠ BitVec.ofNat 11 c := by
  intro heq
  have hbits : b = (BitVec.ofNat 11 c).toNat :=
    (toNat_unpackExponent_packed s m hb).symm.trans (congrArg BitVec.toNat heq)
  rw [BitVec.toNat_ofNat] at hbits
  omega

/-- **A packed float lies below the power of two of its exponent.** -/
theorem below_unpack_packed {T : Int} {b : Nat} (s : Sign) (m : Nat) (hb : b < 2047)
    (hlow : -1022 ≤ T) (hT : b - 1022 ≤ T) : Below T (unpack .binary64 (packed s b m)) := by
  have hbound := (@unpackMantissa .binary64 (packed s b m)).isLt
  have hexponent := toNat_unpackExponent_packed s m hb
  have hmax : @unpackExponent .binary64 (packed s b m) ≠ -1#11 :=
    unpackExponent_packed_ne s m hb (by decide) (Nat.ne_of_lt hb)
  unfold UnpackedFloat.unpack
  dsimp only
  rw [if_neg hmax]
  by_cases hzero : @unpackExponent .binary64 (packed s b m) = 0#11
  · rw [if_pos hzero]
    have hb0 : b = 0 := by
      rw [← hexponent, hzero]
      rfl
    by_cases hmantissa : @unpackMantissa .binary64 (packed s b m) = 0#52
    · rw [dif_pos hmantissa]
      trivial
    · rw [dif_neg hmantissa, below_finite, hexponent, exponentBias_eq]
      refine ⟨by omega, Nat.lt_of_lt_of_le hbound (Nat.pow_le_pow_right (by decide) ?_)⟩
      change 52 ≤ _
      omega
  · rw [if_neg hzero, below_finite, toNat_append, hexponent, exponentBias_eq]
    refine ⟨by omega, Nat.lt_of_lt_of_le (Nat.add_lt_add_left hbound _) ?_⟩
    rw [← Nat.two_mul, ← Nat.pow_succ']
    exact Nat.pow_le_pow_right (by decide) (by omega)

/-- **A packed float is not less than the power of two of its exponent**, unless that is the
lowest. -/
theorem atLeast_unpack_packed {B : Int} {b : Nat} (s : Sign) (m : Nat) (hpos : 0 < b)
    (hb : b < 2047) (hB : B ≤ b - 1023) : AtLeast B (unpack .binary64 (packed s b m)) := by
  have hmax : @unpackExponent .binary64 (packed s b m) ≠ -1#11 :=
    unpackExponent_packed_ne s m hb (by decide) (Nat.ne_of_lt hb)
  have hmin : @unpackExponent .binary64 (packed s b m) ≠ 0#11 :=
    unpackExponent_packed_ne s m hb (by decide) (Nat.ne_of_gt hpos)
  unfold UnpackedFloat.unpack
  dsimp only
  rw [if_neg hmax, if_neg hmin, atLeast_finite, toNat_append, toNat_unpackExponent_packed s m hb,
    exponentBias_eq]
  exact Nat.le_add_right_of_le (Nat.pow_le_pow_right (by decide) (by omega))

/-- A real number whose exponent is not too great is packed bit by bit. -/
theorem pack_finite {s : Sign} {m : Nat} {e : Int} {hm : 0 < m} (he : e ≤ 971) :
    pack .binary64 (.finite s m e hm) =
      packed s (if m.log2 = 52 then (e + 1075).toNat else 0) m := by
  have hb : (e + Format.binary64.exponentBias + Format.binary64.mantissaBitsWithoutImplicit).toNat
      = (e + 1075).toNat := by
    simp only [exponentBias_eq]
    omega
  have hmax : ¬2 ^ 11 ≤ (e + 1075).toNat + 1 := by omega
  have hbits : m.log2 + 1 = Format.binary64.mantissaBits ↔ m.log2 = 52 := by
    rw [mantissaBits_eq]
    omega
  unfold UnpackedFloat.pack
  simp only [hb, hmax, hbits, if_false]
  split <;> rfl

/-- **A bound is kept when a number is packed and unpacked**, if it is low enough to fit. -/
theorem Below.unpack_pack {T : Int} {u : UnpackedFloat} (h : Below T u) (hlow : -1022 ≤ T)
    (hhigh : T ≤ 972) : Below T (unpack .binary64 (pack .binary64 u)) := by
  cases u with
  | infinity _ | notANumber => exact h.elim
  | zero s => exact below_unpack_packed s 0 (by decide) hlow hlow
  | finite s m e hm =>
    have := (Nat.log2_lt (by omega)).2 h.2
    rw [pack_finite (by omega)]
    exact below_unpack_packed s m (by split <;> omega) hlow (by split <;> omega)

/-- A lower bound is kept when a number with all its bits is packed and unpacked. -/
theorem Normal.unpack_pack {B T : Int} {u : UnpackedFloat} (h : Normal B u) (hu : Below T u)
    (hlow : -1022 ≤ B) (hhigh : T ≤ 1024) : AtLeast B (unpack .binary64 (pack .binary64 u)) := by
  cases u with
  | infinity _ | notANumber | zero _ => exact h.elim
  | finite s m e hm =>
    obtain ⟨hlog, hB⟩ := h
    have := (Nat.log2_lt (by omega)).2 hu.2
    rw [pack_finite (by omega), if_pos hlog]
    exact atLeast_unpack_packed s m (by omega) (by omega) (by omega)

/-- Zero is packed as a real number. -/
theorem isFinite_unpack_pack_zero (s : Sign) :
    (unpack .binary64 (pack .binary64 (.zero s))).isFinite = true :=
  (below_unpack_packed (T := 0) s 0 (by decide) (by decide) (by decide)).isFinite

/-- A real number whose exponent is not too great is packed as one. -/
theorem isFinite_unpack_pack {s : Sign} {m : Nat} {e : Int} {hm : 0 < m} (he : e ≤ 971) :
    (unpack .binary64 (pack .binary64 (.finite s m e hm))).isFinite = true := by
  rw [pack_finite he]
  exact (below_unpack_packed (T := 1024) s m (by split <;> omega) (by decide)
    (by split <;> omega)).isFinite

/-- A real number is packed into a real number or infinity. -/
theorem isFinite_unpack_pack_of_not_isInf {u : UnpackedFloat} (hu : u.isFinite = true)
    (h : (unpack .binary64 (pack .binary64 u)).isInf = false) :
    (unpack .binary64 (pack .binary64 u)).isFinite = true := by
  cases u with
  | infinity _ | notANumber => cases hu
  | zero s => exact isFinite_unpack_pack_zero s
  | finite s m e hm =>
    by_cases he : e ≤ 971
    · exact isFinite_unpack_pack he
    · have hmax : 2 ^ 11 ≤ (e + Format.binary64.exponentBias +
          Format.binary64.mantissaBitsWithoutImplicit).toNat + 1 := by
        simp only [exponentBias_eq]
        omega
      have hpack : pack .binary64 (.finite s m e hm) = packedInfinity .binary64 s := by
        unfold UnpackedFloat.pack
        simp only [hmax, if_true]
      have hinf : (unpack .binary64 (packedInfinity .binary64 s)).isInf = true := by
        cases s <;> decide
      rw [hpack, hinf] at h
      cases h

/-- Only the greatest exponent has all its bits set. -/
theorem toNat_le_of_ne {v : BitVec 11} (h : v ≠ -1#11) : v.toNat ≤ 2046 := by
  have hmax : v.toNat ≠ 2047 := fun hmax => h (BitVec.eq_of_toNat_eq hmax)
  omega

/-- What is unpacked as a real number has no greater exponent than floats have. -/
theorem exponent_le_of_unpack {b : BitVec 64} {s : Sign} {m : Nat} {e : Int} {hm : 0 < m}
    (h : unpack .binary64 b = .finite s m e hm) : e ≤ 971 := by
  unfold UnpackedFloat.unpack at h
  dsimp only at h
  by_cases hmax : @unpackExponent .binary64 b = -1#11
  · rw [if_pos hmax] at h
    by_cases hmantissa : @unpackMantissa .binary64 b = 0#52
    · rw [if_pos hmantissa] at h
      cases h
    · rw [if_neg hmantissa] at h
      cases h
  · rw [if_neg hmax] at h
    have hle := toNat_le_of_ne hmax
    by_cases hzero : @unpackExponent .binary64 b = 0#11
    · rw [if_pos hzero] at h
      by_cases hmantissa : @unpackMantissa .binary64 b = 0#52
      · rw [dif_pos hmantissa] at h
        cases h
      · rw [dif_neg hmantissa] at h
        cases h
        rw [hzero]
        decide
    · rw [if_neg hzero] at h
      cases h
      rw [exponentBias_eq]
      omega

/-! ### Floats -/

variable {x y : Float}

/-- The negative of a real number is real. -/
theorem isFinite_neg (h : x.isFinite = true) : (-x).isFinite = true := by
  change (unpack .binary64 (pack .binary64 (UnpackedFloat.neg x.toModel.unpack))).isFinite = true
  change x.toModel.unpack.isFinite = true at h
  cases hx : x.toModel.unpack with
  | infinity _ | notANumber =>
    rw [hx] at h
    cases h
  | zero s => exact isFinite_unpack_pack_zero (-s)
  | finite s m e hm => exact isFinite_unpack_pack (exponent_le_of_unpack hx)

/-- A product of real numbers is real unless it is infinite. -/
theorem isFinite_mul_of_not_isInf (hx : x.isFinite = true) (hy : y.isFinite = true)
    (h : (x * y).isInf = false) : (x * y).isFinite = true := by
  obtain ⟨S, hS, hx⟩ := exists_below hx
  obtain ⟨T, hT, hy⟩ := exists_below hy
  exact isFinite_unpack_pack_of_not_isInf (hx.mul hy (by omega)).isFinite h

/-- **A quotient of floats lies below the quotient of their bounds**, up to one power of two. -/
theorem below_div {T B : Int} (hx : Below T x.toModel.unpack) (hy : AtLeast B y.toModel.unpack)
    (hlow : -1023 ≤ T - B) (hhigh : T - B ≤ 971) : Below (T - B + 1) (x / y).toModel.unpack :=
  (hx.div hy (by omega)).unpack_pack (by omega) (by omega)

/-- A word is far below the greatest float. -/
theorem below_floatOfNat {n : Nat} (hn : n < 2 ^ 64) :
    Below 67 (Float.ofNat n).toModel.unpack := by
  have hword : Scaled 64 n 0 := ⟨by decide, hn⟩
  change Below 67 (Float.ofScientific n false 0).toModel.unpack
  unfold Float.ofScientific
  split
  · have hone : Below 1 (Float.ofBits 0x3FF0000000000000).toModel.unpack :=
      ⟨by decide, by decide⟩
    have hn' : Below 65 (n.toUInt64.toFloat).toModel.unpack := by
      have : Below 65 (UnpackedFloat.ofNat .binary64 n.toUInt64.toNat) := by
        rw [Nat.toUInt64_eq, UInt64.toNat_ofNat_of_lt' hn]
        exact below_ofNat hword
      exact this.unpack_pack (by decide) (by decide)
    exact (hn'.mul hone (by decide)).unpack_pack (by decide) (by decide)
  · have : Below 67 (UnpackedFloat.ofScientific .binary64 n 0) := by
      have hone : Scaled 2 (10 ^ (0 : Int).toNat) 0 := ⟨by decide, by decide⟩
      have hshift : Scaled 64 (n <<< Format.binary64.mantissaBits)
          (-(Format.binary64.mantissaBits : Int)) := by
        simpa using hword.shiftLeft Format.binary64.mantissaBits
      unfold UnpackedFloat.ofScientific
      by_cases hzero : n = 0
      · rw [dif_pos hzero]
        trivial
      · rw [dif_neg hzero, if_neg (by decide),
          if_neg (show ¬((0 : Int) < -(2 ^ 11 + (n.log2 : Nat))) by omega), if_pos (by decide)]
        refine Below.mul (S := 64) (T := 2) ?_ ?_ ?_
        · exact hshift
        · exact hone
        · decide
    exact this.unpack_pack (by decide) (by decide)

/-! ### Powers of ten -/

/-- Powers of ten up to the greatest one used lie below 2 ^ 1020. -/
theorem scaled_ten_pow {k : Nat} (hk : k ≤ 307) : Scaled 1020 (10 ^ k) 0 :=
  ⟨by decide, Nat.lt_of_le_of_lt (Nat.pow_le_pow_right (by decide) hk) (by decide +kernel)⟩

/-- Powers of ten are at least 2, so a division by one makes nothing larger. -/
theorem atLeast_ofScientific {k : Nat} (hpos : 0 < k) (hk : k ≤ 307) :
    AtLeast 1 (Float.Model.ofScientific 1 k).unpack := by
  have hten : 10 ^ 1 ≤ 10 ^ k := Nat.pow_le_pow_right (by decide) hpos
  have hlog : 54 ≤ (1 <<< 53 * 10 ^ k).log2 := (Nat.le_log2 (by omega)).2 (by omega)
  have hscaled : Scaled (1 + 1020) (1 <<< 53 * 10 ^ k) (-53 + 0) :=
    .mul ⟨by decide, by decide⟩ (scaled_ten_pow hk)
  unfold Float.Model.ofScientific UnpackedFloat.ofScientific
  rw [dif_neg (by decide), if_neg (show ¬((k : Int) > 2 ^ 11) by omega),
    if_neg (show ¬((k : Int) < -(2 ^ 11 + (Nat.log2 1 : Nat))) by omega),
    if_pos (Int.natCast_nonneg k)]
  refine Normal.unpack_pack (T := 1 + 1020 + 1) ?_ (below_roundWithAccuracy hscaled ?_ _ _) ?_ ?_
  · refine normal_roundWithAccuracy _ _ (Nat.le_trans (by decide) hlog) (by decide) ?_
    change 1 < ((1 <<< 53 * 10 ^ k).log2 : Int) + 1 + (-53 + 0)
    omega
  · decide
  · decide
  · decide

/-- Small powers come from a table, larger ones are rounded, and `10 ^ 308` is so close to the
greatest float that it is looked at by itself. -/
theorem atLeast_powerOfTen {k : Nat} (hpos : 0 < k) (hk : k ≤ 308) :
    AtLeast 1 (Number.powerOfTen k).toModel.unpack := by
  rcases Nat.lt_or_ge k 23 with hsmall | hlarge
  · have htable : ∀ k < 23, 0 < k → AtLeast 1 (Number.powerOfTen k).toModel.unpack := by
      decide +kernel
    exact htable k hsmall hpos
  · rcases Nat.lt_or_ge k 308 with hlt | hge
    · have hdef : (Number.powerOfTen k).toModel = Float.Model.ofScientific 1 k := by
        unfold Number.powerOfTen Float.ofScientific
        rw [dif_neg (by omega)]
        rfl
      rw [hdef]
      exact atLeast_ofScientific hpos (by omega)
    · obtain rfl : k = 308 := by omega
      decide +kernel

end Magnitude
end MappingCanvas
