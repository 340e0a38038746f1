/-
  DenseSimplex.Proofs.Rounding
  ────────────────────────────
  **ONE-SIDED BOUNDS FOR ROUNDED OPERATIONS.**

  Two operations on doubles decide what becomes of a right-hand side, and
  of each only one direction is needed:

    * a quotient is too large by at most half a last place: at most the
      2⁻⁵³-th part of the exact quotient, or 2⁻¹⁰⁷⁵ next to zero
      (`exists_datum_div`), also where it overflows (`value_le_of_le_div`);
    * a multiply-add that rounds once does not fall below a double that the
      exact value does not fall below (`le_fma`): rounding is monotone
      (`round_le_place`).

  The quotient is followed through its definition: a truncated significand
  with a round and a sticky bit never exceeds what it stands for
  (`Within`), and shifting keeps that.
-/
import DenseSimplex.Proofs.MachineNumbers

namespace DenseSimplex.Double

open Float.Model (UnpackedFloat)
open Float.Model.UnpackedFloat (ExtendedMantissa Accuracy)

theorem two_zpow_pos (e : Int) : (0 : Rat) < 2 ^ e := zpow_pos two_pos e

/-! ## §1. Truncated significands. -/

/-- A truncated significand does not exceed a number, nor does it with the
half of its last place that a set round bit stands for. -/
def Within (em : ExtendedMantissa) (q : Rat) : Prop :=
  (em.mantissa : Rat) ≤ q ∧ (em.roundBit = true → (em.mantissa : Rat) + 1 / 2 ≤ q)

theorem roundedMantissa_bounds (em : ExtendedMantissa) :
    em.mantissa ≤ em.roundedMantissa ∧ em.roundedMantissa ≤ em.mantissa + 1 := by
  obtain ⟨m, roundBit, stickyBit⟩ := em
  cases roundBit <;> cases stickyBit
  · exact ⟨le_refl m, Nat.le_succ m⟩
  · exact ⟨le_refl m, Nat.le_succ m⟩
  · show m ≤ m + m % 2 ∧ m + m % 2 ≤ m + 1
    omega
  · exact ⟨Nat.le_succ m, le_refl (m + 1)⟩

theorem mantissa_shiftRight (em : ExtendedMantissa) (k : Nat) :
    (em >>> k).mantissa = em.mantissa / 2 ^ k := by
  induction k with
  | zero => exact (Nat.div_one _).symm
  | succ k ih =>
      show (em >>> k).mantissa / 2 = _
      rw [ih, Nat.div_div_eq_div_mul, pow_succ]

theorem mantissa_ofMantissaAndAccuracy (m : Nat) (acc : Accuracy) :
    (ExtendedMantissa.ofMantissaAndAccuracy m acc).mantissa = m := by
  cases acc with
  | exact => rfl
  | inexact order => cases order <;> rfl

namespace Within

variable {em : ExtendedMantissa} {q : Rat}

theorem shiftRightOne (h : Within em q) : Within em.shiftRightOne (q / 2) := by
  have hcast : (em.mantissa : Rat) = 2 * (em.mantissa / 2 : Nat) + (em.mantissa % 2 : Nat) := by
    exact_mod_cast (Nat.div_add_mod em.mantissa 2).symm
  have hq := h.1
  rw [hcast] at hq
  constructor
  · show ((em.mantissa / 2 : Nat) : Rat) ≤ q / 2
    have hmod : (0 : Rat) ≤ (em.mantissa % 2 : Nat) := Nat.cast_nonneg _
    linarith
  · intro hbit
    have hodd : em.mantissa % 2 = 1 := by
      have hne : em.mantissa % 2 ≠ 0 := by simpa [ExtendedMantissa.shiftRightOne] using hbit
      omega
    rw [hodd, Nat.cast_one] at hq
    show ((em.mantissa / 2 : Nat) : Rat) + 1 / 2 ≤ q / 2
    linarith

theorem shiftRight (h : Within em q) (k : Nat) : Within (em >>> k) (q / 2 ^ k) := by
  induction k with
  | zero =>
      rw [pow_zero, div_one]
      exact h
  | succ k ih =>
      have hone := ih.shiftRightOne
      rw [div_div, ← pow_succ] at hone
      exact hone

/-- Rounding adds at most one half. -/
theorem roundedMantissa_le (h : Within em q) : (em.roundedMantissa : Rat) ≤ q + 1 / 2 := by
  obtain ⟨hle, hbit⟩ := h
  cases hround : em.roundBit with
  | false =>
      have hdown : em.roundedMantissa = em.mantissa := by
        obtain ⟨m, roundBit, stickyBit⟩ := em
        obtain rfl : roundBit = false := hround
        cases stickyBit <;> rfl
      rw [hdown]
      linarith
  | true =>
      have hup : (em.roundedMantissa : Rat) ≤ em.mantissa + 1 := by
        exact_mod_cast (roundedMantissa_bounds em).2
      have hhalf := hbit hround
      linarith

end Within

/-- The quotient of two naturals and what its remainder tells. -/
theorem within_fraction (n : Nat) {d : Nat} (hd : 0 < d) :
    Within (ExtendedMantissa.ofMantissaAndAccuracy (n / d)
      (UnpackedFloat.accuracyOfFraction (n % d) d)) ((n : Rat) / d) := by
  have hd' : (0 : Rat) < d := by exact_mod_cast hd
  have hcast : (n : Rat) = d * (n / d : Nat) + (n % d : Nat) := by
    exact_mod_cast (Nat.div_add_mod n d).symm
  have hle : ((n / d : Nat) : Rat) ≤ n / d := Nat.cast_div_le
  have hhalf (h : d ≤ 2 * (n % d)) : ((n / d : Nat) : Rat) + 1 / 2 ≤ n / d := by
    have h' : (d : Rat) ≤ 2 * (n % d : Nat) := by exact_mod_cast h
    rw [le_div_iff₀ hd']
    linarith
  unfold UnpackedFloat.accuracyOfFraction
  split
  next => exact ⟨hle, fun h => by cases h⟩
  next =>
    cases hcompare : compare (2 * (n % d)) d with
    | lt => exact ⟨hle, fun h => by cases h⟩
    | eq => exact ⟨hle, fun _ => hhalf (compare_eq_iff_eq.1 hcompare).ge⟩
    | gt => exact ⟨hle, fun _ => hhalf (compare_gt_iff_gt.1 hcompare).le⟩

/-! ## §2. One rounding. -/

theorem targetExponent_eq (m : Nat) (e : Int) :
    Float.Model.Format.binary64.targetExponent (Float.Model.totalExponent m e)
      = max (m.log2 + e - 52) (-1074) := by
  show max ((m.log2 : Int) + 1 + e - (53 : Nat)) (-1074) = _
  omega

/-- The shift before a rounding leaves a normalized significand, if enough
digits were there. -/
theorem shiftToTargetExponent_eq {m : Nat} {e : Int} (acc : Accuracy)
    (h : 2 ^ 52 ≤ m ∨ e ≤ -1074) :
    ∃ k : Nat, UnpackedFloat.shiftToTargetExponent Float.Model.Format.binary64 m e acc
        = (ExtendedMantissa.ofMantissaAndAccuracy m acc >>> k, e + k)
      ∧ Normalized (m / 2 ^ k) (e + k) := by
  refine ⟨(max (m.log2 + e - 52) (-1074) - e).toNat, ?_, ?_⟩
  · unfold UnpackedFloat.shiftToTargetExponent
    rw [targetExponent_eq]
    rfl
  · generalize hk : (max ((m.log2 : Int) + e - 52) (-1074) - e).toNat = k
    have hlog : 2 ^ 52 ≤ m ↔ 52 ≤ m.log2 := by
      by_cases hm : m = 0
      · rw [hm]
        decide
      · exact (Nat.le_log2 hm).symm
    refine ⟨?_, by omega, ?_⟩
    · rw [Nat.div_lt_iff_lt_mul (Nat.two_pow_pos k), ← pow_add]
      exact lt_of_lt_of_le Nat.lt_log2_self (Nat.pow_le_pow_right (by decide) (by omega))
    · by_cases hleast : e + k = -1074
      · exact .inl hleast
      · right
        have hm : 2 ^ 52 ≤ m := by omega
        have hlength : 52 + k = m.log2 := by
          have := hlog.1 hm
          omega
        rw [Nat.le_div_iff_mul_le (Nat.two_pow_pos k), ← pow_add, hlength]
        exact Nat.log2_self_le (by omega)

theorem shiftToTargetExponent_small {m : Nat} {e : Int} (h : m < 2 ^ 53) (he : -1074 ≤ e) :
    UnpackedFloat.shiftToTargetExponent Float.Model.Format.binary64 m e .exact
      = (ExtendedMantissa.mk m false false, e) := by
  have hlog : m.log2 ≤ 52 := by
    by_cases hm : m = 0
    · rw [hm]
      decide
    · have := (Nat.log2_lt hm).2 h
      omega
  unfold UnpackedFloat.shiftToTargetExponent UnpackedFloat.shiftToExponent
  dsimp only
  rw [targetExponent_eq, show (max ((m.log2 : Int) + e - 52) (-1074) - e).toNat = 0 by omega]
  exact congrArg₂ Prod.mk rfl (Int.add_zero e)

theorem shiftToTargetExponent_carry {e : Int} (he : -1074 ≤ e) :
    UnpackedFloat.shiftToTargetExponent Float.Model.Format.binary64 (2 ^ 53) e .exact
      = (ExtendedMantissa.mk (2 ^ 52) false false, e + 1) := by
  unfold UnpackedFloat.shiftToTargetExponent UnpackedFloat.shiftToExponent
  dsimp only
  rw [targetExponent_eq, Nat.log2_two_pow,
    show (max (((53 : Nat) : Int) + e - 52) (-1074) - e).toNat = 1 by omega]
  rfl

theorem div_two_pow_mul (q : Rat) (t : Int) (k : Nat) :
    q / 2 ^ k * 2 ^ (t + k) = q * 2 ^ t := by
  rw [zpow_add₀ two_ne_zero, zpow_natCast]
  field_simp

/-- What half a last place can be. -/
def roundingSlack (q : Rat) : Rat := max (q * 2 ^ (-53 : Int)) (2 ^ (-1075 : Int))

/-- Half a last place of a normalized number. -/
theorem Normalized.half_place_le {m : Nat} {e : Int} (h : Normalized m e) {q : Rat}
    (hq : dyadic m e ≤ q) : 2 ^ (e - 1) ≤ roundingSlack q := by
  rcases h.full with rfl | hfull
  · exact le_max_right _ _
  · refine le_max_of_le_left ?_
    have hm : ((2 ^ 52 : Nat) : Rat) ≤ m := by exact_mod_cast hfull
    calc (2 : Rat) ^ (e - 1) = (2 ^ 52 : Nat) * 2 ^ e * 2 ^ (-53 : Int) := by
          rw [Nat.cast_pow, ← zpow_natCast, Nat.cast_ofNat, ← zpow_add₀ two_ne_zero,
            ← zpow_add₀ two_ne_zero]
          congr 1
          omega
      _ ≤ dyadic m e * 2 ^ (-53 : Int) := by
          unfold dyadic
          gcongr
      _ ≤ q * 2 ^ (-53 : Int) := by gcongr

/-- **A rounded number is normalized, and too large by at most half a last
place.** -/
theorem ofUnpacked_roundWithAccuracy (s : UnpackedFloat.Sign) {m : Nat} {t : Int}
    {acc : Accuracy} {q : Rat} (hq : Within (ExtendedMantissa.ofMantissaAndAccuracy m acc) q)
    (h : 2 ^ 52 ≤ m ∨ t ≤ -1074) :
    ∃ m' e', Normalized m' e'
      ∧ Datum.ofUnpacked (UnpackedFloat.roundWithAccuracy Float.Model.Format.binary64 s m t acc)
        = .finite (s == .negative) m' e'
      ∧ dyadic m' e' ≤ q * 2 ^ t + roundingSlack (q * 2 ^ t) := by
  obtain ⟨k, hshift, hnormal⟩ := shiftToTargetExponent_eq acc h
  have hmantissa := mantissa_shiftRight (ExtendedMantissa.ofMantissaAndAccuracy m acc) k
  rw [mantissa_ofMantissaAndAccuracy] at hmantissa
  have hwithin := hq.shiftRight k
  unfold UnpackedFloat.roundWithAccuracy
  rw [hshift]
  dsimp only
  generalize ExtendedMantissa.ofMantissaAndAccuracy m acc >>> k = em at hmantissa hwithin ⊢
  rw [← hmantissa] at hnormal
  have hround : dyadic em.roundedMantissa (t + k) ≤ q * 2 ^ t + roundingSlack (q * 2 ^ t) := by
    have hhalf : 2 ^ (t + k - 1) ≤ roundingSlack (q * 2 ^ t) := by
      apply hnormal.half_place_le
      rw [← div_two_pow_mul q t k]
      unfold dyadic
      gcongr
      exact hwithin.1
    have hsum := mul_le_mul_of_nonneg_right hwithin.roundedMantissa_le (two_zpow_pos (t + k)).le
    rw [add_mul, div_two_pow_mul, one_div, mul_comm (2 : Rat)⁻¹, ← zpow_sub_one₀ two_ne_zero]
      at hsum
    exact hsum.trans (add_le_add_right hhalf _)
  have hbounds := roundedMantissa_bounds em
  obtain ⟨hlt, hleast, hfull⟩ := hnormal
  generalize em.roundedMantissa = rounded at hbounds hround ⊢
  generalize t + (k : Int) = e at *
  -- the second shift only takes care of a carry
  by_cases hcarry : rounded < 2 ^ 53
  · rw [shiftToTargetExponent_small hcarry hleast]
    dsimp only
    refine ⟨rounded, e, ⟨hcarry, hleast, by omega⟩, ?_, hround⟩
    split
    next h0 =>
      have he : e = -1074 := by omega
      rw [h0, he]
      rfl
    next => rfl
  · obtain rfl : rounded = 2 ^ 53 := by omega
    rw [shiftToTargetExponent_carry hleast]
    refine ⟨2 ^ 52, e + 1, ⟨by decide, by omega, .inr (le_refl _)⟩, rfl, ?_⟩
    refine le_trans (le_of_eq ?_) hround
    unfold dyadic
    rw [zpow_add_one₀ two_ne_zero]
    push_cast
    ring

/-! ## §3. Quotients. -/

theorem ofUnpacked_div (s₁ s₂ : UnpackedFloat.Sign) {m₁ m₂ : Nat} (e₁ e₂ : Int) (h₁ : 0 < m₁)
    (h₂ : 0 < m₂) :
    ∃ m e, Normalized m e
      ∧ Datum.ofUnpacked (UnpackedFloat.div Float.Model.Format.binary64 (.finite s₁ m₁ e₁ h₁)
          (.finite s₂ m₂ e₂ h₂)) = .finite (s₁ / s₂ == .negative) m e
      ∧ dyadic m e ≤ dyadic m₁ e₁ / dyadic m₂ e₂
          + roundingSlack (dyadic m₁ e₁ / dyadic m₂ e₂) := by
  obtain ⟨t, ht, htle⟩ : ∃ t, t = min (e₁ - e₂) (Float.Model.Format.binary64.targetExponent
      (Float.Model.totalExponent m₁ e₁ - Float.Model.totalExponent m₂ e₂)) ∧ t ≤ e₁ - e₂ :=
    ⟨_, rfl, min_le_left _ _⟩
  obtain ⟨k, hk⟩ := Int.eq_ofNat_of_zero_le (Int.sub_nonneg.2 htle)
  have hdiv : UnpackedFloat.div Float.Model.Format.binary64 (.finite s₁ m₁ e₁ h₁)
      (.finite s₂ m₂ e₂ h₂)
      = UnpackedFloat.roundWithAccuracy Float.Model.Format.binary64 (s₁ / s₂) (m₁ <<< k / m₂) t
          (UnpackedFloat.accuracyOfFraction (m₁ <<< k % m₂) m₂) := by
    unfold UnpackedFloat.div UnpackedFloat.divCore
    dsimp only
    rw [← ht, hk, Int.toNat_natCast]
  have hvalue : ((m₁ <<< k : Nat) : Rat) / m₂ * 2 ^ t = dyadic m₁ e₁ / dyadic m₂ e₂ := by
    have he : e₁ = t + k + e₂ := by omega
    have hne := (two_zpow_pos e₂).ne'
    unfold dyadic
    rw [Nat.shiftLeft_eq, he, zpow_add₀ two_ne_zero, zpow_add₀ two_ne_zero, zpow_natCast]
    push_cast
    field_simp
  -- the dividend is lengthened until the quotient has all the digits that are kept
  have hlong : 2 ^ 52 ≤ m₁ <<< k / m₂ ∨ t ≤ -1074 := by
    by_cases hleast : t ≤ -1074
    · exact .inr hleast
    · left
      have ht' : t = min (e₁ - e₂)
          (max ((m₁.log2 + 1 + e₁) - (m₂.log2 + 1 + e₂) - (53 : Nat)) (-1074)) := ht
      rw [Nat.le_div_iff_mul_le h₂, Nat.shiftLeft_eq]
      calc 2 ^ 52 * m₂ ≤ 2 ^ 52 * 2 ^ (m₂.log2 + 1) := by
            gcongr
            exact Nat.lt_log2_self.le
        _ = 2 ^ (m₂.log2 + 53) := by
            rw [← pow_add]
            congr 1
            omega
        _ ≤ 2 ^ (m₁.log2 + k) := Nat.pow_le_pow_right (by decide) (by omega)
        _ ≤ m₁ * 2 ^ k := by
            rw [pow_add]
            gcongr
            exact Nat.log2_self_le h₁.ne'
  rw [hdiv, ← hvalue]
  exact ofUnpacked_roundWithAccuracy _ (within_fraction _ h₂) hlong

variable {x y z : Float}

/-- **A quotient without signs** is a normalized number, or infinity where
the exponent of that number is too large. -/
theorem exists_datum_div {mx my : Nat} {ex ey : Int} (hx : Binary.datum x = .finite false mx ex)
    (hy : Binary.datum y = .finite false my ey) (hmy : 0 < my) :
    ∃ m e, Normalized m e
      ∧ Binary.datum (x / y) = (if e ≤ 971 then .finite false m e else .infinite false)
      ∧ dyadic m e ≤ dyadic mx ex / dyadic my ey
          + roundingSlack (dyadic mx ex / dyadic my ey) := by
  have hdatum : Binary.datum (x / y) = Binary.datum (Float.ofModel (Float.Model.pack
      (UnpackedFloat.div Float.Model.Format.binary64 x.toModel.unpack y.toModel.unpack))) := rfl
  rw [hdatum, unpack_of_datum hx, unpack_of_datum hy, dif_pos hmy]
  by_cases hmx : 0 < mx
  · rw [dif_pos hmx]
    obtain ⟨m, e, hn, hdiv, hle⟩ := ofUnpacked_div (signOf false) (signOf false) ex ey hmx hmy
    exact ⟨m, e, hn, datum_pack_of_normalized hdiv hn, hle⟩
  · obtain rfl : mx = 0 := by omega
    rw [dif_neg hmx]
    refine ⟨0, -1074, normalized_zero, datum_pack_of_normalized rfl normalized_zero, ?_⟩
    rw [dyadic_zero, dyadic_zero, zero_div, zero_add]
    exact le_max_of_le_right (two_zpow_pos _).le

section

variable {m : Nat} {e : Int}
  (hx : Binary.datum x = if e ≤ 971 then .finite false m e else .infinite false)

include hx

theorem isNumber_of_datum : IsNumber x := by
  unfold IsNumber
  rw [hx]
  split <;> simp

theorem rank_nonneg_of_datum (h : Normalized m e) : 0 ≤ (Binary.datum x).rank := by
  rw [hx]
  split
  · exact h.place_nonneg
  · decide

theorem value_nonneg_of_datum (hfin : Scalar.isFinite x = true) : 0 ≤ value x := by
  rw [isFinite_eq, hx] at hfin
  unfold value
  rw [hx]
  split at hfin
  next he =>
    rw [if_pos he]
    exact dyadic_nonneg m e
  next => cases hfin

/-- A finite number that is not larger than a rounded one is not larger
than what was rounded; if that overflowed, no finite number is. -/
theorem value_le_dyadic (h : Normalized m e) (hz : Scalar.isFinite z = true) (hle : z ≤ x) :
    value z ≤ dyadic m e := by
  obtain ⟨s, mz, ez, hdz, hnz, -, hvz⟩ := exists_datum hz
  have hrank := (le_iff.1 hle).2
  have hxrank : (Binary.datum x).rank ≤ place m e := by
    rw [hx]
    split
    next => exact le_refl _
    next hover => exact h.infinityPlace_le hover
  rw [hvz]
  rw [hdz] at hrank
  cases s with
  | true => exact (neg_nonpos.2 (dyadic_nonneg mz ez)).trans (dyadic_nonneg m e)
  | false =>
      have hplace : place mz ez ≤ place m e := le_trans hrank hxrank
      by_contra hgt
      exact absurd ((h.dyadic_lt_iff hnz).1 (not_le.1 hgt)) (not_lt.2 hplace)

end

/-- **No finite number at or below a quotient exceeds the exact quotient by
more than half a last place.** -/
theorem value_le_of_le_div {mx my : Nat} {ex ey : Int}
    (hx : Binary.datum x = .finite false mx ex) (hy : Binary.datum y = .finite false my ey)
    (hmy : 0 < my) (hz : Scalar.isFinite z = true) (hle : z ≤ x / y) :
    value z ≤ dyadic mx ex / dyadic my ey + roundingSlack (dyadic mx ex / dyadic my ey) := by
  obtain ⟨m, e, hn, hdatum, hbound⟩ := exists_datum_div hx hy hmy
  exact (value_le_dyadic hdatum hn hz hle).trans hbound

/-! ## §4. Multiply-add. -/

theorem shiftNearestEven_le {n k b : Nat} (h : n ≤ b * 2 ^ k) : shiftNearestEven n k ≤ b := by
  unfold shiftNearestEven
  simp only [Nat.shiftRight_eq_div_pow, Nat.shiftLeft_eq]
  have hmod := Nat.div_add_mod n (2 ^ k)
  have hdiv : n / 2 ^ k ≤ b := Nat.div_le_of_le_mul (by rwa [Nat.mul_comm])
  split
  next hup =>
    by_contra hgt
    -- at the bound itself nothing is left to round up
    obtain rfl : n / 2 ^ k = b := by omega
    have hrest : n - n / 2 ^ k * 2 ^ k = 0 := by omega
    have hunit := Nat.two_pow_pos k
    rw [hrest, Bool.or_eq_true, decide_eq_true_iff, Bool.and_eq_true, beq_iff_eq] at hup
    omega
  next => exact hdiv

theorem dyadic_shiftLeft (m : Nat) {e f : Int} (h : f ≤ e) :
    dyadic (m <<< (e - f).toNat) f = dyadic m e := by
  obtain ⟨k, hk⟩ := Int.eq_ofNat_of_zero_le (Int.sub_nonneg.2 h)
  have he : e = f + k := by omega
  rw [hk, Int.toNat_natCast, Nat.shiftLeft_eq, he]
  unfold dyadic
  rw [zpow_add₀ two_ne_zero, zpow_natCast]
  push_cast
  ring

/-- The significand of a rounded number, in steps of the last place that is
kept. -/
def roundedSteps (m : Nat) (e last : Int) : Nat :=
  if last ≤ e then m <<< (e - last).toNat else shiftNearestEven m (last - e).toNat

theorem roundedSteps_le {m k : Nat} {e last : Int} (h : dyadic m e ≤ dyadic k last) :
    roundedSteps m e last ≤ k := by
  unfold roundedSteps
  split
  next hle =>
    rw [← dyadic_shiftLeft m hle] at h
    unfold dyadic at h
    exact_mod_cast le_of_mul_le_mul_right h (two_zpow_pos last)
  next hgt =>
    rw [← dyadic_shiftLeft k (not_le.1 hgt).le] at h
    apply shiftNearestEven_le
    rw [← Nat.shiftLeft_eq]
    unfold dyadic at h
    exact_mod_cast le_of_mul_le_mul_right h (two_zpow_pos e)

theorem round_eq {m : Nat} (hm : m ≠ 0) {e last : Int}
    (hlast : last = max (-1074) (m.log2 + e - 52)) :
    (Format.binary64.round m e : Int)
      = min (2047 * 2 ^ 52) ((last + 1074) * 2 ^ 52 + roundedSteps m e last) := by
  have hinf : Format.binary64.infinityBits = 2047 * 2 ^ 52 := by rfl
  have hstored : Format.binary64.storedBits = 52 := rfl
  have hleast : Format.binary64.leastExponent = -1074 := by rfl
  have hprecision : Format.binary64.precision = 53 := rfl
  have hlast' : max (-1074) (e + ((m.log2 + 1 : Nat) : Int) - (53 : Nat)) = last := by omega
  unfold Format.round
  rw [if_neg hm, hinf, hstored, hleast, hprecision]
  dsimp only
  rw [hlast', Nat.shiftLeft_eq]
  show ((min _ (_ + roundedSteps m e last) : Nat) : Int) = _
  push_cast
  rw [Int.toNat_of_nonneg (by omega)]
  congr 2

theorem two_zpow_le_dyadic {m : Nat} (hm : m ≠ 0) (e : Int) :
    2 ^ ((m.log2 : Int) + e) ≤ dyadic m e := by
  unfold dyadic
  rw [zpow_add₀ two_ne_zero, zpow_natCast]
  gcongr
  exact_mod_cast Nat.log2_self_le hm

theorem dyadic_lt_two_zpow {m k : Nat} (h : m < 2 ^ k) (e : Int) :
    dyadic m e < 2 ^ ((k : Int) + e) := by
  unfold dyadic
  rw [zpow_add₀ two_ne_zero, zpow_natCast]
  gcongr
  exact_mod_cast h

/-- **Rounding is monotone**: a number is not rounded beyond a double that
it does not exceed. -/
theorem round_le_place {m m' : Nat} {e e' : Int} (h : Normalized m' e')
    (hle : dyadic m e ≤ dyadic m' e') : (Format.binary64.round m e : Int) ≤ place m' e' := by
  by_cases hm : m = 0
  · rw [hm]
    exact h.place_nonneg
  obtain ⟨last, hlast⟩ : ∃ last, last = max (-1074) (m.log2 + e - 52) := ⟨_, rfl⟩
  rw [round_eq hm hlast]
  refine (min_le_right _ _).trans ?_
  have hbinade : (2 : Rat) ^ ((m.log2 : Int) + e) < 2 ^ (((53 : Nat) : Int) + e') :=
    (two_zpow_le_dyadic hm e).trans_lt (hle.trans_lt (dyadic_lt_two_zpow h.lt e'))
  have hlog := (zpow_lt_zpow_iff_right₀ one_lt_two).1 hbinade
  obtain ⟨-, hleast, hfull⟩ := h
  unfold place
  rcases (show last ≤ e' by omega).eq_or_lt with rfl | hlt
  · have hsteps := roundedSteps_le hle
    omega
  -- below the binade of the bound even a carry stays below the bound
  · have hsteps : roundedSteps m e last ≤ 2 ^ 53 := by
      apply roundedSteps_le
      have hcarry : dyadic (2 ^ 53) last = 2 ^ (53 + last) := by
        unfold dyadic
        rw [zpow_add₀ two_ne_zero]
        norm_cast
      rw [hcarry]
      calc dyadic m e ≤ 2 ^ (((m.log2 + 1 : Nat) : Int) + e) :=
            (dyadic_lt_two_zpow Nat.lt_log2_self e).le
        _ ≤ 2 ^ (53 + last) := zpow_le_zpow_right₀ one_le_two (by omega)
    omega

theorem isNumber_rank_ofDatum (s : Bool) (m : Nat) (e : Int) :
    IsNumber (Binary.ofDatum (.finite s m e))
      ∧ (Binary.datum (Binary.ofDatum (.finite s m e) : Float)).rank
        = signed s (Format.binary64.round m e : Int) := by
  have hle : Format.binary64.round m e ≤ Format.binary64.infinityBits := by
    unfold Format.round
    split
    · exact Nat.zero_le _
    · exact min_le_left _ _
  have hdatum : Binary.datum (Binary.ofDatum (.finite s m e) : Float)
      = Format.binary64.decode ⟨s, Format.binary64.round m e⟩ :=
    datum_ofPattern (p := ⟨s, Format.binary64.round m e⟩) hle
  unfold IsNumber
  rw [hdatum]
  exact rank_decode (p := ⟨s, Format.binary64.round m e⟩) hle

/-- The exact sum is exact. -/
theorem exactSum_eq (s : Bool) (m : Nat) (e : Int) (s' : Bool) (m' : Nat) (e' : Int) :
    ∃ s'' m'' e'', Binary.exactSum s m e s' m' e' = .finite s'' m'' e''
      ∧ signed s'' (dyadic m'' e'') = signed s (dyadic m e) + signed s' (dyadic m' e') := by
  rw [← dyadic_shiftLeft m (min_le_left e e'), ← dyadic_shiftLeft m' (min_le_right e e')]
  unfold Binary.exactSum
  dsimp only
  generalize m <<< (e - min e e').toNat = a
  generalize m' <<< (e' - min e e').toNat = b
  generalize min e e' = f
  have hadd (c d : Nat) : dyadic (c + d) f = dyadic c f + dyadic d f := by
    unfold dyadic
    rw [Nat.cast_add, add_mul]
  have hsub {c d : Nat} (h : d < c) : dyadic (c - d) f = dyadic c f - dyadic d f := by
    unfold dyadic
    rw [Nat.cast_sub h.le, sub_mul]
  split
  next hs =>
    obtain rfl := beq_iff_eq.1 hs
    refine ⟨s, a + b, f, rfl, ?_⟩
    rw [hadd]
    cases s
    · rfl
    · exact neg_add _ _
  next hs =>
    split
    next hlt =>
      refine ⟨s, a - b, f, rfl, ?_⟩
      rw [hsub hlt]
      cases s <;> cases s' <;> simp [signed] at hs ⊢ <;> ring
    next =>
      split
      next hlt =>
        refine ⟨s', b - a, f, rfl, ?_⟩
        rw [hsub hlt]
        cases s <;> cases s' <;> simp [signed] at hs ⊢ <;> ring
      next =>
        obtain rfl : a = b := by omega
        refine ⟨false, 0, f, rfl, ?_⟩
        rw [dyadic_zero]
        cases s <;> cases s' <;> simp [signed] at hs ⊢

/-- **A multiply-add rounds the exact value once.** -/
theorem fma_eq {a b c : Float} (ha : Scalar.isFinite a = true) (hb : Scalar.isFinite b = true)
    (hc : Scalar.isFinite c = true) :
    ∃ s m e, Scalar.fma a b c = Binary.ofDatum (.finite s m e)
      ∧ signed s (dyadic m e) = value a * value b + value c := by
  obtain ⟨sa, ma, ea, hda, -, -, hva⟩ := exists_datum ha
  obtain ⟨sb, mb, eb, hdb, -, -, hvb⟩ := exists_datum hb
  obtain ⟨sc, mc, ec, hdc, -, -, hvc⟩ := exists_datum hc
  obtain ⟨s, m, e, hsum, hvalue⟩ := exactSum_eq (sa != sb) (ma * mb) (ea + eb) sc mc ec
  have hproduct : signed (sa != sb) (dyadic (ma * mb) (ea + eb)) = value a * value b := by
    have hdyadic : dyadic (ma * mb) (ea + eb) = dyadic ma ea * dyadic mb eb := by
      unfold dyadic
      rw [zpow_add₀ two_ne_zero]
      push_cast
      ring
    rw [hdyadic, hva, hvb]
    cases sa <;> cases sb <;> simp [signed]
  rw [hproduct, ← hvc] at hvalue
  refine ⟨s, m, e, ?_, hvalue⟩
  show Binary.fusedMultiplyAdd a b c = _
  unfold Binary.fusedMultiplyAdd
  rw [hda, hdb, hdc]
  dsimp only
  rw [hsum]

/-- Rounding does not carry a number below a double that is not positive
and not above it. -/
theorem rank_le_round {s s' : Bool} {m m' : Nat} {e e' : Int} (h : Normalized m e)
    (hneg : signed s (dyadic m e) ≤ 0) (hle : signed s (dyadic m e) ≤ signed s' (dyadic m' e')) :
    signed s (place m e) ≤ signed s' (Format.binary64.round m' e' : Int) := by
  have hplace := h.place_nonneg
  have hround : (0 : Int) ≤ Format.binary64.round m' e' := Int.natCast_nonneg _
  have hzero : s = false → place m e = 0 := by
    rintro rfl
    have hnpos : ¬ 0 < place m e := fun hpos => absurd (h.dyadic_pos_iff.2 hpos) (not_lt.2 hneg)
    omega
  have hrank : signed s (place m e) = -place m e := by
    cases s with
    | false =>
        show place m e = -place m e
        rw [hzero rfl, neg_zero]
    | true => rfl
  rw [hrank]
  cases s' with
  | false =>
      show -place m e ≤ (Format.binary64.round m' e' : Int)
      omega
  | true =>
      have hdyadic : dyadic m' e' ≤ dyadic m e := by
        have h0 := dyadic_nonneg m e
        cases s with
        | false => exact (le_neg.1 hle).trans ((neg_nonpos.2 h0).trans h0)
        | true => exact neg_le_neg_iff.1 hle
      have := round_le_place h hdyadic
      show -place m e ≤ -(Format.binary64.round m' e' : Int)
      omega

/-- **A multiply-add does not fall below a bound that its exact value
respects.** -/
theorem le_fma {a b c : Float} (ha : Scalar.isFinite a = true) (hb : Scalar.isFinite b = true)
    (hc : Scalar.isFinite c = true) (hy : Scalar.isFinite y = true) (hneg : value y ≤ 0)
    (h : value y ≤ value a * value b + value c) : y ≤ Scalar.fma a b c := by
  obtain ⟨s, m, e, hfma, hvalue⟩ := fma_eq ha hb hc
  obtain ⟨sy, my, ey, hdy, hny, -, hvy⟩ := exists_datum hy
  obtain ⟨hnumber, hrank⟩ := isNumber_rank_ofDatum s m e
  rw [hfma, le_iff]
  refine ⟨⟨isNumber_of_isFinite hy, hnumber⟩, ?_⟩
  rw [hvy] at hneg h
  rw [hrank, hdy]
  exact rank_le_round hny hneg (by rwa [hvalue])

end DenseSimplex.Double
