/-
  DenseSimplex.Proofs.MachineNumbers
  ──────────────────────────────────
  **WHAT A DOUBLE STANDS FOR.**

  The multiply-add of this library reads the bits of a double
  (`Binary.datum`), while the operations of the machine type are defined on
  numbers that were unpacked from the same bits.  The two readings agree
  (`datum_eq`), so everything about doubles can be said of data:

      m · 2 ^ e   in normal form: m below 2 ^ 53, and either of full length
                  or on the finest grid                    (`Normalized`)
      place m e   its number in the row of all doubles that are not
                  negative; infinity comes right after the largest

  The bits of a double without its sign are this place, and the machine
  compares places with signs, which are the ranks of the data (`lt_iff`,
  `le_iff`, `beq_iff`).  On finite numbers that is the order of the values
  (`lt_iff_value`).
-/
import DenseSimplex.Proofs.Candidates
import Mathlib.Algebra.Order.Field.Power
import Mathlib.Tactic.Linarith
import Mathlib.Tactic.Positivity
import Mathlib.Tactic.Ring
import DenseSimplex.Number.Binary

namespace DenseSimplex

open Float.Model (UnpackedFloat)

namespace Double

/-! ## §1. Significands and exponents. -/

/-- The form in which the double width keeps `m · 2 ^ e`: the significand
has full length, unless the grid is the finest one. -/
structure Normalized (m : Nat) (e : Int) : Prop where
  lt : m < 2 ^ 53
  least : -1074 ≤ e
  full : e = -1074 ∨ 2 ^ 52 ≤ m

/-- The place of `m · 2 ^ e` in the row of all doubles that are not
negative. -/
def place (m : Nat) (e : Int) : Int := (e + 1074) * 2 ^ 52 + m

/-- The place after the largest finite number. -/
def infinityPlace : Int := place (2 ^ 52) 972

/-- The number `m · 2 ^ e`. -/
def dyadic (m : Nat) (e : Int) : Rat := m * 2 ^ e

/-- A value with its sign. -/
def signed {α : Type} [Neg α] (negative : Bool) (v : α) : α := if negative then -v else v

theorem dyadic_nonneg (m : Nat) (e : Int) : 0 ≤ dyadic m e := by
  unfold dyadic
  positivity

theorem dyadic_zero (e : Int) : dyadic 0 e = 0 := by
  unfold dyadic
  rw [Nat.cast_zero, zero_mul]

theorem normalized_zero : Normalized 0 (-1074) := ⟨by decide, le_refl _, .inl rfl⟩

namespace Normalized

variable {m m' : Nat} {e e' : Int}

theorem place_nonneg (h : Normalized m e) : 0 ≤ place m e := by
  have := h.least
  unfold place
  omega

theorem place_lt_infinityPlace (h : Normalized m e) (he : e ≤ 971) :
    place m e < infinityPlace := by
  have := h.lt
  unfold infinityPlace place
  omega

theorem infinityPlace_le (h : Normalized m e) (he : ¬ e ≤ 971) : infinityPlace ≤ place m e := by
  have := h.full
  unfold infinityPlace place
  omega

/-- **Exponents first, then significands**: that is the order of places. -/
theorem compare_eq (h : Normalized m e) (h' : Normalized m' e') :
    (compare e e').then (compare m m') = compare (place m e) (place m' e') := by
  obtain ⟨hlt, hleast, hfull⟩ := h
  obtain ⟨hlt', hleast', hfull'⟩ := h'
  unfold place
  rcases lt_trichotomy e e' with he | rfl | he
  · rw [compare_lt_iff_lt.2 he, Ordering.lt_then, eq_comm, compare_lt_iff_lt]
    omega
  · rw [compare_eq_iff_eq.2 rfl, Ordering.eq_then]
    rcases lt_trichotomy m m' with hm | rfl | hm
    · rw [compare_lt_iff_lt.2 hm, eq_comm, compare_lt_iff_lt]
      omega
    · rw [compare_eq_iff_eq.2 rfl, eq_comm, compare_eq_iff_eq]
    · rw [compare_gt_iff_gt.2 hm, eq_comm, compare_gt_iff_gt]
      omega
  · rw [compare_gt_iff_gt.2 he, Ordering.gt_then, eq_comm, compare_gt_iff_gt]
    omega

theorem eq_of_place_eq (h : Normalized m e) (h' : Normalized m' e')
    (heq : place m e = place m' e') : m = m' ∧ e = e' := by
  obtain ⟨hlt, hleast, hfull⟩ := h
  obtain ⟨hlt', hleast', hfull'⟩ := h'
  unfold place at heq
  omega

theorem dyadic_lt_of_place_lt (h : Normalized m e) (h' : Normalized m' e')
    (hlt : place m e < place m' e') : dyadic m e < dyadic m' e' := by
  obtain ⟨hm, hleast, hfull⟩ := h
  obtain ⟨hm', hleast', hfull'⟩ := h'
  unfold place at hlt
  unfold dyadic
  rcases lt_trichotomy e e' with he | rfl | he
  -- a longer exponent wins, since its significand has full length
  · have hlong : (2 ^ 52 : Nat) ≤ m' := by omega
    calc (m : Rat) * 2 ^ e < (2 ^ 53 : Nat) * 2 ^ e := by
          gcongr
      _ = (2 ^ 52 : Nat) * 2 ^ (e + 1) := by
          rw [zpow_add_one₀ two_ne_zero]
          push_cast
          ring
      _ ≤ (m' : Rat) * 2 ^ e' := by
          gcongr
          · norm_num
          · omega
  · have hmm : m < m' := by omega
    gcongr
  · omega

/-- **Places are ordered as the numbers that stand there.** -/
theorem dyadic_lt_iff (h : Normalized m e) (h' : Normalized m' e') :
    dyadic m e < dyadic m' e' ↔ place m e < place m' e' := by
  refine ⟨fun hlt => ?_, dyadic_lt_of_place_lt h h'⟩
  by_contra hge
  rcases lt_or_eq_of_le (not_lt.1 hge) with hgt | heq
  · exact lt_asymm hlt (dyadic_lt_of_place_lt h' h hgt)
  · obtain ⟨rfl, rfl⟩ := eq_of_place_eq h' h heq
    exact lt_irrefl _ hlt

theorem dyadic_pos_iff (h : Normalized m e) : 0 < dyadic m e ↔ 0 < place m e := by
  have hiff := dyadic_lt_iff normalized_zero h
  rwa [dyadic_zero, show place 0 (-1074) = 0 by decide] at hiff

theorem place_pos (h : Normalized m e) (hm : 0 < m) : 0 < place m e := by
  have := h.least
  unfold place
  omega

end Normalized

/-- What orders magnitudes orders them with their signs. -/
theorem signed_lt_iff {a b : Rat} {x y : Int} (ha : 0 ≤ a) (hb : 0 ≤ b) (hx : 0 ≤ x) (hy : 0 ≤ y)
    (hax : 0 < a ↔ 0 < x) (hby : 0 < b ↔ 0 < y) (hlt : a < b ↔ x < y) (hgt : b < a ↔ y < x)
    (s s' : Bool) : signed s a < signed s' b ↔ signed s x < signed s' y := by
  cases s <;> cases s'
  case false.false => exact hlt
  case false.true =>
    have hl : ¬ a < -b := by linarith
    have hr : ¬ x < -y := by omega
    exact iff_of_false hl hr
  case true.false =>
    have hl : -a < b ↔ 0 < a ∨ 0 < b := by
      constructor
      · intro h
        by_contra hno
        push Not at hno
        linarith
      · rintro (h | h) <;> linarith
    have hr : -x < y ↔ 0 < x ∨ 0 < y := by omega
    show -a < b ↔ -x < y
    rw [hl, hr, hax, hby]
  case true.true =>
    show -a < -b ↔ -x < -y
    rw [neg_lt_neg_iff, neg_lt_neg_iff]
    exact hgt

end Double

/-! ## §2. Data. -/

open Double

namespace Datum

/-- A datum that the double width can hold. -/
def IsDouble : Datum → Prop
  | .finite _ m e => Normalized m e ∧ e ≤ 971
  | .infinite _ | .notANumber => True

/-- The place of a datum, with its sign. -/
def rank : Datum → Int
  | .finite s m e => signed s (place m e)
  | .infinite s => signed s infinityPlace
  | .notANumber => 0

/-- The number that a finite datum stands for. -/
def value : Datum → Rat
  | .finite s m e => signed s (dyadic m e)
  | .infinite _ | .notANumber => 0

def isFinite : Datum → Bool
  | .finite .. => true
  | .infinite _ | .notANumber => false

theorem value_lt_iff {d d' : Datum} (h : d.IsDouble) (h' : d'.IsDouble) (hd : d.isFinite = true)
    (hd' : d'.isFinite = true) : d.value < d'.value ↔ d.rank < d'.rank := by
  cases d with
  | notANumber => cases hd
  | infinite s => cases hd
  | finite s m e =>
      cases d' with
      | notANumber => cases hd'
      | infinite s' => cases hd'
      | finite s' m' e' =>
          exact signed_lt_iff (dyadic_nonneg m e) (dyadic_nonneg m' e') h.1.place_nonneg
            h'.1.place_nonneg h.1.dyadic_pos_iff h'.1.dyadic_pos_iff (h.1.dyadic_lt_iff h'.1)
            (h'.1.dyadic_lt_iff h.1) s s'

end Datum

namespace Double

/-- How the bits of a double are read, in numbers. -/
theorem decode_eq (p : Pattern) :
    Format.binary64.decode p =
      if 2047 * 2 ^ 52 ≤ p.magnitude then
        if p.magnitude = 2047 * 2 ^ 52 then .infinite p.negative else .notANumber
      else if p.magnitude / 2 ^ 52 = 0 then .finite p.negative (p.magnitude % 2 ^ 52) (-1074)
      else .finite p.negative (2 ^ 52 + p.magnitude % 2 ^ 52)
        ((p.magnitude / 2 ^ 52 : Nat) - 1075) := by
  have hinf : Format.binary64.infinityBits = 2047 * 2 ^ 52 := by rfl
  have hstored : Format.binary64.storedBits = 52 := rfl
  have hhidden : Format.binary64.hiddenBit = 2 ^ 52 := by rfl
  have hleast : Format.binary64.leastExponent = -1074 := by rfl
  unfold Format.decode
  rw [hinf, hstored, hhidden, hleast, Nat.shiftRight_eq_div_pow]
  dsimp only
  congr 3
  omega

theorem isDouble_decode (p : Pattern) : (Format.binary64.decode p).IsDouble := by
  rw [decode_eq]
  split
  · split <;> trivial
  · split
    · exact ⟨⟨by omega, by omega, .inl rfl⟩, by omega⟩
    · exact ⟨⟨by omega, by omega, .inr (by omega)⟩, by omega⟩

/-- **The bits of a double without its sign are its place.** -/
theorem rank_decode {p : Pattern} (h : p.magnitude ≤ Format.binary64.infinityBits) :
    Format.binary64.decode p ≠ .notANumber
      ∧ (Format.binary64.decode p).rank = signed p.negative (p.magnitude : Int) := by
  have hle : p.magnitude ≤ 2047 * 2 ^ 52 := h
  rw [decode_eq]
  split
  · rw [if_pos (by omega)]
    refine ⟨by simp, ?_⟩
    show signed p.negative infinityPlace = _
    congr 1
    unfold infinityPlace place
    omega
  · split
    · refine ⟨by simp, ?_⟩
      show signed p.negative (place _ _) = _
      congr 1
      unfold place
      omega
    · refine ⟨by simp, ?_⟩
      show signed p.negative (place _ _) = _
      congr 1
      unfold place
      omega

/-- At the place of a normalized number stands that number; beyond the
largest exponent, infinity. -/
theorem decode_place {m : Nat} {e : Int} (h : Normalized m e) (s : Bool) :
    Format.binary64.decode ⟨s, (min (place m e) infinityPlace).toNat⟩
      = if e ≤ 971 then .finite s m e else .infinite s := by
  obtain ⟨hlt, hleast, hfull⟩ := h
  rw [decode_eq]
  unfold infinityPlace place
  dsimp only
  by_cases he : e ≤ 971
  · rw [min_eq_left (by omega), if_neg (by omega), if_pos he]
    split
    next => congr 1 <;> omega
    next => congr 1 <;> omega
  · rw [min_eq_right (by omega), if_pos (by omega), if_pos (by omega), if_neg he]

end Double

/-! ## §3. Unpacked numbers. -/

/-- An unpacked machine number as a datum. -/
def Datum.ofUnpacked : UnpackedFloat → Datum
  | .notANumber => .notANumber
  | .infinity s => .infinite (s == .negative)
  | .zero s => .finite (s == .negative) 0 (-1074)
  | .finite s m e _ => .finite (s == .negative) m e

namespace Double

theorem ofUnpacked_eq_notANumber {u : UnpackedFloat} :
    Datum.ofUnpacked u = .notANumber ↔ u = .notANumber := by
  cases u <;> simp [Datum.ofUnpacked]

theorem ofUnpacked_inj {u u' : UnpackedFloat} (h : Datum.ofUnpacked u = Datum.ofUnpacked u') :
    u = u' := by
  have hsign {s s' : UnpackedFloat.Sign} (h : (s == .negative) = (s' == .negative)) : s = s' := by
    cases s <;> cases s' <;> first | rfl | cases h
  cases u <;> cases u' <;> simp only [Datum.ofUnpacked, Datum.finite.injEq, Datum.infinite.injEq,
    reduceCtorEq] at h
  case notANumber.notANumber => rfl
  case infinity.infinity => rw [hsign h]
  case zero.zero => rw [hsign h.1]
  case zero.finite hm => exact absurd h.2.1 hm.ne
  case finite.zero hm _ => exact absurd h.2.1 hm.ne'
  case finite.finite =>
    obtain ⟨hs, rfl, rfl⟩ := h
    rw [hsign hs]

/-- The sign bit as the machine's own sign. -/
def signOf (negative : Bool) : UnpackedFloat.Sign := if negative then .negative else .positive

theorem toNat_unpackMantissa (b : BitVec Float.Model.Format.binary64.numBits) :
    (UnpackedFloat.unpackMantissa b).toNat = b.toNat % 2 ^ 52 := by
  rw [UnpackedFloat.unpackMantissa_def, BitVec.extractLsb'_toNat]
  simp

theorem toNat_unpackExponent (b : BitVec Float.Model.Format.binary64.numBits) :
    (UnpackedFloat.unpackExponent b).toNat = b.toNat / 2 ^ 52 % 2 ^ 11 := by
  rw [UnpackedFloat.unpackExponent_def, BitVec.extractLsb'_toNat, Nat.shiftRight_eq_div_pow]

theorem toNat_unpackSign (b : BitVec Float.Model.Format.binary64.numBits) :
    (UnpackedFloat.unpackSign b).toNat = b.toNat / 2 ^ 63 % 2 := by
  rw [UnpackedFloat.unpackSign_def, BitVec.extractLsb'_toNat, Nat.shiftRight_eq_div_pow]
  rfl

theorem negative_ofBitVec_unpackSign (b : BitVec Float.Model.Format.binary64.numBits) :
    (UnpackedFloat.Sign.ofBitVec (UnpackedFloat.unpackSign b) == UnpackedFloat.Sign.negative)
      = decide (b.toNat / 2 ^ 63 = 1) := by
  have hlt : b.toNat < 2 ^ 64 := b.isLt
  have hsign := toNat_unpackSign b
  unfold UnpackedFloat.Sign.ofBitVec
  split
  next h =>
    rw [h] at hsign
    have h0 : 0 = b.toNat / 2 ^ 63 % 2 := hsign
    rw [decide_eq_false (by omega)]
    rfl
  next h =>
    have h0 : b.toNat / 2 ^ 63 % 2 ≠ 0 := by
      rw [← hsign]
      intro h0
      exact h (BitVec.eq_of_toNat_eq h0)
    rw [decide_eq_true (by omega)]
    rfl

/-- **Unpacking bits is reading them as a pattern.** -/
theorem ofUnpacked_unpack (b : BitVec Float.Model.Format.binary64.numBits) :
    Datum.ofUnpacked (UnpackedFloat.unpack Float.Model.Format.binary64 b)
      = Format.binary64.decode ⟨decide (b.toNat / 2 ^ 63 = 1), b.toNat % 2 ^ 63⟩ := by
  have hlt : b.toNat < 2 ^ 64 := b.isLt
  have hmantissa := toNat_unpackMantissa b
  have hexponent := toNat_unpackExponent b
  have hones : UnpackedFloat.unpackExponent b = -1#11 ↔ b.toNat / 2 ^ 52 % 2 ^ 11 = 2047 := by
    rw [← BitVec.toNat_inj, hexponent]
    rfl
  have hsub : UnpackedFloat.unpackExponent b = 0#11 ↔ b.toNat / 2 ^ 52 % 2 ^ 11 = 0 := by
    rw [← BitVec.toNat_inj, hexponent]
    rfl
  have hzero : UnpackedFloat.unpackMantissa b = 0#52 ↔ b.toNat % 2 ^ 52 = 0 := by
    rw [← BitVec.toNat_inj, hmantissa]
    rfl
  rw [decode_eq]
  dsimp only
  rw [← negative_ofBitVec_unpackSign]
  unfold UnpackedFloat.unpack
  dsimp only
  -- both readings ask whether the exponent field is all ones, then whether it is zero
  by_cases h : b.toNat / 2 ^ 52 % 2 ^ 11 = 2047
  · rw [if_pos (hones.2 h), if_pos (show 2047 * 2 ^ 52 ≤ b.toNat % 2 ^ 63 by omega)]
    by_cases h0 : b.toNat % 2 ^ 52 = 0
    · rw [if_pos (hzero.2 h0), if_pos (show b.toNat % 2 ^ 63 = 2047 * 2 ^ 52 by omega),
        Datum.ofUnpacked]
    · rw [if_neg (h0 ∘ hzero.1), if_neg (show b.toNat % 2 ^ 63 ≠ 2047 * 2 ^ 52 by omega),
        Datum.ofUnpacked]
  · rw [if_neg (h ∘ hones.1), if_neg (show ¬ 2047 * 2 ^ 52 ≤ b.toNat % 2 ^ 63 by omega)]
    by_cases h' : b.toNat / 2 ^ 52 % 2 ^ 11 = 0
    · rw [if_pos (hsub.2 h'), if_pos (show b.toNat % 2 ^ 63 / 2 ^ 52 = 0 by omega)]
      by_cases h0 : b.toNat % 2 ^ 52 = 0
      · rw [dif_pos (hzero.2 h0), Datum.ofUnpacked]
        congr 1
        omega
      · rw [dif_neg (h0 ∘ hzero.1), Datum.ofUnpacked, hmantissa, hexponent, h']
        congr 1
        omega
    · rw [if_neg (h' ∘ hsub.1), if_neg (show b.toNat % 2 ^ 63 / 2 ^ 52 ≠ 0 by omega),
        Datum.ofUnpacked, hexponent, BitVec.toNat_append, hmantissa,
        ← Nat.shiftLeft_add_eq_or_of_lt (Nat.mod_lt _ (by decide))]
      congr 1
      · show 1 * 2 ^ 52 + b.toNat % 2 ^ 52 = _
        omega
      · show ((b.toNat / 2 ^ 52 % 2 ^ 11 : Nat) : Int) - 1075 = _
        omega

theorem isDouble_unpack (b : BitVec Float.Model.Format.binary64.numBits) :
    (Datum.ofUnpacked (UnpackedFloat.unpack Float.Model.Format.binary64 b)).IsDouble := by
  rw [ofUnpacked_unpack]
  exact isDouble_decode _

theorem pattern_negative (x : Float) :
    (Binary.pattern x).negative = decide (x.toBits.toNat / 2 ^ 63 = 1) := by
  show (x.toBits >>> 63 == 1) = _
  rw [beq_eq_decide]
  congr 1
  rw [← UInt64.toNat_inj, UInt64.toNat_shiftRight, Nat.shiftRight_eq_div_pow]
  rfl

theorem pattern_magnitude (x : Float) :
    (Binary.pattern x).magnitude = x.toBits.toNat % 2 ^ 63 := by
  show (x.toBits &&& 0x7fffffffffffffff).toNat = _
  rw [UInt64.toNat_and]
  exact Nat.and_two_pow_sub_one_eq_mod _ 63

/-- **The datum of a double is the number that its machine type holds.** -/
theorem datum_eq (x : Float) : Binary.datum x = .ofUnpacked x.toModel.unpack := by
  have h := ofUnpacked_unpack x.toModel.toBits.toBitVec
  unfold Binary.datum
  refine Eq.trans ?_ h.symm
  congr 1
  exact congrArg₂ Pattern.mk (pattern_negative x) (pattern_magnitude x)

theorem isDouble_datum (x : Float) : (Binary.datum x).IsDouble := isDouble_decode _

theorem unpack_of_datum {x : Float} {s : Bool} {m : Nat} {e : Int}
    (h : Binary.datum x = .finite s m e) :
    x.toModel.unpack = if hm : 0 < m then .finite (signOf s) m e hm else .zero (signOf s) := by
  have hdouble := isDouble_datum x
  rw [h] at hdouble
  apply ofUnpacked_inj
  rw [← datum_eq, h]
  split
  next => cases s <;> rfl
  next hm =>
    obtain rfl : m = 0 := by omega
    obtain rfl : e = -1074 := hdouble.1.full.resolve_right (by decide)
    cases s <;> rfl

/-! ## §4. Packed numbers. -/

theorem toNat_packComponents (s : UnpackedFloat.Sign) (exponent : BitVec 11)
    (mantissa : BitVec 52) :
    (UnpackedFloat.packComponents Float.Model.Format.binary64 s exponent mantissa).toNat
      = s.toBitVec.toNat * 2 ^ 63 + exponent.toNat * 2 ^ 52 + mantissa.toNat := by
  unfold UnpackedFloat.packComponents
  rw [BitVec.toNat_append, BitVec.toNat_append, ← Nat.shiftLeft_add_eq_or_of_lt mantissa.isLt,
    ← Nat.shiftLeft_add_eq_or_of_lt exponent.isLt, Nat.shiftLeft_eq, Nat.shiftLeft_eq]
  show (_ * 2 ^ 11 + _) * 2 ^ 52 + _ = _
  omega

/-- A normalized number is packed into its sign and its place. -/
theorem toNat_pack {s : UnpackedFloat.Sign} {m : Nat} {e : Int} (hm : 0 < m)
    (h : Normalized m e) :
    (UnpackedFloat.pack Float.Model.Format.binary64 (.finite s m e hm)).toNat
      = s.toBitVec.toNat * 2 ^ 63 + (min (place m e) infinityPlace).toNat := by
  obtain ⟨hlt, hleast, hfull⟩ := h
  have hlog : m.log2 < 53 := (Nat.log2_lt hm.ne').2 hlt
  have hbiased : (e + Float.Model.Format.binary64.exponentBias
      + Float.Model.Format.binary64.mantissaBitsWithoutImplicit).toNat = (e + 1075).toNat := by
    show (e + 1023 + 52).toNat = _
    omega
  unfold UnpackedFloat.pack infinityPlace place
  dsimp only
  rw [hbiased]
  split
  next hover =>
    have hover : 2 ^ 11 ≤ (e + 1075).toNat + 1 := hover
    unfold UnpackedFloat.packedInfinity
    rw [toNat_packComponents]
    show _ + 2047 * 2 ^ 52 + 0 = _
    omega
  next hover =>
    have hover : ¬ 2 ^ 11 ≤ (e + 1075).toNat + 1 := hover
    -- the length of the significand decides whether its first bit is hidden
    split
    next hlong =>
      have hlong : m.log2 + 1 = 53 := hlong
      have hbig : 2 ^ 52 ≤ m := (Nat.le_log2 hm.ne').1 (by omega)
      rw [toNat_packComponents, BitVec.toNat_ofNat, BitVec.toNat_ofNat]
      omega
    next hshort =>
      have hshort : m.log2 + 1 ≠ 53 := hshort
      have hsmall : m < 2 ^ 52 := (Nat.log2_lt hm.ne').1 (by omega)
      rw [toNat_packComponents, BitVec.toNat_ofNat, BitVec.toNat_ofNat]
      omega

/-- **A packed number is itself**, or infinity where its exponent is too
large. -/
theorem datum_pack_of_normalized {u : UnpackedFloat} {s : Bool} {m : Nat} {e : Int}
    (hu : Datum.ofUnpacked u = .finite s m e) (h : Normalized m e) :
    Binary.datum (Float.ofModel (Float.Model.pack u))
      = if e ≤ 971 then .finite s m e else .infinite s := by
  cases u with
  | notANumber => cases hu
  | infinity _ => cases hu
  | zero s' =>
      obtain ⟨rfl, rfl, rfl⟩ : (s' == .negative) = s ∧ 0 = m ∧ -1074 = e := by
        simpa [Datum.ofUnpacked] using hu
      cases s' <;> rfl
  | finite s' m' e' hm =>
      obtain ⟨rfl, rfl, rfl⟩ : (s' == .negative) = s ∧ m' = m ∧ e' = e := by
        simpa [Datum.ofUnpacked] using hu
      have hlt : (min (place m' e') infinityPlace).toNat < 2 ^ 63 := by
        unfold infinityPlace place
        omega
      rw [datum_eq, ← decode_place h]
      refine (ofUnpacked_unpack (UnpackedFloat.pack _ _)).trans ?_
      rw [toNat_pack hm h]
      generalize (min (place m' e') infinityPlace).toNat = magnitude at hlt ⊢
      congr 2
      · cases s'
        · exact decide_eq_true (show (1 * 2 ^ 63 + magnitude) / 2 ^ 63 = 1 by omega)
        · exact decide_eq_false (show (0 * 2 ^ 63 + magnitude) / 2 ^ 63 ≠ 1 by omega)
      · omega

theorem datum_pack {u : UnpackedFloat} (h : (Datum.ofUnpacked u).IsDouble) :
    Binary.datum (Float.ofModel (Float.Model.pack u)) = Datum.ofUnpacked u := by
  cases u with
  | notANumber => rfl
  | infinity s => cases s <;> rfl
  | zero s => cases s <;> rfl
  | finite s m e hm => exact (datum_pack_of_normalized rfl h.1).trans (if_pos h.2)

/-- A double made from a pattern stands for what the pattern stands for. -/
theorem datum_ofPattern {p : Pattern} (h : p.magnitude ≤ Format.binary64.infinityBits) :
    Binary.datum (Binary.ofPattern p : Float) = Format.binary64.decode p := by
  have hlt : p.magnitude < 2 ^ 63 := lt_of_le_of_lt h (by decide)
  have hbits : (UInt64.ofNat p.magnitude).toNat = p.magnitude := by
    rw [UInt64.toNat_ofNat', Nat.mod_eq_of_lt (by omega)]
  have hword (w : UInt64) : Binary.datum (Float.ofBits w)
      = Format.binary64.decode ⟨decide (w.toNat / 2 ^ 63 = 1), w.toNat % 2 ^ 63⟩ :=
    (datum_pack (isDouble_unpack w.toBitVec)).trans (ofUnpacked_unpack w.toBitVec)
  refine (hword _).trans ?_
  congr 1
  obtain ⟨negative, magnitude⟩ := p
  dsimp only at hlt hbits ⊢
  cases negative with
  | false =>
      rw [if_neg Bool.false_ne_true, hbits, Nat.mod_eq_of_lt hlt, decide_eq_false (by omega)]
  | true =>
      have hor : (UInt64.ofNat magnitude ||| 0x8000000000000000).toNat = 2 ^ 63 + magnitude := by
        rw [UInt64.toNat_or, hbits, Nat.or_comm]
        exact (Nat.two_pow_add_eq_or_of_lt hlt 1).symm
      rw [if_pos rfl, hor, decide_eq_true (by omega)]
      congr 1
      omega

/-! ## §5. Signs. -/

/-- Changing the sign changes nothing else. -/
theorem unpack_neg (x : Float) : (-x).toModel.unpack = x.toModel.unpack.neg := by
  apply ofUnpacked_inj
  rw [← datum_eq]
  have h : (Datum.ofUnpacked x.toModel.unpack).IsDouble := isDouble_unpack _
  refine datum_pack (u := x.toModel.unpack.neg) ?_
  revert h
  cases x.toModel.unpack <;> exact id

theorem datum_neg {x : Float} {s : Bool} {m : Nat} {e : Int} (h : Binary.datum x = .finite s m e) :
    Binary.datum (-x) = .finite (!s) m e := by
  have hneg : Datum.ofUnpacked x.toModel.unpack.neg = .finite (!s) m e := by
    rw [datum_eq] at h
    revert h
    cases x.toModel.unpack with
    | notANumber => intro h; cases h
    | infinity _ => intro h; cases h
    | zero s' => rintro ⟨⟩; cases s' <;> rfl
    | finite s' _ _ _ => rintro ⟨⟩; cases s' <;> rfl
  rw [datum_eq, unpack_neg, hneg]

theorem rank_datum_neg (x : Float) : (Binary.datum (-x)).rank = -(Binary.datum x).rank := by
  rw [datum_eq, datum_eq, unpack_neg]
  cases x.toModel.unpack with
  | notANumber => rfl
  | infinity s =>
      cases s with
      | positive => rfl
      | negative => exact (neg_neg infinityPlace).symm
  | zero s => cases s <;> rfl
  | finite s m e _ =>
      cases s with
      | positive => rfl
      | negative => exact (neg_neg (place m e)).symm

/-- **A quotient may take its sign from either side.** -/
theorem neg_div (x y : Float) : -x / y = x / -y := by
  show Float.ofModel (Float.Model.pack (UnpackedFloat.div _ (-x).toModel.unpack y.toModel.unpack))
    = Float.ofModel (Float.Model.pack (UnpackedFloat.div _ x.toModel.unpack (-y).toModel.unpack))
  rw [unpack_neg, unpack_neg]
  congr 2
  have hsign (s s' : UnpackedFloat.Sign) : -s / s' = s / -s' := by
    cases s <;> cases s' <;> rfl
  cases x.toModel.unpack <;> cases y.toModel.unpack <;>
    simp only [UnpackedFloat.div, UnpackedFloat.neg, hsign]

/-! ## §6. The order. -/

/-- **The machine compares ranks.**  The cases are those of its table: the
kinds of the two numbers, and their signs. -/
theorem compare_eq_rank {u u' : UnpackedFloat} (h : (Datum.ofUnpacked u).IsDouble)
    (h' : (Datum.ofUnpacked u').IsDouble) (hu : u ≠ .notANumber) (hu' : u' ≠ .notANumber) :
    u.compare u' = some (compare (Datum.ofUnpacked u).rank (Datum.ofUnpacked u').rank) := by
  have hlt {a b : Int} (hab : a < b) : some .lt = some (compare a b) :=
    congrArg some (compare_lt_iff_lt.2 hab).symm
  have hgt {a b : Int} (hab : b < a) : some .gt = some (compare a b) :=
    congrArg some (compare_gt_iff_gt.2 hab).symm
  have hzero : place 0 (-1074) = 0 := by decide
  cases u with
  | notANumber => exact absurd rfl hu
  | infinity s =>
      cases u' with
      | notANumber => exact absurd rfl hu'
      | infinity s' => cases s <;> cases s' <;> rfl
      | zero s' => cases s <;> cases s' <;> rfl
      | finite s' m' e' hm' =>
          have hpos := h'.1.place_pos hm'
          have hinf := h'.1.place_lt_infinityPlace h'.2
          cases s <;> cases s'
          · exact hlt (show -infinityPlace < -place m' e' by omega)
          · exact hlt (show -infinityPlace < place m' e' by omega)
          · exact hgt (show -place m' e' < infinityPlace by omega)
          · exact hgt (show place m' e' < infinityPlace by omega)
  | zero s =>
      cases u' with
      | notANumber => exact absurd rfl hu'
      | infinity s' => cases s <;> cases s' <;> rfl
      | zero s' => cases s <;> cases s' <;> rfl
      | finite s' m' e' hm' =>
          have hpos := h'.1.place_pos hm'
          cases s <;> cases s'
          · exact hgt (show -place m' e' < -place 0 (-1074) by omega)
          · exact hlt (show -place 0 (-1074) < place m' e' by omega)
          · exact hgt (show -place m' e' < place 0 (-1074) by omega)
          · exact hlt (show place 0 (-1074) < place m' e' by omega)
  | finite s m e hm =>
      have hpos := h.1.place_pos hm
      cases u' with
      | notANumber => exact absurd rfl hu'
      | infinity s' =>
          have hinf := h.1.place_lt_infinityPlace h.2
          cases s <;> cases s'
          · exact hgt (show -infinityPlace < -place m e by omega)
          · exact hlt (show -place m e < infinityPlace by omega)
          · exact hgt (show -infinityPlace < place m e by omega)
          · exact hlt (show place m e < infinityPlace by omega)
      | zero s' =>
          cases s <;> cases s'
          · exact hlt (show -place m e < -place 0 (-1074) by omega)
          · exact hlt (show -place m e < place 0 (-1074) by omega)
          · exact hgt (show -place 0 (-1074) < place m e by omega)
          · exact hgt (show place 0 (-1074) < place m e by omega)
      | finite s' m' e' hm' =>
          have hpos' := h'.1.place_pos hm'
          cases s <;> cases s'
          -- of two negative numbers the one of larger magnitude is the smaller
          · have hneg : StrictAnti (fun a : Int => -a) := fun _ _ hab => neg_lt_neg hab
            show some (Ordering.swap _) = some (compare (-place m e) (-place m' e'))
            rw [h.1.compare_eq h'.1, ← Std.OrientedCmp.eq_swap, ← cmp_eq_compare,
              ← cmp_eq_compare, hneg.cmp_map_eq]
          · exact hlt (show -place m e < place m' e' by omega)
          · exact hgt (show -place m' e' < place m e by omega)
          · exact congrArg some (h.1.compare_eq h'.1)

/-- A double is a number, finite or infinite. -/
def IsNumber (x : Float) : Prop := Binary.datum x ≠ .notANumber

variable {x y z : Float}

theorem compare_of_isNumber (hx : IsNumber x) (hy : IsNumber y) :
    x.toModel.unpack.compare y.toModel.unpack
      = some (compare (Binary.datum x).rank (Binary.datum y).rank) := by
  have hdx := isDouble_datum x
  have hdy := isDouble_datum y
  unfold IsNumber at hx hy
  rw [datum_eq] at hx hy hdx hdy
  rw [datum_eq, datum_eq]
  exact compare_eq_rank hdx hdy (hx ∘ ofUnpacked_eq_notANumber.2)
    (hy ∘ ofUnpacked_eq_notANumber.2)

/-- What is not a number cannot be compared. -/
theorem compare_eq_none (h : ¬ (IsNumber x ∧ IsNumber y)) :
    x.toModel.unpack.compare y.toModel.unpack = none := by
  unfold IsNumber at h
  rw [datum_eq, datum_eq, ne_eq, ne_eq, ofUnpacked_eq_notANumber, ofUnpacked_eq_notANumber,
    ← not_or, not_not] at h
  rcases h with h | h
  · rw [h]
    rfl
  · rw [h]
    cases x.toModel.unpack <;> rfl

theorem lt_iff :
    x < y ↔ (IsNumber x ∧ IsNumber y) ∧ (Binary.datum x).rank < (Binary.datum y).rank := by
  show decide (x.toModel < y.toModel) = true ↔ _
  rw [decide_eq_true_iff]
  show (x.toModel.unpack.compare y.toModel.unpack == some .lt) = true ↔ _
  rw [beq_iff_eq]
  by_cases h : IsNumber x ∧ IsNumber y
  · rw [compare_of_isNumber h.1 h.2, Option.some.injEq, compare_lt_iff_lt, and_iff_right h]
  · rw [compare_eq_none h]
    simp [h]

theorem le_iff :
    x ≤ y ↔ (IsNumber x ∧ IsNumber y) ∧ (Binary.datum x).rank ≤ (Binary.datum y).rank := by
  show decide (x.toModel ≤ y.toModel) = true ↔ _
  rw [decide_eq_true_iff]
  show (x.toModel.unpack.compare y.toModel.unpack).any (·.isLE) = true ↔ _
  by_cases h : IsNumber x ∧ IsNumber y
  · rw [compare_of_isNumber h.1 h.2, and_iff_right h]
    simp only [Option.any_some]
    exact Std.isLE_compare
  · rw [compare_eq_none h]
    simp [h]

theorem beq_iff :
    (x == y) = true
      ↔ (IsNumber x ∧ IsNumber y) ∧ (Binary.datum x).rank = (Binary.datum y).rank := by
  show (x.toModel.unpack.compare y.toModel.unpack == some .eq) = true ↔ _
  rw [beq_iff_eq]
  by_cases h : IsNumber x ∧ IsNumber y
  · rw [compare_of_isNumber h.1 h.2, Option.some.injEq, compare_eq_iff_eq, and_iff_right h]
  · rw [compare_eq_none h]
    simp [h]

/-- **Numbers are totally ordered**, infinities included. -/
theorem comparable_isNumber : Scalar.Comparable IsNumber where
  refl h := le_iff.2 ⟨⟨h, h⟩, le_refl _⟩
  trans h h' := by
    obtain ⟨⟨ha, -⟩, hab⟩ := le_iff.1 h
    obtain ⟨⟨-, hc⟩, hbc⟩ := le_iff.1 h'
    exact le_iff.2 ⟨⟨ha, hc⟩, hab.trans hbc⟩
  of_lt h := le_iff.2 ⟨(lt_iff.1 h).1, (lt_iff.1 h).2.le⟩
  of_not_lt ha hb h := by
    rw [lt_iff, and_iff_right ⟨hb, ha⟩, not_lt] at h
    exact le_iff.2 ⟨⟨ha, hb⟩, h⟩

/-! ## §7. Finite doubles. -/

/-- The number that a finite double stands for. -/
def value (x : Float) : Rat := (Binary.datum x).value

theorem isFinite_eq (x : Float) : Scalar.isFinite x = (Binary.datum x).isFinite := by
  rw [datum_eq]
  show x.toModel.unpack.isFinite = _
  cases x.toModel.unpack <;> rfl

theorem isFinite_of_datum {s : Bool} {m : Nat} {e : Int} (h : Binary.datum x = .finite s m e) :
    Scalar.isFinite x = true := by
  rw [isFinite_eq, h]
  rfl

theorem exists_datum (h : Scalar.isFinite x = true) :
    ∃ s m e, Binary.datum x = .finite s m e ∧ Normalized m e ∧ e ≤ 971
      ∧ value x = signed s (dyadic m e) := by
  have hdouble := isDouble_datum x
  rw [isFinite_eq] at h
  unfold value
  cases hx : Binary.datum x with
  | notANumber => rw [hx] at h; cases h
  | infinite s => rw [hx] at h; cases h
  | finite s m e =>
      rw [hx] at hdouble
      exact ⟨s, m, e, rfl, hdouble.1, hdouble.2, rfl⟩

theorem isNumber_of_isFinite (h : Scalar.isFinite x = true) : IsNumber x := by
  obtain ⟨s, m, e, hx, -⟩ := exists_datum h
  unfold IsNumber
  rw [hx]
  simp

theorem lt_iff_value (hx : Scalar.isFinite x = true) (hy : Scalar.isFinite y = true) :
    x < y ↔ value x < value y := by
  rw [lt_iff, and_iff_right ⟨isNumber_of_isFinite hx, isNumber_of_isFinite hy⟩]
  rw [isFinite_eq] at hx hy
  exact (Datum.value_lt_iff (isDouble_datum x) (isDouble_datum y) hx hy).symm

theorem le_iff_value (hx : Scalar.isFinite x = true) (hy : Scalar.isFinite y = true) :
    x ≤ y ↔ value x ≤ value y := by
  rw [le_iff, and_iff_right ⟨isNumber_of_isFinite hx, isNumber_of_isFinite hy⟩]
  rw [isFinite_eq] at hx hy
  rw [← not_lt, ← not_lt]
  exact not_congr (Datum.value_lt_iff (isDouble_datum y) (isDouble_datum x) hy hx).symm

theorem beq_iff_value (hx : Scalar.isFinite x = true) (hy : Scalar.isFinite y = true) :
    (x == y) = true ↔ value x = value y := by
  have hnumbers := And.intro (isNumber_of_isFinite hx) (isNumber_of_isFinite hy)
  have hle := le_iff_value hx hy
  have hge := le_iff_value hy hx
  rw [le_iff, and_iff_right hnumbers] at hle
  rw [le_iff, and_iff_right hnumbers.symm] at hge
  rw [beq_iff, and_iff_right hnumbers, le_antisymm_iff, le_antisymm_iff, hle, hge]

theorem isFinite_neg (h : Scalar.isFinite x = true) : Scalar.isFinite (-x) = true := by
  obtain ⟨s, m, e, hx, -⟩ := exists_datum h
  exact isFinite_of_datum (datum_neg hx)

theorem value_neg (h : Scalar.isFinite x = true) : value (-x) = -value x := by
  obtain ⟨s, m, e, hx, -, -, hvalue⟩ := exists_datum h
  rw [hvalue]
  unfold value
  rw [datum_neg hx]
  cases s
  · rfl
  · exact (neg_neg _).symm

theorem datum_zero : Binary.datum (0 : Float) = .finite false 0 (-1074) := by decide +kernel

theorem isFinite_zero : Scalar.isFinite (0 : Float) = true := isFinite_of_datum datum_zero

theorem value_zero : value 0 = 0 := by
  unfold value
  rw [datum_zero]
  exact dyadic_zero _

end Double

end DenseSimplex
