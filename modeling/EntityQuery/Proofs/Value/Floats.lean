import EntityQuery.Value
import Mathlib

/-!
# Floats that are numbers

A float is a NaN only where an operation has no result. **Adding a finite float to what is no NaN
has one** (`not_isNaN_add`), **and so has dividing what is no NaN by a length**
(`not_isNaN_div_ofLength`); and the floats nearest to integers are finite (`isFinite_ofInt64`). So
nothing that is made of finite floats and integers in this way is ever a NaN, and any two such
floats have an order, also if one of them is infinite (`exists_compareFloats`).

An operation is carried out on the parts of its operands, and its result is rounded and packed into
bits. Packing makes no NaN of what is none (`not_isNaN_pack`), and a whole number of 64 bits is
rounded to a mantissa and an exponent for which there is room (`round_normal`,
`unpack_pack_normal`).
-/

namespace EntityQuery.Decimal

open Float.Model Float.Model.UnpackedFloat

/-! ## Rounding whole numbers -/

theorem mantissa_shiftRight (em : ExtendedMantissa) (n : Nat) :
    (em >>> n).mantissa = em.mantissa / 2 ^ n := by
  induction n with
  | zero =>
    rw [Nat.pow_zero, Nat.div_one]
    rfl
  | succ n ih =>
    show (em >>> n).mantissa / 2 = _
    rw [ih, Nat.div_div_eq_div_mul, Nat.pow_succ]

theorem roundedMantissa_bounds (em : ExtendedMantissa) :
    em.mantissa ≤ em.roundedMantissa ∧ em.roundedMantissa ≤ em.mantissa + 1 := by
  unfold ExtendedMantissa.roundedMantissa
  cases em.accuracy with
  | exact => exact ⟨Nat.le_refl _, Nat.le_succ _⟩
  | inexact half =>
    cases half with
    | lt => exact ⟨Nat.le_refl _, Nat.le_succ _⟩
    | gt => exact ⟨Nat.le_succ _, Nat.le_refl _⟩
    | eq =>
      show em.mantissa ≤ em.mantissa + em.mantissa % 2 ∧
        em.mantissa + em.mantissa % 2 ≤ em.mantissa + 1
      omega

theorem targetExponent_eq (total : Int) :
    Format.binary64.targetExponent total = max (total - 53) (-1074) := rfl

/-- Without its last digits a number of at least 53 binary digits has 53 of them. -/
theorem digits_bounds {m : Nat} (large : 2 ^ 52 ≤ m) :
    2 ^ 52 ≤ m / 2 ^ (m.log2 - 52) ∧ m / 2 ^ (m.log2 - 52) < 2 ^ 53 := by
  have pos : m ≠ 0 := by omega
  have size : 52 ≤ m.log2 := (Nat.le_log2 pos).mpr large
  have lower : 2 ^ 52 * 2 ^ (m.log2 - 52) = 2 ^ m.log2 := by
    rw [← Nat.pow_add, Nat.add_sub_cancel' size]
  have upper : 2 ^ 53 * 2 ^ (m.log2 - 52) = 2 ^ (m.log2 + 1) := by
    rw [← Nat.pow_add]
    congr 1
    omega
  constructor
  · rw [Nat.le_div_iff_mul_le (Nat.two_pow_pos _), lower]
    exact Nat.log2_self_le pos
  · rw [Nat.div_lt_iff_lt_mul (Nat.two_pow_pos _), upper]
    exact Nat.lt_log2_self

theorem shiftToTargetExponent_eq {m : Nat} {e : Int} (large : 2 ^ 52 ≤ m) (least : -1074 ≤ e)
    (a : Accuracy) :
    shiftToTargetExponent .binary64 m e a =
      (ExtendedMantissa.ofMantissaAndAccuracy m a >>> (m.log2 - 52),
        e + (m.log2 - 52 : Nat)) := by
  have size : 52 ≤ m.log2 := (Nat.le_log2 (by omega)).mpr large
  have amount : (max (totalExponent m e - 53) (-1074) - e).toNat = m.log2 - 52 := by
    unfold totalExponent
    omega
  unfold shiftToTargetExponent shiftToExponent
  rw [targetExponent_eq]
  dsimp only
  rw [amount]

/-- The parts of a float that is neither zero nor very small, and not too large. -/
structure Normal (m : Nat) (e : Int) : Prop where
  large : 2 ^ 52 ≤ m
  small : m < 2 ^ 53
  least : -1074 ≤ e
  most : e ≤ 971

theorem roundWithAccuracy_normal (s : Sign) {m : Nat} {e : Int} (large : 2 ^ 52 ≤ m)
    (small : m < 2 ^ 64) (least : -1074 ≤ e) (most : e ≤ 0) :
    ∃ m' e' pos, roundWithAccuracy .binary64 s m e .exact = .finite s m' e' pos ∧
      Normal m' e' := by
  obtain ⟨lower, upper⟩ := digits_bounds large
  let em := ExtendedMantissa.ofMantissaAndAccuracy m .exact >>> (m.log2 - 52)
  let rounded := em.roundedMantissa
  have mantissa : em.mantissa = m / 2 ^ (m.log2 - 52) := mantissa_shiftRight _ _
  obtain ⟨above, below⟩ := roundedMantissa_bounds em
  -- Rounding up may give one digit too many, and then the last one is dropped.
  have large' : 2 ^ 52 ≤ rounded := by omega
  obtain ⟨lower', upper'⟩ := digits_bounds large'
  have size : m.log2 < 64 := (Nat.log2_lt (by omega)).mpr small
  have size' : rounded.log2 < 54 := (Nat.log2_lt (by omega)).mpr (by omega)
  have final : (ExtendedMantissa.ofMantissaAndAccuracy rounded .exact >>>
      (rounded.log2 - 52)).mantissa = rounded / 2 ^ (rounded.log2 - 52) := mantissa_shiftRight _ _
  unfold roundWithAccuracy
  rw [shiftToTargetExponent_eq large least]
  dsimp only
  rw [shiftToTargetExponent_eq large' (by omega)]
  dsimp only
  rw [dif_neg (by omega)]
  exact ⟨_, _, _, rfl, by omega, by omega, by omega, by omega⟩

/-- A whole number of at most 64 binary digits is rounded to a number of 53 digits. -/
theorem round_normal (s : Sign) {m : Nat} (pos : 0 < m) (small : m < 2 ^ 64) :
    ∃ m' e' pos', round .binary64 s m 0 = .finite s m' e' pos' ∧ Normal m' e' := by
  have lower := Nat.log2_self_le (Nat.ne_of_gt pos)
  have upper := @Nat.lt_log2_self m
  have size : m.log2 < 64 := (Nat.log2_lt (Nat.ne_of_gt pos)).mpr small
  have amount : (0 - max (totalExponent m 0 - 53) (-1074)).toNat = 52 - m.log2 := by
    unfold totalExponent
    omega
  unfold UnpackedFloat.round decreaseExponent
  rw [targetExponent_eq]
  dsimp only
  rw [amount, Nat.shiftLeft_eq]
  by_cases short : m.log2 ≤ 52
  · have least : 2 ^ m.log2 * 2 ^ (52 - m.log2) = 2 ^ 52 := by
      rw [← Nat.pow_add, Nat.add_sub_cancel' short]
    have most : 2 ^ (m.log2 + 1) * 2 ^ (52 - m.log2) = 2 ^ 53 := by
      rw [← Nat.pow_add]
      congr 1
      omega
    have least' := Nat.mul_le_mul_right (2 ^ (52 - m.log2)) lower
    have most' := Nat.mul_lt_mul_of_pos_right upper (Nat.two_pow_pos (52 - m.log2))
    exact roundWithAccuracy_normal s (by omega) (by omega) (by omega) (by omega)
  · have none : 52 - m.log2 = 0 := by omega
    rw [none, Nat.pow_zero, Nat.mul_one]
    have large : 2 ^ 52 ≤ m :=
      Nat.le_trans (Nat.pow_le_pow_right (by omega) (by omega)) lower
    exact roundWithAccuracy_normal s large small (by omega) (by omega)

/-! ## Packing -/

theorem not_isNaN_unpack {b : BitVec Format.binary64.numBits}
    (h : unpackExponent b ≠ -1#_ ∨ unpackMantissa b = 0#_) :
    (UnpackedFloat.unpack .binary64 b).isNaN = false := by
  unfold UnpackedFloat.unpack
  dsimp only
  split
  · next exponent =>
    rw [if_pos (h.resolve_left fun other => other exponent)]
    rfl
  · split
    · split <;> rfl
    · rfl

/-- Packing makes no NaN of what is none. -/
theorem not_isNaN_pack {u : UnpackedFloat} (h : u.isNaN = false) :
    (Float.Model.pack u).unpack.isNaN = false := by
  show (UnpackedFloat.unpack .binary64 (UnpackedFloat.pack .binary64 u)).isNaN = false
  refine not_isNaN_unpack ?_
  cases u with
  | notANumber => cases h
  | infinity s => exact .inr unpackMantissa_packComponents
  | zero s =>
    left
    rw [show UnpackedFloat.pack .binary64 (.zero s) = packComponents .binary64 s 0 0 from rfl,
      unpackExponent_packComponents]
    decide
  | finite s m e pos =>
    unfold UnpackedFloat.pack
    dsimp only
    split
    · exact .inr unpackMantissa_packComponents
    · next room =>
      left
      split
      · rw [unpackExponent_packComponents]
        intro full
        have full := congrArg BitVec.toNat full
        simp only [BitVec.toNat_ofNat, BitVec.neg_one_eq_allOnes, BitVec.toNat_allOnes] at full
        omega
      · rw [unpackExponent_packComponents]
        decide

/-- What there is room for stays finite and does not become zero. -/
theorem unpack_pack_normal (s : Sign) {m : Nat} {e : Int} (pos : 0 < m) (h : Normal m e) :
    ∃ s' m' e' pos', (Float.Model.pack (.finite s m e pos)).unpack = .finite s' m' e' pos' := by
  have size : m.log2 = 52 := by
    have := (Nat.le_log2 (Nat.ne_of_gt pos)).mpr h.large
    have := (Nat.log2_lt (Nat.ne_of_gt pos)).mpr h.small
    omega
  obtain ⟨_, _, least, most⟩ := h
  obtain ⟨biased, hbiased⟩ : ∃ n : Nat, e + 1075 = n := ⟨(e + 1075).toNat, by omega⟩
  have packed : UnpackedFloat.pack .binary64 (.finite s m e pos) =
      packComponents .binary64 s (BitVec.ofNat _ biased) (BitVec.ofNat _ m) := by
    have exponent : (e + (Format.binary64.exponentBias : Int) +
        (Format.binary64.mantissaBitsWithoutImplicit : Int)).toNat = biased := by
      show (e + 1023 + 52).toNat = biased
      omega
    unfold UnpackedFloat.pack
    dsimp only
    rw [exponent, size, if_neg (by omega), if_pos (by decide)]
  have notFull : (BitVec.ofNat 11 biased) ≠ -1#11 := by
    intro full
    have full := congrArg BitVec.toNat full
    simp only [BitVec.toNat_ofNat, BitVec.neg_one_eq_allOnes, BitVec.toNat_allOnes] at full
    omega
  have notZero : (BitVec.ofNat 11 biased) ≠ 0#11 := by
    intro zero
    have zero := congrArg BitVec.toNat zero
    simp only [BitVec.toNat_ofNat] at zero
    omega
  have positive (fraction : BitVec 52) : 0 < (1#1 ++ fraction).toNat := by
    rw [BitVec.toNat_append]
    exact Nat.lt_of_lt_of_le (by decide) Nat.left_le_or
  show ∃ s' m' e' pos', UnpackedFloat.unpack .binary64 (UnpackedFloat.pack .binary64 _) = _
  rw [packed]
  unfold UnpackedFloat.unpack
  dsimp only
  rw [unpackExponent_packComponents, if_neg notFull, if_neg notZero]
  exact ⟨_, _, _, positive _, rfl⟩

/-! ## Floats -/

variable {x y : Float}

theorem not_isNaN_ofModel {u : UnpackedFloat} (h : u.isNaN = false) :
    (Float.ofModel (.pack u)).isNaN = false := not_isNaN_pack h

theorem not_isNaN_of_isFinite (h : x.isFinite = true) : x.isNaN = false := by
  unfold Float.isFinite Float.Model.isFinite at h
  unfold Float.isNaN Float.Model.isNaN
  cases hx : x.toModel.unpack with
  | notANumber =>
    rw [hx] at h
    cases h
  | infinity | zero | finite => rfl

/-! ### The order of floats -/

theorem exists_compare {u v : UnpackedFloat} (hu : u.isNaN = false) (hv : v.isNaN = false) :
    ∃ o, u.compare v = some o := by
  cases u with
  | notANumber => cases hu
  | infinity s =>
    cases v with
    | notANumber => cases hv
    | infinity => exact ⟨_, rfl⟩
    | zero | finite => cases s <;> exact ⟨_, rfl⟩
  | zero =>
    cases v with
    | notANumber => cases hv
    | infinity s | finite s => cases s <;> exact ⟨_, rfl⟩
    | zero => exact ⟨_, rfl⟩
  | finite s =>
    cases v with
    | notANumber => cases hv
    | infinity s' | finite s' => cases s <;> cases s' <;> exact ⟨_, rfl⟩
    | zero => cases s <;> exact ⟨_, rfl⟩

theorem compare_swap (u v : UnpackedFloat) : v.compare u = (u.compare v).map Ordering.swap := by
  -- Two finite floats are compared by their exponents, and then by their mantissas.
  have parts (e e' : Int) (m m' : Nat) : (compare e' e).then (compare m' m) =
      ((compare e e').then (compare m m')).swap := by
    rw [Ordering.swap_then, ← Std.OrientedCmp.eq_swap, ← Std.OrientedCmp.eq_swap]
  cases u with
  | notANumber => cases v <;> rfl
  | infinity s =>
    cases v with
    | infinity s' => cases s <;> cases s' <;> rfl
    | notANumber => rfl
    | zero | finite => cases s <;> rfl
  | zero s =>
    cases v with
    | infinity s' | finite s' => cases s' <;> rfl
    | notANumber | zero => rfl
  | finite s m e =>
    cases v with
    | infinity s' => cases s' <;> rfl
    | notANumber => rfl
    | zero => cases s <;> rfl
    | finite s' m' e' =>
      cases s <;> cases s'
      · exact congrArg some (congrArg Ordering.swap (parts e e' m m'))
      · rfl
      · rfl
      · exact congrArg some (parts e e' m m')

theorem lt_iff : x < y ↔ x.toModel.unpack.compare y.toModel.unpack = some .lt := by
  show decide (x.toModel < y.toModel) = true ↔ _
  rw [decide_eq_true_iff]
  exact beq_iff_eq

theorem beq_iff : (x == y) = true ↔ x.toModel.unpack.compare y.toModel.unpack = some .eq := by
  show (x.toModel.unpack.compare y.toModel.unpack == some .eq) = true ↔ _
  exact beq_iff_eq

theorem compareFloats_eq (x y : Float) :
    Value.compareFloats x y = x.toModel.unpack.compare y.toModel.unpack := by
  unfold Value.compareFloats
  rw [if_congr lt_iff rfl rfl, if_congr lt_iff rfl rfl, if_congr beq_iff rfl rfl,
    compare_swap x.toModel.unpack y.toModel.unpack]
  generalize x.toModel.unpack.compare y.toModel.unpack = o
  rcases o with _ | _ | _ | _ <;> rfl

/-- Floats are compared the same way from either side. -/
theorem compareFloats_swap (x y : Float) :
    Value.compareFloats y x = (Value.compareFloats x y).map Ordering.swap := by
  rw [compareFloats_eq, compareFloats_eq, compare_swap]

/-- Of two floats that are no NaN one is smaller than the other, or they are equal. -/
theorem exists_compareFloats (hx : x.isNaN = false) (hy : y.isNaN = false) :
    ∃ o, Value.compareFloats x y = some o := by
  rw [compareFloats_eq]
  exact exists_compare hx hy

/-! ### Operations -/

theorem not_isNaN_round (s : Sign) (m : Nat) (e : Int) :
    (round .binary64 s m e).isNaN = false := by
  unfold UnpackedFloat.round roundWithAccuracy
  dsimp only
  split <;> rfl

theorem not_isNaN_normalize (m : Int) (e : Int) (s : Sign) :
    (normalize .binary64 m e s).isNaN = false := by
  unfold UnpackedFloat.normalize
  split
  · exact not_isNaN_round _ _ _
  · rfl
  · exact not_isNaN_round _ _ _

/-- A finite float can be added to anything but a NaN. -/
theorem not_isNaN_add (hx : x.isNaN = false) (hy : y.isFinite = true) : (x + y).isNaN = false := by
  unfold Float.isNaN Float.Model.isNaN at hx
  unfold Float.isFinite Float.Model.isFinite at hy
  refine not_isNaN_ofModel (u := UnpackedFloat.add .binary64 x.toModel.unpack y.toModel.unpack) ?_
  generalize x.toModel.unpack = u at hx
  generalize y.toModel.unpack = v at hy
  cases v with
  | notANumber | infinity => cases hy
  | zero s =>
    cases u with
    | notANumber => cases hx
    | infinity => rfl
    | zero s' =>
      unfold UnpackedFloat.add
      dsimp only
      split <;> rfl
    | finite => rfl
  | finite s m e pos =>
    cases u with
    | notANumber => cases hx
    | infinity | zero => rfl
    | finite => exact not_isNaN_normalize _ _ _

/-- What is no NaN can be divided by a finite float other than zero. -/
theorem not_isNaN_div {s : Sign} {m : Nat} {e : Int} {pos : 0 < m} (hx : x.isNaN = false)
    (hy : y.toModel.unpack = .finite s m e pos) : (x / y).isNaN = false := by
  unfold Float.isNaN Float.Model.isNaN at hx
  refine not_isNaN_ofModel (u := UnpackedFloat.div .binary64 x.toModel.unpack y.toModel.unpack) ?_
  rw [hy]
  generalize x.toModel.unpack = u at hx
  cases u with
  | notANumber => cases hx
  | infinity | zero => rfl
  | finite =>
    unfold UnpackedFloat.div roundWithAccuracy
    dsimp only
    split <;> rfl

/-! ## Integers and lengths -/

theorem isFinite_ofInt64 (i : Int64) : (ofInt64 i).isFinite = true := by
  have least := i.le_toInt
  have most := i.toInt_lt
  unfold ofInt64
  show (Float.Model.pack (normalize .binary64 i.toInt 0 .positive)).unpack.isFinite = true
  unfold UnpackedFloat.normalize
  split
  · next negative =>
    have := Int.compare_eq_lt.mp negative
    obtain ⟨m, e, pos, rounded, normal⟩ :=
      round_normal .negative (m := (-i.toInt).toNat) (by omega) (by omega)
    rw [rounded]
    obtain ⟨_, _, _, _, finite⟩ := unpack_pack_normal .negative pos normal
    rw [finite]
    rfl
  · decide
  · next positive =>
    have := Int.compare_eq_gt.mp positive
    obtain ⟨m, e, pos, rounded, normal⟩ :=
      round_normal .positive (m := i.toInt.toNat) (by omega) (by omega)
    rw [rounded]
    obtain ⟨_, _, _, _, finite⟩ := unpack_pack_normal .positive pos normal
    rw [finite]
    rfl

/-- The length of a list that is not empty is a finite float other than zero. -/
theorem unpack_ofLength {n : Nat} (pos : 0 < n) :
    ∃ s m e pos', (ofLength n).toModel.unpack = .finite s m e pos' := by
  have positive : 0 < (UInt64.ofNatClamp n).toNat := by
    unfold UInt64.ofNatClamp
    split
    · exact pos
    · decide
  have bound := (UInt64.ofNatClamp n).toNat_lt
  obtain ⟨m, e, pos', rounded, normal⟩ := round_normal .positive positive bound
  have length : ofLength n = .ofModel (.pack (.finite .positive m e pos')) := by
    rw [← rounded]
    show Float.ofModel (.pack (normalize .binary64 (UInt64.ofNatClamp n).toNat 0 .positive)) = _
    unfold UnpackedFloat.normalize
    rw [Int.compare_eq_gt.mpr (by omega)]
    rfl
  rw [length]
  exact unpack_pack_normal .positive _ normal

theorem not_isNaN_div_ofLength {n : Nat} (hx : x.isNaN = false) (pos : 0 < n) :
    (x / ofLength n).isNaN = false := by
  obtain ⟨s, m, e, pos', length⟩ := unpack_ofLength pos
  exact not_isNaN_div hx length

end EntityQuery.Decimal
