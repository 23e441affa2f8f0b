import Ns3.Core.Int64x64Division

/-!
# Multiplication by an inverse

`Invert` takes the reciprocal of an integer to 128 bits behind the point, and `MulByInvert`
multiplies with it. They convert between the units of time.
-/

namespace Ns3.Core

open Nat BitVec Reciprocal CairoUint128

namespace Native

def umulByInvert (a b : BitVec 128) : BitVec 128 :=
  let ah := a >>> 64
  let bh := b >>> 64
  let al := a &&& promote hpMaskLo
  let bl := b &&& promote hpMaskLo
  let hi := ah * bh
  let mid := ah * bl + al * bh
  let mid := mid >>> 64
  hi + mid

def mulByInvert (v o : BitVec 128) : BitVec 128 :=
  let negResult := v.slt 0
  let a := if negResult then -v else v
  let result := umulByInvert a o
  if negResult then -result else result

/-- The constructor from an integer. -/
def ofInteger (v : BitVec 64) : BitVec 128 := v.signExtend 128 <<< 64

/-- The constructor from explicit high and low values. -/
def ofParts (hi lo : BitVec 64) : BitVec 128 := hi.signExtend 128 <<< 64 ||| lo.setWidth 128

def getHigh (v : BitVec 128) : BitVec 64 := (v.sshiftRight 64).setWidth 64

def getInt (v : BitVec 128) : BitVec 64 :=
  let negative := v.slt 0
  let value := if negative then -v else v
  let retval := (value >>> 64).setWidth 64
  if negative then -retval else retval

def invert (fuel : Nat) (v : BitVec 64) : Option (BitVec 128) :=
  if v.ule 1 then none
  else (udiv fuel ((1 : BitVec 128) <<< 64) (v.setWidth 128)).map fun result =>
    if getHigh (mulByInvert (ofParts v 0) result) ≠ 1 then result + 1 else result

end Native

namespace CairoUint128

def umulByInvert (a b : CairoUint128) : CairoUint128 :=
  let hi := mul64 a.hi b.hi
  let mid := add (mul64 a.hi b.lo) (mul64 a.lo b.hi)
  let mid := ⟨mid.hi, 0⟩
  add hi mid

def mulByInvert (v o : CairoUint128) : CairoUint128 :=
  let sign := v.negative
  let a := if sign then v.negate else v
  let result := umulByInvert a o
  if sign then result.negate else result

/-- The constructor from an integer. -/
def ofInteger (v : UInt64) : CairoUint128 := ⟨0, v⟩

def getHigh (v : CairoUint128) : UInt64 := v.hi

def getInt (v : CairoUint128) : UInt64 :=
  let negative := v.negative
  let value := if negative then v.negate else v
  if negative then -value.hi else value.hi

def invert (fuel : Nat) (v : UInt64) : Option CairoUint128 :=
  if v ≤ 1 then none
  else (udiv fuel ⟨0, 1⟩ ⟨v, 0⟩).map fun result =>
    if getHigh (mulByInvert ⟨0, v⟩ result) ≠ 1 then add result ⟨1, 0⟩ else result

end CairoUint128

namespace Native

theorem toNat_umulByInvert (a b : BitVec 128) : (umulByInvert a b).toNat =
      (a.toNat / 2 ^ 64 * (b.toNat / 2 ^ 64) +
        (a.toNat / 2 ^ 64 * (b.toNat % 2 ^ 64) + a.toNat % 2 ^ 64 * (b.toNat / 2 ^ 64)) %
          2 ^ 128 / 2 ^ 64) % 2 ^ 128 := by
  unfold umulByInvert
  simp only [BitVec.toNat_add, toNat_mul, toNat_ushiftRight, toNat_and_lo,
    shiftRight_eq_div_pow, mod_add_mod, add_mod_mod]

/-- An integer has no fraction, so that no product of the fractions is dropped. -/
theorem umulByInvert_integer {a b : BitVec 128} {n : Nat} (integer : a.toNat = n * 2 ^ 64)
    (n_le : n ≤ 2 ^ 63) : (umulByInvert a b).toNat = n * b.toNat / 2 ^ 64 := by
  have b_lt := b.isLt
  have words := div_add_mod' b.toNat (2 ^ 64)
  have high : n * (b.toNat / 2 ^ 64) ≤ 2 ^ 63 * (b.toNat / 2 ^ 64) := Nat.mul_le_mul_right _ n_le
  have low : n * (b.toNat % 2 ^ 64) ≤ 2 ^ 63 * (b.toNat % 2 ^ 64) := Nat.mul_le_mul_right _ n_le
  have product : n * b.toNat = n * (b.toNat / 2 ^ 64) * 2 ^ 64 + n * (b.toNat % 2 ^ 64) := by
    conv_lhs => rw [← words]
    ring
  rw [toNat_umulByInvert, integer, product, Nat.mul_div_cancel _ (by decide), mul_mod_left,
    Nat.zero_mul, add_zero]
  omega

/-- The value with the sign of another. -/
def signed (negative : Bool) (magnitude : Nat) : Int :=
  if negative then -(magnitude : Int) else magnitude

theorem signed_tdiv (negative : Bool) (m n : Nat) :
    (signed negative m).tdiv n = signed negative (m / n) := by
  unfold signed
  split
  · rw [Int.neg_tdiv]
    rfl
  · rfl

theorem signed_natAbs (x : Int) : signed (decide (x < 0)) x.natAbs = x := by
  unfold signed
  split
  case isTrue negative =>
    rw [decide_eq_true_eq] at negative
    omega
  case isFalse negative =>
    rw [decide_eq_true_eq] at negative
    omega

theorem ofInteger_eq (x : BitVec 64) : ofInteger x = BitVec.ofInt 128 (x.toInt * 2 ^ 64) := by
  unfold ofInteger
  rw [shiftLeft_eq_mul_twoPow, ofInt_mul]
  rfl

theorem toInt_ofInteger (x : BitVec 64) : (ofInteger x).toInt = x.toInt * 2 ^ 64 := by
  have lower := x.le_toInt
  have upper := x.toInt_lt
  rw [ofInteger_eq, toInt_ofInt]
  exact Int.bmod_eq_of_le (by omega) (by omega)

/-- **The product of an integer with an inverse**, rounded toward zero. -/
theorem mulByInvert_eq {x : BitVec 64} (o : BitVec 128) : mulByInvert (ofInteger x) o =
      BitVec.ofInt 128 (signed (decide (x.toInt < 0)) (x.toInt.natAbs * o.toNat / 2 ^ 64)) := by
  have lower := x.le_toInt
  have upper := x.toInt_lt
  have value := toInt_ofInteger x
  have sign : (ofInteger x).slt 0 = decide (x.toInt < 0) := by
    rw [slt_zero, value]
    exact decide_eq_decide.mpr (by omega)
  have magnitude : (if (ofInteger x).slt 0 then -ofInteger x else ofInteger x).toNat =
      x.toInt.natAbs * 2 ^ 64 := by
    rw [toNat_magnitude, value, Int.natAbs_mul]
    rfl
  have product := congrArg (BitVec.ofNat 128) (umulByInvert_integer (b := o) magnitude (by omega))
  rw [ofNat_toNat, setWidth_eq] at product
  unfold mulByInvert
  dsimp only
  rw [product, sign]
  exact ofNat_neg _ _

theorem getInt_eq {v : BitVec 128} (bound : v.toInt.natAbs < 2 ^ 127) :
    (getInt v).toInt = v.toInt.tdiv (2 ^ 64 : Nat) := by
  have whole : ((if v.slt 0 then -v else v) >>> 64).setWidth 64 =
      BitVec.ofNat 64 (v.toInt.natAbs / 2 ^ 64) := by
    apply eq_of_toNat_eq
    rw [toNat_setWidth, toNat_ushiftRight, toNat_magnitude, toNat_ofNat, shiftRight_eq_div_pow]
  have signs : (if v.slt 0 then -BitVec.ofNat 64 (v.toInt.natAbs / 2 ^ 64)
      else BitVec.ofNat 64 (v.toInt.natAbs / 2 ^ 64)) =
        BitVec.ofInt 64 (signed (v.slt 0) (v.toInt.natAbs / 2 ^ 64)) := by
    unfold signed
    split
    · rw [ofInt_neg, ofInt_natCast]
    · exact (ofInt_natCast 64 _).symm
  have fits : (signed (v.slt 0) (v.toInt.natAbs / 2 ^ 64)).natAbs < 2 ^ 63 := by
    unfold signed
    split <;> omega
  unfold getInt
  dsimp only
  rw [whole, signs, toInt_ofInt, Int.bmod_eq_of_le (by omega) (by omega), ← signed_tdiv,
    slt_zero, signed_natAbs]

/-- The trial multiplication tells whether the divisor divides. -/
theorem getHigh_trial {v : BitVec 64} (v_gt : 1 < v.toNat) (v_lt : v.toNat < 2 ^ 63) :
    getHigh (mulByInvert (ofParts v 0) (.ofNat 128 (2 ^ 128 / v.toNat))) = 1 ↔
      2 ^ 128 / v.toNat * v.toNat = 2 ^ 128 := by
  have split := div_add_mod' (2 ^ 128) v.toNat
  have rest := mod_lt (2 ^ 128) (zero_lt_of_lt v_gt)
  have half : 2 ^ 128 / v.toNat ≤ 2 ^ 128 / 2 := div_le_div_left v_gt (by decide)
  have parts : ofParts v 0 = ofInteger v := BitVec.or_zero
  have value : v.toInt = v.toNat := toInt_eq_toNat_of_lt (by omega)
  generalize 2 ^ 128 / v.toNat = inverse at *
  have product_lt : v.toNat * inverse / 2 ^ 64 ≤ 2 ^ 64 := by
    rw [mul_comm]
    omega
  rw [parts, mulByInvert_eq, value, decide_eq_false (by omega), Int.natAbs_natCast,
    toNat_ofNat, mod_eq_of_lt (by omega)]
  have high : getHigh (BitVec.ofInt 128 (signed false (v.toNat * inverse / 2 ^ 64))) =
      .ofNat 64 (v.toNat * inverse / 2 ^ 64 / 2 ^ 64) := by
    have positive : (BitVec.ofNat 128 (v.toNat * inverse / 2 ^ 64)).msb = false := by
      rw [msb_eq_false_iff_two_mul_lt, toNat_ofNat]
      omega
    unfold getHigh signed
    rw [if_neg Bool.false_ne_true, ofInt_natCast, sshiftRight_eq_of_msb_false positive]
    apply eq_of_toNat_eq
    rw [toNat_setWidth, toNat_ushiftRight, toNat_ofNat, toNat_ofNat, shiftRight_eq_div_pow]
    omega
  have one : (1 : BitVec 64).toNat = 1 := by decide
  rw [high, ← toNat_inj, toNat_ofNat, one, mul_comm v.toNat]
  omega

/-- **The inverse** is the reciprocal, rounded up. -/
theorem invert_eq {v : BitVec 64} (v_gt : 1 < v.toNat) (v_lt : v.toNat < 2 ^ 63) {fuel : Nat}
    (enough : 128 < fuel) :
    invert fuel v = some (.ofNat 128 (reciprocal (2 ^ 128) v.toNat)) := by
  have wide : (v.setWidth 128).toNat = v.toNat := by
    rw [toNat_setWidth]
    omega
  have nonzero : v.setWidth 128 ≠ 0 := by
    intro zero
    rw [zero] at wide
    exact absurd v_gt (by rw [← wide]; decide)
  have one : ((1 : BitVec 128) <<< 64).toNat = 2 ^ 64 := by decide
  have asserted : ¬ v.ule 1 = true := by
    rw [ule_iff_toNat_le]
    exact Nat.not_le_of_lt v_gt
  unfold invert
  have square : 2 ^ 64 * 2 ^ 64 = 2 ^ 128 := by decide
  rw [if_neg asserted, udiv_eq nonzero (by omega) enough, wide, one, square, Option.map_some]
  apply congrArg some
  unfold reciprocal
  by_cases whole : 2 ^ 128 / v.toNat * v.toNat = 2 ^ 128
  · rw [if_neg (not_not_intro ((getHigh_trial v_gt v_lt).mpr whole)), if_pos whole]
  · rw [if_pos ((getHigh_trial v_gt v_lt).not.mpr whole), if_neg whole, ofNat_add]
    rfl

end Native

namespace CairoUint128

theorem toNat_words (a : CairoUint128) :
    a.toBitVec.toNat / 2 ^ 64 = a.hi.toNat ∧ a.toBitVec.toNat % 2 ^ 64 = a.lo.toNat := by
  have lo := a.lo.toNat_lt
  rw [toNat_toBitVec]
  unfold toNat
  omega

theorem toBitVec_umulByInvert (a b : CairoUint128) :
    (umulByInvert a b).toBitVec = Native.umulByInvert a.toBitVec b.toBitVec := by
  have upper : ∀ x : CairoUint128, (⟨x.hi, 0⟩ : CairoUint128).toNat = x.toNat / 2 ^ 64 := by
    intro x
    have lo := x.lo.toNat_lt
    have zero : (0 : UInt64).toNat = 0 := UInt64.toNat_zero
    unfold toNat
    dsimp only
    omega
  apply eq_of_toNat_eq
  rw [Native.toNat_umulByInvert, toNat_toBitVec, (toNat_words a).1, (toNat_words a).2,
    (toNat_words b).1, (toNat_words b).2]
  unfold umulByInvert
  rw [toNat_add, upper, toNat_add, toNat_mul64, toNat_mul64, toNat_mul64]

theorem toBitVec_mulByInvert (v o : CairoUint128) :
    (mulByInvert v o).toBitVec = Native.mulByInvert v.toBitVec o.toBitVec := by
  unfold mulByInvert Native.mulByInvert
  rw [apply_ite toBitVec, toBitVec_negate, toBitVec_umulByInvert, apply_ite toBitVec,
    toBitVec_negate, negative_iff]

theorem toBitVec_ofInteger (v : UInt64) : (ofInteger v).toBitVec = Native.ofInteger v.toBitVec := by
  have v_lt := v.toNat_lt
  have value := toInt_eq_toNat_cond v.toBitVec
  have same : v.toBitVec.toNat = v.toNat := rfl
  have zero : (0 : UInt64).toNat = 0 := UInt64.toNat_zero
  apply eq_of_toNat_eq
  rw [toNat_toBitVec, Native.ofInteger_eq, toNat_ofInt]
  unfold toNat ofInteger
  dsimp only
  split at value <;> omega

theorem upper_toBitVec (v : CairoUint128) : (v.toBitVec >>> 64).setWidth 64 = v.hi.toBitVec := by
  have hi := v.hi.toNat_lt
  apply eq_of_toNat_eq
  rw [toNat_setWidth, toNat_ushiftRight, shiftRight_eq_div_pow, (toNat_words v).1]
  exact mod_eq_of_lt hi

theorem toBitVec_getInt (v : CairoUint128) : (getInt v).toBitVec = Native.getInt v.toBitVec := by
  unfold getInt Native.getInt
  rw [apply_ite UInt64.toBitVec, UInt64.toBitVec_neg, ← upper_toBitVec, apply_ite toBitVec,
    toBitVec_negate, negative_iff]

theorem toBitVec_getHigh (v : CairoUint128) : (getHigh v).toBitVec = Native.getHigh v.toBitVec := by
  unfold getHigh Native.getHigh
  rw [← upper_toBitVec]
  apply eq_of_getLsbD_eq
  intro i i_lt
  have inside : 64 + i < 128 := by omega
  have below : ¬ 128 ≤ i := by omega
  simp [getLsbD_sshiftRight, i_lt, inside, below]

/-- **The inverse of Cairo** is the native one. -/
theorem invert_eq {v : UInt64} (v_gt : 1 < v.toNat) (v_lt : v.toNat < 2 ^ 63) {fuel : Nat}
    (enough : 128 < fuel) :
    (invert fuel v).map toBitVec = some (.ofNat 128 (reciprocal (2 ^ 128) v.toNat)) := by
  have one : (⟨0, 1⟩ : CairoUint128).toNat = 2 ^ 64 := rfl
  have divisor : (⟨v, 0⟩ : CairoUint128).toNat = v.toNat := by
    unfold toNat
    rw [UInt64.toNat_zero, Nat.zero_mul, zero_add]
  have divided := udiv_eq (a := ⟨0, 1⟩) (b := ⟨v, 0⟩) (by omega) (by omega) enough
  have square : 2 ^ 64 * 2 ^ 64 = 2 ^ 128 := by decide
  rw [one, divisor, square] at divided
  obtain ⟨result, run, value⟩ := Option.map_eq_some_iff.mp divided
  have asserted : ¬ v ≤ 1 := by
    rw [UInt64.le_iff_toNat_le]
    exact Nat.not_le_of_lt v_gt
  have trial : getHigh (mulByInvert ⟨0, v⟩ result) = 1 ↔ 2 ^ 128 / v.toNat * v.toNat = 2 ^ 128 := by
    have native := Native.getHigh_trial (v := v.toBitVec) v_gt v_lt
    have parts : Native.ofParts v.toBitVec 0 = (ofInteger v).toBitVec :=
      BitVec.or_zero.trans (toBitVec_ofInteger v).symm
    rw [parts, UInt64.toNat_toBitVec, ← value, ← toBitVec_mulByInvert, ← toBitVec_getHigh] at native
    rw [← native, ← UInt64.toBitVec_inj]
    rfl
  unfold invert reciprocal
  rw [if_neg asserted, run, Option.map_some, Option.map_some]
  apply congrArg some
  by_cases whole : 2 ^ 128 / v.toNat * v.toNat = 2 ^ 128
  · rw [if_neg (not_not_intro (trial.mpr whole)), if_pos whole, value]
  · rw [if_pos (trial.not.mpr whole), if_neg whole]
    apply eq_of_toNat_eq
    rw [toNat_toBitVec, toNat_add, ← toNat_toBitVec, value, toNat_ofNat, toNat_ofNat, mod_add_mod]
    rfl

end CairoUint128

/-- The product with the inverse, without its fraction. -/
theorem getInt_mulByInvert {v : Nat} (v_gt : 1 < v) (v_lt : v < 2 ^ 63) {x : BitVec 64}
    (x_lt : x.toInt.natAbs < 2 ^ 63) :
    (Native.getInt (Native.mulByInvert (Native.ofInteger x)
      (.ofNat 128 (reciprocal (2 ^ 128) v)))).toInt = x.toInt.tdiv v := by
  obtain ⟨-, upper⟩ := reciprocal_bounds (zero_lt_of_lt v_gt) (2 ^ 128)
  have twice : reciprocal (2 ^ 128) v * 2 ≤ reciprocal (2 ^ 128) v * v := Nat.mul_le_mul_left _ v_gt
  have within : x.toInt.natAbs * v ≤ 2 ^ 63 * 2 ^ 63 := Nat.mul_le_mul x_lt.le v_lt.le
  have quotient := @Reciprocal.mul_reciprocal_div (2 ^ 128) v x.toInt.natAbs
    (zero_lt_of_lt v_gt) (by decide) (by omega)
  have product_le : x.toInt.natAbs * reciprocal (2 ^ 128) v ≤
      2 ^ 63 * (2 ^ 127 + 2 ^ 63) := Nat.mul_le_mul x_lt.le (by omega)
  have value : (BitVec.ofInt 128 (Native.signed (decide (x.toInt < 0))
      (x.toInt.natAbs * reciprocal (2 ^ 128) v / 2 ^ 64))).toInt =
        Native.signed (decide (x.toInt < 0))
          (x.toInt.natAbs * reciprocal (2 ^ 128) v / 2 ^ 64) := by
    rw [toInt_ofInt]
    unfold Native.signed
    split <;> exact Int.bmod_eq_of_le (by omega) (by omega)
  rw [Native.mulByInvert_eq, toNat_ofNat, mod_eq_of_lt (by omega), Native.getInt_eq,
    value, Native.signed_tdiv, Nat.div_div_eq_div_mul]
  · have square : 2 ^ 64 * 2 ^ 64 = 2 ^ 128 := by decide
    rw [square, quotient, ← Native.signed_tdiv, Native.signed_natAbs]
  · rw [value]
    unfold Native.signed
    split <;> omega

/-- **Conversion by an inverse** is division, rounded toward zero. -/
theorem mulByInvert_divides {fuel : Nat} (enough : 128 < fuel) (v x : UInt64)
    (v_gt : 1 < v.toNat) (v_lt : v.toNat < 2 ^ 63) (x_lt : x.toBitVec.toInt.natAbs < 2 ^ 63) :
    (Native.invert fuel v.toBitVec).map (fun inverse =>
        (Native.getInt (Native.mulByInvert (Native.ofInteger x.toBitVec) inverse)).toInt) =
      some (x.toBitVec.toInt.tdiv v.toNat) ∧
    (invert fuel v).map (fun inverse =>
        (mulByInvert (.ofInteger x) inverse).getInt.toBitVec.toInt) =
      some (x.toBitVec.toInt.tdiv v.toNat) := by
  constructor
  · rw [Native.invert_eq v_gt v_lt enough, Option.map_some]
    exact congrArg some (getInt_mulByInvert v_gt v_lt x_lt)
  · obtain ⟨inverse, run, value⟩ := Option.map_eq_some_iff.mp (invert_eq v_gt v_lt enough)
    rw [run, Option.map_some, toBitVec_getInt, toBitVec_mulByInvert, toBitVec_ofInteger, value]
    exact congrArg some (getInt_mulByInvert v_gt v_lt x_lt)

/-- -7 / 2 -/
theorem mulByInvert_divides_halves : (Native.invert 129 2).map (fun inverse =>
      (Native.getInt (Native.mulByInvert (Native.ofInteger (-7)) inverse)).toInt) = some (-3) := by
  have divides := (mulByInvert_divides (by decide : 128 < 129) 2 (-7) (by decide) (by decide)
    (by decide)).1
  exact divides

end Ns3.Core
