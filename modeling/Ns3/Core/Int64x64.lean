import Mathlib.Data.BitVec
import Ns3.Library.DoubleWord

/-!
# Multiplication of `int64x64_t`

Fixed-point numbers with 64 bits before the point and 64 behind it: the implementation on
native 128-bit integers and the one on the wide integers of Cairo. `none` is an abort.
-/

namespace Ns3.Core

open Nat BitVec DoubleWord

/-! ## 128-bit integers -/

namespace Native

def hpMaskLo : UInt64 := 0xffffffffffffffff

/-- The complement is taken in 64 bits. -/
def hpMaskHi : UInt64 := ~~~hpMaskLo

/-- A 64-bit constant next to a 128-bit operand. -/
def promote (mask : UInt64) : BitVec 128 := mask.toBitVec.setWidth 128

/-- The magnitudes of the operands, and whether the result is negative. The negation of the
least number wraps to itself, which is its magnitude as an unsigned one. -/
def outputSign (sa sb : BitVec 128) : BitVec 128 × BitVec 128 × Bool :=
  let negA := sa.slt 0
  let negB := sb.slt 0
  (if negA then -sa else sa, if negB then -sb else sb, negA != negB)

def umul (a b : BitVec 128) : Option (BitVec 128) :=
  let aL := a &&& promote hpMaskLo
  let bL := b &&& promote hpMaskLo
  let aH := (a >>> 64) &&& promote hpMaskLo
  let bH := (b >>> 64) &&& promote hpMaskLo
  let loPart := aL * bL
  let midPart := aL * bH + aH * bL
  let hiPart := aH * bH
  if hiPart &&& promote hpMaskHi ≠ 0 then none
  else
    let result := (loPart >>> 64) + (midPart &&& promote hpMaskLo)
    some (result + ((midPart >>> 64) + (hiPart &&& promote hpMaskLo)) <<< 64)

def mul (v o : BitVec 128) : Option (BitVec 128) :=
  match outputSign v o with
  | (a, b, negative) => (umul a b).map fun result => if negative then -result else result

end Native

/-! ## Cairo -/

/-- `cairo_uint128_t`, also for the signed numbers. -/
structure CairoUint128 where
  lo : UInt64
  hi : UInt64
  deriving DecidableEq

namespace CairoUint128

def ofUint64 (i : UInt64) : CairoUint128 := ⟨i, 0⟩

def add (a b : CairoUint128) : CairoUint128 :=
  let hi := a.hi + b.hi
  let lo := a.lo + b.lo
  ⟨lo, if lo < a.lo then hi + 1 else hi⟩

def negate (a : CairoUint128) : CairoUint128 := add ⟨~~~a.lo, ~~~a.hi⟩ (ofUint64 1)

def negative (a : CairoUint128) : Bool := a.hi.toBitVec.slt 0

/-- `_cairo_uint64x64_128_mul`, by halves of the words. -/
def mul64 (a b : UInt64) : CairoUint128 :=
  let al := a &&& 0xffffffff
  let ah := a >>> 32
  let bl := b &&& 0xffffffff
  let bh := b >>> 32
  let r0 := al * bl
  let r1 := al * bh
  let r2 := ah * bl
  let r3 := ah * bh
  let r1 := r1 + (r0 >>> 32)
  let r1 := r1 + r2
  let r3 := if r1 < r2 then r3 + ((1 : UInt64) <<< 32) else r3
  ⟨(r1 <<< 32) + (r0 &&& 0xffffffff), r3 + (r1 >>> 32)⟩

/-- `_cairo_uint128_lsl` -/
def lsl (a : CairoUint128) (shift : Nat) : CairoUint128 :=
  let (a, shift) := if 64 ≤ shift then ((⟨0, a.lo⟩ : CairoUint128), shift - 64) else (a, shift)
  if shift ≠ 0 then
    ⟨a.lo <<< UInt64.ofNat shift,
      (a.hi <<< UInt64.ofNat shift) + (a.lo >>> UInt64.ofNat (64 - shift))⟩
  else a

def outputSign (sa sb : CairoUint128) : CairoUint128 × CairoUint128 × Bool :=
  let negA := sa.negative
  let negB := sb.negative
  (if negA then sa.negate else sa, if negB then sb.negate else sb,
    (negA && !negB) || (!negA && negB))

def umul (a b : CairoUint128) : Option CairoUint128 :=
  let loPart := mul64 a.lo b.lo
  let midPart := add (mul64 a.lo b.hi) (mul64 a.hi b.lo)
  let hiPart := mul64 a.hi b.hi
  if hiPart.hi ≠ 0 then none
  else
    let result := add (ofUint64 loPart.hi) (ofUint64 midPart.lo)
    let res1 := lsl (add (ofUint64 midPart.hi) (ofUint64 hiPart.lo)) 64
    some (add result res1)

def mul (v o : CairoUint128) : Option CairoUint128 :=
  match outputSign v o with
  | (a, b, sign) => (umul a b).map fun result => if sign then result.negate else result

/-- The 128 bits of the two words. -/
def toBitVec (a : CairoUint128) : BitVec 128 := a.hi.toBitVec ++ a.lo.toBitVec

/-- The two words of 128 bits. -/
def ofBitVec (v : BitVec 128) : CairoUint128 :=
  ⟨⟨v.setWidth 64⟩, ⟨(v >>> 64).setWidth 64⟩⟩

end CairoUint128

/-! ## The exact product -/

/-- `sign * floor (|a| * |b| / 2^64)` -/
def product (a b : Int) : Int :=
  let magnitude : Int := (a.natAbs * b.natAbs / 2 ^ 64 : Nat)
  if (a < 0) ≠ (b < 0) then -magnitude else magnitude

/-- The product is a number of 128 bits. -/
def Fits (a b : Int) : Prop := -2 ^ 127 ≤ product a b ∧ product a b < 2 ^ 127

/-- The result is exact, or an abort on a product that does not fit. -/
def ExactOrAborts (a b : Int) (result : Option (BitVec 128)) : Prop :=
  match result with
  | some v => v.toInt = product a b
  | none => ¬ Fits a b

theorem natAbs_le (v : BitVec 128) : v.toInt.natAbs ≤ 2 ^ 127 := by
  have lower := v.le_toInt
  have upper := v.toInt_lt
  omega

namespace Native

theorem toNat_promote (mask : UInt64) : (promote mask).toNat = mask.toNat := by
  unfold promote
  rw [toNat_setWidth]
  have := mask.toNat_lt
  exact mod_eq_of_lt (by omega)

theorem toNat_and_lo (v : BitVec 128) : (v &&& promote hpMaskLo).toNat = v.toNat % 2 ^ 64 := by
  rw [toNat_and, toNat_promote]
  exact and_two_pow_sub_one_eq_mod _ 64

theorem and_hi (v : BitVec 128) : v &&& promote hpMaskHi = 0 := by
  have empty : promote hpMaskHi = 0 := by decide
  rw [empty]
  exact BitVec.and_zero

theorem slt_zero (v : BitVec 128) : v.slt 0 = decide (v.toInt < 0) := rfl

theorem toNat_magnitude (v : BitVec 128) : (if v.slt 0 then -v else v).toNat = v.toInt.natAbs := by
  have bound := v.isLt
  have signed := toInt_eq_toNat_cond v
  rw [slt_zero]
  by_cases negative : v.toInt < 0
  · rw [if_pos (decide_eq_true negative), toNat_neg]
    split at signed <;> omega
  · rw [if_neg (by simpa using negative)]
    split at signed <;> omega

/-- The sums of the partial products, without the intermediate wraps. -/
theorem toNat_sums (loPart midPart hiPart : BitVec 128) :
    ((loPart >>> 64) + (midPart &&& promote hpMaskLo) +
      ((midPart >>> 64) + (hiPart &&& promote hpMaskLo)) <<< 64).toNat =
    (loPart.toNat / 2 ^ 64 + midPart.toNat + hiPart.toNat * 2 ^ 64) % 2 ^ 128 := by
  have sums := @recombine (2 ^ 64) loPart.toNat midPart.toNat hiPart.toNat
  have lo_lt := loPart.isLt
  have mid_lt := midPart.isLt
  have hi_lt := hiPart.isLt
  simp only [BitVec.toNat_add, toNat_shiftLeft, toNat_ushiftRight, toNat_and_lo,
    shiftRight_eq_div_pow, Nat.shiftLeft_eq]
  omega

/-- **The product of magnitudes** is taken in the arithmetic of 128 bits, and never aborts. -/
theorem umul_eq {a b : BitVec 128} (a_le : a.toNat ≤ 2 ^ 127) (b_le : b.toNat ≤ 2 ^ 127) :
    umul a b = some (.ofNat 128 (a.toNat * b.toNat / 2 ^ 64)) := by
  have product := @mul_words_div (2 ^ 64) (a.toNat / 2 ^ 64) (a.toNat % 2 ^ 64)
    (b.toNat / 2 ^ 64) (b.toNat % 2 ^ 64) (by decide)
  rw [div_add_mod', div_add_mod'] at product
  have middle := @middle_lt (2 ^ 64) (a.toNat / 2 ^ 64) (a.toNat % 2 ^ 64)
    (b.toNat / 2 ^ 64) (b.toNat % 2 ^ 64) (by omega) (by omega) (mod_lt _ (by decide))
    (mod_lt _ (by decide))
  have low : a.toNat % 2 ^ 64 * (b.toNat % 2 ^ 64) < 2 ^ 64 * 2 ^ 64 :=
    Nat.mul_lt_mul'' (mod_lt _ (by decide)) (mod_lt _ (by decide))
  have high : a.toNat / 2 ^ 64 * (b.toNat / 2 ^ 64) < 2 ^ 64 * 2 ^ 64 :=
    Nat.mul_lt_mul'' (by omega) (by omega)
  have upper : ∀ v : BitVec 128, ((v >>> 64) &&& promote hpMaskLo).toNat = v.toNat / 2 ^ 64 := by
    intro v
    have bound := v.isLt
    rw [toNat_and_lo, toNat_ushiftRight, shiftRight_eq_div_pow]
    omega
  unfold umul
  dsimp only
  rw [and_hi, if_neg (not_not_intro rfl)]
  apply congrArg some
  apply eq_of_toNat_eq
  rw [toNat_sums, toNat_ofNat, product]
  simp only [toNat_mul, BitVec.toNat_add, toNat_and_lo, upper]
  have square : 2 ^ 64 * 2 ^ 64 = 2 ^ 128 := by decide
  rw [square] at low high middle
  rw [mod_eq_of_lt low, mod_eq_of_lt high, ← add_mod, mod_eq_of_lt middle]

theorem ofNat_neg (magnitude : Nat) (negative : Bool) :
    (if negative then -BitVec.ofNat 128 magnitude else .ofNat 128 magnitude) =
      BitVec.ofInt 128 (if negative then -(magnitude : Int) else magnitude) := by
  cases negative
  · exact (ofInt_natCast 128 magnitude).symm
  · simp [ofInt_neg]

/-- **The native product** is the exact one in the arithmetic of 128 bits. -/
theorem mul_eq (v o : BitVec 128) : mul v o = some (.ofInt 128 (product v.toInt o.toInt)) := by
  unfold mul outputSign
  dsimp only
  rw [umul_eq (by rw [toNat_magnitude]; exact natAbs_le v)
    (by rw [toNat_magnitude]; exact natAbs_le o), Option.map_some, toNat_magnitude,
    toNat_magnitude, ofNat_neg]
  unfold product
  simp only [slt_zero, bne_iff_ne, ne_eq, decide_eq_decide, eq_iff_iff]

end Native

namespace CairoUint128

def toNat (a : CairoUint128) : Nat := a.hi.toNat * 2 ^ 64 + a.lo.toNat

theorem toNat_toBitVec (a : CairoUint128) : a.toBitVec.toNat = a.toNat := by
  unfold toBitVec toNat
  rw [toNat_append, Nat.shiftLeft_eq, mul_comm]
  exact (two_pow_add_eq_or_of_lt a.lo.toNat_lt _).symm.trans (congrArg (· + _) (mul_comm _ _))

theorem toNat_ofBitVec (v : BitVec 128) : (ofBitVec v).toNat = v.toNat := by
  have bound := v.isLt
  have lo : (ofBitVec v).lo.toNat = v.toNat % 2 ^ 64 := toNat_setWidth 64 v
  have hi : (ofBitVec v).hi.toNat = v.toNat / 2 ^ 64 := by
    have width := toNat_setWidth 64 (v >>> 64)
    rw [toNat_ushiftRight, shiftRight_eq_div_pow, mod_eq_of_lt (by omega)] at width
    exact width
  unfold toNat
  rw [lo, hi]
  exact div_add_mod' _ _

theorem toNat_ofUint64 (i : UInt64) : (ofUint64 i).toNat = i.toNat := by
  unfold toNat ofUint64
  dsimp only
  rw [UInt64.toNat_zero, Nat.zero_mul, zero_add]

theorem toNat_add (a b : CairoUint128) : (add a b).toNat = (a.toNat + b.toNat) % 2 ^ 128 := by
  have a_lo := a.lo.toNat_lt
  have b_lo := b.lo.toNat_lt
  have a_hi := a.hi.toNat_lt
  have b_hi := b.hi.toNat_lt
  unfold add toNat
  dsimp only
  split
  case isTrue carry =>
    rw [UInt64.lt_iff_toNat_lt, UInt64.toNat_add] at carry
    rw [UInt64.toNat_add, UInt64.toNat_add, UInt64.toNat_add, UInt64.toNat_one]
    omega
  case isFalse carry =>
    rw [UInt64.lt_iff_toNat_lt, UInt64.toNat_add] at carry
    rw [UInt64.toNat_add, UInt64.toNat_add]
    omega

theorem toNat_negate (a : CairoUint128) : a.negate.toNat = (2 ^ 128 - a.toNat) % 2 ^ 128 := by
  have lo := a.lo.toNat_lt
  have hi := a.hi.toNat_lt
  unfold negate
  rw [toNat_add, toNat_ofUint64]
  unfold toNat
  have size : UInt64.size = 2 ^ 64 := rfl
  rw [UInt64.toNat_not, UInt64.toNat_not, UInt64.toNat_one, size]
  omega

theorem negative_iff (a : CairoUint128) : a.negative = a.toBitVec.slt 0 := by
  have lo := a.lo.toNat_lt
  have hi := a.hi.toNat_lt
  have value := toNat_toBitVec a
  have word := toInt_eq_toNat_cond a.hi.toBitVec
  have words := toInt_eq_toNat_cond a.toBitVec
  unfold toNat at value
  have same : a.hi.toBitVec.toInt < 0 ↔ a.toBitVec.toInt < 0 := by
    have upper : a.hi.toBitVec.toNat = a.hi.toNat := rfl
    split at word <;> split at words <;> omega
  exact decide_eq_decide.mpr same

/-- By 64 places the lower word becomes the upper one. -/
theorem toNat_lsl (a : CairoUint128) : (lsl a 64).toNat = a.toNat * 2 ^ 64 % 2 ^ 128 := by
  have lo := a.lo.toNat_lt
  have shifted : lsl a 64 = ⟨0, a.lo⟩ := rfl
  rw [shifted]
  unfold toNat
  dsimp only
  rw [UInt64.toNat_zero]
  omega

/-- **The product of two words** loses no carry. -/
theorem toNat_mul64 (a b : UInt64) : (mul64 a b).toNat = a.toNat * b.toNat := by
  have a_lt := a.toNat_lt
  have b_lt := b.toNat_lt
  have low : ∀ x : UInt64, (x &&& 0xffffffff).toNat = x.toNat % 2 ^ 32 := by
    intro x
    rw [UInt64.toNat_and]
    exact and_two_pow_sub_one_eq_mod _ 32
  have high : ∀ x : UInt64, (x >>> 32).toNat = x.toNat / 2 ^ 32 := by
    intro x
    rw [UInt64.toNat_shiftRight, shiftRight_eq_div_pow]
    rfl
  have up : ∀ x : UInt64, (x <<< 32).toNat = x.toNat * 2 ^ 32 % 2 ^ 64 := by
    intro x
    rw [UInt64.toNat_shiftLeft, Nat.shiftLeft_eq]
    rfl
  have words := @mul_words (2 ^ 32) (a.toNat / 2 ^ 32) (a.toNat % 2 ^ 32)
    (b.toNat / 2 ^ 32) (b.toNat % 2 ^ 32)
  rw [div_add_mod', div_add_mod'] at words
  have bound : ∀ {x y : Nat}, x < 2 ^ 32 → y < 2 ^ 32 →
      x * y ≤ (2 ^ 32 - 1) * (2 ^ 32 - 1) := fun x_lt y_lt =>
    Nat.mul_le_mul (le_sub_one_of_lt x_lt) (le_sub_one_of_lt y_lt)
  have b0 := bound (mod_lt a.toNat (by decide)) (mod_lt b.toNat (by decide))
  have b1 := bound (mod_lt a.toNat (by decide)) (by omega : b.toNat / 2 ^ 32 < 2 ^ 32)
  have b2 := bound (by omega : a.toNat / 2 ^ 32 < 2 ^ 32) (mod_lt b.toNat (by decide))
  have b3 := bound (by omega : a.toNat / 2 ^ 32 < 2 ^ 32) (by omega : b.toNat / 2 ^ 32 < 2 ^ 32)
  rw [words]
  unfold mul64 toNat
  dsimp only
  simp only [apply_ite UInt64.toNat, UInt64.toNat_add, UInt64.toNat_mul, UInt64.lt_iff_toNat_lt,
    low, high, up, UInt64.toNat_one]
  generalize a.toNat % 2 ^ 32 * (b.toNat % 2 ^ 32) = r0 at *
  generalize a.toNat % 2 ^ 32 * (b.toNat / 2 ^ 32) = r1 at *
  generalize a.toNat / 2 ^ 32 * (b.toNat % 2 ^ 32) = r2 at *
  generalize a.toNat / 2 ^ 32 * (b.toNat / 2 ^ 32) = r3 at *
  clear words low high up bound a_lt b_lt
  split <;> omega

theorem toBitVec_ofBitVec (v : BitVec 128) : (ofBitVec v).toBitVec = v :=
  eq_of_toNat_eq (by rw [toNat_toBitVec, toNat_ofBitVec])

theorem toBitVec_negate (a : CairoUint128) : a.negate.toBitVec = -a.toBitVec :=
  eq_of_toNat_eq (by simp [toNat_toBitVec, toNat_toBitVec, toNat_negate])

theorem toNat_magnitude (v : BitVec 128) :
    (if (ofBitVec v).negative then (ofBitVec v).negate else ofBitVec v).toNat = v.toInt.natAbs := by
  rw [← toNat_toBitVec, apply_ite toBitVec, toBitVec_negate, negative_iff, toBitVec_ofBitVec]
  exact Native.toNat_magnitude v

/-- **The product of magnitudes** is that of the native numbers, with an abort where the
product of the upper words leaves its word. -/
theorem umul_eq {a b : CairoUint128} (a_le : a.toNat ≤ 2 ^ 127) (b_le : b.toNat ≤ 2 ^ 127) :
    (umul a b).map toBitVec =
      if 2 ^ 64 ≤ a.toNat / 2 ^ 64 * (b.toNat / 2 ^ 64) then none
      else some (.ofNat 128 (a.toNat * b.toNat / 2 ^ 64)) := by
  have words : ∀ x : CairoUint128,
      x.toNat = x.hi.toNat * 2 ^ 64 + x.lo.toNat ∧ x.lo.toNat < 2 ^ 64 ∧
        x.toNat / 2 ^ 64 = x.hi.toNat := by
    intro x
    have lo := x.lo.toNat_lt
    have value : x.toNat = x.hi.toNat * 2 ^ 64 + x.lo.toNat := rfl
    exact ⟨value, lo, by omega⟩
  obtain ⟨a_words, a_lo, a_hi⟩ := words a
  obtain ⟨b_words, b_lo, b_hi⟩ := words b
  have product := @mul_words_div (2 ^ 64) a.hi.toNat a.lo.toNat b.hi.toNat b.lo.toNat (by decide)
  rw [← a_words, ← b_words] at product
  have middle := @middle_lt (2 ^ 64) a.hi.toNat a.lo.toNat b.hi.toNat b.lo.toNat
    (by omega) (by omega) a_lo b_lo
  obtain ⟨hi_words, hi_lo, hi_hi⟩ := words (mul64 a.hi b.hi)
  rw [toNat_mul64] at hi_words hi_hi
  have aborts : (mul64 a.hi b.hi).hi ≠ 0 ↔ 2 ^ 64 ≤ a.hi.toNat * b.hi.toNat := by
    rw [ne_eq, ← UInt64.toNat_inj, UInt64.toNat_zero]
    omega
  rw [a_hi, b_hi]
  unfold umul
  dsimp only
  by_cases large : 2 ^ 64 ≤ a.hi.toNat * b.hi.toNat
  · rw [if_pos (aborts.mpr large), if_pos large]
    rfl
  rw [if_neg (aborts.not.mpr large), if_neg large, Option.map_some]
  apply congrArg some
  apply eq_of_toNat_eq
  obtain ⟨low_words, low_lo, low_hi⟩ := words (mul64 a.lo b.lo)
  obtain ⟨mid_words, mid_lo, mid_hi⟩ := words (add (mul64 a.lo b.hi) (mul64 a.hi b.lo))
  rw [toNat_mul64] at low_words low_hi
  rw [toNat_add, toNat_mul64, toNat_mul64, mod_eq_of_lt (by omega)] at mid_words mid_hi
  have sums := @recombine (2 ^ 64) (a.lo.toNat * b.lo.toNat)
    (a.lo.toNat * b.hi.toNat + a.hi.toNat * b.lo.toNat) (a.hi.toNat * b.hi.toNat)
  rw [toNat_toBitVec, toNat_add, toNat_add, toNat_lsl, toNat_add, toNat_ofUint64, toNat_ofUint64,
    toNat_ofUint64, toNat_ofUint64, toNat_ofNat, product]
  omega

theorem sign_eq (v o : BitVec 128) : ((ofBitVec v).negative && !(ofBitVec o).negative ||
      !(ofBitVec v).negative && (ofBitVec o).negative) = (v.slt 0 != o.slt 0) := by
  rw [negative_iff, negative_iff, toBitVec_ofBitVec, toBitVec_ofBitVec]
  cases v.slt 0 <;> cases o.slt 0 <;> rfl

theorem map_negate (sign : Bool) (result : Option CairoUint128) :
    (result.map fun result => if sign then result.negate else result).map toBitVec =
      (result.map toBitVec).map fun result => if sign then -result else result := by
  rw [Option.map_map, Option.map_map]
  apply congrArg (Option.map · result)
  funext result
  dsimp only [Function.comp]
  rw [apply_ite toBitVec, toBitVec_negate]

/-- **The product of Cairo** is the native one, unless the upper words abort. -/
theorem mul_eq (v o : BitVec 128) : (mul (ofBitVec v) (ofBitVec o)).map toBitVec =
      if 2 ^ 64 ≤ v.toInt.natAbs / 2 ^ 64 * (o.toInt.natAbs / 2 ^ 64) then none
      else Native.mul v o := by
  have v_le := natAbs_le v
  have o_le := natAbs_le o
  have magnitudes := umul_eq (by rw [toNat_magnitude]; exact v_le)
    (by rw [toNat_magnitude]; exact o_le)
  rw [toNat_magnitude, toNat_magnitude] at magnitudes
  have native := Native.umul_eq (by rw [Native.toNat_magnitude]; exact v_le)
    (by rw [Native.toNat_magnitude]; exact o_le)
  rw [Native.toNat_magnitude, Native.toNat_magnitude] at native
  unfold mul outputSign Native.mul Native.outputSign
  dsimp only
  rw [sign_eq, native, map_negate, magnitudes]
  by_cases large : 2 ^ 64 ≤ v.toInt.natAbs / 2 ^ 64 * (o.toInt.natAbs / 2 ^ 64)
  · rw [if_pos large, if_pos large]
    rfl
  · rw [if_neg large, if_neg large]

end CairoUint128

/-! ## Exactness -/

theorem toInt_ofInt_iff (a b : Int) :
    (BitVec.ofInt 128 (product a b)).toInt = product a b ↔ Fits a b := by
  rw [toInt_ofInt]
  unfold Fits
  constructor
  · intro same
    have lower := Int.le_bmod (x := product a b) (m := 2 ^ 128) (by decide)
    have upper := Int.bmod_lt (x := product a b) (m := 2 ^ 128) (by decide)
    omega
  · rintro ⟨lower, upper⟩
    exact Int.bmod_eq_of_le (by omega) (by omega)

theorem upper_lt {a b : Int} (fits : Fits a b) :
    a.natAbs / 2 ^ 64 * (b.natAbs / 2 ^ 64) < 2 ^ 64 := by
  have magnitude : a.natAbs * b.natAbs / 2 ^ 64 ≤ 2 ^ 127 := by
    obtain ⟨lower, upper⟩ := fits
    have size : product a b = (a.natAbs * b.natAbs / 2 ^ 64 : Nat) ∨
        product a b = -(a.natAbs * b.natAbs / 2 ^ 64 : Nat) := by
      unfold product
      dsimp only
      split
      · exact .inr rfl
      · exact .inl rfl
    omega
  have part := @mul_words_div (2 ^ 64) (a.natAbs / 2 ^ 64) (a.natAbs % 2 ^ 64)
    (b.natAbs / 2 ^ 64) (b.natAbs % 2 ^ 64) (by decide)
  rw [div_add_mod', div_add_mod'] at part
  omega

theorem native_iff (v o : BitVec 128) :
    ExactOrAborts v.toInt o.toInt (Native.mul v o) ↔ Fits v.toInt o.toInt := by
  rw [Native.mul_eq]
  exact toInt_ofInt_iff _ _

/-- Cairo's abort is on products that do not fit, but not on all of them. -/
theorem cairo_iff (v o : BitVec 128) : ExactOrAborts v.toInt o.toInt
        ((CairoUint128.mul (.ofBitVec v) (.ofBitVec o)).map CairoUint128.toBitVec) ↔
      Fits v.toInt o.toInt ∨ 2 ^ 64 ≤ v.toInt.natAbs / 2 ^ 64 * (o.toInt.natAbs / 2 ^ 64) := by
  rw [CairoUint128.mul_eq]
  by_cases large : 2 ^ 64 ≤ v.toInt.natAbs / 2 ^ 64 * (o.toInt.natAbs / 2 ^ 64)
  · rw [if_pos large]
    exact iff_of_true (fun fits => absurd (upper_lt fits) (by omega)) (.inr large)
  · rw [if_neg large, native_iff]
    exact (or_iff_left large).symm

theorem agree_iff (v o : BitVec 128) : Native.mul v o =
        (CairoUint128.mul (.ofBitVec v) (.ofBitVec o)).map CairoUint128.toBitVec ↔
      v.toInt.natAbs / 2 ^ 64 * (o.toInt.natAbs / 2 ^ 64) < 2 ^ 64 := by
  rw [CairoUint128.mul_eq]
  by_cases large : 2 ^ 64 ≤ v.toInt.natAbs / 2 ^ 64 * (o.toInt.natAbs / 2 ^ 64)
  · rw [if_pos large, Native.mul_eq]
    exact iff_of_false (Option.some_ne_none _) (by omega)
  · rw [if_neg large]
    exact iff_of_true rfl (by omega)

/-- **Multiplication** is exact or aborts, and is the same in both implementations, exactly
when the product fits. The native one never aborts, so that it is right only then; that of
Cairo also where it aborts; and the two agree wherever it does not. -/
theorem mul_exact_iff (v o : BitVec 128) : (ExactOrAborts v.toInt o.toInt (Native.mul v o) ∧
        ExactOrAborts v.toInt o.toInt
          ((CairoUint128.mul (.ofBitVec v) (.ofBitVec o)).map CairoUint128.toBitVec) ∧
        Native.mul v o = (CairoUint128.mul (.ofBitVec v) (.ofBitVec o)).map CairoUint128.toBitVec ↔
      Fits v.toInt o.toInt) ∧
    (ExactOrAborts v.toInt o.toInt (Native.mul v o) ↔ Fits v.toInt o.toInt) ∧
    (ExactOrAborts v.toInt o.toInt
        ((CairoUint128.mul (.ofBitVec v) (.ofBitVec o)).map CairoUint128.toBitVec) ↔
      Fits v.toInt o.toInt ∨ 2 ^ 64 ≤ v.toInt.natAbs / 2 ^ 64 * (o.toInt.natAbs / 2 ^ 64)) ∧
    (Native.mul v o = (CairoUint128.mul (.ofBitVec v) (.ofBitVec o)).map CairoUint128.toBitVec ↔
      v.toInt.natAbs / 2 ^ 64 * (o.toInt.natAbs / 2 ^ 64) < 2 ^ 64) := by
  refine ⟨⟨fun all => (native_iff v o).mp all.1, fun fits => ?_⟩, native_iff v o, cairo_iff v o,
    agree_iff v o⟩
  exact ⟨(native_iff v o).mpr fits, (cairo_iff v o).mpr (.inl fits),
    (agree_iff v o).mpr (upper_lt fits)⟩

/-- `2^32 * 2^32` becomes 0 on native integers and aborts with Cairo; `2^32 * 2^31` becomes
negative with both. -/
theorem mul_overflows :
    let a := BitVec.ofNat 128 (2 ^ 96)
    let b := BitVec.ofNat 128 (2 ^ 95)
    Native.mul a a = some 0 ∧ CairoUint128.mul (.ofBitVec a) (.ofBitVec a) = none ∧
      ¬ ExactOrAborts a.toInt a.toInt (Native.mul a a) ∧
      ¬ ExactOrAborts a.toInt b.toInt
        ((CairoUint128.mul (.ofBitVec a) (.ofBitVec b)).map CairoUint128.toBitVec) := by
  refine ⟨by decide, by decide, ?_, ?_⟩
  · rw [native_iff]
    unfold Fits
    decide
  · rw [cairo_iff]
    unfold Fits
    decide

end Ns3.Core
