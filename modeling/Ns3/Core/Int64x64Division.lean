import Ns3.Core.Int64x64
import Ns3.Library.Loops

/-!
# Division of `int64x64_t`

`Div` and `Udiv` on native 128-bit integers and on the wide integers of Cairo. The loops run
on fuel; `none` is a loop that does not end, a division by zero or a failed assertion.
-/

namespace Ns3.Core

open Nat BitVec CairoUint128 WhileLoop

/-! ## The algorithm -/

/-- What `Udiv` uses of an implementation of 128-bit integers. -/
structure Words (α : Type) where
  lsl : α → Nat → α
  rsl : α → Nat → α
  add : α → α → α
  lt : α → α → Bool
  isZero : α → Bool
  /-- `a & 1` -/
  lowBit : α → Bool
  /-- `a & HP128_MASK_HI_BIT` -/
  highBit : α → Bool
  divrem : (fuel : Nat) → α → α → Option (α × α)

/-- Number of fraction digits (bits) we need. -/
def DIGITS : Nat := 64

structure Round (α : Type) where
  result : α
  rem : α
  den : α
  /-- Number of digits we have already. -/
  digis : Nat
  /-- Number we are going to get this round. -/
  shift : Nat

namespace Words

variable {α : Type} (w : Words α)

/-- Skip trailing zeros in divisor. -/
def skipTrailingZeros (fuel : Nat) (s : Round α) : Option (Round α) :=
  loop (fun s => decide (s.shift < DIGITS) && !w.lowBit s.den)
    (fun s => some { s with shift := s.shift + 1, den := w.rsl s.den 1 }) fuel s

/-- Skip leading zeros in remainder. -/
def skipLeadingZeros (fuel : Nat) (s : Round α) : Option (Round α) :=
  loop (fun s => decide (s.digis + s.shift < DIGITS) && !w.highBit s.rem)
    (fun s => some { s with shift := s.shift + 1, rem := w.lsl s.rem 1 }) fuel s

/-- Cast off denominator bits. -/
def castOff (fuel : Nat) (s : Round α) : Option (Round α) :=
  loop (fun s => decide (s.digis + s.shift < DIGITS) && (!w.lowBit s.den || w.lt s.rem s.den))
    (fun s => some { s with shift := s.shift + 1, den := w.rsl s.den 1 }) fuel s

/-- Do the division, and add in the quotient as `shift` bits of the fraction. -/
def divide (fuel : Nat) (s : Round α) : Option (Round α) :=
  (w.divrem fuel s.rem s.den).map fun (quo, rem) =>
    { s with
      result := w.add (w.lsl s.result s.shift) quo
      rem := rem
      digis := s.digis + s.shift
      shift := 0 }

def round (fuel : Nat) (s : Round α) : Option (Round α) :=
  (w.skipLeadingZeros fuel s).bind fun s => (w.castOff fuel s).bind (w.divide fuel)

def udiv (fuel : Nat) (a b : α) : Option α := do
  let (quo, rem) ← w.divrem fuel a b
  if !w.lt rem b then none
  let s ← w.skipTrailingZeros fuel ⟨quo, rem, b, 0, 0⟩
  let s ← loop (fun s => decide (s.digis < DIGITS) && !w.isZero s.rem) (w.round fuel)
    fuel s
  some (if s.digis < DIGITS then w.lsl s.result (DIGITS - s.digis) else s.result)

/-- The operations are those of numbers below `2 ^ 128`. -/
structure Lawful (value : α → Nat) : Prop where
  bound : ∀ a, value a < 2 ^ 128
  lsl : ∀ a shift, shift ≤ 64 → value (w.lsl a shift) = value a * 2 ^ shift % 2 ^ 128
  rsl : ∀ a, value (w.rsl a 1) = value a / 2
  add : ∀ a b, value (w.add a b) = (value a + value b) % 2 ^ 128
  lt : ∀ a b, w.lt a b = decide (value a < value b)
  isZero : ∀ a, w.isZero a = decide (value a = 0)
  lowBit : ∀ a, w.lowBit a = decide (value a % 2 = 1)
  highBit : ∀ a, w.highBit a = decide (2 ^ 127 ≤ value a)
  divrem : ∀ fuel a b, 128 < fuel → 0 < value b → ∃ quo rem,
    w.divrem fuel a b = some (quo, rem) ∧ value quo = value a / value b ∧
      value rem = value a % value b

/-! ## One round -/

/-- The state of a division of `a` by `b`: the digits of the quotient so far, of which the
upper ones may be lost. -/
structure Divides (value : α → Nat) (a b : Nat) (s : Round α) : Prop where
  digits : ∃ quotient, value s.result = quotient % 2 ^ 128 ∧
    QuotientDigits.Holds a b quotient (value s.rem) (value s.den) s.digis s.shift
  den_le : value s.den ≤ 2 ^ 127
  within : s.digis + s.shift ≤ DIGITS

variable {w} {value : α → Nat} (lawful : w.Lawful value) {a b : Nat} {s : Round α}
include lawful

section

variable (divides : Divides value a b s)
include divides

/-- A bit of the denominator goes only if it is a zero. -/
theorem Divides.halve (below : s.digis + s.shift < DIGITS) (even : value s.den % 2 = 0) :
    Divides value a b { s with shift := s.shift + 1, den := w.rsl s.den 1 } := by
  obtain ⟨quotient, low, holds⟩ := divides.digits
  have half : value s.den = 2 * value (w.rsl s.den 1) := by
    rw [lawful.rsl]
    omega
  have den_le := divides.den_le
  rw [half] at holds
  exact ⟨⟨quotient, low, holds.halve⟩, by dsimp only; omega, by dsimp only; omega⟩

/-- A bit comes to the remainder only if none is lost. -/
theorem Divides.double (below : s.digis + s.shift < DIGITS) (small : value s.rem < 2 ^ 127) :
    Divides value a b { s with shift := s.shift + 1, rem := w.lsl s.rem 1 } := by
  obtain ⟨quotient, low, holds⟩ := divides.digits
  have twice : value (w.lsl s.rem 1) = 2 * value s.rem := by
    rw [lawful.lsl s.rem 1 (by decide)]
    omega
  refine ⟨⟨quotient, low, ?_⟩, divides.den_le, by dsimp only; omega⟩
  rw [twice]
  exact holds.double

theorem skipTrailingZeros_spec (first : s.digis = 0)
    {fuel : Nat} (enough : 128 < fuel) :
    ∃ t, w.skipTrailingZeros fuel s = some t ∧ Divides value a b t := by
  obtain ⟨t, rank, run, ⟨kept, -, -⟩, -⟩ := loop_total
    (fun s => decide (s.shift < DIGITS) && !w.lowBit s.den)
    (fun s => some { s with shift := s.shift + 1, den := w.rsl s.den 1 })
    (fun rank t => Divides value a b t ∧ t.digis = 0 ∧ rank = DIGITS - t.shift)
    (by
      rintro rank t ⟨kept, at_first, rfl⟩ more
      simp only [lawful.lowBit, Bool.and_eq_true, Bool.not_eq_true', decide_eq_true_eq,
        decide_eq_false_iff_not] at more
      obtain ⟨below, even⟩ := more
      refine ⟨_, rfl, _, ?_, kept.halve lawful (by omega) (by omega), at_first, rfl⟩
      dsimp only
      omega)
    ⟨divides, first, rfl⟩ (by unfold DIGITS; omega : DIGITS - s.shift < fuel)
  exact ⟨t, run, kept⟩

/-- The remainder has its highest bit, or all the digits of the fraction come. -/
theorem skipLeadingZeros_spec {fuel : Nat} (enough : 128 < fuel) :
    ∃ t, w.skipLeadingZeros fuel s = some t ∧ Divides value a b t ∧ t.digis = s.digis ∧
      (DIGITS ≤ t.digis + t.shift ∨ 2 ^ 127 ≤ value t.rem) := by
  obtain ⟨t, rank, run, ⟨kept, same, -⟩, ends⟩ := loop_total
    (fun s => decide (s.digis + s.shift < DIGITS) && !w.highBit s.rem)
    (fun s => some { s with shift := s.shift + 1, rem := w.lsl s.rem 1 })
    (fun rank t => Divides value a b t ∧ t.digis = s.digis ∧ rank = DIGITS - t.shift)
    (by
      rintro rank t ⟨kept, same, rfl⟩ more
      simp only [lawful.highBit, Bool.and_eq_true, Bool.not_eq_true', decide_eq_true_eq,
        decide_eq_false_iff_not] at more
      obtain ⟨below, small⟩ := more
      refine ⟨_, rfl, _, ?_, kept.double lawful below (by omega), same, rfl⟩
      dsimp only
      omega)
    ⟨divides, rfl, rfl⟩ (by unfold DIGITS; omega : DIGITS - s.shift < fuel)
  refine ⟨t, run, kept, same, ?_⟩
  simp only [lawful.highBit, Bool.and_eq_false_iff, Bool.not_eq_false', decide_eq_true_eq,
    decide_eq_false_iff_not] at ends
  omega

/-- The denominator is never above the remainder here, so that only zeros are cast off. -/
theorem castOff_spec (large : DIGITS ≤ s.digis + s.shift ∨ 2 ^ 127 ≤ value s.rem) {fuel : Nat}
    (enough : 128 < fuel) :
    ∃ t, w.castOff fuel s = some t ∧ Divides value a b t ∧ t.digis = s.digis ∧
      s.shift ≤ t.shift := by
  obtain ⟨t, rank, run, ⟨kept, same, _, further, -⟩, -⟩ := loop_total
    (fun s => decide (s.digis + s.shift < DIGITS) && (!w.lowBit s.den || w.lt s.rem s.den))
    (fun s => some { s with shift := s.shift + 1, den := w.rsl s.den 1 })
    (fun rank t => Divides value a b t ∧ t.digis = s.digis ∧ t.rem = s.rem ∧
      s.shift ≤ t.shift ∧ rank = DIGITS - t.shift)
    (by
      rintro rank t ⟨kept, same, same_rem, further, rfl⟩ more
      have den_le := kept.den_le
      simp only [lawful.lowBit, lawful.lt, Bool.and_eq_true, Bool.or_eq_true, Bool.not_eq_true',
        decide_eq_true_eq, decide_eq_false_iff_not] at more
      obtain ⟨below, casts⟩ := more
      rw [same_rem] at casts
      refine ⟨_, rfl, _, ?_, kept.halve lawful below (by omega), same, same_rem, ?_, rfl⟩
      · dsimp only
        omega
      · dsimp only
        omega)
    ⟨divides, rfl, rfl, le_refl _, rfl⟩ (by unfold DIGITS; omega : DIGITS - s.shift < fuel)
  exact ⟨t, run, kept, same, further⟩

theorem divide_spec {fuel : Nat} (enough : 128 < fuel) :
    ∃ t, w.divide fuel s = some t ∧ Divides value a b t ∧ t.digis = s.digis + s.shift ∧
      t.shift = 0 := by
  obtain ⟨quotient, low, holds⟩ := divides.digits
  obtain ⟨quo, rem, run, quo_eq, rem_eq⟩ := lawful.divrem fuel s.rem s.den enough holds.den_pos
  have within := divides.within
  refine ⟨⟨w.add (w.lsl s.result s.shift) quo, rem, s.den, s.digis + s.shift, 0⟩, ?_,
    ⟨⟨quotient * 2 ^ s.shift + value s.rem / value s.den, ?_, ?_⟩, divides.den_le, within⟩,
    rfl, rfl⟩
  · unfold divide
    simp [run]
  · dsimp only
    rw [lawful.add, lawful.lsl _ _ (by unfold DIGITS at within; omega), low, quo_eq,
      mod_mul_mod, mod_add_mod]
  · dsimp only
    rw [rem_eq]
    exact holds.divide

/-- **Progress.** A round gives at least one digit. -/
theorem round_spec (below : s.digis < DIGITS) {fuel : Nat} (enough : 128 < fuel) :
    ∃ t, w.round fuel s = some t ∧ Divides value a b t ∧ s.digis < t.digis ∧ t.shift = 0 := by
  obtain ⟨t, skipped, kept, same, large⟩ := skipLeadingZeros_spec lawful divides enough
  obtain ⟨u, cast_off, kept', same', further⟩ := castOff_spec lawful kept large enough
  obtain ⟨v, divided, kept'', digis, shift⟩ := divide_spec lawful kept' enough
  have positive : 0 < t.shift := by
    obtain ⟨_, -, holds⟩ := kept.digits
    have proper := holds.proper
    have den_le := kept.den_le
    rcases Nat.eq_zero_or_pos t.shift with zero | positive
    · rw [zero] at proper large
      omega
    · exact positive
  refine ⟨v, ?_, kept'', by omega, shift⟩
  unfold round
  simp [skipped, cast_off, divided]

end

/-- **The division of magnitudes** ends, with the quotient rounded down. -/
theorem udiv_spec {x y : α} (positive : 0 < value y) (y_le : value y ≤ 2 ^ 127) {fuel : Nat}
    (enough : 128 < fuel) :
    ∃ result, w.udiv fuel x y = some result ∧
      value result = value x * 2 ^ 64 / value y % 2 ^ 128 := by
  obtain ⟨quo, rem, run, quo_eq, rem_eq⟩ := lawful.divrem fuel x y enough positive
  have start : Divides value (value x) (value y) ⟨quo, rem, y, 0, 0⟩ := by
    refine ⟨⟨value x / value y, ?_, ?_⟩, y_le, zero_le _⟩
    · dsimp only
      rw [← quo_eq, mod_eq_of_lt (lawful.bound quo)]
    · dsimp only
      rw [rem_eq]
      exact .start _ positive
  obtain ⟨s, skipped, kept⟩ := skipTrailingZeros_spec lawful start rfl enough
  obtain ⟨t, rank, looped, ⟨kept', -⟩, ends⟩ := loop_total
    (fun s => decide (s.digis < DIGITS) && !w.isZero s.rem) (w.round fuel)
    (fun rank t => Divides value (value x) (value y) t ∧ rank = DIGITS - t.digis)
    (by
      rintro rank t ⟨kept, rfl⟩ more
      simp only [Bool.and_eq_true, decide_eq_true_eq] at more
      obtain ⟨u, stepped, kept', further, -⟩ := round_spec lawful kept more.1 enough
      exact ⟨u, stepped, _, by omega, kept', rfl⟩)
    ⟨kept, rfl⟩ (by unfold DIGITS; omega : DIGITS - s.digis < fuel)
  have assertion : w.lt rem y = true := by
    rw [lawful.lt, rem_eq]
    exact decide_eq_true (mod_lt _ positive)
  refine ⟨if t.digis < DIGITS then w.lsl t.result (DIGITS - t.digis) else t.result, ?_, ?_⟩
  · unfold udiv
    simp [run, assertion, skipped, looped]
  obtain ⟨quotient, low, holds⟩ := kept'.digits
  have within := kept'.within
  simp only [lawful.isZero, Bool.and_eq_false_iff, Bool.not_eq_false', decide_eq_true_eq,
    decide_eq_false_iff_not] at ends
  by_cases missing : t.digis < DIGITS
  · rw [ends.resolve_left (not_not_intro missing)] at holds
    have floor := holds.floor_of_zero positive (DIGITS - t.digis)
    rw [Nat.add_sub_cancel' missing.le] at floor
    have shifted := lawful.lsl t.result (DIGITS - t.digis) (sub_le _ _)
    rw [low, mod_mul_mod, ← floor] at shifted
    rw [if_pos missing, shifted]
    rfl
  · have no_shift : t.shift = 0 := by omega
    have all_digits : t.digis = 64 := by
      unfold DIGITS at within missing
      omega
    rw [no_shift, all_digits] at holds
    rw [if_neg missing, low, holds.floor positive]

end Words

/-! ## The implementations -/

theorem and_one_ne {width : Nat} (a : BitVec (width + 1)) :
    (a &&& 1 != 0) = decide (a.toNat % 2 = 1) := by
  have value : (a &&& 1).toNat = a.toNat % 2 := by
    rw [toNat_and]
    simp
  rw [Bool.eq_iff_iff, bne_iff_ne, ne_eq, ← toNat_inj, value, decide_eq_true_eq]
  simp

theorem and_highest_ne {width : Nat} (a : BitVec (width + 1)) :
    (a &&& .twoPow (width + 1) width != 0) = decide (2 ^ width ≤ a.toNat) := by
  have top := msb_eq_decide a
  rw [msb_eq_getLsbD_last, Nat.add_sub_cancel] at top
  have positive : BitVec.twoPow (width + 1) width ≠ 0 := by
    intro zero
    have power := congrArg BitVec.toNat zero
    rw [toNat_twoPow, mod_eq_of_lt (Nat.pow_lt_pow_right (by decide) (by omega))] at power
    simp at power
  rw [and_twoPow, top]
  by_cases large : 2 ^ width ≤ a.toNat
  · simp [large, positive]
  · simp [large]

namespace Native

/-- `HP128_MASK_HI_BIT` -/
def hp128MaskHiBit : BitVec 128 := (1 : BitVec 128) <<< 127

def words : Words (BitVec 128) where
  lsl a shift := a <<< shift
  rsl a shift := a >>> shift
  add a b := a + b
  lt a b := a.ult b
  isZero a := a == 0
  lowBit a := a &&& 1 != 0
  highBit a := a &&& hp128MaskHiBit != 0
  divrem _ a b := if b = 0 then none else some (a / b, a % b)

def udiv (fuel : Nat) (a b : BitVec 128) : Option (BitVec 128) := words.udiv fuel a b

def div (fuel : Nat) (v o : BitVec 128) : Option (BitVec 128) :=
  match outputSign v o with
  | (a, b, negative) => (udiv fuel a b).map fun result => if negative then -result else result

theorem lawful : words.Lawful BitVec.toNat where
  bound a := a.isLt
  lsl a shift _ := by simp [words, toNat_shiftLeft, Nat.shiftLeft_eq]
  rsl a := by simp [words, toNat_ushiftRight, shiftRight_eq_div_pow]
  add a b := BitVec.toNat_add a b
  lt a b := rfl
  isZero a := by
    change (a == 0) = _
    rw [Bool.eq_iff_iff, beq_iff_eq, decide_eq_true_eq, ← toNat_inj]
    rfl
  lowBit a := and_one_ne a
  highBit a := and_highest_ne a
  divrem fuel a b _ positive := by
    have nonzero : b ≠ 0 := by
      rintro rfl
      exact absurd positive (by decide)
    exact ⟨a / b, a % b, if_neg nonzero, toNat_udiv, toNat_umod⟩

end Native

namespace CairoUint128

def sub (a b : CairoUint128) : CairoUint128 :=
  let hi := a.hi - b.hi
  let lo := a.lo - b.lo
  ⟨lo, if a.lo < lo then hi - 1 else hi⟩

/-- `_cairo_uint128_rsl` -/
def rsl (a : CairoUint128) (shift : Nat) : CairoUint128 :=
  let (a, shift) := if 64 ≤ shift then ((⟨a.hi, 0⟩ : CairoUint128), shift - 64) else (a, shift)
  if shift ≠ 0 then
    ⟨(a.lo >>> UInt64.ofNat shift) + (a.hi <<< UInt64.ofNat (64 - shift)),
      a.hi >>> UInt64.ofNat shift⟩
  else a

def lt (a b : CairoUint128) : Bool := a.hi < b.hi || a.hi == b.hi && a.lo < b.lo

def eq (a b : CairoUint128) : Bool := a.hi == b.hi && a.lo == b.lo

def le (a b : CairoUint128) : Bool := !lt b a

/-- `_cairo_msbset64` -/
def msbset64 (q : UInt64) : Bool := q &&& ((1 : UInt64) <<< 63) != 0

/-- The variables of `_cairo_uint128_divrem`. -/
structure LongDivision where
  num : CairoUint128
  den : CairoUint128
  bit : CairoUint128
  quo : CairoUint128

/-- Normalize to make `den >= num`, but not overflow. -/
def normalize (fuel : Nat) (s : LongDivision) : Option LongDivision :=
  loop (fun s => lt s.den s.num && !msbset64 s.den.hi)
    (fun s => some { s with bit := lsl s.bit 1, den := lsl s.den 1 }) fuel s

/-- One digit: subtract where the denominator fits. -/
def subtract (s : LongDivision) : LongDivision :=
  if le s.den s.num then { s with num := sub s.num s.den, quo := add s.quo s.bit } else s

/-- Generate quotient, one bit at a time. -/
def generate (fuel : Nat) (s : LongDivision) : Option LongDivision :=
  loop (fun s => !eq s.bit (ofUint64 0)) (fun s => some { subtract s with
      bit := rsl (subtract s).bit 1, den := rsl (subtract s).den 1 }) fuel s

def divrem (fuel : Nat) (num den : CairoUint128) : Option (CairoUint128 × CairoUint128) := do
  let s ← normalize fuel ⟨num, den, ofUint64 1, ofUint64 0⟩
  let s ← generate fuel s
  some (s.quo, s.num)

/-- `HPCAIRO_MASK_HI_BIT` -/
def hpcairoMaskHiBit : UInt64 := (1 : UInt64) <<< 63

def words : Words CairoUint128 where
  lsl := lsl
  rsl := rsl
  add := add
  lt := lt
  isZero a := eq a (ofUint64 0)
  lowBit a := a.lo &&& 1 != 0
  highBit a := a.hi &&& hpcairoMaskHiBit != 0
  divrem := divrem

def udiv (fuel : Nat) (a b : CairoUint128) : Option CairoUint128 := words.udiv fuel a b

def div (fuel : Nat) (v o : CairoUint128) : Option CairoUint128 :=
  match outputSign v o with
  | (a, b, sign) => (udiv fuel a b).map fun result => if sign then result.negate else result

theorem toNat_lt (a : CairoUint128) : a.toNat < 2 ^ 128 := by
  have lo := a.lo.toNat_lt
  have hi := a.hi.toNat_lt
  unfold toNat
  omega

theorem toNat_sub {a b : CairoUint128} (b_le : b.toNat ≤ a.toNat) :
    (sub a b).toNat = a.toNat - b.toNat := by
  have a_lo := a.lo.toNat_lt
  have b_lo := b.lo.toNat_lt
  have a_hi := a.hi.toNat_lt
  have b_hi := b.hi.toNat_lt
  unfold toNat at b_le
  unfold sub toNat
  dsimp only
  split
  case isTrue borrow =>
    rw [UInt64.lt_iff_toNat_lt, UInt64.toNat_sub] at borrow
    rw [UInt64.toNat_sub, UInt64.toNat_sub, UInt64.toNat_sub, UInt64.toNat_one]
    omega
  case isFalse borrow =>
    rw [UInt64.lt_iff_toNat_lt, UInt64.toNat_sub] at borrow
    rw [UInt64.toNat_sub, UInt64.toNat_sub]
    omega

theorem toNat_lsl_le (a : CairoUint128) {shift : Nat} (shift_le : shift ≤ 64) :
    (lsl a shift).toNat = a.toNat * 2 ^ shift % 2 ^ 128 := by
  rcases Nat.lt_or_ge shift 64 with below | above
  case inr =>
    obtain rfl : shift = 64 := by omega
    exact toNat_lsl a
  rcases Nat.eq_zero_or_pos shift with rfl | positive
  · have same : lsl a 0 = a := rfl
    rw [same, pow_zero, mul_one, mod_eq_of_lt a.toNat_lt]
  have whole : 2 ^ shift * 2 ^ (64 - shift) = 2 ^ 64 := by
    rw [← pow_add, Nat.add_sub_cancel' shift_le]
  have places : ∀ n < 64, (UInt64.ofNat n).toNat % 64 = n := by
    intro n n_lt
    rw [UInt64.toNat_ofNat']
    omega
  unfold lsl toNat
  rw [if_neg (by omega : ¬ 64 ≤ shift)]
  dsimp only
  rw [if_pos (by omega : shift ≠ 0)]
  rw [UInt64.toNat_add, UInt64.toNat_shiftLeft, UInt64.toNat_shiftRight, UInt64.toNat_shiftLeft,
    places shift below, places (64 - shift) (by omega), Nat.shiftLeft_eq, Nat.shiftLeft_eq,
    shiftRight_eq_div_pow]
  exact DoubleWord.shift_words whole (by decide) a.hi.toNat a.lo.toNat

theorem toNat_rsl (a : CairoUint128) : (rsl a 1).toNat = a.toNat / 2 := by
  have lo := a.lo.toNat_lt
  have halves : rsl a 1 = ⟨(a.lo >>> 1) + (a.hi <<< 63), a.hi >>> 1⟩ := rfl
  have up : (a.hi <<< 63).toNat = a.hi.toNat * 2 ^ 63 % 2 ^ 64 := by
    rw [UInt64.toNat_shiftLeft, Nat.shiftLeft_eq]
    rfl
  have down : ∀ x : UInt64, (x >>> 1).toNat = x.toNat / 2 := by
    intro x
    rw [UInt64.toNat_shiftRight, shiftRight_eq_div_pow]
    rfl
  rw [halves]
  unfold toNat
  rw [UInt64.toNat_add, up, down, down]
  omega

theorem lt_eq (a b : CairoUint128) : lt a b = decide (a.toNat < b.toNat) := by
  have a_lo := a.lo.toNat_lt
  have b_lo := b.lo.toNat_lt
  unfold lt toNat
  rw [Bool.eq_iff_iff, Bool.or_eq_true, Bool.and_eq_true, decide_eq_true_eq, decide_eq_true_eq,
    decide_eq_true_eq, beq_iff_eq, UInt64.lt_iff_toNat_lt, UInt64.lt_iff_toNat_lt,
    ← UInt64.toNat_inj]
  omega

theorem eq_zero (a : CairoUint128) : eq a (ofUint64 0) = decide (a.toNat = 0) := by
  unfold eq toNat ofUint64
  rw [Bool.eq_iff_iff, Bool.and_eq_true, decide_eq_true_eq, beq_iff_eq, beq_iff_eq,
    ← UInt64.toNat_inj, ← UInt64.toNat_inj, UInt64.toNat_zero]
  omega

theorem lowBit_eq (a : CairoUint128) : (a.lo &&& 1 != 0) = decide (a.toNat % 2 = 1) := by
  have bits := and_one_ne a.lo.toBitVec
  have same : (a.lo &&& 1 != 0) = (a.lo.toBitVec &&& 1 != 0) := by
    rw [Bool.eq_iff_iff, bne_iff_ne, bne_iff_ne, ne_eq, ← UInt64.toBitVec_inj]
    rfl
  rw [same, bits]
  unfold toNat
  apply decide_eq_decide.mpr
  rw [UInt64.toNat_toBitVec]
  omega

theorem highBit_eq (a : CairoUint128) :
    (a.hi &&& ((1 : UInt64) <<< 63) != 0) = decide (2 ^ 127 ≤ a.toNat) := by
  have lo := a.lo.toNat_lt
  have bits := and_highest_ne a.hi.toBitVec
  have same : (a.hi &&& ((1 : UInt64) <<< 63) != 0) = (a.hi.toBitVec &&& .twoPow 64 63 != 0) := by
    rw [Bool.eq_iff_iff, bne_iff_ne, bne_iff_ne, ne_eq, ← UInt64.toBitVec_inj]
    rfl
  rw [same, bits]
  unfold toNat
  apply decide_eq_decide.mpr
  rw [UInt64.toNat_toBitVec]
  omega

/-- The denominator is moved up to where twice of it is above the numerator. -/
theorem normalize_spec (num : CairoUint128) {den : CairoUint128} (positive : 0 < den.toNat)
    {fuel : Nat} (enough : 128 < fuel) :
    ∃ t i, normalize fuel ⟨num, den, ofUint64 1, ofUint64 0⟩ = some t ∧ i < 128 ∧ t.num = num ∧
      t.quo = ofUint64 0 ∧ t.bit.toNat = 2 ^ i ∧ t.den.toNat = den.toNat * 2 ^ i ∧
      num.toNat < 2 * t.den.toNat := by
  obtain ⟨t, rank, run, ⟨i, -, i_lt, same_num, same_quo, bit, moved⟩, ends⟩ :=
    loop_total
    (fun s : LongDivision => lt s.den s.num && !msbset64 s.den.hi)
    (fun s => some { s with bit := lsl s.bit 1, den := lsl s.den 1 })
    (fun rank s => ∃ i, rank = 127 - i ∧ i < 128 ∧ s.num = num ∧ s.quo = ofUint64 0 ∧
      s.bit.toNat = 2 ^ i ∧ s.den.toNat = den.toNat * 2 ^ i)
    (by
      rintro rank s ⟨i, rfl, i_lt, same_num, same_quo, bit, moved⟩ more
      unfold msbset64 at more
      simp only [highBit_eq, Bool.and_eq_true, Bool.not_eq_true', decide_eq_false_iff_not] at more
      have power_le : 2 ^ i ≤ s.den.toNat := by
        rw [moved]
        exact Nat.le_mul_of_pos_left _ positive
      have below : 2 ^ i < 2 ^ 127 := by omega
      have i_lt' : i < 127 := (Nat.pow_lt_pow_iff_right (by decide)).mp below
      refine ⟨_, rfl, 127 - (i + 1), by omega, i + 1, rfl, by omega, same_num, same_quo, ?_, ?_⟩
      · dsimp only
        rw [toNat_lsl_le _ (by decide), bit, pow_one, pow_succ 2 i]
        omega
      · dsimp only
        rw [toNat_lsl_le _ (by decide), pow_one, pow_succ 2 i, ← mul_assoc, ← moved]
        omega)
    (s := ⟨num, den, ofUint64 1, ofUint64 0⟩)
    ⟨0, rfl, by decide, rfl, rfl, toNat_ofUint64 1, by rw [pow_zero, mul_one]⟩
    (by omega : 127 - 0 < fuel)
  refine ⟨t, i, run, i_lt, same_num, same_quo, bit, moved, ?_⟩
  have num_lt := num.toNat_lt
  have den_pos : 0 < t.den.toNat := by
    rw [moved]
    exact Nat.mul_pos positive (Nat.two_pow_pos i)
  unfold msbset64 at ends
  simp only [lt_eq, highBit_eq, Bool.and_eq_false_iff, Bool.not_eq_false', decide_eq_true_eq,
    decide_eq_false_iff_not, same_num] at ends
  omega

/-- Digit by digit the numerator becomes the remainder. -/
structure Generates (a b : Nat) (rank : Nat) (s : LongDivision) : Prop where
  exact : s.quo.toNat * b + s.num.toNat = a
  digit : (∃ i, rank = i + 1 ∧ s.bit.toNat = 2 ^ i ∧ s.den.toNat = b * 2 ^ i ∧
      s.num.toNat < 2 * s.den.toNat) ∨
    rank = 0 ∧ s.bit.toNat = 0 ∧ s.num.toNat < b

theorem subtract_spec {a b i : Nat} {s : LongDivision}
    (exact : s.quo.toNat * b + s.num.toNat = a) (a_lt : a < 2 ^ 128) (positive : 0 < b)
    (bit : s.bit.toNat = 2 ^ i) (den : s.den.toNat = b * 2 ^ i)
    (num_lt : s.num.toNat < 2 * s.den.toNat) :
    (subtract s).quo.toNat * b + (subtract s).num.toNat = a ∧
      (subtract s).num.toNat < s.den.toNat ∧ (subtract s).bit = s.bit ∧
      (subtract s).den = s.den := by
  unfold subtract le
  rw [lt_eq]
  by_cases fits : s.num.toNat < s.den.toNat
  · rw [decide_eq_true fits]
    exact ⟨exact, fits, rfl, rfl⟩
  rw [decide_eq_false fits]
  have den_le : s.den.toNat ≤ s.num.toNat := by omega
  have sum : (s.quo.toNat + s.bit.toNat) * b + (s.num.toNat - s.den.toNat) = a := by
    rw [Nat.add_mul, bit, Nat.mul_comm (2 ^ i), ← den]
    omega
  have no_carry : s.quo.toNat + s.bit.toNat < 2 ^ 128 := by
    have below := Nat.le_mul_of_pos_right (s.quo.toNat + s.bit.toNat) positive
    omega
  refine ⟨?_, ?_, rfl, rfl⟩
  · rw [Bool.not_false, if_pos rfl, toNat_sub den_le, toNat_add, mod_eq_of_lt no_carry]
    exact sum
  · rw [Bool.not_false, if_pos rfl, toNat_sub den_le]
    omega

theorem generate_spec {a b rank : Nat} {s : LongDivision} (generates : Generates a b rank s)
    (a_lt : a < 2 ^ 128) (positive : 0 < b) {fuel : Nat} (enough : rank < fuel) :
    ∃ t, generate fuel s = some t ∧ t.quo.toNat = a / b ∧ t.num.toNat = a % b := by
  obtain ⟨t, lower, run, ⟨exact, digit⟩, ends⟩ := loop_total
    (fun s : LongDivision => !eq s.bit (ofUint64 0))
    (fun s => some { subtract s with
      bit := rsl (subtract s).bit 1, den := rsl (subtract s).den 1 })
    (Generates a b)
    (by
      rintro rank s ⟨exact, ⟨i, rfl, bit, den, num_lt⟩ | ⟨_, none, _⟩⟩ more
      · obtain ⟨exact', num_lt', same_bit, same_den⟩ :=
          subtract_spec exact a_lt positive bit den num_lt
        refine ⟨_, rfl, i, lt_succ_self i, exact', ?_⟩
        dsimp only
        rw [same_bit, same_den, toNat_rsl, toNat_rsl, bit, den]
        rw [den] at num_lt'
        cases i with
        | zero => exact .inr ⟨rfl, rfl, by rwa [pow_zero, mul_one] at num_lt'⟩
        | succ i =>
          rw [pow_succ, ← mul_assoc] at num_lt' ⊢
          exact .inl ⟨i, rfl, by omega, by omega, by omega⟩
      · rw [eq_zero, none] at more
        simp at more)
    generates enough
  refine ⟨t, run, ?_⟩
  rw [eq_zero, Bool.not_eq_false', decide_eq_true_eq] at ends
  rcases digit with ⟨i, -, bit, -, -⟩ | ⟨-, -, num_lt⟩
  · have power := Nat.two_pow_pos i
    omega
  · have divided := (Nat.div_mod_unique positive).mpr
      ⟨(Nat.add_comm _ _).trans ((congrArg (· + _) (Nat.mul_comm _ _)).trans exact), num_lt⟩
    exact ⟨divided.1.symm, divided.2.symm⟩

theorem lawful : words.Lawful toNat where
  bound := toNat_lt
  lsl a shift shift_le := toNat_lsl_le a shift_le
  rsl := toNat_rsl
  add := toNat_add
  lt := lt_eq
  isZero := eq_zero
  lowBit := lowBit_eq
  highBit := highBit_eq
  divrem fuel a b enough positive := by
    obtain ⟨s, i, normalized, i_lt, num, quo, bit, den, num_lt⟩ := normalize_spec a positive enough
    have generates : Generates a.toNat b.toNat (i + 1) s := by
      refine ⟨?_, .inl ⟨i, rfl, bit, den, by rwa [num]⟩⟩
      simp [num, quo, toNat_ofUint64]
    obtain ⟨t, generated, quo_eq, num_eq⟩ :=
      generate_spec generates a.toNat_lt positive (by omega : i + 1 < fuel)
    refine ⟨t.quo, t.num, ?_, quo_eq, num_eq⟩
    change divrem fuel a b = _
    unfold divrem
    simp [normalized, generated]

end CairoUint128

/-! ## Exactness -/

/-- The quotient of two numbers, rounded toward zero. -/
def quotient (a b : Int) : Int := (a * 2 ^ 64).tdiv b

/-- The quotient is a number of 128 bits. -/
def QuotientFits (a b : Int) : Prop := -2 ^ 127 ≤ quotient a b ∧ quotient a b < 2 ^ 127

theorem quotient_eq (a b : Int) : quotient a b =
      if (decide (a < 0) != decide (b < 0)) = true then
        -((a.natAbs * 2 ^ 64 / b.natAbs : Nat) : Int)
      else (a.natAbs * 2 ^ 64 / b.natAbs : Nat) := by
  have magnitude : ∀ m n : Nat,
      ((m : Int) * 2 ^ 64).tdiv (n : Int) = ((m * 2 ^ 64 / n : Nat) : Int) := fun m n => rfl
  unfold quotient
  obtain ⟨m, rfl | rfl⟩ := a.eq_nat_or_neg
  · obtain ⟨n, rfl | rfl⟩ := b.eq_nat_or_neg
    · have positive : ∀ k : Nat, decide ((k : Int) < 0) = false :=
        fun k => decide_eq_false (by omega)
      rw [magnitude, positive, positive]
      rfl
    · rw [Int.tdiv_neg, magnitude]
      rcases Nat.eq_zero_or_pos n with rfl | positive
      · simp
      · simp [positive]
  · rw [Int.neg_mul, Int.neg_tdiv]
    obtain ⟨n, rfl | rfl⟩ := b.eq_nat_or_neg
    · rw [magnitude]
      rcases Nat.eq_zero_or_pos m with rfl | positive
      · simp
      · simp [positive]
    · rw [Int.tdiv_neg, magnitude]
      rcases Nat.eq_zero_or_pos m with rfl | m_pos
      · simp
      rcases Nat.eq_zero_or_pos n with rfl | n_pos
      · simp
      · simp [m_pos, n_pos]

theorem toInt_quotient {a b : Int} (fits : QuotientFits a b) :
    (BitVec.ofInt 128 (quotient a b)).toInt = quotient a b := by
  obtain ⟨lower, upper⟩ := fits
  rw [toInt_ofInt]
  exact Int.bmod_eq_of_le (by omega) (by omega)

namespace Native

theorem udiv_eq {a b : BitVec 128} (nonzero : b ≠ 0) (b_le : b.toNat ≤ 2 ^ 127) {fuel : Nat}
    (enough : 128 < fuel) :
    udiv fuel a b = some (.ofNat 128 (a.toNat * 2 ^ 64 / b.toNat)) := by
  have positive : 0 < b.toNat := by
    apply pos_of_ne_zero
    intro zero
    exact nonzero (eq_of_toNat_eq zero)
  obtain ⟨result, run, value⟩ := Words.udiv_spec lawful (x := a) positive b_le enough
  unfold udiv
  rw [run]
  apply congrArg some
  apply eq_of_toNat_eq
  simp [value]

theorem div_eq {v o : BitVec 128} (nonzero : o ≠ 0) {fuel : Nat} (enough : 128 < fuel) :
    div fuel v o = some (.ofInt 128 (quotient v.toInt o.toInt)) := by
  have o_le := natAbs_le o
  have magnitude : (if o.slt 0 then -o else o) ≠ 0 := by
    split
    · exact neg_ne_zero.mpr nonzero
    · exact nonzero
  unfold div outputSign
  dsimp only
  rw [udiv_eq magnitude (by rw [toNat_magnitude]; exact o_le) enough, Option.map_some,
    toNat_magnitude, toNat_magnitude, ofNat_neg, quotient_eq]
  rfl

end Native

namespace CairoUint128

theorem udiv_eq {a b : CairoUint128} (positive : 0 < b.toNat) (b_le : b.toNat ≤ 2 ^ 127)
    {fuel : Nat} (enough : 128 < fuel) :
    (udiv fuel a b).map toBitVec = some (.ofNat 128 (a.toNat * 2 ^ 64 / b.toNat)) := by
  obtain ⟨result, run, value⟩ := Words.udiv_spec lawful (x := a) positive b_le enough
  unfold udiv
  rw [run, Option.map_some]
  apply congrArg some
  apply eq_of_toNat_eq
  simp [toNat_toBitVec, value]

theorem div_eq {v o : BitVec 128} (nonzero : o ≠ 0) {fuel : Nat} (enough : 128 < fuel) :
    (div fuel (ofBitVec v) (ofBitVec o)).map toBitVec =
      some (.ofInt 128 (quotient v.toInt o.toInt)) := by
  have o_le := natAbs_le o
  have positive : 0 < o.toInt.natAbs := by
    apply Int.natAbs_pos.mpr
    intro zero
    exact nonzero (eq_of_toInt_eq zero)
  unfold div outputSign
  dsimp only
  rw [sign_eq, map_negate, udiv_eq (by rw [toNat_magnitude]; exact positive)
    (by rw [toNat_magnitude]; exact o_le) enough, Option.map_some, toNat_magnitude,
    toNat_magnitude, Native.ofNat_neg, quotient_eq]
  rfl

end CairoUint128

/-- **Division** ends and rounds toward zero, with both implementations: magnitudes give the
quotient in the arithmetic of 128 bits, and signed numbers the exact one where it fits. -/
theorem division_truncates {fuel : Nat} (enough : 128 < fuel) :
    (∀ a b : BitVec 128, b ≠ 0 → b.toNat ≤ 2 ^ 127 →
      Native.udiv fuel a b = some (.ofNat 128 (a.toNat * 2 ^ 64 / b.toNat)) ∧
      (udiv fuel (.ofBitVec a) (.ofBitVec b)).map toBitVec =
        some (.ofNat 128 (a.toNat * 2 ^ 64 / b.toNat))) ∧
    ∀ v o : BitVec 128, o ≠ 0 → QuotientFits v.toInt o.toInt →
      (Native.div fuel v o).map BitVec.toInt = some (quotient v.toInt o.toInt) ∧
      ((div fuel (.ofBitVec v) (.ofBitVec o)).map toBitVec).map
        BitVec.toInt = some (quotient v.toInt o.toInt) := by
  constructor
  · intro a b nonzero b_le
    refine ⟨Native.udiv_eq nonzero b_le enough, ?_⟩
    have positive : 0 < b.toNat := by
      apply pos_of_ne_zero
      intro zero
      exact nonzero (eq_of_toNat_eq zero)
    have cairo := udiv_eq (a := .ofBitVec a) (b := .ofBitVec b)
      (by rw [toNat_ofBitVec]; exact positive)
      (by rw [toNat_ofBitVec]; exact b_le) enough
    rw [toNat_ofBitVec, toNat_ofBitVec] at cairo
    exact cairo
  · intro v o nonzero fits
    rw [Native.div_eq nonzero enough, div_eq nonzero enough, Option.map_some, toInt_quotient fits]
    exact ⟨rfl, rfl⟩

/-- -1 / 3 -/
theorem division_truncates_thirds :
    (Native.div 129 (-(1#128 <<< 64)) (3#128 <<< 64)).map BitVec.toInt =
      some (quotient (-2 ^ 64) (3 * 2 ^ 64)) := by
  have truncated := ((@division_truncates 129 (by decide)).2 (-(1#128 <<< 64))
    (3#128 <<< 64) (by decide) (by unfold QuotientFits quotient; decide)).1
  exact truncated

end Ns3.Core
