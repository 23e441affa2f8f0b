import Mathlib.Data.Nat.ModEq
import Mathlib.Tactic.Ring

/-!
# Products of double words

A number of two words in some base, and the product of two of them by the products of
their words.
-/

namespace DoubleWord

open Nat

variable {base aH aL bH bL : Nat}

theorem mul_words : (aH * base + aL) * (bH * base + bL) =
    aL * bL + (aL * bH + aH * bL) * base + aH * bH * base * base := by
  ring

theorem mul_words_div (positive : 0 < base) : (aH * base + aL) * (bH * base + bL) / base =
      aL * bL / base + (aL * bH + aH * bL) + aH * bH * base := by
  rw [mul_words, add_assoc, ← add_mul, add_mul_div_right _ _ positive]
  exact (add_assoc _ _ _).symm

/-- The sum of the two middle products stays in a double word, if the upper words are at
most the half of a word. -/
theorem middle_lt (aH_le : aH ≤ base / 2) (bH_le : bH ≤ base / 2) (aL_lt : aL < base)
    (bL_lt : bL < base) : aL * bH + aH * bL < base * base := by
  have first := mul_le_mul (le_sub_one_of_lt aL_lt) bH_le
  have second := mul_le_mul aH_le (le_sub_one_of_lt bL_lt)
  have half : 2 * (base / 2) ≤ base := mul_div_le base 2
  have whole : (base - 1) * (2 * (base / 2)) ≤ (base - 1) * base := mul_le_mul_left _ half
  have twice : (base - 1) * (2 * (base / 2)) =
      (base - 1) * (base / 2) + base / 2 * (base - 1) := by ring
  have below : (base - 1) * base < base * base := mul_lt_mul_of_pos_right (by omega) (by omega)
  omega

/-- **Recombination.** The words of the partial products add up to the product without its
lowest word, in the arithmetic of double words. -/
theorem recombine (low middle high : Nat) :
    (low / base + middle % base + (middle / base + high % base) * base) % (base * base) =
      (low / base + middle + high * base) % (base * base) := by
  have split : middle = middle % base + middle / base * base := (mod_add_div' _ _).symm
  have upper : (middle / base + high % base) * base ≡ (middle / base + high) * base
      [MOD base * base] :=
    Nat.ModEq.mul_right' base ((mod_modEq high base).add_left _)
  have sum := upper.add_left (low / base + middle % base)
  have same : low / base + middle % base + (middle / base + high) * base =
      low / base + middle + high * base := by
    conv_rhs => rw [split]
    ring
  rw [same] at sum
  exact sum

/-- A shift by words: what leaves the lower word enters the upper one. -/
theorem shift_words {power rest : Nat} (whole : power * rest = base) (positive : 0 < base)
    (high low : Nat) :
    (high * power % base + low / rest) % base * base + low * power % base =
      (high * base + low) * power % (base * base) := by
  have power_pos : 0 < power := Nat.pos_of_mul_pos_right (whole ▸ positive)
  have rest_pos : 0 < rest := Nat.pos_of_mul_pos_left (whole ▸ positive)
  have below : low % rest * power < base := by
    rw [← whole, mul_comm]
    exact mul_lt_mul_of_pos_left (mod_lt _ rest_pos) power_pos
  have split : low * power = low % rest * power + low / rest * base := by
    conv_lhs => rw [← mod_add_div' low rest]
    rw [add_mul, mul_assoc, mul_comm rest, whole]
  have words : (high * base + low) * power =
      low % rest * power + (high * power + low / rest) * base := by
    rw [add_mul, split]
    ring
  rw [words, mod_mul, add_mul_mod_self_right, add_mul_div_right _ _ positive,
    div_eq_of_lt below, mod_eq_of_lt below, split, add_mul_mod_self_right,
    mod_eq_of_lt below, zero_add, mod_add_mod]
  ring

end DoubleWord

/-!
## Quotients by rounds of digits

Binary digits of a quotient behind the point. A round takes several digits at once: the
remainder is doubled or the denominator is halved for each of them, and one division gives
them all.
-/

namespace QuotientDigits

/-- `a * 2 ^ digits / b` is `quotient` and `rem / (den * 2 ^ shift)`, a proper fraction. -/
structure Holds (a b quotient rem den digits shift : Nat) : Prop where
  exact : a * 2 ^ digits * (den * 2 ^ shift) = (quotient * (den * 2 ^ shift) + rem) * b
  proper : rem < den * 2 ^ shift

variable {a b quotient rem den digits shift : Nat}

theorem Holds.den_pos (holds : Holds a b quotient rem den digits shift) : 0 < den := by
  have proper := holds.proper
  rcases eq_zero_or_pos den with zero | positive
  · rw [zero, zero_mul] at proper
    omega
  · exact positive

theorem Holds.start (a : Nat) (positive : 0 < b) : Holds a b (a / b) (a % b) b 0 0 where
  exact := by simp [Nat.div_add_mod']
  proper := by
    rw [pow_zero, mul_one]
    exact Nat.mod_lt a positive

theorem Holds.halve (holds : Holds a b quotient rem (2 * den) digits shift) :
    Holds a b quotient rem den digits (shift + 1) := by
  have scale : den * 2 ^ (shift + 1) = 2 * den * 2 ^ shift := by ring
  exact ⟨by rw [scale]; exact holds.exact, by rw [scale]; exact holds.proper⟩

theorem Holds.double (holds : Holds a b quotient rem den digits shift) :
    Holds a b quotient (2 * rem) den digits (shift + 1) := by
  have scale : den * 2 ^ (shift + 1) = 2 * (den * 2 ^ shift) := by ring
  have proper := holds.proper
  constructor
  · calc a * 2 ^ digits * (den * 2 ^ (shift + 1))
        = 2 * (a * 2 ^ digits * (den * 2 ^ shift)) := by ring
      _ = 2 * ((quotient * (den * 2 ^ shift) + rem) * b) := by rw [holds.exact]
      _ = (quotient * (den * 2 ^ (shift + 1)) + 2 * rem) * b := by ring
  · omega

theorem Holds.divide (holds : Holds a b quotient rem den digits shift) :
    Holds a b (quotient * 2 ^ shift + rem / den) (rem % den) den (digits + shift) 0 := by
  constructor
  · calc a * 2 ^ (digits + shift) * (den * 2 ^ 0) = a * 2 ^ digits * (den * 2 ^ shift) := by ring
      _ = (quotient * (den * 2 ^ shift) + (rem / den * den + rem % den)) * b := by
        rw [holds.exact, Nat.div_add_mod']
      _ = ((quotient * 2 ^ shift + rem / den) * (den * 2 ^ 0) + rem % den) * b := by ring
  · rw [pow_zero, mul_one]
    exact Nat.mod_lt _ holds.den_pos

/-- At the end of a round the digits are those of the quotient, rounded down. -/
theorem Holds.floor (holds : Holds a b quotient rem den digits 0) (positive : 0 < b) :
    a * 2 ^ digits / b = quotient := by
  have proper := holds.proper
  have exact := holds.exact
  rw [pow_zero, mul_one] at proper exact
  apply Nat.div_eq_of_lt_le
  · apply Nat.le_of_mul_le_mul_right _ holds.den_pos
    rw [exact, Nat.mul_right_comm]
    exact Nat.mul_le_mul_right b (Nat.le_add_right _ _)
  · apply Nat.lt_of_mul_lt_mul_right (a := den)
    rw [exact, Nat.mul_right_comm, Nat.succ_mul]
    exact Nat.mul_lt_mul_of_pos_right (by omega) positive

theorem Holds.floor_of_zero (holds : Holds a b quotient 0 den digits shift) (positive : 0 < b)
    (more : Nat) : a * 2 ^ (digits + more) / b = quotient * 2 ^ more := by
  have exact : a * 2 ^ digits = quotient * b := by
    apply Nat.eq_of_mul_eq_mul_right (Nat.zero_lt_of_lt holds.proper)
    simp [holds.exact, Nat.mul_right_comm]
  rw [pow_add, ← mul_assoc, exact, Nat.mul_right_comm]
  exact Nat.mul_div_cancel _ positive

end QuotientDigits

/-!
## Division by a reciprocal

A quotient as the product with the reciprocal of the divisor, taken to a scale and rounded up.
-/

namespace Reciprocal

/-- `scale / divisor`, rounded up. -/
def reciprocal (scale divisor : Nat) : Nat :=
  if scale / divisor * divisor = scale then scale / divisor else scale / divisor + 1

theorem reciprocal_bounds {divisor : Nat} (positive : 0 < divisor) (scale : Nat) :
    scale ≤ reciprocal scale divisor * divisor ∧
      reciprocal scale divisor * divisor < scale + divisor := by
  have split := Nat.div_add_mod' scale divisor
  have rest := Nat.mod_lt scale positive
  unfold reciprocal
  split
  case isTrue whole => omega
  case isFalse part =>
    rw [Nat.add_mul, one_mul]
    omega

/-- **Exactness.** The product with the reciprocal is the quotient, while the product with the
divisor is within the scale. -/
theorem mul_reciprocal_div {scale divisor n : Nat} (positive : 0 < divisor) (scale_pos : 0 < scale)
    (within : n * divisor ≤ scale) : n * reciprocal scale divisor / scale = n / divisor := by
  obtain ⟨lower, upper⟩ := reciprocal_bounds positive scale
  have split := Nat.div_add_mod' n divisor
  have rest := Nat.mod_lt n positive
  apply Nat.div_eq_of_lt_le
  · calc n / divisor * scale
        ≤ n / divisor * (reciprocal scale divisor * divisor) := Nat.mul_le_mul_left _ lower
      _ = n / divisor * divisor * reciprocal scale divisor := by ring
      _ ≤ n * reciprocal scale divisor := Nat.mul_le_mul_right _ (Nat.div_mul_le_self n divisor)
  · apply Nat.lt_of_mul_lt_mul_right (a := divisor)
    have error : n * (reciprocal scale divisor * divisor) < n * scale + scale := by
      rcases eq_zero_or_pos n with rfl | n_pos
      · omega
      · calc n * (reciprocal scale divisor * divisor)
            < n * (scale + divisor) := mul_lt_mul_of_pos_left upper n_pos
          _ = n * scale + n * divisor := by ring
          _ ≤ n * scale + scale := Nat.add_le_add_left within _
    calc n * reciprocal scale divisor * divisor
        = n * (reciprocal scale divisor * divisor) := by ring
      _ < (n + 1) * scale := by rw [Nat.succ_mul]; exact error
      _ ≤ (n / divisor * divisor + divisor) * scale := Nat.mul_le_mul_right _ (by omega)
      _ = (n / divisor).succ * scale * divisor := by rw [Nat.succ_eq_add_one]; ring

end Reciprocal
