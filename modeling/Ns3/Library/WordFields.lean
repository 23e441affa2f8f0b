import Mathlib.Data.Nat.Bitwise

/-!
# Bit fields over words

The words of a number, the lowest first, and the fields of its bits that lie in one word or
across two.
-/

namespace WordFields

open Nat

/-- The lowest `k` words of `w` bits. -/
def words (w n k : Nat) : List Nat := (List.range k).map fun i => n / 2 ^ (w * i) % 2 ^ w

/-- The field of `n` bits below a position. -/
def field (number position n : Nat) : Nat := number / 2 ^ (position - n) % 2 ^ n

@[simp]
theorem length_words (w n k : Nat) : (words w n k).length = k := by
  unfold words
  rw [List.length_map, List.length_range]

theorem words_succ (w n k : Nat) :
    words w n (k + 1) = words w n k ++ [n / 2 ^ (w * k) % 2 ^ w] := by
  unfold words
  simp [List.range_succ]

theorem getElem?_words {w n k i : Nat} (inside : i < k) :
    (words w n k)[i]? = some (n / 2 ^ (w * i) % 2 ^ w) := by
  unfold words
  simp [List.getElem?_range inside]

theorem words_add_mul {w n k position : Nat} (value : Nat) (above : w * k ≤ position) :
    words w (n + value * 2 ^ position) k = words w n k := by
  apply List.map_congr_left
  intro i mem
  have inside := List.mem_range.mp mem
  have room : w * i + w ≤ position := le_trans (Nat.mul_le_mul_left w (succ_le_of_lt inside)) above
  have split : 2 ^ position = 2 ^ (position - (w * i + w)) * 2 ^ w * 2 ^ (w * i) := by
    rw [← Nat.pow_add, ← Nat.pow_add]
    congr 1
    omega
  simp [split, ← mul_assoc, add_mul_div_right _ _ (Nat.two_pow_pos _), ← mul_assoc]

/-! ## Shifts in a word -/

variable {w r n : Nat}

/-- Up to the position of a field and down again, inside a word. -/
theorem shift_within (word : Nat) (n_le : n ≤ r) (r_le : r ≤ w) :
    word * 2 ^ (w - r) % 2 ^ w / 2 ^ (w - n) = word % 2 ^ r / 2 ^ (r - n) := by
  have whole : 2 ^ w = 2 ^ r * 2 ^ (w - r) := by
    rw [← Nat.pow_add]
    congr 1
    omega
  have down : 2 ^ (w - n) = 2 ^ (r - n) * 2 ^ (w - r) := by
    rw [← Nat.pow_add]
    congr 1
    omega
  rw [whole, mul_mod_mul_right, down, Nat.mul_div_mul_right _ _ (Nat.two_pow_pos _)]

/-- The same for a field that is longer than what the word has of it. -/
theorem shift_across (word : Nat) (r_le : r ≤ n) (n_le : n ≤ w) :
    word * 2 ^ (w - r) % 2 ^ w / 2 ^ (w - n) = word % 2 ^ r * 2 ^ (n - r) := by
  have whole : 2 ^ w = 2 ^ r * 2 ^ (w - r) := by
    rw [← Nat.pow_add]
    congr 1
    omega
  have up : 2 ^ (w - r) = 2 ^ (n - r) * 2 ^ (w - n) := by
    rw [← Nat.pow_add]
    congr 1
    omega
  simp [whole, mul_mod_mul_right, up, ← mul_assoc]

theorem field_within (number i : Nat) (n_le : n ≤ r) (r_le : r ≤ w) :
    field number (w * i + r) n = number / 2 ^ (w * i) % 2 ^ w % 2 ^ r / 2 ^ (r - n) := by
  have position : w * i + r - n = w * i + (r - n) := by omega
  have rest : 2 ^ r = 2 ^ (r - n) * 2 ^ n := by
    rw [← Nat.pow_add]
    congr 1
    omega
  unfold field
  rw [mod_mod_of_dvd _ (Nat.pow_dvd_pow 2 r_le), position, Nat.pow_add,
    ← Nat.div_div_eq_div_mul, rest, mod_mul_right_div_self]

theorem field_across (number i : Nat) (r_le : r ≤ n) (n_le : n ≤ w) :
    field number (w * (i + 1) + r) n = number / 2 ^ (w * (i + 1)) % 2 ^ r * 2 ^ (n - r) +
        number / 2 ^ (w * i) % 2 ^ w / 2 ^ (w - (n - r)) := by
  have position : w * (i + 1) + r - n = w * i + (w - (n - r)) := by
    rw [mul_succ]
    omega
  have width : 2 ^ n = 2 ^ (n - r) * 2 ^ r := by
    rw [← Nat.pow_add]
    congr 1
    omega
  have word : 2 ^ w = 2 ^ (w - (n - r)) * 2 ^ (n - r) := by
    rw [← Nat.pow_add]
    congr 1
    omega
  have next : w * i + (w - (n - r)) + (n - r) = w * (i + 1) := by
    rw [mul_succ]
    omega
  unfold field
  rw [position, width, mod_mul, Nat.div_div_eq_div_mul, ← Nat.pow_add, next, word,
    mod_mul_right_div_self, Nat.div_div_eq_div_mul, ← Nat.pow_add, add_comm,
    mul_comm (2 ^ (n - r))]

theorem field_add {low high value position : Nat} (low_lt : low < 2 ^ position)
    (value_lt : value < 2 ^ n) :
    field (low + value * 2 ^ position + high * 2 ^ (position + n)) (position + n) n = value := by
  unfold field
  rw [Nat.add_sub_cancel, Nat.pow_add, ← mul_assoc, Nat.mul_right_comm, add_assoc,
    ← Nat.add_mul, add_mul_div_right _ _ (Nat.two_pow_pos _),
    div_eq_of_lt low_lt, zero_add, add_mul_mod_self_right, mod_eq_of_lt value_lt]

end WordFields
