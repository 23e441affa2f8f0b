import Mathlib.Data.Nat.Bitwise

/-!
# Numbers as bytes, the lowest first

And numbers that are put together from bit fields.
-/

namespace LittleEndian

def write : (count n : Nat) → List UInt8
  | 0, _ => []
  | count + 1, n => UInt8.ofNat n :: write count (n / 256)

def read : (count : Nat) → List UInt8 → Option (Nat × List UInt8)
  | 0, bytes => some (0, bytes)
  | _ + 1, [] => none
  | count + 1, low :: bytes => do
    let (high, rest) ← read count bytes
    return (low.toNat + 256 * high, rest)

@[simp]
theorem length_write (count n : Nat) : (write count n).length = count := by
  induction count generalizing n with
  | zero => rfl
  | succ count ih => simp [write, ih]

theorem read_write {count n : Nat} (fits : n < 256 ^ count) (rest : List UInt8) :
    read count (write count n ++ rest) = some (n, rest) := by
  induction count generalizing n with
  | zero =>
    have : n = 0 := by simpa using fits
    simp [read, write, this]
  | succ count ih =>
    have high : n / 256 < 256 ^ count := by
      rw [Nat.pow_succ] at fits
      exact Nat.div_lt_of_lt_mul (by omega)
    have whole : n % 256 + 256 * (n / 256) = n := Nat.mod_add_div n 256
    simp [read, write, ih high, whole]

/-! ## Bit fields -/

theorem or_shiftLeft {low k : Nat} (fits : low < 2 ^ k) (value : Nat) :
    low ||| value <<< k = low + value * 2 ^ k := by
  rw [Nat.or_comm, ← Nat.shiftLeft_add_eq_or_of_lt fits, Nat.shiftLeft_eq, add_comm]

theorem and_mask (n : Nat) :
    n &&& 0x01 = n % 2 ∧ n &&& 0x03 = n % 4 ∧ n &&& 0x07 = n % 8 ∧ n &&& 0x0f = n % 16 ∧
      n &&& 0x1f = n % 32 ∧ n &&& 0x3f = n % 64 ∧ n &&& 0x7f = n % 128 ∧ n &&& 0xff = n % 256 ∧
      n &&& 0x0fff = n % 4096 ∧ n &&& 0xffff = n % 65536 := by
  have mask := Nat.and_two_pow_sub_one_eq_mod n
  exact ⟨mask 1, mask 2, mask 3, mask 4, mask 5, mask 6, mask 7, mask 8, mask 12, mask 16⟩

end LittleEndian
