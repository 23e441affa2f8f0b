import Mathlib

/-!
# Prefixes of strings of bits

The bits of a string of bytes, the most significant one of each byte first, and a
string that begins like another one.
-/

namespace PrefixBits

open List

def bit (l : List UInt8) (i : Nat) : Bool := (l.getD (i / 8) 0).toBitVec.getMsbD (i % 8)

variable {l m : List UInt8} {i k n : Nat}

theorem byte_ext {a b : UInt8}
    (same : ∀ j < 8, a.toBitVec.getMsbD j = b.toBitVec.getMsbD j) : a = b :=
  UInt8.toBitVec_inj.mp (BitVec.eq_of_getMsbD_eq same)

theorem ext (length : l.length = m.length) (same : ∀ i < 8 * l.length, bit l i = bit m i) :
    l = m := by
  apply ext_getElem length
  intro k here there
  apply byte_ext
  intro j j_lt
  have bits := same (8 * k + j) (by omega)
  unfold bit at bits
  rwa [show (8 * k + j) / 8 = k by omega, show (8 * k + j) % 8 = j by omega,
    getD_eq_getElem _ _ here, getD_eq_getElem _ _ there] at bits

theorem bit_append_left (inside : i < 8 * l.length) : bit (l ++ m) i = bit l i := by
  unfold bit
  rw [getD_append _ _ _ _ (by omega)]

theorem bit_append_right (outside : 8 * l.length ≤ i) :
    bit (l ++ m) i = bit m (i - 8 * l.length) := by
  unfold bit
  rw [getD_append_right _ _ _ _ (by omega), show (i - 8 * l.length) / 8 = i / 8 - l.length by
    omega, show (i - 8 * l.length) % 8 = i % 8 by omega]

theorem bit_drop (l : List UInt8) (k i : Nat) : bit (l.drop k) i = bit l (8 * k + i) := by
  unfold bit
  simp [show (8 * k + i) / 8 = k + i / 8 by omega]

theorem bit_take (inside : i < 8 * k) : bit (l.take k) i = bit l i := by
  unfold bit
  rw [getD_eq_getElem?_getD, getElem?_take_of_lt (by omega), ← getD_eq_getElem?_getD]

theorem bit_zeros (n i : Nat) : bit (List.replicate n 0) i = false := by
  unfold bit
  have zero : (List.replicate n (0 : UInt8)).getD (i / 8) 0 = 0 := by
    rw [getD_eq_getElem?_getD, getElem?_replicate]
    split <;> rfl
  rw [zero]
  exact BitVec.getMsbD_zero

/-- A string that goes on like another one after some bytes. -/
theorem bit_take_drop (long : k ≤ l.length) :
    bit (l.take k ++ m.drop k) i = if i < 8 * k then bit l i else bit m i := by
  have length : (l.take k).length = k := length_take_of_le long
  split
  case isTrue inside => rw [bit_append_left (by omega), bit_take inside]
  case isFalse outside =>
    rw [bit_append_right (by omega), bit_drop, length]
    congr 1
    omega

theorem bit_modify (f : UInt8 → UInt8) (inside : k < l.length) : bit (l.modify k f) i =
      if i / 8 = k then (f (l.getD k 0)).toBitVec.getMsbD (i % 8) else bit l i := by
  unfold bit
  rw [getD_eq_getElem?_getD, getElem?_modify]
  split
  case isTrue here =>
    rw [← here, getElem?_eq_getElem (by omega), getD_eq_getElem _ _ (by omega)]
    simp [here]
  case isFalse other =>
    rw [getD_eq_getElem?_getD]
    simp [Ne.symm other]

theorem bit_zipWith_and (same : l.length = m.length) :
    bit (List.zipWith (· &&& ·) l m) i = (bit l i && bit m i) := by
  unfold bit
  by_cases inside : i / 8 < l.length
  · rw [getD_eq_getElem _ _ (by rw [length_zipWith]; omega),
      getD_eq_getElem _ _ inside, getD_eq_getElem _ _ (same ▸ inside),
      getElem_zipWith, UInt8.toBitVec_and, BitVec.getMsbD_and]
  · rw [getD_eq_default _ _ (by rw [length_zipWith]; omega),
      getD_eq_default _ _ (by omega), getD_eq_default _ _ (by omega), Bool.and_self]

/-- The `n` last bits of a byte. -/
def lowBits (n : Nat) : UInt8 := .ofNat (2 ^ n - 1)

theorem getMsbD_lowBits {n j : Nat} (le : n ≤ 8) (lt : j < 8) :
    (lowBits n).toBitVec.getMsbD j = decide (8 - n ≤ j) := by
  have all : ∀ n < 9, ∀ j < 8, (lowBits n).toBitVec.getMsbD j = decide (8 - n ≤ j) := by decide
  exact all n (by omega) j lt

/-- The first `n` bits of `front`, and the rest of `l`. -/
def splice (n : Nat) (front l : List UInt8) : List UInt8 :=
  let whole := front.take (n / 8) ++ l.drop (n / 8)
  if n % 8 = 0 then whole
  else whole.modify (n / 8) fun b =>
    (front.getD (n / 8) 0 &&& ~~~lowBits (8 - n % 8)) ||| (b &&& lowBits (8 - n % 8))

variable {front : List UInt8}

theorem length_splice (same : front.length = l.length) (inside : n ≤ 8 * l.length) :
    (splice n front l).length = l.length := by
  have whole : (front.take (n / 8) ++ l.drop (n / 8)).length = l.length := by
    rw [length_append, length_take, length_drop]
    omega
  unfold splice
  split
  · exact whole
  · rw [length_modify]
    exact whole

theorem bit_splice (same : front.length = l.length) (inside : n ≤ 8 * l.length) :
    bit (splice n front l) i = if i < n then bit front i else bit l i := by
  have whole : (front.take (n / 8) ++ l.drop (n / 8)).length = l.length := by
    rw [length_append, length_take, length_drop]
    omega
  have bits : ∀ j, bit (front.take (n / 8) ++ l.drop (n / 8)) j =
      if j < 8 * (n / 8) then bit front j else bit l j := fun j => bit_take_drop (by omega)
  unfold splice
  split
  case isTrue even =>
    rw [bits]
    congr 1
    rw [eq_iff_iff]
    omega
  case isFalse odd =>
    rw [bit_modify _ (by omega)]
    split
    case isTrue here =>
      have there : (front.take (n / 8) ++ l.drop (n / 8)).getD (n / 8) 0 = l.getD (n / 8) 0 := by
        rw [getD_append_right _ _ _ _ (by rw [length_take]; omega), length_take,
          getD_eq_getElem?_getD, getElem?_drop, ← getD_eq_getElem?_getD]
        congr 1
        omega
      rw [there, UInt8.toBitVec_or, UInt8.toBitVec_and, UInt8.toBitVec_and, UInt8.toBitVec_not,
        BitVec.getMsbD_or, BitVec.getMsbD_and, BitVec.getMsbD_and, BitVec.getMsbD_not,
        getMsbD_lowBits (by omega) (by omega)]
      unfold bit
      rw [here]
      have lt : i % 8 < 8 := by omega
      split
      case isTrue before => simp [lt, show ¬ (8 - (8 - n % 8) ≤ i % 8) by omega]
      case isFalse after => simp [show 8 - (8 - n % 8) ≤ i % 8 by omega]
    case isFalse other =>
      rw [bits]
      congr 1
      rw [eq_iff_iff]
      omega

end PrefixBits
