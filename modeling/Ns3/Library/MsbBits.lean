import Mathlib.Data.Nat.Bitwise
import Mathlib.Data.BitVec

/-!
# Bits, the most significant one first

The leading bits of an octet, the bits of a number of some width, and the number
behind a list of bits.
-/

namespace MsbBits

open List

/-- The first `n` bits of an octet. -/
def leading (o : BitVec 8) (n : Nat) : List Bool := (List.range n).map o.getMsbD

/-- The bits of a sequence of octets. -/
def ofOctets (octets : List (BitVec 8)) : List Bool := octets.flatMap fun o => leading o 8

/-- The `n` lowest bits of a number. -/
def ofNat (value : Nat) : Nat → List Bool
  | 0 => []
  | n + 1 => value.testBit n :: ofNat value n

def toNat : List Bool → Nat
  | [] => 0
  | b :: bits => b.toNat * 2 ^ bits.length + toNat bits

@[simp]
theorem length_leading (o : BitVec 8) (n : Nat) : (leading o n).length = n := by
  unfold leading
  rw [length_map, length_range]

theorem leading_succ (o : BitVec 8) (n : Nat) :
    leading o (n + 1) = leading o n ++ [o.getMsbD n] := by
  unfold leading
  simp [range_succ]

theorem leading_congr {o p : BitVec 8} {n : Nat} (same : ∀ i < n, o.getMsbD i = p.getMsbD i) :
    leading o n = leading p n :=
  map_congr_left fun i mem => same i (mem_range.mp mem)

theorem leading_shiftLeft (o : BitVec 8) (n : Nat) :
    leading o (n + 1) = o.getMsbD 0 :: leading (o <<< 1) n := by
  unfold leading
  rw [range_succ_eq_map, map_cons, map_map]
  congr 1
  apply map_congr_left
  intro i _
  rw [BitVec.getMsbD_shiftLeft]
  rfl

@[simp]
theorem ofOctets_nil : ofOctets [] = [] := rfl

@[simp]
theorem ofOctets_cons (o : BitVec 8) (octets : List (BitVec 8)) :
    ofOctets (o :: octets) = leading o 8 ++ ofOctets octets := rfl

@[simp]
theorem ofOctets_append (front back : List (BitVec 8)) :
    ofOctets (front ++ back) = ofOctets front ++ ofOctets back := flatMap_append

@[simp]
theorem length_ofOctets (octets : List (BitVec 8)) :
    (ofOctets octets).length = 8 * octets.length := by
  induction octets with
  | nil => rfl
  | cons o octets ih =>
    rw [ofOctets_cons, length_append, length_leading, ih, length_cons]
    omega

@[simp]
theorem length_ofNat (value n : Nat) : (ofNat value n).length = n := by
  induction n with
  | zero => rfl
  | succ n ih => exact congrArg Nat.succ ih

/-- **The bits of a number** give it back, below the power of two. -/
theorem toNat_ofNat (value n : Nat) : toNat (ofNat value n) = value % 2 ^ n := by
  induction n with
  | zero => rw [Nat.pow_zero, Nat.mod_one]; rfl
  | succ n ih =>
    unfold ofNat toNat
    simp [ih, Nat.mod_pow_succ, Nat.toNat_testBit, mul_comm, add_comm]

end MsbBits
