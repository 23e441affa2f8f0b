import Mathlib.Data.BitVec
import Mathlib.Tactic.Abel

/-!
# `SequenceNumber`

Numbers that wrap, of any width. The order is found with two comparisons against half of the
largest number, and the difference in one of four branches.
-/

namespace Ns3.Network

/-- `SequenceNumber<NUMERIC_TYPE, SIGNED_TYPE>`, where both types have `w` bits. -/
structure SequenceNumber (w : Nat) where
  value : BitVec w
  deriving DecidableEq

namespace SequenceNumber

variable {w : Nat}

def maxValue (w : Nat) : BitVec w := BitVec.allOnes w

def halfMaxValue (w : Nat) : BitVec w := maxValue w / 2

/-- `operator+` of a number of `SIGNED_TYPE` -/
def add (a : SequenceNumber w) (delta : Int) : SequenceNumber w :=
  ⟨a.value + BitVec.ofInt w delta⟩

/-- `operator-` of another sequence number -/
def sub (a other : SequenceNumber w) : Int :=
  if a.value > other.value then
    let diff := a.value - other.value
    if diff < halfMaxValue w then diff.toInt
    else (-(maxValue w - a.value + 1 + other.value)).toInt
  else
    let diff := other.value - a.value
    if diff < halfMaxValue w then (-diff).toInt
    else (maxValue w - other.value + 1 + a.value).toInt

def gt (a other : SequenceNumber w) : Bool :=
  (a.value > other.value && a.value - other.value ≤ halfMaxValue w) ||
    (other.value > a.value && other.value - a.value > halfMaxValue w)

def lt (a other : SequenceNumber w) : Bool := !a.gt other && a.value != other.value

/-- Every branch computes the same difference. -/
theorem sub_eq (a b : SequenceNumber w) : a.sub b = (a.value - b.value).toInt := by
  have wraps : maxValue w + 1 = 0 := by simp [maxValue, ← BitVec.neg_one_eq_allOnes]
  have round (x y : BitVec w) : maxValue w - x + 1 + y = y - x := by
    rw [show maxValue w - x + 1 + y = (maxValue w + 1) + (y - x) by abel, wraps, zero_add]
  unfold sub
  rw [round, round, neg_sub]
  dsimp only
  rw [neg_sub]
  simp

theorem toNat_sub (x y : BitVec w) : (x - y).toNat =
    if y.toNat ≤ x.toNat then x.toNat - y.toNat else 2 ^ w + x.toNat - y.toNat := by
  have x_lt := x.isLt
  rw [BitVec.toNat_sub]
  split
  · rename_i le
    rw [show 2 ^ w - y.toNat + x.toNat = x.toNat - y.toNat + 2 ^ w by omega, Nat.add_mod_right]
    exact Nat.mod_eq_of_lt (by omega)
  · rw [Nat.mod_eq_of_lt (by omega)]
    omega

/-- Greater is ahead by less than half the space, or by half and the smaller number. -/
theorem gt_iff (a b : SequenceNumber (w + 1)) :
    a.gt b = true ↔ (0 < (a.value - b.value).toNat ∧ (a.value - b.value).toNat < 2 ^ w) ∨
      ((a.value - b.value).toNat = 2 ^ w ∧ a.value.toNat < b.value.toNat) := by
  have half : (halfMaxValue (w + 1)).toNat = 2 ^ w - 1 := by
    cases w with
    | zero => rfl
    | succ w =>
      have fits : 2 < 2 ^ (w + 1 + 1) := by
        have := Nat.two_pow_pos w
        omega
      simp only [halfMaxValue, maxValue, BitVec.toNat_udiv, BitVec.toNat_allOnes,
        BitVec.ofNat_eq_ofNat, BitVec.toNat_ofNat, Nat.mod_eq_of_lt fits]
      omega
  have a_lt := a.value.isLt
  have b_lt := b.value.isLt
  have ahead := toNat_sub a.value b.value
  have behind := toNat_sub b.value a.value
  rw [Nat.pow_succ] at a_lt b_lt ahead behind
  simp only [gt, Bool.or_eq_true, Bool.and_eq_true, decide_eq_true_eq, gt_iff_lt, BitVec.lt_def,
    BitVec.le_def, half]
  generalize (a.value - b.value).toNat = δ at *
  generalize (b.value - a.value).toNat = γ at *
  split at ahead <;> split at behind <;> omega

/-- Of two numbers that differ one is greater. -/
theorem lt_eq_gt (a b : SequenceNumber (w + 1)) : a.lt b = b.gt a := by
  have a_lt := a.value.isLt
  have b_lt := b.value.isLt
  have ahead := toNat_sub a.value b.value
  have behind := toNat_sub b.value a.value
  rw [Nat.pow_succ] at a_lt b_lt ahead behind
  rw [Bool.eq_iff_iff, gt_iff, lt, Bool.and_eq_true, Bool.not_eq_true', ← Bool.not_eq_true,
    gt_iff, bne_iff_ne, ne_eq, ← BitVec.toNat_inj]
  split at ahead <;> split at behind <;> omega

theorem gt_asymm {a b : SequenceNumber (w + 1)} (gt : a.gt b = true) : b.gt a = false := by
  have other := lt_eq_gt a b
  rw [lt, gt] at other
  exact other.symm

/-- In half of the space the order is that of the distances from its start. -/
theorem gt_iff_within {base : BitVec (w + 1)} {a b : SequenceNumber (w + 1)}
    (inside : (a.value - base).toNat < 2 ^ w) (inside' : (b.value - base).toNat < 2 ^ w) :
    a.gt b = true ↔ (b.value - base).toNat < (a.value - base).toNat := by
  have ahead := toNat_sub (a.value - base) (b.value - base)
  rw [sub_sub_sub_cancel_right, Nat.pow_succ] at ahead
  have a_lt := a.value.isLt
  rw [gt_iff]
  split at ahead <;> omega

theorem toInt_ofInt {d : Int} (small : |d| < 2 ^ w) : (BitVec.ofInt (w + 1) d).toInt = d := by
  obtain ⟨low, high⟩ := abs_lt.mp small
  exact BitVec.toInt_ofInt_eq_self (Nat.succ_pos w) low.le high

/-- **The order and the arithmetic go together.** Numbers of `w + 1` bits, whose space has two
halves of `2 ^ w`. -/
theorem order_coheres (a b : SequenceNumber (w + 1)) {d e : Int} (small : |d| < 2 ^ w)
    (small' : |d + e| < 2 ^ w) :
    (a.add d).sub a = d ∧ ((a.add d).add e).sub a = d + e ∧ ((a.add d).gt a = true ↔ 0 < d) ∧
      (a.lt b = true → b.lt a = false) ∧
      ∀ (base : BitVec (w + 1)) (S : Set (SequenceNumber (w + 1))),
        (∀ x ∈ S, (x.value - base).toNat < 2 ^ w) →
        ∀ x ∈ S, ∀ y ∈ S, ∀ z ∈ S, x.lt y = true → y.lt z = true → x.lt z = true := by
  have away (d : Int) : (a.add d).value - a.value = BitVec.ofInt (w + 1) d := add_sub_cancel_left ..
  refine ⟨?_, ?_, ?_, ?_, ?_⟩
  · rw [sub_eq, away, toInt_ofInt small]
  · rw [sub_eq, ← toInt_ofInt small', BitVec.ofInt_add, ← add_sub_cancel_left a.value (_ + _)]
    simp only [add, add_assoc]
  · obtain ⟨low, high⟩ := abs_lt.mp small
    have signed := BitVec.toInt_eq_toNat_cond (BitVec.ofInt (w + 1) d)
    have bound := (BitVec.ofInt (w + 1) d).isLt
    rw [toInt_ofInt small] at signed
    rw [Nat.pow_succ] at signed bound
    rw [gt_iff, away]
    generalize (BitVec.ofInt (w + 1) d).toNat = δ at *
    have half : ((2 ^ w : Nat) : Int) = 2 ^ w := Nat.cast_pow 2 w
    split at signed <;> omega
  · intro less
    rw [lt_eq_gt] at less ⊢
    exact gt_asymm less
  · intro base S inside x hx y hy z hz less less'
    rw [lt_eq_gt, gt_iff_within (inside _ ‹_›) (inside _ ‹_›)] at *
    exact less.trans less'

/-- A number before the wrap, and one behind it. -/
theorem order_coheres_wrapping : ((⟨0xffffffff⟩ : SequenceNumber 32).add 10).sub ⟨0xffffffff⟩ = 10 ∧
      (((⟨0xffffffff⟩ : SequenceNumber 32).add 10).gt ⟨0xffffffff⟩ = true ↔ (0 : Int) < 10) :=
  have coheres := order_coheres (⟨0xffffffff⟩ : SequenceNumber 32) ⟨5⟩ (d := 10) (e := -3)
    (by decide) (by decide)
  ⟨coheres.1, coheres.2.2.1⟩

end SequenceNumber

end Ns3.Network
