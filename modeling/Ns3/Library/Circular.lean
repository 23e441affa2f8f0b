import Mathlib.Data.List.Range
import Mathlib.Data.Nat.ModEq

/-!
# Counting round a circle

Numbers below `m` stand for the residues of counters that only grow. An
offset from a base puts the residues of the next `m` counter values back in
their order.
-/

namespace Circular

open Nat

/-- How far `v` lies after `base` on the circle of `m` numbers. -/
def offset (m base v : Nat) : Nat := (v + m - base) % m

variable {m : Nat}

theorem offset_lt (pos : 0 < m) (base v : Nat) : offset m base v < m := mod_lt _ pos

/-- The offset of a counter value from a base at most a circle before it. -/
theorem offset_add (b : Nat) {k : Nat} (hk : k < m) : offset m (b % m) ((b + k) % m) = k := by
  have pos : 0 < m := by omega
  have hb := mod_lt b pos
  have split : (b + k) % m = (b % m + k) % m := by simp
  unfold offset
  rw [split]
  by_cases inside : b % m + k < m
  · rw [mod_eq_of_lt inside, show b % m + k + m - b % m = k + m by omega,
      add_mod_right, mod_eq_of_lt hk]
  · have wrapped : (b % m + k) % m = b % m + k - m := by
      rw [mod_eq_sub_mod (by omega), mod_eq_of_lt (by omega)]
    rw [wrapped, show b % m + k - m + m - b % m = k by omega, mod_eq_of_lt hk]

/-- Going the offset forward from the base leads to the number. -/
theorem add_offset {base v : Nat} (hb : base < m) (hv : v < m) :
    (base + offset m base v) % m = v := by
  unfold offset
  simp [show base + (v + m - base) = v + m by omega, mod_eq_of_lt hv]

/-- Every residue is met within a circle from any counter on. -/
theorem exists_counter (b : Nat) {v : Nat} (hv : v < m) : ∃ n, b ≤ n ∧ n < b + m ∧ n % m = v := by
  have pos : 0 < m := by omega
  have back := add_offset (mod_lt b pos) hv
  have near := offset_lt pos (b % m) v
  refine ⟨b + offset m (b % m) v, by omega, by omega, ?_⟩
  rwa [mod_add_mod] at back

/-- Two counter values less than a circle apart with one residue are equal. -/
theorem eq_of_residue {a b : Nat} (same : a % m = b % m) (near : a < b + m) (near' : b < a + m) :
    a = b := by
  rcases Nat.le_total a b with h | h
  · have gap := sub_mod_eq_zero_of_mod_eq same.symm
    rw [mod_eq_of_lt (by omega)] at gap
    omega
  · have gap := sub_mod_eq_zero_of_mod_eq same
    rw [mod_eq_of_lt (by omega)] at gap
    omega

end Circular

/-!
## Serial number arithmetic

Serial numbers are counters modulo `2 * half`. Their order is the shorter way
round the circle, so that it is the order of the counters as long as these are
less than half a circle apart.
-/

structure Serial (half : Nat) where
  value : Nat
  small : value < 2 * half
  deriving DecidableEq

namespace Serial

variable {half : Nat}

@[ext]
theorem eq_of_value {a b : Serial half} (same : a.value = b.value) : a = b := by
  obtain ⟨a, _⟩ := a
  obtain ⟨b, _⟩ := b
  obtain rfl : a = b := same
  rfl

/-- Later in the shorter way round. -/
def Gt (a b : Serial half) : Prop :=
  b.value < a.value ∧ a.value - b.value < half ∨ a.value < b.value ∧ half ≤ b.value - a.value

instance (a b : Serial half) : Decidable (a.Gt b) := inferInstanceAs (Decidable (_ ∨ _))

/-- The two counters are less than half a circle apart. -/
def Near (half x y : Nat) : Prop := x < y + half ∧ y < x + half

instance (x y : Nat) : Decidable (Near half x y) := inferInstanceAs (Decidable (_ ∧ _))

theorem Near.symm {x y : Nat} (near : Near half x y) : Near half y x := ⟨near.2, near.1⟩

section Counters

variable [pos : NeZero half]

/-- The serial number of a counter. -/
def of (n : Nat) : Serial half :=
  ⟨n % (2 * half), Nat.mod_lt _ (Nat.mul_pos Nat.two_pos (Nat.pos_of_neZero half))⟩

def add (a : Serial half) (n : Nat) : Serial half := of (a.value + n)

/-- How far `a` is ahead of `b`, as a number without a sign. -/
def sub (a b : Serial half) : Nat := Circular.offset (2 * half) b.value a.value

theorem of_value (a : Serial half) : of a.value = a := eq_of_value (Nat.mod_eq_of_lt a.small)

@[simp]
theorem add_zero (a : Serial half) : a.add 0 = a := of_value a

theorem of_add (x n : Nat) : (of x : Serial half).add n = of (x + n) := by
  apply eq_of_value
  simp [add, of]

theorem add_add (a : Serial half) (m n : Nat) : (a.add m).add n = a.add (m + n) := by
  unfold add
  rw [← Nat.add_assoc]
  exact of_add _ _

theorem of_eq_of {x y : Nat} (near : x < y + 2 * half) (near' : y < x + 2 * half) :
    (of x : Serial half) = of y ↔ x = y := by
  constructor
  · intro same
    have residue : x % (2 * half) = y % (2 * half) := congrArg value same
    exact Circular.eq_of_residue residue near near'
  · rintro rfl
    rfl

/-- Serial numbers of near counters are ordered as the counters are. -/
theorem of_gt_of {x y : Nat} (near : Near half x y) : (of x : Serial half).Gt (of y) ↔ y < x := by
  obtain ⟨low, high⟩ := near
  have x_small := (of x : Serial half).small
  have y_small := (of y : Serial half).small
  have x_eq : (of x : Serial half).value + 2 * half * (x / (2 * half)) = x := Nat.mod_add_div _ _
  have y_eq : (of y : Serial half).value + 2 * half * (y / (2 * half)) = y := Nat.mod_add_div _ _
  unfold Gt
  generalize (of x : Serial half).value = u at *
  generalize (of y : Serial half).value = v at *
  rcases Nat.lt_trichotomy (x / (2 * half)) (y / (2 * half)) with before | same | after
  · obtain ⟨k, turns⟩ := Nat.exists_eq_add_of_lt before
    rw [turns] at y_eq
    have more : 2 * half * (x / (2 * half) + k + 1) =
        2 * half * (x / (2 * half)) + 2 * half * k + 2 * half := by simp [Nat.mul_add, Nat.mul_add]
    omega
  · rw [same] at x_eq
    omega
  · obtain ⟨k, turns⟩ := Nat.exists_eq_add_of_lt after
    rw [turns] at x_eq
    have more : 2 * half * (y / (2 * half) + k + 1) =
        2 * half * (y / (2 * half)) + 2 * half * k + 2 * half := by simp [Nat.mul_add, Nat.mul_add]
    omega

theorem of_sub_of {x y : Nat} (le : y ≤ x) (near : x < y + 2 * half) :
    (of x : Serial half).sub (of y) = x - y := by
  obtain ⟨k, rfl⟩ := Nat.exists_eq_add_of_le le
  have ahead := Circular.offset_add y (m := 2 * half) (k := k) (by omega)
  rw [Nat.add_sub_cancel_left]
  exact ahead

/-- Going from `b` as far as `a` is ahead of it leads to `a`. -/
theorem add_sub (a b : Serial half) : b.add (a.sub b) = a :=
  eq_of_value (Circular.add_offset b.small a.small)

end Counters

end Serial
