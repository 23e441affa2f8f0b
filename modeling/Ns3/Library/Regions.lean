import Mathlib.Data.List.GetD
import Mathlib.Data.List.Range

/-!
# Regions of an unbounded store

A region is read as the list of its values, and a list is written over the region it covers.
-/

namespace Regions

open List

variable {B : Type} {f g : Nat → B} {p q m n : Nat} {bs : List B}

def slice (f : Nat → B) (p n : Nat) : List B := (List.range n).map fun i => f (p + i)

def patch (f : Nat → B) (p : Nat) (bs : List B) : Nat → B :=
  fun i => if p ≤ i then bs.getD (i - p) (f i) else f i

@[simp] theorem length_slice : (slice f p n).length = n := by simp [slice]

@[simp] theorem slice_zero : slice f p 0 = [] := rfl

@[simp] theorem patch_nil : patch f p [] = f := by
  funext i
  simp [patch]

theorem getElem?_slice (i : Nat) : (slice f p n)[i]? = if i < n then some (f (p + i)) else none := by
  rw [slice, getElem?_map]
  split
  case isTrue inside => rw [getElem?_range inside, Option.map_some]
  case isFalse outside => simp [Nat.le_of_not_lt outside]

theorem slice_add : slice f p (m + n) = slice f p m ++ slice f (p + m) n := by
  simp only [slice, range_add, map_append, map_map]
  congr 2
  funext i
  simp [Nat.add_assoc]

/-- Equal regions are equal in their parts. -/
theorem slice_split (eq : slice f p (m + n) = slice g q (m + n)) :
    slice f p m = slice g q m ∧ slice f (p + m) n = slice g (q + m) n := by
  rw [slice_add, slice_add] at eq
  exact append_inj eq (by simp)

theorem slice_congr (same : ∀ i, p ≤ i → i < p + n → f i = g i) : slice f p n = slice g p n := by
  apply map_congr_left
  intro i mem
  have inside := mem_range.mp mem
  exact same _ (Nat.le_add_right p i) (Nat.add_lt_add_left inside p)

theorem slice_constant {b : B} (constant : ∀ i, p ≤ i → i < p + n → f i = b) :
    slice f p n = List.replicate n b := by
  have eq : slice f p n = slice (fun _ => b) p n := slice_congr constant
  rw [eq, slice, map_const', length_range]

theorem patch_outside {i : Nat} (outside : i < p ∨ p + bs.length ≤ i) : patch f p bs i = f i := by
  unfold patch
  split
  · rw [getD_eq_default _ _ (by omega)]
  · rfl

theorem patch_inside {i : Nat} (inside : i < bs.length) : patch f p bs (p + i) = bs[i] := by
  unfold patch
  rw [if_pos (Nat.le_add_right p i), Nat.add_sub_cancel_left, getD_eq_getElem _ _ inside]

theorem slice_patch_outside (outside : q + n ≤ p ∨ p + bs.length ≤ q) :
    slice (patch f p bs) q n = slice f q n :=
  slice_congr fun i from_ below => patch_outside (by omega)

theorem patch_patch {cs : List B} :
    patch (patch f p bs) (p + bs.length) cs = patch f p (bs ++ cs) := by
  funext i
  by_cases before : i < p
  · rw [patch_outside (.inl (by omega)), patch_outside (.inl before), patch_outside (.inl before)]
  obtain ⟨k, rfl⟩ := Nat.exists_eq_add_of_le (Nat.le_of_not_lt before)
  unfold patch
  simp only [Nat.le_add_right, if_true, Nat.add_sub_cancel_left, Nat.add_le_add_iff_left]
  by_cases first : k < bs.length
  · rw [if_neg (Nat.not_le_of_lt first), getD_append _ _ _ _ first]
  · have behind := Nat.le_of_not_lt first
    rw [if_pos behind, getD_append_right _ _ _ _ behind, getD_eq_default bs _ behind,
      Nat.add_sub_add_left]

theorem slice_patch : slice (patch f p bs) p bs.length = bs := by
  apply ext_getElem?
  intro i
  rw [getElem?_slice]
  split
  case isTrue inside => rw [patch_inside inside, getElem?_eq_getElem inside]
  case isFalse outside => rw [getElem?_eq_none (Nat.le_of_not_lt outside)]

/-- A region that starts at a later place than the writing, and the first place of the region. -/
theorem slice_succ : slice f p (n + 1) = f p :: slice f (p + 1) n := by
  rw [Nat.add_comm, slice_add]
  rfl

end Regions
