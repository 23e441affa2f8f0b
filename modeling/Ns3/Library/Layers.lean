import Mathlib.Order.Basic

/-!
# Layers around a point

The first layer and what comes second are given; from there on a layer is where
the edges lead from the layer before. Each point belongs to the first layer that
takes it.
-/

namespace Layers

variable {α : Type} (first second : α → Prop) (edge : α → α → Prop)

/-- What would come after the layer with this number. -/
def Ends (layer : α → Prop) : Nat → α → Prop
  | 0 => first
  | 1 => second
  | _ + 2 => fun d => ∃ a, layer a ∧ edge a d

/-- A layer, and what is inside it or before it. -/
def layers : Nat → (α → Prop) × (α → Prop)
  | 0 => (fun _ => False, fun _ => False)
  | h + 1 =>
    let before := layers h
    let layer := fun d => Ends first second edge before.1 h d ∧ ¬ before.2 d
    (layer, fun d => before.2 d ∨ layer d)

def Layer (h : Nat) : α → Prop := (layers first second edge h).1

def Within (h : Nat) : α → Prop := (layers first second edge h).2

/-- The distance is the least one at which something ends. -/
def IsDistance (distance : α → Option Nat) : Prop :=
  ∀ d, distance d ≠ some 0 ∧ ∀ h, distance d = some (h + 1) ↔
    Ends first second edge (fun a => distance a = some h) h d ∧
      ∀ k < h, ¬ Ends first second edge (fun a => distance a = some k) k d

variable {first second edge}

theorem layer_succ (h : Nat) (d : α) : Layer first second edge (h + 1) d ↔
      Ends first second edge (Layer first second edge h) h d ∧ ¬ Within first second edge h d :=
  Iff.rfl

theorem within_succ (h : Nat) (d : α) : Within first second edge (h + 1) d ↔
      Within first second edge h d ∨ Layer first second edge (h + 1) d := Iff.rfl

theorem within_iff (h : Nat) (d : α) :
    Within first second edge h d ↔ ∃ k ≤ h, Layer first second edge k d := by
  induction h with
  | zero =>
    constructor
    · exact False.elim
    · rintro ⟨k, zero, inside⟩
      rw [Nat.le_zero.mp zero] at inside
      exact inside
  | succ h ih =>
    rw [within_succ, ih]
    constructor
    · rintro (⟨k, below, inside⟩ | inside)
      · exact ⟨k, Nat.le_succ_of_le below, inside⟩
      · exact ⟨h + 1, Nat.le_refl _, inside⟩
    · rintro ⟨k, below, inside⟩
      rcases Nat.le_succ_iff.mp below with below | rfl
      · exact Or.inl ⟨k, below, inside⟩
      · exact Or.inr inside

theorem layer_unique {h k : Nat} {d : α} (one : Layer first second edge h d)
    (other : Layer first second edge k d) : h = k := by
  have ordered : ∀ {h k : Nat}, h < k → Layer first second edge h d →
      ¬ Layer first second edge k d := by
    intro h k below one other
    obtain ⟨k, rfl⟩ := Nat.exists_eq_succ_of_ne_zero (Nat.ne_zero_of_lt below)
    exact ((layer_succ k d).mp other).2 ((within_iff k d).mpr ⟨h, Nat.le_of_lt_succ below, one⟩)
  rcases Nat.lt_trichotomy h k with below | same | above
  · exact absurd other (ordered below one)
  · exact same
  · exact absurd one (ordered above other)

/-- A point is taken by the first layer that can take it. -/
theorem within_iff_ends (h : Nat) (d : α) : Within first second edge h d ↔
      ∃ k < h, Ends first second edge (Layer first second edge k) k d := by
  induction h with
  | zero =>
    constructor
    · exact False.elim
    · rintro ⟨k, below, _⟩
      exact absurd below (Nat.not_lt_zero k)
  | succ h ih =>
    rw [within_succ, layer_succ, ih]
    constructor
    · rintro (⟨k, below, ends⟩ | ⟨ends, _⟩)
      · exact ⟨k, Nat.lt_succ_of_lt below, ends⟩
      · exact ⟨h, Nat.lt_succ_self h, ends⟩
    · rintro ⟨k, below, ends⟩
      by_cases before : ∃ k < h, Ends first second edge (Layer first second edge k) k d
      · exact Or.inl before
      · rcases Nat.lt_succ_iff_lt_or_eq.mp below with below | rfl
        · exact absurd ⟨k, below, ends⟩ before
        · exact Or.inr ⟨ends, before⟩

theorem layer_empty {h : Nat} (from_ : 3 ≤ h) (none : ∀ d, ¬ Layer first second edge h d)
    {k : Nat} (later : h ≤ k) (d : α) : ¬ Layer first second edge k d := by
  induction later generalizing d with
  | refl => exact none d
  | @step k later ih =>
    have enough : 3 ≤ k := Nat.le_trans from_ later
    obtain ⟨k, rfl⟩ : ∃ i, k = i + 2 := ⟨k - 2, by omega⟩
    rintro ⟨⟨a, inside, _⟩, _⟩
    exact ih a inside

/-- **The distances** are those of the layers. -/
theorem isDistance_of_layers {distance : α → Option Nat}
    (layered : ∀ d h, distance d = some h ↔ Layer first second edge h d) :
    IsDistance first second edge distance := by
  have same : ∀ k, (fun a => distance a = some k) = Layer first second edge k :=
    fun k => funext fun a => propext (layered a k)
  intro d
  refine ⟨fun zero => (layered d 0).mp zero, fun h => ?_⟩
  rw [layered, layer_succ, within_iff_ends]
  simp [same]

end Layers
