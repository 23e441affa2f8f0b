import Mathlib.Data.Set.Card

/-!
# Counting referrers

Each cell of a memory points to at most one object. The count of an object is
the number of cells that point to it.
-/

namespace Referrers

variable {C A : Type} {next : C → Option A} {c c' : C} {a : A} {p : Option A}

/-- The number of cells that point to `a`. -/
noncomputable def refs (next : C → Option A) (a : A) : Nat := {c | next c = some a}.ncard

/-- Finitely many cells point to anything. -/
def Finitely (next : C → Option A) : Prop := {c | next c ≠ none}.Finite

theorem Finitely.pointing (finite : Finitely next) (a : A) : {c | next c = some a}.Finite := by
  apply finite.subset
  intro c points
  exact fun null => nomatch (null.symm.trans points)

theorem refs_pos (finite : Finitely next) (points : next c = some a) : 0 < refs next a :=
  (Set.ncard_pos (finite.pointing a)).mpr ⟨c, points⟩

theorem exists_of_refs (some_refs : 0 < refs next a) : ∃ c, next c = some a := by
  obtain ⟨c, points⟩ := Set.nonempty_of_ncard_ne_zero (Nat.ne_of_gt some_refs)
  exact ⟨c, points⟩

theorem refs_eq_zero (unused : ∀ c, next c ≠ some a) : refs next a = 0 := by
  have empty : {c | next c = some a} = ∅ := Set.eq_empty_of_forall_notMem unused
  simp [refs, empty]

/-- The only cell that points to an object with count one. -/
theorem unique_of_refs (one : refs next a = 1) (points : next c = some a)
    (points' : next c' = some a) : c = c' := by
  obtain ⟨only, is_only⟩ := Set.ncard_eq_one.mp one
  have first : c ∈ {c | next c = some a} := points
  have second : c' ∈ {c | next c = some a} := points'
  rw [is_only, Set.mem_singleton_iff] at first second
  exact first.trans second.symm

section

variable [DecidableEq C]

theorem Finitely.update (finite : Finitely next) (c : C) (p : Option A) :
    Finitely (Function.update next c p) := by
  apply (finite.insert c).subset
  intro c' points
  by_cases same : c' = c
  · exact Set.mem_insert_iff.mpr (.inl same)
  · rw [Set.mem_ofPred_eq, Function.update_of_ne same] at points
    exact Set.mem_insert_iff.mpr (.inr points)

variable [DecidableEq A]

/-- A cell that points elsewhere takes one from the object it pointed to and
gives one to the new object. -/
theorem refs_update (finite : Finitely next) (c : C) (p : Option A) (a : A) :
    refs (Function.update next c p) a + (if next c = some a then 1 else 0) =
      refs next a + (if p = some a then 1 else 0) := by
  have others : {c' | Function.update next c p c' = some a} \ {c} =
      {c' | next c' = some a} \ {c} := by
    ext c'
    simp only [Set.mem_sdiff, Set.mem_ofPred_eq]
    constructor
    · rintro ⟨points, other⟩
      rw [Function.update_of_ne other] at points
      exact ⟨points, other⟩
    · rintro ⟨points, other⟩
      rw [Function.update_of_ne other]
      exact ⟨points, other⟩
  have split : ∀ f : C → Option A, Finitely f →
      refs f a = ({c' | f c' = some a} \ {c}).ncard + (if f c = some a then 1 else 0) := by
    intro f finite
    by_cases points : f c = some a
    · have mem : c ∈ {c | f c = some a} := points
      rw [if_pos points, refs, Set.ncard_sdiff_singleton_add_one mem (finite.pointing a)]
    · have absent : c ∉ {c | f c = some a} := points
      simp [if_neg points, refs, Set.sdiff_singleton_eq_self absent]
  rw [split next finite, split _ (finite.update c p), others, Function.update_self]
  omega

end

end Referrers
