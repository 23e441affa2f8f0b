import Mathlib.Data.List.Basic

/-!
# Covering targets by deletion

A list of tuples says which provider reaches which target. Providers are chosen one
after another, and what a chosen one reaches is deleted from a working copy. Every target
of the list is covered as soon as the copy is empty.
-/

section

variable {α P T : Type} (provider : α → P) (target : α → T)

/-- A chosen provider reaches the target. -/
def Reached (listed : List α) (chosen : List P) (t : T) : Prop :=
  ∃ y ∈ listed, target y = t ∧ provider y ∈ chosen

/-- What is left is listed, and what is not left is reached. -/
structure Covering (listed left : List α) (chosen : List P) : Prop where
  sub : left.Sublist listed
  kept : ∀ x ∈ listed, x ∈ left ∨ Reached provider target listed chosen (target x)

namespace Covering

variable {provider : α → P} {target : α → T} {listed left : List α} {chosen more : List P}

theorem start (listed : List α) (chosen : List P) : Covering provider target listed listed chosen :=
  ⟨List.Sublist.refl listed, fun _ mem => Or.inl mem⟩

theorem delete (covering : Covering provider target listed left chosen)
    (grows : ∀ p ∈ chosen, p ∈ more) (gone : T → Bool)
    (reached : ∀ t, gone t = true → Reached provider target left more t) :
    Covering provider target listed (left.filter fun x => !gone (target x)) more where
  sub := List.filter_sublist.trans covering.sub
  kept x mem := by
    rcases covering.kept x mem with here | ⟨y, listed, same, chosen⟩
    · cases goes : gone (target x) with
      | false => exact Or.inl (List.mem_filter.mpr ⟨here, by simp [goes]⟩)
      | true =>
        obtain ⟨y, left, same, chosen⟩ := reached _ goes
        exact Or.inr ⟨y, covering.sub.mem left, same, chosen⟩
    · exact Or.inr ⟨y, listed, same, grows _ chosen⟩

/-- **Coverage.** -/
theorem done (covering : Covering provider target listed [] chosen) (x : α) (mem : x ∈ listed) :
    Reached provider target listed chosen (target x) :=
  (covering.kept x mem).resolve_left (List.not_mem_nil)

end Covering

end
