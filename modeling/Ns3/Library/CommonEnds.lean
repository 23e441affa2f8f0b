import Mathlib.Order.Basic
import Mathlib.Data.List.Basic

/-!
# The common start and the common end of lists

Lengths of what lists share at their start and at their end, each known by the
numbers up to it.
-/

namespace CommonEnds

open List

variable {α : Type}

/-- What the first one shares with each other one. -/
def shared (common : List α → List α → Nat) (first : List α) (others : List (List α)) : Nat :=
  others.foldl (fun n other => min n (common first other)) first.length

variable {n : Nat} {as bs : List α}

theorem le_shared_iff {common : List α → List α → Nat} {first : List α} {others : List (List α)} :
    n ≤ shared common first others ↔
      n ≤ first.length ∧ ∀ other ∈ others, n ≤ common first other := by
  have loop : ∀ m, n ≤ others.foldl (fun n other => min n (common first other)) m ↔
      n ≤ m ∧ ∀ other ∈ others, n ≤ common first other := by
    induction others with
    | nil => simp
    | cons other others ih =>
      intro m
      simp [ih, Nat.le_min, and_assoc]
  exact loop first.length

theorem take_eq_iff : as.take n = bs.take n ↔ ∀ k < n, as[k]? = bs[k]? := by
  constructor
  · intro same k below
    have := congrArg (·[k]?) same
    simpa [getElem?_take, below] using this
  · intro same
    apply ext_getElem?
    intro k
    simp only [getElem?_take]
    split
    · exact same k ‹_›
    · rfl

variable [DecidableEq α]

def commonStart : List α → List α → Nat
  | a :: as, b :: bs => if a = b then commonStart as bs + 1 else 0
  | _, _ => 0

def commonEnd (as bs : List α) : Nat := commonStart as.reverse bs.reverse

theorem le_commonStart_iff :
    n ≤ commonStart as bs ↔ n ≤ as.length ∧ n ≤ bs.length ∧ as.take n = bs.take n := by
  induction as generalizing bs n with
  | nil => cases n <;> simp [commonStart]
  | cons a as ih =>
    cases bs with
    | nil => cases n <;> simp [commonStart]
    | cons b bs =>
      cases n with
      | zero => simp
      | succ n =>
        unfold commonStart
        split
        · rename_i same
          simp [ih, same]
        · rename_i differ
          simp [differ]

theorem le_commonEnd_iff : n ≤ commonEnd as bs ↔
      n ≤ as.length ∧ n ≤ bs.length ∧ as.drop (as.length - n) = bs.drop (bs.length - n) := by
  simp [commonEnd, le_commonStart_iff, take_reverse]

theorem commonStart_self (as : List α) : commonStart as as = as.length := by
  induction as with
  | nil => rfl
  | cons a as ih => rw [commonStart, if_pos rfl, ih, length_cons]

/-- Lists that share a start with one list share it with each other. -/
theorem le_commonStart_trans {cs : List α} (near : n ≤ commonStart as bs) :
    n ≤ commonStart as cs ↔ n ≤ commonStart bs cs := by
  rw [le_commonStart_iff] at near ⊢
  rw [le_commonStart_iff, near.2.2]
  simp [near.1, near.2.1]

theorem le_commonEnd_trans {cs : List α} (near : n ≤ commonEnd as bs) :
    n ≤ commonEnd as cs ↔ n ≤ commonEnd bs cs := le_commonStart_trans near

theorem le_commonStart_get (left : n ≤ as.length) (right : n ≤ bs.length) :
    n ≤ commonStart as bs ↔ ∀ k < n, as[k]? = bs[k]? := by
  rw [le_commonStart_iff, take_eq_iff]
  exact ⟨fun all => all.2.2, fun all => ⟨left, right, all⟩⟩

theorem le_commonEnd_get (lengths : as.length = bs.length) (within : n ≤ as.length) :
    n ≤ commonEnd as bs ↔ ∀ k < n, as[as.length - 1 - k]? = bs[as.length - 1 - k]? := by
  unfold commonEnd
  rw [le_commonStart_get (by rwa [length_reverse]) (by rwa [length_reverse, ← lengths])]
  apply forall_congr'
  intro k
  apply imp_congr_right
  intro below
  rw [getElem?_reverse (by omega), getElem?_reverse (by omega), lengths]

end CommonEnds
