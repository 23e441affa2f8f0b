import Mathlib.Data.List.Perm.Basic

/-!
# Priority queues

A queue is known by its contents, of which it hands out a least one. What
identifies an element is enough to remove it.
-/

/-- The operations of a queue and what they do to its contents. -/
structure PriorityQueue (Q E I : Type) (lt : E → E → Prop) (ident : E → I) where
  empty : Q
  insert : E → Q → Q
  isEmpty : Q → Bool
  removeNext : Q → Option (E × Q)
  remove : E → Q → Q
  contents : Q → List E
  contents_empty : contents empty = []
  contents_insert : ∀ e q, (contents (insert e q)).Perm (e :: contents q)
  isEmpty_iff : ∀ q, isEmpty q = true ↔ contents q = []
  removeNext_least : ∀ q, contents q ≠ [] → ∃ e q', removeNext q = some (e, q') ∧
    (contents q).Perm (e :: contents q') ∧ ∀ e' ∈ contents q', ¬ lt e' e
  contents_remove : ∀ e q, e ∈ contents q → ((contents q).map ident).Nodup →
    (contents q).Perm (e :: contents (remove e q))
