import Mathlib

/-!
# Loops on fuel

`while (test s) s = body s` with a bound on the rounds. The rule for total correctness has an
invariant that is indexed by a rank, which every round lowers.
-/

namespace WhileLoop

/-- `none` when the fuel runs out, or where the body fails. -/
def loop {σ : Type} (test : σ → Bool) (body : σ → Option σ) : (fuel : Nat) → σ → Option σ
  | 0, _ => none
  | fuel + 1, s => if test s then (body s).bind (loop test body fuel) else some s

/-- **Total correctness.** -/
theorem loop_total {σ : Type} (test : σ → Bool) (body : σ → Option σ) (Inv : Nat → σ → Prop)
    (round : ∀ {rank s}, Inv rank s → test s = true →
      ∃ t, body s = some t ∧ ∃ lower < rank, Inv lower t)
    {fuel rank : Nat} {s : σ} (start : Inv rank s) (enough : rank < fuel) :
    ∃ t lower, loop test body fuel s = some t ∧ Inv lower t ∧ test t = false := by
  induction fuel generalizing rank s with
  | zero => omega
  | succ fuel ih =>
    unfold loop
    cases holds : test s with
    | false => exact ⟨s, rank, if_neg Bool.false_ne_true, start, holds⟩
    | true =>
      obtain ⟨t, stepped, lower, below, kept⟩ := round start holds
      rw [if_pos rfl, stepped, Option.bind_some]
      exact ih kept (by omega)

theorem loop_map {σ τ : Type} {test : σ → Bool} {body : σ → Option σ} {test' : τ → Bool}
    {body' : τ → Option τ} (image : σ → τ) (Inv : σ → Prop)
    (tests : ∀ {s}, Inv s → test' (image s) = test s)
    (round : ∀ {s}, Inv s → test s = true →
      body' (image s) = (body s).map image ∧ ∀ t, body s = some t → Inv t)
    (fuel : Nat) {s : σ} (start : Inv s) :
    loop test' body' fuel (image s) = (loop test body fuel s).map image ∧
      ∀ t, loop test body fuel s = some t → Inv t := by
  induction fuel generalizing s with
  | zero => exact ⟨rfl, nofun⟩
  | succ fuel ih =>
    unfold loop
    rw [tests start]
    cases holds : test s with
    | false => simpa using start
    | true =>
      obtain ⟨same, kept⟩ := round start holds
      rw [if_pos rfl, if_pos rfl, same]
      cases stepped : body s with
      | none => exact ⟨rfl, nofun⟩
      | some t => exact ih (kept t stepped)

end WhileLoop

/-!
## Folds that may fail

Rules for `foldlM` in `Option`: the one for total correctness sees the elements that are left.
-/

namespace PartialFold

variable {σ α : Type} {f : σ → α → Option σ} {l : List α} {s t : σ}

/-- **Total correctness.** -/
theorem total (Inv : List α → σ → Prop)
    (round : ∀ {x rest s}, Inv (x :: rest) s → ∃ t, f s x = some t ∧ Inv rest t)
    (start : Inv l s) : ∃ t, l.foldlM f s = some t ∧ Inv [] t := by
  induction l generalizing s with
  | nil => exact ⟨s, rfl, start⟩
  | cons x rest ih =>
    obtain ⟨t, stepped, kept⟩ := round start
    obtain ⟨u, ended, last⟩ := ih kept
    exact ⟨u, by simp [List.foldlM_cons, stepped, ended], last⟩

theorem keeps (Inv : σ → Prop) (round : ∀ {x s t}, Inv s → f s x = some t → Inv t)
    (start : Inv s) (ended : l.foldlM f s = some t) : Inv t := by
  induction l generalizing s with
  | nil =>
    cases ended
    exact start
  | cons x rest ih =>
    rw [List.foldlM_cons, Option.bind_eq_bind, Option.bind_eq_some_iff] at ended
    obtain ⟨u, stepped, later⟩ := ended
    exact ih (round start stepped) later

theorem exists_crossing (weight : α → Nat) {bound : Nat} (exceeds : bound < (l.map weight).sum) :
    ∃ before x after, l = before ++ x :: after ∧ (before.map weight).sum ≤ bound ∧
      bound < (before.map weight).sum + weight x := by
  induction l generalizing bound with
  | nil => simp at exceeds
  | cons x rest ih =>
    rw [List.map_cons, List.sum_cons] at exceeds
    by_cases here : bound < weight x
    · exact ⟨[], x, rest, rfl, Nat.zero_le _, by simpa using here⟩
    · obtain ⟨before, y, after, rfl, within, crosses⟩ := @ih (bound - weight x) (by omega)
      refine ⟨x :: before, y, after, rfl, ?_, ?_⟩ <;> simp only [List.map_cons, List.sum_cons] <;>
        omega

end PartialFold
