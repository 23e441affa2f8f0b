import Mathlib.Data.List.Range

/-!
# Scanning forward

A loop that steps on while a test holds, with a bound on the number of steps.
On counters it stops at the first one that fails the test.
-/

namespace Scan

/-- `while (p a) a = next a`, at most `fuel` times. -/
def skipWhile {α : Type} (next : α → α) (p : α → Bool) : (fuel : Nat) → α → α
  | 0, a => a
  | fuel + 1, a => if p a then skipWhile next p fuel (next a) else a

/-- The same loop on what the counters stand for. -/
theorem skipWhile_map {α : Type} {next : α → α} {p : α → Bool} (f : Nat → α)
    (hnext : ∀ n, next (f n) = f (n + 1)) (fuel n : Nat) :
    skipWhile next p fuel (f n) = f (skipWhile Nat.succ (fun k => p (f k)) fuel n) := by
  induction fuel generalizing n with
  | zero => rfl
  | succ fuel ih =>
    simp only [skipWhile, hnext]
    split
    · exact ih (n + 1)
    · rfl

variable {p : Nat → Bool}

theorem le_skipWhile (p : Nat → Bool) (fuel n : Nat) : n ≤ skipWhile Nat.succ p fuel n := by
  induction fuel generalizing n with
  | zero => exact le_refl n
  | succ fuel ih =>
    unfold skipWhile
    split
    · exact Nat.le_of_succ_le (ih (n + 1))
    · exact le_refl n

theorem skipped (fuel n : Nat) {k : Nat} (from_ : n ≤ k)
    (before : k < skipWhile Nat.succ p fuel n) : p k = true := by
  induction fuel generalizing n with
  | zero => exact absurd before (by simp only [skipWhile]; omega)
  | succ fuel ih =>
    unfold skipWhile at before
    split at before
    · rename_i here
      by_cases start : k = n
      · rw [start]
        exact here
      · exact ih (n + 1) (by omega) before
    · omega

/-- A failing test in reach ends the scan, and no later than there. -/
theorem skipWhile_stops (fuel : Nat) {n stop : Nat} (from_ : n ≤ stop) (reach : stop < n + fuel)
    (fails : p stop = false) :
    skipWhile Nat.succ p fuel n ≤ stop ∧ p (skipWhile Nat.succ p fuel n) = false := by
  induction fuel generalizing n with
  | zero => omega
  | succ fuel ih =>
    unfold skipWhile
    split
    · rename_i here
      have later : n ≠ stop := by
        rintro rfl
        simp [fails] at here
      exact ih (by simp only [Nat.succ_eq_add_one]; omega)
        (by simp only [Nat.succ_eq_add_one]; omega)
    · rename_i here
      exact ⟨from_, by simpa using here⟩

/-- A scan from zero passes a number when every counter below it passes the test. -/
theorem le_skipWhile_iff {fuel m : Nat} :
    m ≤ skipWhile Nat.succ p fuel 0 ↔ m ≤ fuel ∧ ∀ k < m, p k = true := by
  have from_ : ∀ n, n + m ≤ skipWhile Nat.succ p fuel n ↔ m ≤ fuel ∧ ∀ k < m, p (n + k) = true := by
    induction fuel generalizing m with
    | zero =>
      intro n
      simp only [skipWhile, Nat.le_zero]
      constructor
      · intro reach
        have none : m = 0 := by omega
        exact ⟨none, fun k below => absurd below (by omega)⟩
      · rintro ⟨rfl, _⟩
        exact le_refl n
    | succ fuel ih =>
      intro n
      unfold skipWhile
      cases m with
      | zero =>
        simp only [Nat.not_lt_zero, false_implies, implies_true, and_true, Nat.zero_le, iff_true]
        split
        · exact Nat.le_of_succ_le (le_skipWhile p fuel (n + 1))
        · exact le_refl n
      | succ m =>
        split
        · rename_i here
          rw [show n + (m + 1) = n.succ + m by omega, ih (m := m) n.succ, Nat.add_le_add_iff_right]
          apply and_congr_right
          intro _
          constructor
          · rintro all (_ | k) below
            · exact here
            · rw [← Nat.succ_add_eq_add_succ]
              exact all k (by omega)
          · intro all k below
            rw [Nat.succ_add_eq_add_succ]
            exact all (k + 1) (by omega)
        · rename_i here
          constructor
          · intro reach
            omega
          · rintro ⟨_, all⟩
            exact absurd (all 0 (by omega)) here
  simpa using from_ 0

/-- `while (!p(a)) a = next(a)`, when it ends within the rounds. -/
def search {α : Type} (next : α → α) (p : α → Bool) : (rounds : Nat) → α → Option α
  | 0, _ => none
  | rounds + 1, a => if p a then some a else search next p rounds (next a)

/-- A search that can stop does so at the first place where it can. -/
theorem search_stops {α : Type} (next : α → α) (p : α → Bool) (f : Nat → α) {stop rounds : Nat}
    (walks : ∀ i < stop, next (f i) = f (i + 1)) (found : p (f stop) = true)
    (enough : stop < rounds) :
    ∃ i ≤ stop, search next p rounds (f 0) = some (f i) ∧ p (f i) = true ∧
      ∀ j < i, p (f j) = false := by
  induction stop generalizing f rounds with
  | zero =>
    obtain ⟨rounds, rfl⟩ := Nat.exists_eq_succ_of_ne_zero (Nat.ne_zero_of_lt enough)
    exact ⟨0, le_refl 0, if_pos found, found, nofun⟩
  | succ stop ih =>
    obtain ⟨rounds, rfl⟩ := Nat.exists_eq_succ_of_ne_zero (Nat.ne_zero_of_lt enough)
    cases here : p (f 0) with
    | true => exact ⟨0, Nat.zero_le _, if_pos here, here, nofun⟩
    | false =>
      have fewer : stop < rounds := by omega
      obtain ⟨i, within, done, stops, before⟩ := ih (fun i => f (i + 1))
        (fun i below => walks (i + 1) (by omega)) found fewer
      refine ⟨i + 1, by omega, ?_, stops, ?_⟩
      · unfold search
        rw [here, walks 0 (by omega)]
        exact done
      · rintro (_ | j) below
        · exact here
        · exact before j (by omega)

end Scan
