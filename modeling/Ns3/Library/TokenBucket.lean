import Mathlib

/-!
# Token buckets

A bucket earns tokens and spends them, and never holds more than its capacity. A history
lists what was earned before each withdrawal and what was spent, the latest first.
-/

namespace TokenBucket

/-- What is in a bucket once it has earned. -/
def fill (capacity tokens earned : Int) : Int := min (tokens + earned) capacity

structure Withdrawal where
  earned : Int
  spent : Int

/-- The tokens left in a bucket that was full. -/
def left (capacity : Int) : List Withdrawal → Int
  | [] => capacity
  | w :: earlier => fill capacity (left capacity earlier) w.earned - w.spent

/-- Each withdrawal took no more than there was. -/
def Covered (capacity : Int) : List Withdrawal → Prop
  | [] => True
  | w :: earlier => 0 ≤ w.spent ∧ w.spent ≤ fill capacity (left capacity earlier) w.earned ∧
      Covered capacity earlier

def earned (history : List Withdrawal) : Int := (history.map Withdrawal.earned).sum

def spent (history : List Withdrawal) : Int := (history.map Withdrawal.spent).sum

@[simp] theorem earned_nil : earned [] = 0 := rfl

@[simp] theorem spent_nil : spent [] = 0 := rfl

@[simp] theorem earned_cons (w : Withdrawal) (history : List Withdrawal) :
    earned (w :: history) = w.earned + earned history := by simp [earned]

@[simp] theorem spent_cons (w : Withdrawal) (history : List Withdrawal) :
    spent (w :: history) = w.spent + spent history := by simp [spent]

variable {capacity : Int}

theorem Covered.withdraw {earlier : List Withdrawal} (covered : Covered capacity earlier)
    {w : Withdrawal} (spends : 0 ≤ w.spent)
    (enough : 0 ≤ fill capacity (left capacity earlier) w.earned - w.spent) :
    Covered capacity (w :: earlier) :=
  ⟨spends, Int.sub_nonneg.mp enough, covered⟩

theorem Covered.left_le {history : List Withdrawal} (covered : Covered capacity history) :
    left capacity history ≤ capacity := by
  cases history with
  | nil => exact le_refl capacity
  | cons w earlier =>
    obtain ⟨spends, -, -⟩ := covered
    simp only [left, fill]
    omega

theorem Covered.left_nonneg {history : List Withdrawal} (covered : Covered capacity history)
    (nonneg : 0 ≤ capacity) : 0 ≤ left capacity history := by
  cases history with
  | nil => exact nonneg
  | cons w earlier =>
    obtain ⟨-, enough, -⟩ := covered
    simp only [left]
    omega

theorem Covered.of_append {newer older : List Withdrawal}
    (covered : Covered capacity (newer ++ older)) : Covered capacity older := by
  induction newer with
  | nil => exact covered
  | cons w newer ih => exact ih covered.2.2

theorem spent_add_left_le (newer older : List Withdrawal) :
    spent newer + left capacity (newer ++ older) ≤ left capacity older + earned newer := by
  induction newer with
  | nil => simp
  | cons w newer ih =>
    simp only [List.cons_append, left, fill, spent_cons, earned_cons]
    omega

/-- **A window spends at most the capacity and what it earns.** -/
theorem Covered.spent_le {newer older : List Withdrawal} (nonneg : 0 ≤ capacity)
    (covered : Covered capacity (newer ++ older)) : spent newer ≤ capacity + earned newer := by
  have kept := @spent_add_left_le capacity newer older
  have rest := covered.left_nonneg nonneg
  have before := covered.of_append.left_le
  omega

end TokenBucket
