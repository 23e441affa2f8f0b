import Mathlib

/-!
# Disjoint intervals

An interval that arrives is trimmed against a sorted list of disjoint ones. What
is stored already stays, except where the new interval covers it.
-/

structure NatInterval where
  start : Nat
  length : Nat

namespace NatInterval

open List

def stop (x : NatInterval) : Nat := x.start + x.length

/-- The intervals do not overlap and stand in order. -/
def Sorted (xs : List NatInterval) : Prop := xs.Pairwise fun a b => a.stop ≤ b.start

def Filled (xs : List NatInterval) : Prop := ∀ x ∈ xs, 0 < x.length

def total (xs : List NatInterval) : Nat := (xs.map length).sum

/-- The intervals follow each other without a gap. -/
def Chain : Nat → List NatInterval → Nat → Prop
  | a, [], b => a = b
  | a, x :: xs, b => x.start = a ∧ Chain x.stop xs b

/-- What is left of the stored intervals and of the new one from `head` to `tail`. -/
def cut : List NatInterval → Nat → Nat → List NatInterval × Nat × Nat
  | [], head, tail => ([], head, tail)
  | x :: xs, head, tail =>
    if tail < x.start then (x :: xs, head, tail)
    else if head < x.stop then
      if head < x.start ∧ x.stop < tail then cut xs head tail
      else
        let next := cut xs (if x.start ≤ head then x.stop else head)
          (if tail ≤ x.stop then x.start else tail)
        (x :: next.1, next.2)
    else
      let next := cut xs head tail
      (x :: next.1, next.2)

variable {xs : List NatInterval} {head tail : Nat}

@[simp]
theorem total_nil : total [] = 0 := rfl

@[simp]
theorem total_cons (x : NatInterval) (xs : List NatInterval) :
    total (x :: xs) = x.length + total xs := rfl

@[simp]
theorem total_append (xs ys : List NatInterval) : total (xs ++ ys) = total xs + total ys := by
  induction xs with
  | nil => simp
  | cons x xs ih =>
    rw [cons_append, total_cons, total_cons, ih]
    omega

variable {x y : NatInterval} {a b : Nat}

theorem Filled.stop_pos (filled : Filled xs) (mem : x ∈ xs) : x.start < x.stop := by
  have pos := filled x mem
  unfold stop
  omega

theorem Sorted.total_le (sorted : Sorted xs) (low high : Nat) (le : low ≤ high)
    (inside : ∀ x ∈ xs, low ≤ x.start ∧ x.stop ≤ high) : low + total xs ≤ high := by
  induction xs generalizing low with
  | nil => exact le
  | cons x xs ih =>
    obtain ⟨first, others⟩ := pairwise_cons.1 sorted
    have x_inside := inside x mem_cons_self
    have rest := ih others x.stop x_inside.2 fun y mem =>
      ⟨first y mem, (inside y (mem_cons_of_mem _ mem)).2⟩
    rw [total_cons]
    unfold stop at rest
    omega

/-! ## Chains -/

theorem Chain.append {c : Nat} {ys : List NatInterval} (left : Chain a xs b)
    (right : Chain b ys c) : Chain a (xs ++ ys) c := by
  induction xs generalizing a with
  | nil =>
    obtain rfl : a = b := left
    exact right
  | cons x xs ih => exact ⟨left.1, ih left.2⟩

theorem Chain.total_eq (chain : Chain a xs b) : a + total xs = b := by
  induction xs generalizing a with
  | nil => exact chain
  | cons x xs ih =>
    obtain ⟨rfl, rest⟩ := chain
    have sum := ih rest
    rw [total_cons]
    unfold stop at sum
    omega

theorem Chain.bounds (chain : Chain a xs b) (mem : x ∈ xs) : a ≤ x.start ∧ x.stop ≤ b := by
  induction xs generalizing a with
  | nil => cases mem
  | cons y xs ih =>
    obtain ⟨rfl, rest⟩ := chain
    have sum := rest.total_eq
    rcases mem_cons.1 mem with rfl | mem
    · exact ⟨Nat.le_refl _, by omega⟩
    · have bounds := ih rest mem
      have grows : y.start ≤ y.stop := Nat.le_add_right _ _
      exact ⟨by omega, bounds.2⟩

theorem Chain.exists_stop (chain : Chain a (x :: xs) b) : ∃ y ∈ x :: xs, y.stop = b := by
  induction xs generalizing a x with
  | nil => exact ⟨x, mem_cons_self, chain.2⟩
  | cons y xs ih =>
    obtain ⟨z, mem, stop⟩ := ih chain.2
    exact ⟨z, mem_cons_of_mem _ mem, stop⟩

theorem Chain.sorted (chain : Chain a xs b) : Sorted xs := by
  induction xs generalizing a with
  | nil => exact .nil
  | cons x xs ih =>
    refine pairwise_cons.2 ⟨?_, ih chain.2⟩
    exact fun y mem => (chain.2.bounds mem).1

theorem Sorted.chain_front (sorted : Sorted xs) (filled : Filled xs) (le : ∀ x ∈ xs, a ≤ x.start) :
    ∃ run rest b, xs = run ++ rest ∧ Chain a run b ∧ ∀ x ∈ rest, b < x.start := by
  induction xs generalizing a with
  | nil => exact ⟨[], [], a, rfl, rfl, nofun⟩
  | cons x xs ih =>
    obtain ⟨first, others⟩ := pairwise_cons.1 sorted
    have first_le := le x mem_cons_self
    have stop_pos := filled.stop_pos mem_cons_self
    by_cases here : x.start = a
    · obtain ⟨run, rest, b, rfl, chain, after⟩ :=
        ih others (fun y mem => filled y (mem_cons_of_mem _ mem)) first
      exact ⟨x :: run, rest, b, rfl, ⟨here, chain⟩, after⟩
    · refine ⟨[], x :: xs, a, rfl, rfl, ?_⟩
      intro y mem
      rcases mem_cons.1 mem with rfl | mem
      · omega
      · have later := first y mem
        omega

/-! ## Trimming -/

theorem cut_of_before (before : tail < x.start) :
    cut (x :: xs) head tail = (x :: xs, head, tail) := if_pos before

/-- Intervals that end before the new one are passed over. -/
theorem cut_append {pre : List NatInterval} (le : head ≤ tail) (before : ∀ x ∈ pre, x.stop ≤ head) :
    cut (pre ++ xs) head tail = (pre ++ (cut xs head tail).1, (cut xs head tail).2) := by
  induction pre with
  | nil => rfl
  | cons x pre ih =>
    have x_before := before x mem_cons_self
    have x_le : x.start ≤ x.stop := Nat.le_add_right _ _
    rw [cons_append, cut, if_neg (by omega), if_neg (by omega),
      ih fun y mem => before y (mem_cons_of_mem _ mem)]
    rfl

/-- The new interval ends where it did or next to a stored one. -/
theorem cut_ends (xs : List NatInterval) (head tail : Nat) :
    ((cut xs head tail).2.1 = head ∨ ∃ x ∈ xs, (cut xs head tail).2.1 = x.stop) ∧
    ((cut xs head tail).2.2 = tail ∨ ∃ x ∈ xs, (cut xs head tail).2.2 = x.start) := by
  induction xs generalizing head tail with
  | nil => exact ⟨.inl rfl, .inl rfl⟩
  | cons x xs ih =>
    have lift : ∀ {f : NatInterval → Nat} {n : Nat}, (∃ y ∈ xs, n = f y) → ∃ y ∈ x :: xs, n = f y :=
      fun ⟨y, mem, eq⟩ => ⟨y, mem_cons_of_mem _ mem, eq⟩
    have here : ∀ f : NatInterval → Nat, ∃ y ∈ x :: xs, f x = f y := fun f =>
      ⟨x, mem_cons_self, rfl⟩
    rw [cut]
    split
    · exact ⟨.inl rfl, .inl rfl⟩
    split
    · split
      · obtain ⟨left, right⟩ := ih head tail
        exact ⟨left.imp_right lift, right.imp_right lift⟩
      · obtain ⟨left, right⟩ := ih (if x.start ≤ head then x.stop else head)
          (if tail ≤ x.stop then x.start else tail)
        constructor
        · rcases left with same | at_stop
          · dsimp only
            rw [same]
            split
            · exact .inr (here stop)
            · exact .inl rfl
          · exact .inr (lift at_stop)
        · rcases right with same | at_start
          · dsimp only
            rw [same]
            split
            · exact .inr (here start)
            · exact .inl rfl
          · exact .inr (lift at_start)
    · obtain ⟨left, right⟩ := ih head tail
      exact ⟨left.imp_right lift, right.imp_right lift⟩

/-- An interval is only taken away when the new one goes on behind it. -/
theorem cut_erased (mem : x ∈ xs) (gone : x ∉ (cut xs head tail).1) : x.stop < tail := by
  induction xs generalizing head tail with
  | nil => cases mem
  | cons y xs ih =>
    rw [cut] at gone
    split at gone
    · exact absurd mem gone
    split at gone
    · split at gone
      · rename_i covered
        rcases mem_cons.1 mem with rfl | mem
        · exact covered.2
        · exact ih mem gone
      · rw [mem_cons, not_or] at gone
        have erased := ih ((mem_cons.1 mem).resolve_left gone.1) gone.2
        split at erased <;> omega
    · rw [mem_cons, not_or] at gone
      exact ih ((mem_cons.1 mem).resolve_left gone.1) gone.2

theorem cut_next (sorted : Sorted (x :: xs)) (x_filled : x.start < x.stop) (head : Nat) :
    cut xs head x.start = (xs, head, x.start) := by
  cases xs with
  | nil => rfl
  | cons y ys =>
    have later := (pairwise_cons.1 sorted).1 y mem_cons_self
    exact cut_of_before (by omega)

/-- Trimming when all that is stored starts after the new interval does. -/
theorem cut_after (sorted : Sorted xs) (filled : Filled xs) (after : ∀ x ∈ xs, head < x.start) :
    ∃ mid post tail', xs = mid ++ post ∧ cut xs head tail = (post, head, tail') ∧
      tail' ≤ tail ∧ (∀ x ∈ mid, x.stop ≤ tail') ∧ (∀ x ∈ post, tail' ≤ x.start) ∧
      ∀ low, low ≤ tail → (∀ x ∈ xs, low ≤ x.start) → low ≤ tail' := by
  induction xs with
  | nil => exact ⟨[], [], tail, rfl, rfl, Nat.le_refl _, nofun, nofun, fun low le _ => le⟩
  | cons x xs ih =>
    obtain ⟨first, others⟩ := pairwise_cons.1 sorted
    have x_filled := filled.stop_pos mem_cons_self
    have x_after := after x mem_cons_self
    by_cases before : tail < x.start
    · refine ⟨[], x :: xs, tail, rfl, cut_of_before before, Nat.le_refl _, nofun, ?_,
        fun low le _ => le⟩
      intro y mem
      rcases mem_cons.1 mem with rfl | mem
      · omega
      · have later := first y mem
        omega
    rw [cut, if_neg before, if_pos (by omega)]
    by_cases inside : x.stop < tail
    · obtain ⟨mid, post, tail', rfl, eq, le, covered, later, low⟩ :=
        ih others (fun y mem => filled y (mem_cons_of_mem _ mem))
          (fun y mem => after y (mem_cons_of_mem _ mem))
      rw [if_pos ⟨x_after, inside⟩, eq]
      refine ⟨x :: mid, post, tail', rfl, rfl, le, ?_, later, ?_⟩
      · intro y mem
        rcases mem_cons.1 mem with rfl | mem
        · exact low y.stop (by omega) first
        · exact covered y mem
      · exact fun n n_le all => low n n_le fun y mem => all y (mem_cons_of_mem _ mem)
    · rw [if_neg (by omega), if_neg (by omega), if_pos (by omega), cut_next sorted x_filled]
      refine ⟨[], x :: xs, x.start, rfl, rfl, by omega, nofun, ?_, ?_⟩
      · intro y mem
        rcases mem_cons.1 mem with rfl | mem
        · exact Nat.le_refl _
        · have later := first y mem
          omega
      · exact fun n _ all => all x mem_cons_self

/-- **Trimming.** Either nothing of the new interval is left and nothing changes, or
what is left of it fits between the stored intervals, those apart that it covers. -/
theorem cut_spec (sorted : Sorted xs) (filled : Filled xs) (le : head ≤ tail) :
    (∃ head' tail', cut xs head tail = (xs, head', tail') ∧ tail' ≤ head') ∨
    ∃ pre mid post head' tail', xs = pre ++ (mid ++ post) ∧
      cut xs head tail = (pre ++ post, head', tail') ∧ head ≤ head' ∧ head' < tail' ∧
      tail' ≤ tail ∧ (∀ x ∈ pre, x.stop ≤ head') ∧
      (∀ x ∈ mid, head' < x.start ∧ x.stop ≤ tail') ∧ ∀ x ∈ post, tail' ≤ x.start := by
  induction xs generalizing head with
  | nil =>
    by_cases something : head < tail
    · exact .inr ⟨[], [], [], head, tail, rfl, rfl, Nat.le_refl _, something, Nat.le_refl _, nofun,
        nofun, nofun⟩
    · exact .inl ⟨head, tail, rfl, by omega⟩
  | cons x xs ih =>
    obtain ⟨first, others⟩ := pairwise_cons.1 sorted
    have x_filled := filled.stop_pos mem_cons_self
    have rest_filled : Filled xs := fun y mem => filled y (mem_cons_of_mem _ mem)
    by_cases after : head < x.start
    · by_cases something : head < tail
      · have all_after : ∀ y ∈ x :: xs, head < y.start := by
          intro y mem
          rcases mem_cons.1 mem with rfl | mem
          · exact after
          · have later := first y mem
            omega
        obtain ⟨mid, post, tail', split, eq, tail_le, covered, later, low⟩ :=
          cut_after sorted filled all_after
        have head_lt : head + 1 ≤ tail' := low (head + 1) something all_after
        refine .inr ⟨[], mid, post, head, tail', split, eq, Nat.le_refl _, head_lt, tail_le, nofun,
          ?_, later⟩
        intro y mem
        refine ⟨all_after y ?_, covered y mem⟩
        rw [split]
        exact mem_append_left _ mem
      · exact .inl ⟨head, tail, cut_of_before (by omega), by omega⟩
    rw [cut, if_neg (by omega)]
    by_cases overlaps : head < x.stop
    · rw [if_pos overlaps, if_neg (by omega), if_pos (by omega)]
      by_cases ends : tail ≤ x.stop
      · rw [if_pos ends, cut_next sorted x_filled]
        exact .inl ⟨x.stop, x.start, rfl, by omega⟩
      · rw [if_neg ends]
        rcases ih others rest_filled (show x.stop ≤ tail by omega) with
          ⟨head', tail', eq, none⟩ | ⟨pre, mid, post, head', tail', rfl, eq, head_le, rest⟩
        · rw [eq]
          exact .inl ⟨head', tail', rfl, none⟩
        · rw [eq]
          obtain ⟨something, tail_le, before, covered, later⟩ := rest
          refine .inr ⟨x :: pre, mid, post, head', tail', rfl, rfl, by omega, something, tail_le,
            ?_, covered, later⟩
          intro y mem
          rcases mem_cons.1 mem with rfl | mem
          · exact head_le
          · exact before y mem
    · rw [if_neg overlaps]
      rcases ih others rest_filled le with
        ⟨head', tail', eq, none⟩ | ⟨pre, mid, post, head', tail', rfl, eq, head_le, rest⟩
      · rw [eq]
        exact .inl ⟨head', tail', rfl, none⟩
      · rw [eq]
        obtain ⟨something, tail_le, before, covered, later⟩ := rest
        refine .inr ⟨x :: pre, mid, post, head', tail', rfl, rfl, head_le, something, tail_le, ?_,
          covered, later⟩
        intro y mem
        rcases mem_cons.1 mem with rfl | mem
        · omega
        · exact before y mem

/-! ## Merging adjacent intervals -/

/-- The place is in the interval. -/
def Has (x : NatInterval) (n : Nat) : Prop := x.start ≤ n ∧ n < x.stop

/-- Neither overlapping nor adjacent. -/
def Apart (x y : NatInterval) : Prop := x.stop < y.start ∨ y.stop < x.start

def NoOverlap (x y : NatInterval) : Prop := x.stop ≤ y.start ∨ y.stop ≤ x.start

/-- `x` and `y`, which begins where `x` ends. -/
def join (x y : NatInterval) : NatInterval := ⟨x.start, x.length + y.length⟩

theorem join_stop (adjacent : x.stop = y.start) : (join x y).stop = y.stop := by
  unfold stop join at *
  dsimp only
  omega

theorem join_has {n : Nat} (adjacent : x.stop = y.start) :
    (join x y).Has n ↔ x.Has n ∨ y.Has n := by
  have x_le : x.start ≤ x.stop := Nat.le_add_right _ _
  have y_le : y.start ≤ y.stop := Nat.le_add_right _ _
  unfold Has
  rw [join_stop adjacent]
  dsimp only [join]
  omega

/-- An interval that overlaps neither of two adjacent ones, and is apart from one of them,
is not between them. -/
theorem noOverlap_join {z : NatInterval} (adjacent : x.stop = y.start) (x_filled : x.start < x.stop)
    (y_filled : y.start < y.stop) (z_filled : z.start < z.stop) (x_clear : NoOverlap x z)
    (y_clear : NoOverlap y z) : NoOverlap (join x y) z := by
  unfold NoOverlap at *
  rw [join_stop adjacent]
  dsimp only [join]
  omega

theorem Apart.noOverlap (apart : Apart x y) : NoOverlap x y := apart.imp Nat.le_of_lt Nat.le_of_lt

theorem Apart.symm (apart : Apart x y) : Apart y x := Or.symm apart

theorem NoOverlap.not_has {n : Nat} (none : NoOverlap x y) (has : x.Has n) : ¬ y.Has n := by
  unfold NoOverlap at none
  unfold Has at *
  omega

theorem NoOverlap.of_has (x_filled : x.start < x.stop) (y_filled : y.start < y.stop)
    (none : ∀ n, x.Has n → ¬ y.Has n) : NoOverlap x y := by
  by_contra overlap
  unfold NoOverlap at overlap
  exact none (max x.start y.start) ⟨by omega, by omega⟩ ⟨by omega, by omega⟩

end NatInterval
