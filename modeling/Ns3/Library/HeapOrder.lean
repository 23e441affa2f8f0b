/-!
# Heap order

Positions count from one, and the parent of position `i` is `i / 2`. One
position out of place moves up or down until the order holds.
-/

namespace HeapOrder

variable {E : Type} (lt : E → E → Prop)

/-- Elements that are not less than each other are in the same place of the order. -/
structure WeakOrder : Prop where
  asymm : ∀ a b, lt a b → ¬ lt b a
  trans : ∀ a b c, lt a b → lt b c → lt a c
  not_trans : ∀ a b c, ¬ lt a b → ¬ lt b c → ¬ lt a c

/-- No element is less than its parent. -/
def Ordered (f : Nat → E) (n : Nat) : Prop :=
  ∀ i, 2 ≤ i → i ≤ n → ¬ lt (f i) (f (i / 2))

/-- Only position `j` may be less than its parent. -/
structure Rising (f : Nat → E) (n j : Nat) : Prop where
  others : ∀ i, 2 ≤ i → i ≤ n → i ≠ j → ¬ lt (f i) (f (i / 2))
  bridge : ∀ i, 2 ≤ j → i / 2 = j → i ≤ n → ¬ lt (f i) (f (j / 2))

/-- Only the children of position `j` may be less than their parent. -/
structure Sinking (f : Nat → E) (n j : Nat) : Prop where
  others : ∀ i, 2 ≤ i → i ≤ n → i / 2 ≠ j → ¬ lt (f i) (f (i / 2))
  bridge : ∀ i, 2 ≤ j → i / 2 = j → i ≤ n → ¬ lt (f i) (f (j / 2))

def exch (f : Nat → E) (a b : Nat) : Nat → E := fun i =>
  if i = a then f b else if i = b then f a else f i

variable {lt} {f : Nat → E} {n j : Nat}

theorem exch_left (f : Nat → E) (a b : Nat) : exch f a b a = f b := if_pos rfl

theorem exch_right (f : Nat → E) (a b : Nat) : exch f a b b = f a := by
  unfold exch
  split
  case isTrue same => rw [same]
  case isFalse => exact if_pos rfl

theorem exch_other {a b i : Nat} (ne : i ≠ a) (ne' : i ≠ b) : exch f a b i = f i := by
  rw [exch, if_neg ne, if_neg ne']

theorem Ordered.congr {g : Nat → E} (h : Ordered lt f n)
    (same : ∀ i, 1 ≤ i → i ≤ n → f i = g i) : Ordered lt g n := by
  intro i two le
  rw [← same i (by omega) le, ← same (i / 2) (by omega) (by omega)]
  exact h i two le

theorem Sinking.congr {g : Nat → E} (h : Sinking lt f n j)
    (same : ∀ i, 1 ≤ i → i ≤ n → f i = g i) : Sinking lt g n j := by
  constructor
  case others =>
    intro i two le other
    rw [← same i (by omega) le, ← same (i / 2) (by omega) (by omega)]
    exact h.others i two le other
  case bridge =>
    intro i two child le
    rw [← same i (by omega) le, ← same (j / 2) (by omega) (by omega)]
    exact h.bridge i two child le

/-- An element that was put behind the others may have to rise. -/
theorem Ordered.rising (h : Ordered lt f n) : Rising lt f (n + 1) (n + 1) where
  others i two le ne := h i two (by omega)
  bridge i two child le := by omega

theorem Rising.ordered (h : Rising lt f n j) (stop : 2 ≤ j → ¬ lt (f j) (f (j / 2))) :
    Ordered lt f n := by
  intro i two le
  by_cases same : i = j
  · subst same
    exact stop two
  · exact h.others i two le same

theorem Sinking.ordered (h : Sinking lt f n j)
    (stop : ∀ c, 2 ≤ c → c / 2 = j → c ≤ n → ¬ lt (f c) (f j)) : Ordered lt f n := by
  intro i two le
  by_cases child : i / 2 = j
  · rw [child]
    exact stop i two child le
  · exact h.others i two le child

/-- The element changes places with its parent. -/
theorem Rising.exch (weak : WeakOrder lt) (h : Rising lt f n j) (two : 2 ≤ j) (le : j ≤ n)
    (less : lt (f j) (f (j / 2))) : Rising lt (exch f j (j / 2)) n (j / 2) := by
  constructor
  case others =>
    intro i two' le' ne
    by_cases same : i = j
    · subst same
      rw [exch_left, exch_right]
      exact weak.asymm _ _ less
    rw [exch_other same ne]
    by_cases child : i / 2 = j
    · rw [child, exch_left]
      exact h.bridge i two child le'
    by_cases sibling : i / 2 = j / 2
    · rw [sibling, exch_right]
      intro lower
      have above := h.others i two' le' same
      rw [sibling] at above
      exact above (weak.trans _ _ _ lower less)
    · rw [exch_other child sibling]
      exact h.others i two' le' same
  case bridge =>
    intro i two' child le'
    have parent := h.others (j / 2) two' (by omega) (by omega)
    have top : HeapOrder.exch f j (j / 2) (j / 2 / 2) = f (j / 2 / 2) :=
      exch_other (by omega) (by omega)
    rw [top]
    by_cases same : i = j
    · subst same
      rw [exch_left]
      exact parent
    · have above := h.others i (by omega) le' same
      rw [child] at above
      rw [exch_other same (by omega)]
      exact weak.not_trans _ _ _ above parent

theorem Sinking.exch {c : Nat} (h : Sinking lt f n j) (one : 1 ≤ j) (child : c / 2 = j)
    (le : c ≤ n) (least : ∀ i, 2 ≤ i → i / 2 = j → i ≤ n → ¬ lt (f i) (f c))
    (greater : ¬ lt (f j) (f c)) : Sinking lt (exch f j c) n c := by
  constructor
  case others =>
    intro i two' le' ne
    by_cases same : i = j
    · subst same
      rw [exch_left, exch_other (by omega) ne]
      exact h.bridge c two' child le
    by_cases moved : i = c
    · subst moved
      rw [child, exch_right, exch_left]
      exact greater
    rw [exch_other same moved]
    by_cases sibling : i / 2 = j
    · rw [sibling, exch_left]
      exact least i two' sibling le'
    · rw [exch_other sibling ne]
      exact h.others i two' le' sibling
  case bridge =>
    intro i two' below le'
    rw [child, exch_left, exch_other (by omega) (by omega), ← below]
    exact h.others i (by omega) le' (by omega)

theorem Ordered.first (weak : WeakOrder lt) (h : Ordered lt f n) {i : Nat} (one : 1 ≤ i)
    (le : i ≤ n) : ¬ lt (f i) (f 1) := by
  induction i using Nat.strongRecOn with
  | ind i ih =>
    by_cases first : i = 1
    · subst first
      exact fun less => weak.asymm _ _ less less
    · exact weak.not_trans _ _ _ (h i (by omega) le) (ih (i / 2) (by omega) (by omega) (by omega))

/-- **The last element fills a gap.** Only the children there may be out of order, unless it
is less than the parent there. -/
theorem Ordered.fill (h : Ordered lt f (n + 1)) (one : 1 ≤ j)
    (above : 2 ≤ j → j ≤ n → ¬ lt (f (n + 1)) (f (j / 2))) (weak : WeakOrder lt) :
    Sinking lt (exch f j (n + 1)) n j := by
  constructor
  case others =>
    intro i two le child
    by_cases same : i = j
    · subst same
      rw [exch_left, exch_other (by omega) (by omega)]
      exact above two le
    · rw [exch_other same (by omega), exch_other child (by omega)]
      exact h i two (by omega)
  case bridge =>
    intro i two child le
    rw [exch_other (by omega) (by omega), exch_other (by omega) (by omega)]
    have lower := h i (by omega) (by omega)
    rw [child] at lower
    exact weak.not_trans _ _ _ lower (h j two (by omega))

end HeapOrder
