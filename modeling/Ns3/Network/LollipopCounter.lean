import Mathlib.Algebra.Order.Ring.Nat

/-!
# `LollipopCounter`

A counter over a linear region and then a circular one. `none` is an abort.
-/

namespace Ns3.Network

/-- `LollipopCounter<T>`, where `T` has `w` bits. -/
structure LollipopCounter (w : Nat) where
  value : Nat
  sequenceWindow : Nat
  deriving DecidableEq

namespace LollipopCounter

def maxValue (w : Nat) : Nat := 2 ^ w - 1

def circularRegion (w : Nat) : Nat := maxValue w >>> 1

variable {w : Nat}

/-- The conversion to `T`. -/
def wrap (w n : Nat) : Nat := n % 2 ^ w

/-- `LollipopCounter(T val)` -/
def ofValue (w val : Nat) : LollipopCounter w := ⟨wrap w val, 1 <<< (w / 2)⟩

/-- `SetSequenceWindowSize`, which also resets the counter. -/
def setSequenceWindowSize (_ : LollipopCounter w) (numberOfBits : Nat) :
    Option (LollipopCounter w) :=
  if numberOfBits ≥ w then none
  else
    let sequenceWindow := 1 <<< numberOfBits
    some ⟨maxValue w - sequenceWindow + 1, sequenceWindow⟩

/-- `operator=` -/
def assign (c o : LollipopCounter w) : LollipopCounter w := { c with value := o.value }

def isInit (c : LollipopCounter w) : Bool := c.value > circularRegion w

def absoluteMagnitudeOfDifference (c val : LollipopCounter w) : Nat :=
  let absDiffDirect := max c.value val.value - min c.value val.value
  let absDiffWrapped :=
    wrap w (min c.value val.value + circularRegion w + 1 - max c.value val.value)
  min absDiffDirect absDiffWrapped

def isComparable (c val : LollipopCounter w) : Option Bool :=
  if c.sequenceWindow ≠ val.sequenceWindow then none
  else if c.isInit = val.isInit then
    some (c.absoluteMagnitudeOfDifference val ≤ c.sequenceWindow)
  else some true

def eq (lhs rhs : LollipopCounter w) : Option Bool :=
  if lhs.sequenceWindow ≠ rhs.sequenceWindow then none else some (lhs.value = rhs.value)

def gt (lhs rhs : LollipopCounter w) : Option Bool :=
  if lhs.sequenceWindow ≠ rhs.sequenceWindow then none
  else if lhs.value = rhs.value then some false
  else if lhs.isInit = rhs.isInit then
    if lhs.absoluteMagnitudeOfDifference rhs > lhs.sequenceWindow then some false
    else
      let serialRegion := (circularRegion w >>> 1) + 1
      some ((lhs.value < rhs.value ∧ rhs.value - lhs.value > serialRegion) ∨
        (lhs.value > rhs.value ∧ lhs.value - rhs.value < serialRegion))
  else
    let lhsIsHigher := lhs.isInit
    let difference := if lhsIsHigher then lhs.value - rhs.value else rhs.value - lhs.value
    let distance := wrap w (maxValue w - difference + 1)
    some (if distance > lhs.sequenceWindow then lhsIsHigher else !lhsIsHigher)

def lt (lhs rhs : LollipopCounter w) : Option Bool := do
  if !(← lhs.isComparable rhs) then return false
  if ← lhs.gt rhs then return false
  if ← lhs.eq rhs then return false
  return true

/-- `operator++` -/
def increment (c : LollipopCounter w) : LollipopCounter w :=
  let value := wrap w (c.value + 1)
  { c with value := if value = circularRegion w + 1 then 0 else value }

/-- The default constructor. -/
def create (w : Nat) : LollipopCounter w := ⟨maxValue w - 1 <<< (w / 2) + 1, 1 <<< (w / 2)⟩

/-- Counters that are initialised, given a window, incremented and assigned. -/
inductive Reached : LollipopCounter w → Prop where
  | create : Reached (create w)
  | ofValue (val : Nat) : Reached (ofValue w val)
  | setSequenceWindowSize {c c' : LollipopCounter w} (numberOfBits : Nat) : Reached c →
      c.setSequenceWindowSize numberOfBits = some c' → Reached c'
  | increment {c : LollipopCounter w} : Reached c → Reached c.increment
  | assign {c o : LollipopCounter w} : Reached c → Reached o → Reached (c.assign o)

/-- The value is one of `T`, and the window no larger than a region. -/
structure Valid (c : LollipopCounter (w + 2)) : Prop where
  value : c.value < 2 ^ (w + 2)
  window : 1 ≤ c.sequenceWindow ∧ c.sequenceWindow ≤ 2 ^ (w + 1)

theorem space_eq (w : Nat) : 2 ^ (w + 2) = 2 * 2 ^ (w + 1) ∧ 1 ≤ 2 ^ (w + 1) :=
  ⟨Nat.pow_succ', Nat.one_le_two_pow⟩

theorem window_fits {bits : Nat} (fits : bits < w + 2) :
    1 ≤ 1 <<< bits ∧ 1 <<< bits ≤ 2 ^ (w + 1) := by
  rw [Nat.one_shiftLeft]
  exact ⟨Nat.one_le_two_pow, Nat.pow_le_pow_right (by omega) (by omega)⟩

theorem Reached.valid {c : LollipopCounter (w + 2)} (reached : c.Reached) : c.Valid := by
  have half : 1 ≤ 1 <<< ((w + 2) / 2) ∧ 1 <<< ((w + 2) / 2) ≤ 2 ^ (w + 1) := window_fits (by omega)
  have space := space_eq w
  have some_ := Nat.two_pow_pos (w + 2)
  induction reached with
  | create =>
    refine ⟨?_, half⟩
    dsimp only [LollipopCounter.create, maxValue]
    omega
  | ofValue val => exact ⟨Nat.mod_lt _ some_, half⟩
  | setSequenceWindowSize numberOfBits _ set _ =>
    unfold LollipopCounter.setSequenceWindowSize at set
    split at set
    · cases set
    · rename_i fits
      have window := window_fits (Nat.lt_of_not_le fits)
      cases set
      refine ⟨?_, window⟩
      dsimp only [maxValue]
      omega
  | increment _ ih =>
    refine ⟨?_, ih.window⟩
    dsimp only [LollipopCounter.increment]
    split
    · exact some_
    · exact Nat.mod_lt _ some_
  | assign _ _ ih ih' => exact ⟨ih'.value, ih.window⟩

/-! ## Increments -/

/-- The value `n` steps further on, in regions of a size. -/
def advance (region value n : Nat) : Nat :=
  if region ≤ value then if value + n < 2 * region then value + n else value + n - 2 * region
  else if value + n < region then value + n else value + n - region

theorem circularRegion_eq (w : Nat) : circularRegion (w + 2) = 2 ^ (w + 1) - 1 := by
  have space := space_eq w
  rw [circularRegion, maxValue, Nat.shiftRight_one]
  omega

theorem increments_eq {c : LollipopCounter (w + 2)} (valid : c.Valid) {n : Nat}
    (few : n ≤ 2 ^ (w + 1)) :
    increment^[n] c = { c with value := advance (2 ^ (w + 1)) c.value n } := by
  have lt := valid.value
  have space := space_eq w
  induction n with
  | zero =>
    have same : advance (2 ^ (w + 1)) c.value 0 = c.value := by
      unfold advance
      split <;> split <;> omega
    rw [same]
    rfl
  | succ n ih =>
    rw [Function.iterate_succ_apply', ih (by omega), increment, circularRegion_eq]
    congr 1
    have fits : advance (2 ^ (w + 1)) c.value n < 2 ^ (w + 2) := by
      unfold advance
      split <;> split <;> omega
    have next : wrap (w + 2) (advance (2 ^ (w + 1)) c.value n + 1) =
        if advance (2 ^ (w + 1)) c.value n + 1 = 2 ^ (w + 2) then 0
        else advance (2 ^ (w + 1)) c.value n + 1 := by
      unfold wrap
      split
      · rename_i last
        simp [last]
      · exact Nat.mod_eq_of_lt (by omega)
    dsimp only
    rw [next]
    unfold advance at *
    split_ifs at * <;> omega

theorem isInit_iff (c : LollipopCounter (w + 2)) : c.isInit = true ↔ 2 ^ (w + 1) ≤ c.value := by
  have space := space_eq w
  rw [isInit, circularRegion_eq, decide_eq_true_eq]
  omega

/-- Up to a window of steps the counters stay comparable. They are ordered after less than half of
a region, and over the border of the two. -/
theorem increments_compare {c : LollipopCounter (w + 2)} (valid : c.Valid) {n : Nat} (some_ : 1 ≤ n)
    (few : n ≤ c.sequenceWindow) :
    (increment^[n] c).isComparable c = some true ∧ ((increment^[n] c).gt c = some true ↔
      n < 2 ^ w ∨ (c.isInit = true ∧ (increment^[n] c).isInit = false)) := by
  have space := space_eq w
  have lt := valid.value
  have window := valid.window
  have quarter : (2 ^ (w + 1) - 1) >>> 1 + 1 = 2 ^ w := by
    have := Nat.two_pow_pos w
    rw [Nat.shiftRight_one, Nat.pow_succ]
    omega
  have ahead := increments_eq valid (few.trans window.2)
  have value := congrArg LollipopCounter.value ahead
  have alike := congrArg LollipopCounter.sequenceWindow ahead
  generalize increment^[n] c = d at *
  dsimp only [advance] at value alike
  have init := isInit_iff c
  have init' := isInit_iff d
  have magnitude := circularRegion_eq w
  have wrapped (x : Nat) : wrap (w + 2) x ≤ x := Nat.mod_le ..
  have close : d.isInit = c.isInit → d.absoluteMagnitudeOfDifference c ≤ c.sequenceWindow := by
    intro same
    have := wrapped (min d.value c.value + circularRegion (w + 2) + 1 - max d.value c.value)
    unfold absoluteMagnitudeOfDifference
    rw [same, init] at init'
    dsimp only
    split_ifs at value <;> omega
  refine ⟨?_, ?_⟩
  · unfold isComparable
    rw [alike, if_neg (not_not_intro rfl)]
    split
    · rename_i same
      rw [decide_eq_true (close same)]
    · rfl
  · unfold gt
    rw [alike, if_neg (not_not_intro rfl), magnitude, quarter]
    by_cases same : d.isInit = c.isInit
    · have no_border : ¬ (c.isInit = true ∧ d.isInit = false) := by
        rintro ⟨high, low⟩
        rw [same, high] at low
        cases low
      rw [if_pos same, if_neg (not_lt.mpr (close same)), or_iff_left no_border]
      rw [same, init] at init'
      have half : 2 ^ (w + 1) = 2 * 2 ^ w := Nat.pow_succ'
      by_cases unmoved : d.value = c.value
      · rw [if_pos unmoved, Option.some.injEq]
        refine iff_of_false Bool.false_ne_true ?_
        split_ifs at value <;> omega
      · rw [if_neg unmoved, Option.some.injEq, decide_eq_true_eq]
        split_ifs at value <;> omega
    · have border : c.isInit = true ∧ d.isInit = false := by
        rw [Bool.eq_iff_iff, init, init'] at same
        rw [← Bool.not_eq_true, init, init']
        split_ifs at value <;> omega
      have apart : d.value ≠ c.value := fun unmoved => same (by rw [isInit, isInit, unmoved])
      have steps : wrap (w + 2) (maxValue (w + 2) - (c.value - d.value) + 1) = n := by
        have low := init'.not.mp (Bool.not_eq_true _ ▸ border.2)
        have high := init.mp border.1
        have whole : maxValue (w + 2) - (c.value - d.value) + 1 = n := by
          unfold maxValue
          split_ifs at value <;> omega
        rw [whole]
        exact Nat.mod_eq_of_lt (by omega)
      rw [if_neg apart, if_neg same, border.2]
      simp [steps, border.1, few]

/-- Exactly one of `<`, `==` and `>` is true. -/
def Trichotomous (c d : LollipopCounter w) : Prop :=
  (c.lt d = some true ∧ c.eq d = some false ∧ c.gt d = some false) ∨
    (c.lt d = some false ∧ c.eq d = some true ∧ c.gt d = some false) ∨
    (c.lt d = some false ∧ c.eq d = some false ∧ c.gt d = some true)

theorem trichotomous {c d : LollipopCounter w} (comparable : c.isComparable d = some true) :
    c.Trichotomous d := by
  have alike : c.sequenceWindow = d.sequenceWindow := by
    by_contra differ
    rw [isComparable, if_pos differ] at comparable
    cases comparable
  have equal : c.eq d = some (decide (c.value = d.value)) := if_neg (not_not_intro alike)
  have greater : ∃ greater, c.gt d = some greater ∧ (c.value = d.value → greater = false) := by
    unfold gt
    rw [if_neg (not_not_intro alike)]
    split_ifs with unmoved
    all_goals first | exact ⟨_, rfl, fun same => absurd same unmoved⟩ | exact ⟨_, rfl, fun _ => rfl⟩
  obtain ⟨greater, is, unmoved⟩ := greater
  unfold Trichotomous lt
  rw [comparable, is, equal]
  by_cases same : c.value = d.value
  · simp [same, unmoved same]
  · cases greater <;> simp [same]

/-- Later comparisons with a counter come out the same. -/
structure Alike (c d : LollipopCounter w) : Prop where
  isComparable : ∀ x : LollipopCounter w, x.Reached → c.isComparable x = d.isComparable x
  lt : ∀ x : LollipopCounter w, x.Reached → c.lt x = d.lt x
  eq : ∀ x : LollipopCounter w, x.Reached → c.eq x = d.eq x
  gt : ∀ x : LollipopCounter w, x.Reached → c.gt x = d.gt x

theorem alike_assign_iff {c t : LollipopCounter w} (reached : c.Reached) :
    (t.assign c).Alike c ↔ t.sequenceWindow = c.sequenceWindow := by
  constructor
  · intro alike
    have same := alike.eq c reached
    by_contra differ
    have aborts : (t.assign c).eq c = none := if_pos differ
    rw [aborts, eq, if_neg (not_not_intro rfl)] at same
    cases same
  · intro same
    have whole : t.assign c = c := by rw [assign, same]
    rw [whole]
    exact ⟨fun _ _ => rfl, fun _ _ => rfl, fun _ _ => rfl, fun _ _ => rfl⟩

/-- What the order of a counter is to be: it grows with `n` steps, two counters that can be compared
are in one order, and assigning the counter to `t` keeps the comparisons. -/
structure Ordered (c t : LollipopCounter w) (n : Nat) : Prop where
  comparable : (increment^[n] c).isComparable c = some true
  greater : (increment^[n] c).gt c = some true
  trichotomous : ∀ d : LollipopCounter w, d.Reached → d.isComparable c = some true →
    d.Trichotomous c
  alike : (t.assign c).Alike c

/-- **The order follows the increments.** For counters of `w + 2` bits the steps must be fewer than
half of a region or cross the border, and the windows of the two counters must be the same. -/
theorem ordered_iff {c t : LollipopCounter (w + 2)} (reached : c.Reached) {n : Nat} (some_ : 1 ≤ n)
    (few : n ≤ c.sequenceWindow) :
    c.Ordered t n ↔ (n < 2 ^ w ∨ (c.isInit = true ∧ (increment^[n] c).isInit = false)) ∧
      t.sequenceWindow = c.sequenceWindow := by
  have compare := increments_compare reached.valid some_ few
  rw [← compare.2, ← alike_assign_iff reached]
  constructor
  · intro ordered
    exact ⟨ordered.greater, ordered.alike⟩
  · rintro ⟨greater, alike⟩
    exact ⟨compare.1, greater, fun _ _ => trichotomous, alike⟩

/-- A counter of 8 bits crosses the border with its own window. -/
theorem ordered_iff_crossing : (create 8).Ordered (create 8) 16 ↔
    (16 < 2 ^ 6 ∨ ((create 8).isInit = true ∧ (increment^[16] (create 8)).isInit = false)) ∧
      (create 8).sequenceWindow = (create 8).sequenceWindow :=
  ordered_iff (w := 6) (c := create 8) (n := 16) Reached.create (by decide) (by decide)

/-- A counter with a window of 8 is assigned to one with 16, and the two cannot be compared. -/
theorem assigned_not_ordered : ¬ ∀ (c t : LollipopCounter 8) (n : Nat), c.Reached → t.Reached →
    1 ≤ n → n ≤ c.sequenceWindow → c.Ordered t n := by
  intro all
  have reached : (⟨248, 8⟩ : LollipopCounter 8).Reached :=
    .setSequenceWindowSize 3 .create (by decide)
  have ordered := all _ _ 1 reached Reached.create (by decide) (by decide)
  exact absurd ((alike_assign_iff reached).mp ordered.alike) (by decide)

end LollipopCounter

end Ns3.Network
