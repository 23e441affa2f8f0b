import Mathlib.Data.List.Basic

/-!
# Segments of a list

Pieces of one list, each with its offset. Pieces that stand in order and leave
no gap join to what they cover.
-/

/-- A piece of a list and where it starts. -/
structure Segment (α : Type) where
  offset : Nat
  data : List α

namespace Segment

open List

variable {α : Type} {whole : List α} {x y : Segment α} {xs : List (Segment α)}

def stop (x : Segment α) : Nat := x.offset + x.data.length

/-- The piece is cut out of `whole`. -/
structure Of (whole : List α) (x : Segment α) : Prop where
  data : x.data = (whole.drop x.offset).take x.data.length
  stop_le : x.stop ≤ whole.length

/-- A piece of the piece. -/
def part (x : Segment α) (start size : Nat) : Segment α :=
  ⟨x.offset + start, (x.data.drop start).take size⟩

theorem Of.all : Of whole ⟨0, whole⟩ where
  data := by rw [drop_zero, take_length]
  stop_le := Nat.le_of_eq (Nat.zero_add _)

theorem length_part {start size : Nat} (inside : start + size ≤ x.data.length) :
    (x.part start size).data.length = size := by
  simp only [part, length_take, length_drop]
  omega

theorem Of.part (of : Of whole x) {start size : Nat} (inside : start + size ≤ x.data.length) :
    Of whole (x.part start size) where
  data := by
    rw [length_part inside]
    unfold Segment.part
    dsimp only
    rw [of.data, drop_take, drop_drop, take_take]
    congr 1
    omega
  stop_le := by
    have ends := of.stop_le
    unfold stop at *
    rw [length_part inside]
    unfold Segment.part
    dsimp only
    omega

/-! ## In order -/

/-- No piece starts after a later one. -/
def Ordered (xs : List (Segment α)) : Prop := xs.Pairwise fun a b => a.offset ≤ b.offset

/-- Into its place, after the pieces with the same offset. -/
def insert (x : Segment α) : List (Segment α) → List (Segment α)
  | [] => [x]
  | y :: ys => if x.offset < y.offset then x :: y :: ys else y :: insert x ys

theorem perm_insert (x : Segment α) (xs : List (Segment α)) : (insert x xs).Perm (x :: xs) := by
  induction xs with
  | nil => exact .refl _
  | cons y ys ih =>
    rw [insert]
    split
    · exact .refl _
    · exact (ih.cons y).trans (.swap x y ys)

theorem mem_insert : y ∈ insert x xs ↔ y = x ∨ y ∈ xs := (perm_insert x xs).mem_iff.trans mem_cons

theorem Ordered.insert (ordered : Ordered xs) (x : Segment α) : Ordered (insert x xs) := by
  induction xs with
  | nil => exact pairwise_singleton _ _
  | cons y ys ih =>
    obtain ⟨first, others⟩ := pairwise_cons.mp ordered
    rw [Segment.insert]
    split
    case isTrue before =>
      apply List.Pairwise.cons _ ordered
      intro z mem
      cases mem with
      | head => omega
      | tail _ mem =>
        have later := first z mem
        omega
    case isFalse after =>
      apply List.Pairwise.cons _ (ih others)
      intro z mem
      cases mem_insert.mp mem with
      | inl is =>
        rw [is]
        omega
      | inr mem => exact first z mem

/-! ## Without a gap -/

/-- Every piece starts at what is reached before it, which is `e` at first. -/
def NoGap : Nat → List (Segment α) → Prop
  | _, [] => True
  | e, x :: xs => x.offset ≤ e ∧ NoGap (max e x.stop) xs

/-- The end of the pieces. -/
def reach (e : Nat) (xs : List (Segment α)) : Nat := xs.foldl (fun e x => max e x.stop) e

def Covers (xs : List (Segment α)) (i : Nat) : Prop := ∃ x ∈ xs, x.offset ≤ i ∧ i < x.stop

theorem reach_cons (e : Nat) : reach e (x :: xs) = reach (max e x.stop) xs := rfl

theorem le_reach (e : Nat) (xs : List (Segment α)) : e ≤ reach e xs := by
  induction xs generalizing e with
  | nil => exact Nat.le_refl _
  | cons x xs ih =>
    rw [reach_cons]
    exact Nat.le_trans (Nat.le_max_left _ _) (ih _)

theorem stop_le_reach (e : Nat) (mem : x ∈ xs) : x.stop ≤ reach e xs := by
  induction xs generalizing e with
  | nil => cases mem
  | cons y ys ih =>
    rw [reach_cons]
    cases mem with
    | head => exact Nat.le_trans (Nat.le_max_right _ _) (le_reach _ _)
    | tail _ mem => exact ih _ mem

variable {e i a b : Nat} {pieces : List (Segment α)}

theorem reach_le {bound : Nat} (start : e ≤ bound) (le : ∀ x ∈ xs, x.stop ≤ bound) :
    reach e xs ≤ bound := by
  induction xs generalizing e with
  | nil => exact start
  | cons x xs ih =>
    rw [reach_cons]
    apply ih
    · exact Nat.max_le.mpr ⟨start, le x mem_cons_self⟩
    · exact fun y mem => le y (mem_cons_of_mem _ mem)

theorem NoGap.covers (noGap : NoGap e xs) (after : e ≤ i) (before : i < reach e xs) :
    Covers xs i := by
  induction xs generalizing e with
  | nil => exact absurd before (Nat.not_lt.mpr after)
  | cons x xs ih =>
    obtain ⟨start, rest⟩ := noGap
    by_cases inside : i < x.stop
    · exact ⟨x, mem_cons_self, by omega, inside⟩
    · obtain ⟨y, mem, here⟩ := ih rest (by omega) before
      exact ⟨y, mem_cons_of_mem _ mem, here⟩

theorem Ordered.noGap (ordered : Ordered xs) (covers : ∀ i, e ≤ i → i < reach e xs → Covers xs i)
    (starts : ∀ x ∈ xs, x.offset ≤ reach e xs) : NoGap e xs := by
  induction xs generalizing e with
  | nil => trivial
  | cons x xs ih =>
    obtain ⟨first, others⟩ := pairwise_cons.mp ordered
    have start : x.offset ≤ e := by
      apply Nat.le_of_not_lt
      intro gap
      have x_start := starts x mem_cons_self
      obtain ⟨y, mem, from_y, -⟩ := covers e (Nat.le_refl _) (by omega)
      cases mem with
      | head => omega
      | tail _ mem =>
        have later := first y mem
        omega
    constructor
    · exact start
    · apply ih others
      · intro i after before
        obtain ⟨y, mem, here⟩ := covers i (by omega) before
        cases mem with
        | head => omega
        | tail _ mem => exact ⟨y, mem, here⟩
      · exact fun y mem => starts y (mem_cons_of_mem _ mem)

/-! ## Joining -/

/-- What a piece adds to the pieces before it. -/
def extend (joined : List α) (x : Segment α) : List α :=
  joined ++ x.data.drop (joined.length - x.offset)

theorem Of.extend (of : Of whole x) (start : x.offset ≤ e) (inside : e ≤ whole.length) :
    extend (whole.take e) x = whole.take (max e x.stop) := by
  have ends := of.stop_le
  unfold Segment.extend
  rw [length_take, Nat.min_eq_left inside, of.data, drop_take, drop_drop]
  rw [show x.offset + (e - x.offset) = e by omega]
  by_cases later : e ≤ x.stop
  · rw [Nat.max_eq_right later, ← take_add]
    congr 1
    unfold stop at *
    omega
  · rw [Nat.max_eq_left (by omega)]
    rw [show x.data.length - (e - x.offset) = 0 by unfold Segment.stop at later; omega]
    rw [take_zero, append_nil]

/-! ## From the start on -/

/-- The longest list that the pieces give from the start on: every element is out of a piece, and
no piece has the next one. -/
structure Leading (xs : List (Segment α)) (r : List α) : Prop where
  held : ∀ i (inside : i < r.length), ∃ x ∈ xs, x.offset ≤ i ∧ x.data[i - x.offset]? = some r[i]
  ends : ¬ Covers xs r.length

theorem covers_append {xs ys : List (Segment α)} :
    Covers (xs ++ ys) i ↔ Covers xs i ∨ Covers ys i := by
  unfold Covers
  simp [or_and_right, exists_or]

theorem covers_singleton : Covers [x] i ↔ x.offset ≤ i ∧ i < x.stop := by
  unfold Covers
  simp

theorem Leading.nil : Leading ([] : List (Segment α)) [] where
  held := nofun
  ends := by
    rintro ⟨x, mem, -⟩
    cases mem

section

variable {r : List α}

section

variable (leading : Leading xs r)
include leading

theorem Leading.covers {i : Nat} (inside : i < r.length) : Covers xs i := by
  obtain ⟨x, mem, after, held⟩ := leading.held i inside
  obtain ⟨before, -⟩ := List.getElem?_eq_some_iff.mp held
  refine ⟨x, mem, after, ?_⟩
  unfold stop
  omega

/-- The start of a position is covered if it is no later than the end. -/
theorem Leading.covered_iff (n : Nat) : (∀ i < n, Covers xs i) ↔ n ≤ r.length := by
  constructor
  · intro covered
    apply Nat.le_of_not_lt
    exact fun beyond => leading.ends (covered _ beyond)
  · intro within i below
    exact leading.covers (by omega)

theorem Leading.stop_le (mem : x ∈ xs) (start : x.offset ≤ r.length) : x.stop ≤ r.length := by
  apply Nat.le_of_not_lt
  exact fun beyond => leading.ends ⟨x, mem, start, beyond⟩

/-- Some piece ends where the elements do. -/
theorem Leading.exists_stop (filled : 0 < r.length) : ∃ x ∈ xs, x.stop = r.length := by
  obtain ⟨x, mem, after, before⟩ := leading.covers (Nat.sub_one_lt_of_lt filled)
  have le := leading.stop_le mem (by omega)
  exact ⟨x, mem, by omega⟩

/-- A piece after a gap, or with nothing new. -/
theorem Leading.skip (apart : r.length < x.offset ∨ x.stop ≤ r.length) : Leading (xs ++ [x]) r where
  held i inside := by
    obtain ⟨y, mem, held⟩ := leading.held i inside
    exact ⟨y, mem_append_left _ mem, held⟩
  ends := by
    rw [covers_append, covers_singleton]
    rintro (covered | covered)
    · exact leading.ends covered
    · omega

theorem Leading.extend (all : ∀ y ∈ xs, y.stop ≤ r.length)
    (start : x.offset ≤ r.length) (within : r.length ≤ x.stop) :
    Leading (xs ++ [x]) (extend r x) where
  held i inside := by
    unfold Segment.extend at inside ⊢
    by_cases old : i < r.length
    · obtain ⟨y, mem, held⟩ := leading.held i old
      rw [getElem_append_left old]
      exact ⟨y, mem_append_left _ mem, held⟩
    · refine ⟨x, mem_append_right _ mem_cons_self, by omega, ?_⟩
      rw [getElem_append_right (by omega), getElem_drop, List.getElem?_eq_some_iff]
      rw [length_append, length_drop] at inside
      refine ⟨by omega, ?_⟩
      congr 1
      omega
  ends := by
    have length : (Segment.extend r x).length = x.stop := by
      unfold Segment.extend
      unfold stop at *
      rw [length_append, length_drop]
      omega
    rw [covers_append, covers_singleton, length]
    rintro (⟨y, mem, -, beyond⟩ | covered)
    · have le := all y mem
      omega
    · omega

end

end

/-! ## Chains -/

/-- Every piece starts where the one before it stops. -/
def Chain : Nat → List (Segment α) → Nat → Prop
  | a, [], b => a = b
  | a, x :: xs, b => x.offset = a ∧ Chain x.stop xs b

theorem Chain.bounds (chain : Chain a xs b) : a ≤ b ∧ ∀ x ∈ xs, a ≤ x.offset ∧ x.stop ≤ b := by
  induction xs generalizing a with
  | nil => exact ⟨Nat.le_of_eq chain, fun x mem => nomatch mem⟩
  | cons y ys ih =>
    obtain ⟨rfl, rest⟩ := chain
    obtain ⟨grows, others⟩ := ih rest
    have y_grows : y.offset ≤ y.stop := Nat.le_add_right _ _
    constructor
    · exact Nat.le_trans y_grows grows
    · intro x mem
      cases mem with
      | head => exact ⟨Nat.le_refl _, grows⟩
      | tail _ mem =>
        have later := others x mem
        exact ⟨Nat.le_trans y_grows later.1, later.2⟩

theorem Chain.exists_stop (chain : Chain a xs b) (nonempty : xs ≠ []) : ∃ x ∈ xs, x.stop = b := by
  induction xs generalizing a with
  | nil => exact absurd rfl nonempty
  | cons x xs ih =>
    cases xs with
    | nil => exact ⟨x, mem_cons_self, chain.2⟩
    | cons y ys =>
      obtain ⟨z, mem, ends⟩ := ih chain.2 (cons_ne_nil y ys)
      exact ⟨z, mem_cons_of_mem _ mem, ends⟩

theorem Chain.stop_mono (chain : Chain a xs b) (filled : ∀ x ∈ xs, 0 < x.data.length) (mem : x ∈ xs)
    (other : y ∈ xs) (le : x.offset ≤ y.offset) : x.stop ≤ y.stop := by
  induction xs generalizing a with
  | nil => cases mem
  | cons z zs ih =>
    have rest := chain.2.bounds.2
    have pos := filled z mem_cons_self
    cases mem with
    | head =>
      cases other with
      | head => exact Nat.le_refl _
      | tail _ other => exact Nat.le_trans (rest y other).1 (Nat.le_add_right _ _)
    | tail _ mem =>
      cases other with
      | head =>
        have later := (rest x mem).1
        unfold stop at later
        omega
      | tail _ other =>
        exact ih chain.2 (fun w held => filled w (mem_cons_of_mem _ held)) mem other

theorem Chain.join (chain : Chain a xs b) (of : ∀ x ∈ xs, Of whole x) (start : List α)
    (inside : a ≤ whole.length) :
    xs.foldl (fun p x => p ++ x.data) (start ++ whole.take a) = start ++ whole.take b := by
  induction xs generalizing a with
  | nil =>
    obtain rfl : a = b := chain
    rfl
  | cons x xs ih =>
    have x_of := of x mem_cons_self
    have extended := x_of.extend (Nat.le_of_eq chain.1) inside
    have stops : max a x.stop = x.stop := by
      rw [← chain.1]
      exact Nat.max_eq_right (Nat.le_add_right _ _)
    rw [Segment.extend, length_take_of_le inside, chain.1, Nat.sub_self, drop_zero,
      stops] at extended
    rw [foldl_cons, append_assoc, extended]
    exact ih chain.2 (fun y mem => of y (mem_cons_of_mem _ mem)) x_of.stop_le

/-- No piece is empty. -/
def Filled (xs : List (Segment α)) : Prop := ∀ x ∈ xs, 0 < x.data.length

theorem Chain.nodup (chain : Chain a xs b) (filled : Filled xs) : xs.Nodup := by
  induction xs generalizing a with
  | nil => exact .nil
  | cons x xs ih =>
    apply List.Pairwise.cons _ (ih chain.2 fun y mem => filled y (mem_cons_of_mem _ mem))
    rintro y mem rfl
    have later := (chain.2.bounds.2 x mem).1
    have pos := filled x mem_cons_self
    unfold stop at later
    omega

theorem Chain.first (chain : Chain a (y :: pieces) b) (filled : Filled (y :: pieces))
    (mem : x ∈ y :: pieces) (start : x.offset ≤ a) : x = y := by
  cases mem with
  | head => rfl
  | tail _ mem =>
    obtain ⟨rfl, rest⟩ := chain
    have later := (rest.bounds.2 x mem).1
    have pos := filled y mem_cons_self
    unfold stop at later
    omega

/-- A chain of some of the pieces to the same end has all of them. -/
theorem Chain.eq_of_subset (chain : Chain a pieces b) (filled : Filled pieces)
    (other : Chain a xs b) (sub : ∀ x ∈ xs, x ∈ pieces) :
    xs = pieces := by
  induction pieces generalizing a xs with
  | nil => exact eq_nil_iff_forall_not_mem.mpr fun x mem => nomatch sub x mem
  | cons y pieces ih =>
    cases xs with
    | nil =>
      obtain ⟨rfl, rest⟩ := chain
      have pos := filled y mem_cons_self
      have grows := rest.bounds.1
      have ends : y.offset = b := other
      unfold stop at grows
      omega
    | cons x xs =>
      obtain rfl := chain.first filled (sub x mem_cons_self) (Nat.le_of_eq other.1)
      congr 1
      apply ih chain.2 (fun z mem => filled z (mem_cons_of_mem _ mem)) other.2
      intro z mem
      cases sub z (mem_cons_of_mem _ mem) with
      | tail _ held => exact held
      | head =>
        have later := (other.2.bounds.2 x mem).1
        have pos := filled x mem_cons_self
        unfold stop at later
        omega

theorem Chain.eq_of_perm (chain : Chain a pieces b) (filled : Filled pieces) (ordered : Ordered xs)
    (perm : xs.Perm pieces) : xs = pieces := by
  induction pieces generalizing a xs with
  | nil => exact perm.eq_nil
  | cons y pieces ih =>
    cases xs with
    | nil => exact perm.symm.eq_nil.symm
    | cons x xs =>
      have first := (pairwise_cons.mp ordered).1
      have y_start := chain.1
      have before : x.offset ≤ y.offset := by
        cases perm.mem_iff.mpr mem_cons_self with
        | head => exact Nat.le_refl _
        | tail _ mem => exact first y mem
      obtain rfl := chain.first filled (perm.mem_iff.mp mem_cons_self) (by omega)
      congr 1
      exact ih chain.2 (fun z mem => filled z (mem_cons_of_mem _ mem))
        (pairwise_cons.mp ordered).2 (Perm.cons_inv perm)

end Segment
