import Mathlib.Data.List.Basic

/-!
# Frames of a stream of items

Items are sent in frames. The first piece of a frame may go on with an item
begun in an earlier frame, and the last may begin one that a later frame goes
on with. A receiver that misses frames gives up the items that it has not seen
from their start.
-/

namespace Framing

open List

variable {α : Type}

structure Frame (α : Type) where
  startsMid : Bool
  pieces : List (List α)
  endsMid : Bool

/-- The pieces, the first with what is open of its item before it. -/
def joined (opened : Option (List α)) : List (List α) → List (List α)
  | [] => []
  | p :: ps => (opened.getD [] ++ p) :: ps

/-- The items that end among the pieces. -/
def ended (opened : Option (List α)) (pieces : List (List α)) (endsMid : Bool) : List (List α) :=
  if endsMid then (joined opened pieces).dropLast else joined opened pieces

/-- What is open after the pieces. -/
def left (opened : Option (List α)) (pieces : List (List α)) (endsMid : Bool) :
    Option (List α) :=
  if endsMid then (joined opened pieces).getLast? else none

@[simp]
theorem joined_none (pieces : List (List α)) : joined none pieces = pieces := by
  cases pieces <;> rfl

theorem joined_cons (opened : Option (List α)) (p : List α) (ps : List (List α)) :
    joined opened (p :: ps) = (opened.getD [] ++ p) :: ps := rfl

theorem joined_flatten {opened : Option (List α)} {queue : List (List α)}
    (some_ : opened.isSome = true → queue ≠ []) :
    (joined opened queue).flatten = opened.getD [] ++ queue.flatten := by
  cases queue with
  | nil =>
    cases opened with
    | none => rfl
    | some pre => exact absurd rfl (some_ rfl)
  | cons p queue => simp [joined_cons]

theorem ended_cons (opened : Option (List α)) (p : List α) {ps : List (List α)} (more : ps ≠ [])
    (endsMid : Bool) :
    ended opened (p :: ps) endsMid = (opened.getD [] ++ p) :: ended none ps endsMid := by
  cases endsMid with
  | false => simp [ended, joined_cons]
  | true => simp [ended, joined_cons, dropLast_cons_of_ne_nil more]

theorem left_cons (opened : Option (List α)) (p : List α) {ps : List (List α)} (more : ps ≠ [])
    (endsMid : Bool) : left opened (p :: ps) endsMid = left none ps endsMid := by
  obtain ⟨q, qs, rfl⟩ := exists_cons_of_ne_nil more
  cases endsMid with
  | false => rfl
  | true => simp [left, joined_cons]

/-! ## Cutting a queue -/

/-- The front of a queue is cut into pieces, the last of them a whole entry or
the first part of one. -/
inductive Cut : List (List α) → List (List α) → Bool → List (List α) → Prop
  | whole (p : List α) (rest : List (List α)) : Cut (p :: rest) [p] false rest
  | split (a b : List α) (rest : List (List α)) : Cut ((a ++ b) :: rest) [a] true (b :: rest)
  | cons (p : List α) {queue pieces rest : List (List α)} {endsMid : Bool}
      (cut : Cut queue pieces endsMid rest) : Cut (p :: queue) (p :: pieces) endsMid rest

variable {queue pieces rest : List (List α)} {endsMid : Bool}

section

variable (cut : Cut queue pieces endsMid rest)
include cut

theorem Cut.pieces_ne_nil : pieces ≠ [] := by cases cut <;> simp

/-- The items in the queue are those that end in the frame and those left. -/
theorem Cut.joined_eq (opened : Option (List α)) : joined opened queue =
      ended opened pieces endsMid ++ joined (left opened pieces endsMid) rest := by
  induction cut generalizing opened with
  | whole p rest => simp [ended, left, joined_cons]
  | split a b rest => simp [ended, left, joined_cons]
  | cons p cut ih =>
    have more := cut.pieces_ne_nil
    have later := ih none
    rw [joined_none] at later
    simp [joined_cons, ended_cons opened p more, left_cons opened p more, later]

theorem Cut.left_isSome (opened : Option (List α)) :
    (left opened pieces endsMid).isSome = endsMid := by
  induction cut generalizing opened with
  | whole p rest => rfl
  | split a b rest => rfl
  | cons p cut ih => rw [left_cons opened p cut.pieces_ne_nil, ih]

end

/-! ## Streams of frames -/

namespace Frame

def ended (f : Frame α) (opened : Option (List α)) : List (List α) :=
  Framing.ended opened f.pieces f.endsMid

def left (f : Frame α) (opened : Option (List α)) : Option (List α) :=
  Framing.left opened f.pieces f.endsMid

/-- The pieces a receiver can use that keeps the open part, or has missed it. -/
def usable (f : Frame α) (kept : Option (List α)) : List (List α) :=
  if f.startsMid then
    match kept with
    | some pre => joined (some pre) f.pieces
    | none => f.pieces.tail
  else
    f.pieces

def delivered (f : Frame α) (kept : Option (List α)) : List (List α) :=
  if f.endsMid then (f.usable kept).dropLast else f.usable kept

def keeps (f : Frame α) (kept : Option (List α)) : Option (List α) :=
  if f.endsMid then (f.usable kept).getLast? else none

variable {f : Frame α} {opened : Option (List α)}

section

variable (fits : f.startsMid = opened.isSome)
include fits

theorem usable_kept : f.usable opened = joined opened f.pieces := by
  unfold usable
  cases opened with
  | none => simp [fits]
  | some pre => simp [fits]

theorem delivered_kept : f.delivered opened = f.ended opened := by
  rw [delivered, usable_kept fits]
  rfl

theorem keeps_kept : f.keeps opened = f.left opened := by
  rw [keeps, usable_kept fits]
  rfl

theorem usable_missed :
    f.usable none = joined opened f.pieces ∨ f.usable none = (joined opened f.pieces).tail := by
  unfold usable
  cases opened with
  | none => exact .inl (by simp [fits])
  | some pre => exact .inr (by cases f.pieces <;> simp [fits, joined])

/-- A receiver that missed what is open delivers nothing but items that end. -/
theorem delivered_missed : f.delivered none ⊆ f.ended opened := by
  unfold delivered ended Framing.ended
  rcases usable_missed fits with all | later
  · rw [all]
    exact Subset.refl _
  · rw [later]
    cases joined opened f.pieces with
    | nil => simp
    | cons p ps =>
      rw [tail_cons]
      split
      · cases ps with
        | nil => simp
        | cons q qs =>
          rw [dropLast_cons_of_ne_nil (cons_ne_nil q qs)]
          exact subset_cons_self _ _
      · exact subset_cons_self _ _

theorem keeps_missed : f.keeps none = none ∨ f.keeps none = f.left opened := by
  unfold keeps left Framing.left
  rcases usable_missed fits with all | later
  · rw [all]
    exact .inr rfl
  · rw [later]
    cases joined opened f.pieces with
    | nil => simp
    | cons p ps =>
      cases ps with
      | nil => simp
      | cons q qs => exact .inr rfl

/-- **A receiver.** Whether it keeps what is open or has missed it, it delivers
nothing but items that end, and keeps nothing but what is open then. -/
theorem sound {kept : Option (List α)} (keeps : kept = none ∨ kept = opened) :
    f.delivered kept ⊆ f.ended opened ∧ (f.keeps kept = none ∨ f.keeps kept = f.left opened) := by
  rcases keeps with rfl | rfl
  · exact ⟨delivered_missed fits, keeps_missed fits⟩
  · rw [delivered_kept fits, keeps_kept fits]
    exact ⟨Subset.refl _, .inr rfl⟩

end

end Frame

/-- What is open after some frames. -/
def openAfter (opened : Option (List α)) (frames : List (Frame α)) : Option (List α) :=
  frames.foldl (fun opened f => f.left opened) opened

/-- The items that end in some frames. -/
def items : Option (List α) → List (Frame α) → List (List α)
  | _, [] => []
  | opened, f :: frames => f.ended opened ++ items (f.left opened) frames

/-- Each frame goes on with an item exactly when the ones before leave one open. -/
def InOrder : Option (List α) → List (Frame α) → Prop
  | _, [] => True
  | opened, f :: frames => f.startsMid = opened.isSome ∧ InOrder (f.left opened) frames

variable {opened : Option (List α)} {frames : List (Frame α)} {f : Frame α}

theorem openAfter_concat : openAfter opened (frames ++ [f]) = f.left (openAfter opened frames) := by
  simp [openAfter]

theorem items_concat :
    items opened (frames ++ [f]) = items opened frames ++ f.ended (openAfter opened frames) := by
  induction frames generalizing opened with
  | nil => simp [items, openAfter]
  | cons g frames ih => simp [items, ih, openAfter]

theorem Frame.flatten_eq (opened : Option (List α)) (some_ : f.pieces ≠ []) :
    (f.ended opened).flatten ++ (f.left opened).getD [] = opened.getD [] ++ f.pieces.flatten := by
  obtain ⟨p, ps, pieces⟩ := exists_cons_of_ne_nil some_
  have all : (joined opened f.pieces).flatten = opened.getD [] ++ f.pieces.flatten := by
    simp [pieces, joined_cons]
  have more : joined opened f.pieces ≠ [] := by simp [pieces, joined_cons]
  rw [← all]
  unfold Frame.ended Frame.left Framing.ended Framing.left
  cases f.endsMid with
  | false => simp
  | true =>
    have split := congrArg List.flatten (dropLast_append_getLast more)
    rw [flatten_append, flatten_singleton] at split
    simpa [getLast?_eq_some_getLast more] using split

/-- **Nothing is lost.** The items of a stream are its pieces put together. -/
theorem items_flatten (some_ : ∀ f ∈ frames, f.pieces ≠ []) :
    (items opened frames).flatten ++ (openAfter opened frames).getD [] =
      opened.getD [] ++ (frames.map fun f => f.pieces.flatten).flatten := by
  induction frames generalizing opened with
  | nil => simp [items, openAfter]
  | cons g frames ih =>
    have later : (items (g.left opened) frames).flatten ++
        (openAfter (g.left opened) frames).getD [] =
          (g.left opened).getD [] ++ (frames.map fun f => f.pieces.flatten).flatten :=
      ih fun f mem => some_ f (mem_cons_of_mem _ mem)
    have here := g.flatten_eq opened (some_ g (mem_cons_self ..))
    calc (items opened (g :: frames)).flatten ++ (openAfter opened (g :: frames)).getD []
        = (g.ended opened).flatten ++ ((items (g.left opened) frames).flatten ++
              (openAfter (g.left opened) frames).getD []) := by simp [items, openAfter]
      _ = ((g.ended opened).flatten ++ (g.left opened).getD []) ++
            (frames.map fun f => f.pieces.flatten).flatten := by simp [later]
      _ = opened.getD [] ++ ((g :: frames).map fun f => f.pieces.flatten).flatten := by simp [here]

theorem inOrder_concat : InOrder opened (frames ++ [f]) ↔
    InOrder opened frames ∧ f.startsMid = (openAfter opened frames).isSome := by
  induction frames generalizing opened with
  | nil => simp [InOrder, openAfter]
  | cons g frames ih => simp [InOrder, ih, openAfter, and_assoc]

theorem openAfter_take_succ {k : Nat} (at_ : frames[k]? = some f) :
    openAfter opened (frames.take (k + 1)) = f.left (openAfter opened (frames.take k)) := by
  simp [take_add_one, at_, openAfter_concat]

theorem InOrder.startsMid {k : Nat} (order : InOrder opened frames) (at_ : frames[k]? = some f) :
    f.startsMid = (openAfter opened (frames.take k)).isSome := by
  induction frames generalizing opened k with
  | nil => simp at at_
  | cons g frames ih =>
    cases k with
    | zero =>
      obtain rfl : g = f := by simpa using at_
      exact order.1
    | succ k => exact ih order.2 at_

theorem ended_subset_items {k : Nat} (at_ : frames[k]? = some f) :
    f.ended (openAfter opened (frames.take k)) ⊆ items opened frames := by
  induction frames generalizing opened k with
  | nil => simp at at_
  | cons g frames ih =>
    cases k with
    | zero =>
      obtain rfl : g = f := by simpa using at_
      exact subset_append_left _ _
    | succ k => exact subset_append_of_subset_right _ (ih at_)

theorem items_take_initial (frames : List (Frame α)) (k : Nat) :
    items opened (frames.take k) <+: items opened frames := by
  induction frames generalizing opened k with
  | nil => simp
  | cons g frames ih =>
    cases k with
    | zero => exact nil_prefix
    | succ k =>
      rw [take_succ_cons]
      exact prefix_append_right_inj _ |>.mpr (ih k)

end Framing
