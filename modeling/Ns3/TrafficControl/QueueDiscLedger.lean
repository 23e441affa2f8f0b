import Mathlib
import Ns3.TrafficControl.QueueDiscTree

/-!
# Where the packets of a queue disc are

Every packet that a disc is given is dropped before it is enqueued, or it
stays in the disc until it is dropped after it was dequeued or is returned.
The traces of the disc tell so, and its statistics count them.
-/

namespace Ns3.TrafficControl.Tree

open List UInt32 Counter

/-! ## What traces tell -/

def enqueued (traces : List Trace) : List TxItem :=
  traces.filterMap fun | .enqueue item => some item | _ => none

def dequeued (traces : List Trace) : List TxItem :=
  traces.filterMap fun | .dequeue item => some item | _ => none

def droppedBefore (traces : List Trace) : List TxItem :=
  traces.filterMap fun | .dropBeforeEnqueue item => some item | _ => none

def droppedAfter (traces : List Trace) : List TxItem :=
  traces.filterMap fun | .dropAfterDequeue item => some item | _ => none

section
variable (traces more : List Trace)

@[simp] theorem enqueued_append : enqueued (traces ++ more) = enqueued traces ++ enqueued more :=
  filterMap_append

@[simp] theorem dequeued_append : dequeued (traces ++ more) = dequeued traces ++ dequeued more :=
  filterMap_append

@[simp] theorem droppedBefore_append :
    droppedBefore (traces ++ more) = droppedBefore traces ++ droppedBefore more :=
  filterMap_append

@[simp] theorem droppedAfter_append :
    droppedAfter (traces ++ more) = droppedAfter traces ++ droppedAfter more :=
  filterMap_append

end

/-- Packets move into a disc and out of it. A disc that is muted has not yet told of those that
it gives out. -/
structure Moves (muted : Bool) (before after : List TxItem) (traces : List Trace)
    (entered left : List TxItem) : Prop where
  kept : (before ++ enqueued traces).Perm (after ++ droppedAfter traces ++ left)
  entered : (enqueued traces ++ droppedBefore traces).Perm entered
  told : (dequeued traces).Perm (droppedAfter traces ++ if muted then [] else left)

namespace Moves

variable {muted : Bool} {before mid after entered left : List TxItem} {traces : List Trace}

theorem refl (muted : Bool) (items : List TxItem) : Moves muted items items [] [] [] := by
  constructor
  · exact .of_eq (by simp [enqueued, droppedAfter])
  · exact .refl _
  · cases muted <;> exact .refl _

theorem trans {more : List Trace} {entered' left' : List TxItem}
    (first : Moves muted before mid traces entered left)
    (next : Moves muted mid after more entered' left') :
    Moves muted before after (traces ++ more) (entered ++ entered') (left ++ left') := by
  have kept := first.kept
  have kept' := next.kept
  have came := first.entered
  have came' := next.entered
  have told := first.told
  have told' := next.told
  constructor
  · rw [perm_iff_count] at kept kept' ⊢
    intro item
    have := kept item
    have := kept' item
    simp only [enqueued_append, droppedAfter_append, count_append] at *
    omega
  · rw [perm_iff_count] at came came' ⊢
    intro item
    have := came item
    have := came' item
    simp only [enqueued_append, droppedBefore_append, count_append] at *
    omega
  · rw [perm_iff_count] at told told' ⊢
    intro item
    have := told item
    have := told' item
    cases muted <;>
      simp only [dequeued_append, droppedAfter_append, count_append, if_true, if_false,
        Bool.false_eq_true, count_nil] at * <;>
      omega

/-- What is beside the packets that move does not matter. -/
theorem frame (moves : Moves muted before after traces entered left) (beside : List TxItem) :
    Moves muted (before ++ beside) (after ++ beside) traces entered left := by
  constructor
  · have kept := moves.kept
    rw [perm_iff_count] at kept ⊢
    intro item
    have := kept item
    simp only [count_append] at *
    omega
  · exact moves.entered
  · exact moves.told

theorem congr {before' after' : List TxItem}
    (moves : Moves muted before after traces entered left) (first : before.Perm before')
    (last : after.Perm after') : Moves muted before' after' traces entered left := by
  constructor
  · exact ((first.symm.append_right _).trans moves.kept).trans
      ((last.append_right _).append_right _)
  · exact moves.entered
  · exact moves.told

end Moves

/-! ## What the base class counts -/

def totalSize (items : List TxItem) : Nat := (items.map (·.size)).sum

def Counter.of (items : List TxItem) : Counter :=
  ⟨ofNat items.length, UInt64.ofNat (totalSize items)⟩

theorem totalSize_append (items more : List TxItem) :
    totalSize (items ++ more) = totalSize items + totalSize more := by
  unfold totalSize
  rw [map_append, sum_append]

theorem totalSize_singleton (item : TxItem) : totalSize [item] = item.size := by simp [totalSize]

theorem totalSize_perm {items more : List TxItem} (perm : items.Perm more) :
    totalSize items = totalSize more :=
  (perm.map _).sum_nat

theorem Counter.of_snoc (items : List TxItem) (item : TxItem) :
    of (items ++ [item]) = (of items).add item := by
  unfold of add
  rw [length_append, totalSize_append, totalSize_singleton, length_singleton,
    ofNat_add, UInt64.ofNat_add]
  rfl

theorem Counter.of_perm {items more : List TxItem} (perm : items.Perm more) :
    of items = of more := by
  unfold of
  rw [perm.length_eq, totalSize_perm perm]

/-- The statistics of a disc count the traces that it fired. -/
structure Accounts (b : Base) (traces : List Trace) : Prop where
  nPackets : b.nPackets + ofNat (dequeued traces).length = ofNat (enqueued traces).length
  nBytes : b.nBytes + ofNat (totalSize (dequeued traces)) = ofNat (totalSize (enqueued traces))
  nTotalEnqueued : b.stats.nTotalEnqueued = .of (enqueued traces)
  nTotalDequeued : b.stats.nTotalDequeued = .of (dequeued traces)
  nTotalDroppedBeforeEnqueue : b.stats.nTotalDroppedBeforeEnqueue = .of (droppedBefore traces)
  nTotalDroppedAfterDequeue : b.stats.nTotalDroppedAfterDequeue = .of (droppedAfter traces)

/-- The callbacks count what they fire, and leave the packet that is held alone. -/
structure Follows (b b' : Base) (traces : List Trace) : Prop where
  requeued : b'.requeued = b.requeued
  peeked : b'.peeked = b.peeked
  accounts : ∀ log, Accounts b log → Accounts b' (log ++ traces)

theorem Follows.refl (b : Base) : Follows b b [] := by
  refine ⟨rfl, rfl, fun log accounts => ?_⟩
  rw [append_nil]
  exact accounts

theorem Follows.trans {b b' b'' : Base} {traces more : List Trace} (first : Follows b b' traces)
    (next : Follows b' b'' more) : Follows b b'' (traces ++ more) := by
  refine ⟨next.requeued.trans first.requeued, next.peeked.trans first.peeked, ?_⟩
  intro log accounts
  rw [← append_assoc]
  exact next.accounts _ (first.accounts log accounts)

theorem Accounts.snoc {b b' : Base} {log : List Trace} {trace : Trace} (accounts : Accounts b log)
    (nPackets : b'.nPackets + ofNat (dequeued [trace]).length =
      b.nPackets + ofNat (enqueued [trace]).length)
    (nBytes : b'.nBytes + ofNat (totalSize (dequeued [trace])) =
      b.nBytes + ofNat (totalSize (enqueued [trace])))
    (nTotalEnqueued : b'.stats.nTotalEnqueued =
      (enqueued [trace]).foldl .add b.stats.nTotalEnqueued)
    (nTotalDequeued : b'.stats.nTotalDequeued =
      (dequeued [trace]).foldl .add b.stats.nTotalDequeued)
    (nTotalDroppedBeforeEnqueue : b'.stats.nTotalDroppedBeforeEnqueue =
      (droppedBefore [trace]).foldl .add b.stats.nTotalDroppedBeforeEnqueue)
    (nTotalDroppedAfterDequeue : b'.stats.nTotalDroppedAfterDequeue =
      (droppedAfter [trace]).foldl .add b.stats.nTotalDroppedAfterDequeue) :
    Accounts b' (log ++ [trace]) := by
  have of_append (items more : List TxItem) : of (items ++ more) = more.foldl .add (of items) := by
    induction more generalizing items with
    | nil => rw [append_nil, foldl_nil]
    | cons item more ih =>
      simp [← of_snoc, ← ih]
  constructor
  · have := accounts.nPackets
    rw [dequeued_append, enqueued_append, length_append, length_append, ofNat_add, ofNat_add]
    grind
  · have := accounts.nBytes
    rw [dequeued_append, enqueued_append, totalSize_append, totalSize_append, ofNat_add, ofNat_add]
    grind
  · rw [enqueued_append, of_append, ← accounts.nTotalEnqueued]
    exact nTotalEnqueued
  · rw [dequeued_append, of_append, ← accounts.nTotalDequeued]
    exact nTotalDequeued
  · rw [droppedBefore_append, of_append, ← accounts.nTotalDroppedBeforeEnqueue]
    exact nTotalDroppedBeforeEnqueue
  · rw [droppedAfter_append, of_append, ← accounts.nTotalDroppedAfterDequeue]
    exact nTotalDroppedAfterDequeue

theorem Accounts.congr {b b' : Base} {log : List Trace} (accounts : Accounts b log)
    (nPackets : b'.nPackets = b.nPackets) (nBytes : b'.nBytes = b.nBytes)
    (nTotalEnqueued : b'.stats.nTotalEnqueued = b.stats.nTotalEnqueued)
    (nTotalDequeued : b'.stats.nTotalDequeued = b.stats.nTotalDequeued)
    (nTotalDroppedBeforeEnqueue :
      b'.stats.nTotalDroppedBeforeEnqueue = b.stats.nTotalDroppedBeforeEnqueue)
    (nTotalDroppedAfterDequeue :
      b'.stats.nTotalDroppedAfterDequeue = b.stats.nTotalDroppedAfterDequeue) :
    Accounts b' log := by
  obtain ⟨packets, bytes, enq, deq, before, after⟩ := accounts
  exact ⟨nPackets ▸ packets, nBytes ▸ bytes, nTotalEnqueued ▸ enq, nTotalDequeued ▸ deq,
    nTotalDroppedBeforeEnqueue ▸ before, nTotalDroppedAfterDequeue ▸ after⟩

namespace Base

variable (item : TxItem) (b : Base)

theorem packetEnqueued_follows : Follows b (b.packetEnqueued item).1 (b.packetEnqueued item).2 := by
  refine ⟨rfl, rfl, fun log accounts => accounts.snoc ?_ ?_ rfl rfl rfl rfl⟩
  · exact add_zero _
  · show b.nBytes + ofNat item.size + 0 = b.nBytes + ofNat (totalSize [item])
    simp [totalSize_singleton]

theorem packetDequeued_follows : Follows b (b.packetDequeued item).1 (b.packetDequeued item).2 := by
  unfold packetDequeued
  split
  · exact .refl b
  · refine ⟨rfl, rfl, fun log accounts => accounts.snoc ?_ ?_ rfl rfl rfl rfl⟩
    · show b.nPackets - 1 + 1 = b.nPackets + 0
      rw [sub_add_cancel, add_zero]
    · show b.nBytes - ofNat item.size + ofNat (totalSize [item]) = b.nBytes + 0
      simp [totalSize_singleton]

theorem dropBeforeEnqueue_follows :
    Follows b (b.dropBeforeEnqueue item).1 (b.dropBeforeEnqueue item).2 := by
  exact ⟨rfl, rfl, fun log accounts => accounts.snoc rfl rfl rfl rfl rfl rfl⟩

/-- The packet that a muted disc drops is told of as dequeued. -/
theorem dropAfterDequeue_traces : (b.dropAfterDequeue item).2 =
      (if b.peeked then [.dequeue item] else []) ++ [.dropAfterDequeue item] := by
  unfold dropAfterDequeue packetDequeued
  dsimp only
  split <;> rfl

theorem dropAfterDequeue_follows :
    Follows b (b.dropAfterDequeue item).1 (b.dropAfterDequeue item).2 := by
  unfold dropAfterDequeue
  dsimp only
  split
  case isTrue held =>
    refine ⟨rfl, held.symm, fun log accounts => ?_⟩
    have told : Accounts (packetDequeued item { b with peeked := false }).1
        (log ++ [.dequeue item]) :=
      (packetDequeued_follows item { b with peeked := false }).accounts log
        (accounts.congr rfl rfl rfl rfl rfl rfl)
    rw [← append_assoc]
    exact told.snoc rfl rfl rfl rfl rfl rfl
  case isFalse => exact ⟨rfl, rfl, fun log accounts => accounts.snoc rfl rfl rfl rfl rfl rfl⟩

theorem hear_follows (trace : Trace) : Follows b (b.hear trace).1 (b.hear trace).2 := by
  cases trace with
  | enqueue item => exact packetEnqueued_follows item b
  | dequeue item => exact packetDequeued_follows item b
  | dropBeforeEnqueue item => exact dropBeforeEnqueue_follows item b
  | dropAfterDequeue item => exact dropAfterDequeue_follows item b

theorem hearAll_follows (traces : List Trace) :
    Follows b (b.hearAll traces).1 (b.hearAll traces).2 := by
  induction traces generalizing b with
  | nil => exact .refl b
  | cons trace traces ih => exact (hear_follows b trace).trans (ih _)

theorem hear_tells (trace : Trace) : enqueued (b.hear trace).2 = enqueued [trace] ∧
      droppedBefore (b.hear trace).2 = droppedBefore [trace] ∧
      droppedAfter (b.hear trace).2 = droppedAfter [trace] ∧
      dequeued (b.hear trace).2 =
        if b.peeked then droppedAfter [trace] else dequeued [trace] := by
  cases trace with
  | enqueue item => exact ⟨rfl, rfl, rfl, by cases b.peeked <;> rfl⟩
  | dequeue item =>
    simp only [hear, packetDequeued]
    cases b.peeked <;> exact ⟨rfl, rfl, rfl, rfl⟩
  | dropBeforeEnqueue item => exact ⟨rfl, rfl, rfl, by cases b.peeked <;> rfl⟩
  | dropAfterDequeue item =>
    simp only [hear, dropAfterDequeue_traces]
    cases b.peeked <;> exact ⟨rfl, rfl, rfl, rfl⟩

theorem hearAll_tells (traces : List Trace) : enqueued (b.hearAll traces).2 = enqueued traces ∧
      droppedBefore (b.hearAll traces).2 = droppedBefore traces ∧
      droppedAfter (b.hearAll traces).2 = droppedAfter traces ∧
      dequeued (b.hearAll traces).2 =
        if b.peeked then droppedAfter traces else dequeued traces := by
  induction traces generalizing b with
  | nil => exact ⟨rfl, rfl, rfl, by cases b.peeked <;> rfl⟩
  | cons trace traces ih =>
    obtain ⟨enq, before, after, deq⟩ := hear_tells b trace
    obtain ⟨enq', before', after', deq'⟩ := ih (b.hear trace).1
    rw [(hear_follows b trace).peeked] at deq'
    rw [hearAll, ← singleton_append]
    simp only [enqueued_append, droppedBefore_append, droppedAfter_append, dequeued_append,
      enq, enq', before, before', after, after', deq, deq', true_and]
    cases b.peeked <;> rfl

/-- A parent tells of the moves of a child, unless it is muted. -/
theorem hearAll_moves {before after entered left : List TxItem} {traces : List Trace}
    (moves : Moves false before after traces entered left) :
    Moves b.peeked before after (b.hearAll traces).2 entered left := by
  obtain ⟨enq, drop, late, deq⟩ := hearAll_tells b traces
  constructor
  · rw [enq, late]
    exact moves.kept
  · rw [enq, drop]
    exact moves.entered
  · rw [late, deq]
    cases b.peeked with
    | true => exact .of_eq (append_nil _).symm
    | false => exact moves.told

end Base

/-! ## The packets of a node -/

/-- A disc that keeps its packets, as its parent relies on. -/
structure Conserves (d : Disc) where
  stored : d.State → List TxItem
  Valid : d.State → Prop
  enqueue : ∀ plan item s, Valid s → Valid (d.enqueue plan item s).1 ∧
    Moves false (stored s) (stored (d.enqueue plan item s).1) (d.enqueue plan item s).2 [item] []
  dequeue : ∀ plan s, Valid s → Valid (d.dequeue plan s).2.1 ∧
    Moves false (stored s) (stored (d.dequeue plan s).2.1) (d.dequeue plan s).2.2 []
      (d.dequeue plan s).1.toList
  peek : ∀ plan s, Valid s → Valid (d.peek plan s).2.1 ∧
    Moves false (stored s) (stored (d.peek plan s).2.1) (d.peek plan s).2.2 [] []
  dequeueQueue : ∀ i s, Valid s → Valid (d.dequeueQueue i s).2.1 ∧
    Moves false (stored s) (stored (d.dequeueQueue i s).2.1) (d.dequeueQueue i s).2.2 []
      (d.dequeueQueue i s).1.toList

theorem flatMap_set_perm {α : Type} (f : α → List TxItem) {xs : List α} {i : Nat} {x : α}
    (found : xs[i]? = some x) (y : α) :
    ((xs.set i y).flatMap f ++ f x).Perm (xs.flatMap f ++ f y) := by
  rw [perm_iff_count]
  intro item
  induction xs generalizing i with
  | nil => cases found
  | cons z xs ih =>
    cases i with
    | zero =>
      cases found
      simp only [set_cons_zero, flatMap_cons, count_append]
      omega
    | succ i =>
      have rest := ih found
      simp only [set_cons_succ, flatMap_cons, count_append] at rest ⊢
      omega

end Ns3.TrafficControl.Tree
