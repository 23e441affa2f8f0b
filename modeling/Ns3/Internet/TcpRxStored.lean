import Ns3.Internet.TcpRxBuffer
import Ns3.Library.Intervals

/-!
# The buffer's loops on parts of a stream

Buffered packets are intervals of the stream. As long as all places that are
compared lie within half the sequence space, each loop works on the places as
it does on the sequence numbers.
-/

namespace Ns3.Internet

open SequenceNumber32 NatInterval List Serial TcpRxBuffer

/-! ## Comparisons -/

section Comparisons

variable {x y : Nat}

theorem gt_iff (near : Near (2 ^ 31) x y) :
    (of x : SequenceNumber32).Gt (.of y) ↔ y < x := of_gt_of near

theorem eq_iff (near : x < y + 2 ^ 32) (near' : y < x + 2 ^ 32) :
    (of x : SequenceNumber32) = .of y ↔ x = y := of_eq_of near near'

theorem le_iff (near : Near (2 ^ 31) x y) : Le (of x : SequenceNumber32) (.of y) ↔ x ≤ y := by
  simp [Le, gt_iff near]

theorem ge_iff (near : Near (2 ^ 31) x y) : Ge (of x : SequenceNumber32) (.of y) ↔ y ≤ x := by
  obtain ⟨low, high⟩ := near
  rw [Ge, gt_iff ⟨low, high⟩, eq_iff (by omega) (by omega)]
  omega

theorem lt_iff (near : Near (2 ^ 31) x y) : Lt (of x : SequenceNumber32) (.of y) ↔ x < y := by
  obtain ⟨low, high⟩ := near
  rw [Lt, gt_iff ⟨low, high⟩, ne_eq, eq_iff (by omega) (by omega)]
  omega

end Comparisons

/-! ## Bytes of the stream -/

section Bytes

variable (stream : Stream)

theorem Stream.bytes_length (place length : Nat) : (stream.bytes place length).length = length := by
  simp [bytes]

theorem Stream.bytes_append (place m n : Nat) :
    stream.bytes place m ++ stream.bytes (place + m) n = stream.bytes place (m + n) := by
  unfold bytes
  simp [← map_append]

theorem Stream.bytes_eq_nil {place length : Nat} : stream.bytes place length = [] ↔ length = 0 := by
  simp [bytes]

theorem sub32_eq {a b : Nat} (le : b ≤ a) (small : a < 2 ^ 32) : sub32 a b = a - b := by
  unfold sub32
  rw [Nat.mod_eq_of_lt (by omega : b < 2 ^ 32), show a + 2 ^ 32 - b = a - b + 2 ^ 32 by omega,
    Nat.add_mod_right, Nat.mod_eq_of_lt (by omega)]

theorem add32_eq {a b : Nat} (small : a + b < 2 ^ 32) : add32 a b = a + b := Nat.mod_eq_of_lt small

theorem createFragment_bytes {place length start n : Nat} (inside : start + n ≤ length)
    (small : length < 2 ^ 32) :
    createFragment (stream.bytes place length) start n = stream.bytes (place + start) n := by
  have rest : (stream.bytes place length).drop start =
      stream.bytes (place + start) (length - start) := by
    unfold Stream.bytes
    rw [← map_drop, drop_range']
    simp
  have front : (stream.bytes (place + start) (length - start)).take n =
      stream.bytes (place + start) n := by
    unfold Stream.bytes
    rw [← map_take, take_range'_of_length_ge (by omega)]
  rw [createFragment, rest, stream.bytes_length, stream.bytes_length, add32_eq (by omega),
    sub32_eq inside small,
    show length - start - (length - (start + n)) = n by omega]
  exact front

/-- The packets that hold these parts of the stream. -/
def Stream.stored (xs : List NatInterval) : Segments :=
  xs.map fun x => (.of x.start, stream.bytes x.start x.length)

@[simp]
theorem Stream.stored_nil : stream.stored [] = [] := rfl

@[simp]
theorem Stream.stored_cons (x : NatInterval) (xs : List NatInterval) :
    stream.stored (x :: xs) = (.of x.start, stream.bytes x.start x.length) :: stream.stored xs :=
  rfl

@[simp]
theorem Stream.stored_append (xs ys : List NatInterval) :
    stream.stored (xs ++ ys) = stream.stored xs ++ stream.stored ys := map_append

end Bytes

/-- All places lie within half the sequence space from `low`. -/
def Within (low : Nat) (xs : List NatInterval) : Prop :=
  ∀ x ∈ xs, low ≤ x.start ∧ x.stop < low + 2 ^ 31

section Loops

variable {stream : Stream} {low : Nat} {xs : List NatInterval}

theorem Within.near {n : Nat} (within : Within low xs) {x : NatInterval} (mem : x ∈ xs)
    (here : low ≤ n ∧ n < low + 2 ^ 31) :
    Near (2 ^ 31) x.start n ∧ Near (2 ^ 31) x.stop n := by
  have bounds := within x mem
  have le : x.start ≤ x.stop := Nat.le_add_right _ _
  exact ⟨⟨by omega, by omega⟩, ⟨by omega, by omega⟩⟩

theorem Within.tail {x : NatInterval} (within : Within low (x :: xs)) : Within low xs :=
  fun y mem => within y (mem_cons_of_mem _ mem)

theorem removeOverlap_stored (stream : Stream) (within : Within low xs) (c head tail : Nat)
    (small : c + total xs < 2 ^ 32) (head_near : low ≤ head ∧ head < low + 2 ^ 31)
    (tail_near : low ≤ tail ∧ tail < low + 2 ^ 31) :
    removeOverlap (stream.stored xs) (c + total xs) (.of head) (.of tail) =
      ⟨stream.stored (cut xs head tail).1, c + total (cut xs head tail).1,
        .of (cut xs head tail).2.1, .of (cut xs head tail).2.2⟩ := by
  induction xs generalizing c head tail with
  | nil => rfl
  | cons x xs ih =>
    have x_bounds := within x mem_cons_self
    have x_le : x.start ≤ x.stop := Nat.le_add_right _ _
    have near_head := within.near mem_cons_self head_near
    have near_tail := within.near mem_cons_self tail_near
    have last : (of x.start : SequenceNumber32).add (stream.bytes x.start x.length).length =
        .of x.stop := by
      rw [stream.bytes_length, of_add]
      rfl
    rw [total_cons] at small
    have regroup : c + (x.length + total xs) = c + x.length + total xs := (add_assoc _ _ _).symm
    by_cases before : tail < x.start
    · rw [stream.stored_cons, removeOverlap, cut_of_before before, if_pos]
      · rfl
      · rw [le_iff near_tail.1]
        omega
    have starts : ¬ ¬ Le (of x.start : SequenceNumber32) (.of tail) := by
      rw [le_iff near_tail.1]
      omega
    rw [stream.stored_cons, removeOverlap, if_neg starts, cut, if_neg before]
    simp only [last]
    by_cases overlaps : head < x.stop
    · rw [if_pos ((gt_iff near_head.2).2 overlaps), if_pos overlaps]
      simp only [gt_iff near_head.1, lt_iff near_tail.2, le_iff near_head.1, ge_iff near_tail.2]
      by_cases covered : head < x.start ∧ x.stop < tail
      · rw [if_pos covered, if_pos covered, total_cons, stream.bytes_length,
          sub32_eq (by omega) small,
          show c + (x.length + total xs) - x.length = c + total xs by omega]
        exact ih within.tail c head tail (by omega) head_near tail_near
      · have next := ih within.tail (c + x.length) (if x.start ≤ head then x.stop else head)
          (if tail ≤ x.stop then x.start else tail) (by omega)
          (by split <;> omega) (by split <;> omega)
        rw [apply_ite (of : Nat → SequenceNumber32),
          apply_ite (of : Nat → SequenceNumber32)] at next
        rw [if_neg covered, if_neg covered, total_cons, regroup, next]
        simp [add_assoc]
    · have passed : ¬ (of x.stop : SequenceNumber32).Gt (.of head) := by
        rw [gt_iff near_head.2]
        exact overlaps
      have next := ih within.tail (c + x.length) head tail (by omega) head_near tail_near
      rw [if_neg passed, if_neg overlaps, total_cons, regroup, next]
      simp [add_assoc]

/-- Nothing is removed when the segment is trimmed to no bytes, wherever it is. -/
theorem removeOverlap_point (stream : Stream) (within : Within low xs) (sorted : Sorted xs)
    (filled : Filled xs) (size : Nat) (seq : SequenceNumber32) :
    ∃ headSeq tailSeq, Ge headSeq tailSeq ∧ removeOverlap (stream.stored xs) size seq seq =
        ⟨stream.stored xs, size, headSeq, tailSeq⟩ := by
  induction xs with
  | nil => exact ⟨seq, seq, .inr rfl, rfl⟩
  | cons x xs ih =>
    have last : (of x.start : SequenceNumber32).add (stream.bytes x.start x.length).length =
        .of x.stop := by
      rw [stream.bytes_length, of_add]
      rfl
    have x_bounds := within x mem_cons_self
    have x_filled := filled.stop_pos mem_cons_self
    rw [stream.stored_cons, removeOverlap]
    simp only [last]
    by_cases starts : Le (.of x.start) seq
    case neg =>
      rw [if_pos starts]
      exact ⟨seq, seq, .inr rfl, rfl⟩
    rw [if_neg (not_not.2 starts)]
    by_cases overlaps : (of x.stop : SequenceNumber32).Gt seq
    · have not_covered : ¬ ((of x.start : SequenceNumber32).Gt seq ∧
          Lt (.of x.stop) seq) := fun covered => starts covered.1
      have ends : Ge (.of x.stop) seq := .inl overlaps
      rw [if_pos overlaps, if_neg not_covered, if_pos starts, if_pos ends]
      have x_near : low ≤ x.start ∧ x.start < low + 2 ^ 31 := ⟨x_bounds.1, by omega⟩
      have stops : removeOverlap (stream.stored xs) size (.of x.stop) (.of x.start) =
          ⟨stream.stored xs, size, .of x.stop, .of x.start⟩ := by
        cases xs with
        | nil => rfl
        | cons y ys =>
          have later := (pairwise_cons.1 sorted).1 y mem_cons_self
          have near := within.tail.near mem_cons_self x_near
          rw [stream.stored_cons, removeOverlap, if_pos]
          rw [le_iff near.1]
          omega
      rw [stops]
      refine ⟨_, _, ?_, rfl⟩
      rw [ge_iff (within.near mem_cons_self x_near).2]
      exact le_of_lt x_filled
    · obtain ⟨headSeq, tailSeq, ge, eq⟩ := ih within.tail (pairwise_cons.1 sorted).2
        fun y mem => filled y (mem_cons_of_mem _ mem)
      rw [if_neg overlaps, eq]
      exact ⟨headSeq, tailSeq, ge, rfl⟩

/-- The map has its entries in the order of the places. -/
theorem assign_stored (stream : Stream) (pre post : List NatInterval) {n : Nat} (p : List UInt8)
    (within : Within low (pre ++ post)) (here : low ≤ n ∧ n < low + 2 ^ 31)
    (before : ∀ x ∈ pre, x.start < n) (after : ∀ x ∈ post, n < x.start) :
    Segments.assign (.of n) p (stream.stored (pre ++ post)) =
      stream.stored pre ++ (.of n, p) :: stream.stored post := by
  induction pre with
  | nil =>
    cases post with
    | nil => rfl
    | cons x xs =>
      have near := (within.near mem_cons_self here).1
      rw [nil_append, stream.stored_cons, Segments.assign, if_pos]
      · rfl
      · rw [lt_iff near.symm]
        exact after x mem_cons_self
  | cons x xs ih =>
    have near := (within.near mem_cons_self here).1
    have x_before := before x mem_cons_self
    rw [cons_append, stream.stored_cons, Segments.assign, if_neg, if_pos,
      ih within.tail fun y mem => before y (mem_cons_of_mem _ mem)]
    · rfl
    · rw [lt_iff near]
      exact x_before
    · rw [lt_iff near.symm]
      omega

/-! ## What `Add` does after the packet is in the map -/

theorem advance_before {pre : List NatInterval} {b : TcpRxBuffer} {n : Nat} (rest : Segments)
    (within : Within low pre) (here : low ≤ n ∧ n < low + 2 ^ 31) (next : b.nextRxSeq = .of n)
    (before : ∀ x ∈ pre, x.start < n) :
    advance (stream.stored pre ++ rest) b = advance rest b := by
  induction pre with
  | nil => rfl
  | cons x xs ih =>
    have near := (within.near mem_cons_self here).1
    rw [stream.stored_cons, cons_append, advance, if_pos,
      ih within.tail fun y mem => before y (mem_cons_of_mem _ mem)]
    rw [next, lt_iff near]
    exact before x mem_cons_self

theorem advance_chain {run : List NatInterval} {b : TcpRxBuffer} {n m : Nat} (rest : Segments)
    (chain : Chain n run m) (next : b.nextRxSeq = .of n)
    (small : b.availBytes + total run < 2 ^ 32) :
    ∃ sackList, advance (stream.stored run ++ rest) b =
      advance rest
        { b with nextRxSeq := .of m, availBytes := b.availBytes + total run, sackList } := by
  induction run generalizing b n with
  | nil =>
    obtain rfl : n = m := chain
    refine ⟨b.sackList, ?_⟩
    rw [← next]
    rfl
  | cons x xs ih =>
    obtain ⟨rfl, chain⟩ := chain
    rw [total_cons] at small
    have not_gt : ¬ (of x.start : SequenceNumber32).Gt (.of x.start) := by simp [Gt]
    have not_lt : ¬ Lt (of x.start : SequenceNumber32) (.of x.start) := fun lt => lt.2 rfl
    have last : (of x.start : SequenceNumber32).add (stream.bytes x.start x.length).length =
        .of x.stop := by
      rw [stream.bytes_length, of_add]
      rfl
    have avail : add32 b.availBytes (stream.bytes x.start x.length).length =
        b.availBytes + x.length := by rw [stream.bytes_length, add32_eq (by omega)]
    rw [stream.stored_cons, cons_append, advance, next, if_neg not_lt, if_neg not_gt, last, avail]
    let moved := { b with
      nextRxSeq := of x.stop
      availBytes := b.availBytes + x.length
      sackList := clearSackList (.of x.stop) b.sackList }
    have moved_small : moved.availBytes + total xs < 2 ^ 32 := by
      rw [add_assoc]
      exact small
    obtain ⟨sackList, eq⟩ := ih (b := moved) chain rfl moved_small
    refine ⟨sackList, ?_⟩
    rw [total_cons, ← add_assoc]
    exact eq

theorem advance_after {post : List NatInterval} {b : TcpRxBuffer} {n : Nat}
    (within : Within low post) (here : low ≤ n ∧ n < low + 2 ^ 31) (next : b.nextRxSeq = .of n)
    (after : ∀ x ∈ post, n < x.start) : advance (stream.stored post) b = b := by
  cases post with
  | nil => rfl
  | cons x xs =>
    have near := (within.near mem_cons_self here).1
    have x_after := after x mem_cons_self
    rw [stream.stored_cons, advance, next, if_neg, if_pos]
    · rw [gt_iff near]
      exact x_after
    · rw [lt_iff near]
      omega

end Loops

end Ns3.Internet
