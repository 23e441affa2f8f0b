import Ns3.Internet.TcpTxBuffer

/-!
# What `TcpTxBuffer::Update` marks

A block that begins after the sent data ends the whole call. Up to it each block
marks the items inside it, as long as no item before them ends after it.
-/

namespace Ns3.Internet

open SequenceNumber32 List

namespace TcpTxItem

/-- Never sacked and lost at once. -/
def Exclusive (item : TcpTxItem) : Prop := ¬ (item.sacked = true ∧ item.lost = true)

theorem Exclusive.sack_eq {item : TcpTxItem} (exclusive : item.Exclusive)
    (sacked : item.sacked = true) : item.sack = item := by
  obtain ⟨startSeq, packet, retrans, lost, flag, lastSent⟩ := item
  obtain rfl : flag = true := sacked
  cases lost with
  | true => exact absurd ⟨rfl, rfl⟩ exclusive
  | false => rfl

@[simp]
theorem sack_size (item : TcpTxItem) : item.sack.size = item.size := rfl

end TcpTxItem

namespace TcpTxBuffer

/-- The bytes of the items with a flag. -/
def bytesOf (flag : TcpTxItem → Bool) (items : List TcpTxItem) : Nat :=
  ((items.filter flag).map TcpTxItem.size).sum

def totalSize (items : List TcpTxItem) : Nat := (items.map TcpTxItem.size).sum

@[simp]
theorem bytesOf_nil (flag : TcpTxItem → Bool) : bytesOf flag [] = 0 := rfl

@[simp]
theorem bytesOf_cons (flag : TcpTxItem → Bool) (item : TcpTxItem) (rest : List TcpTxItem) :
    bytesOf flag (item :: rest) = (if flag item then item.size else 0) + bytesOf flag rest := by
  unfold bytesOf
  cases h : flag item <;> simp [h]

@[simp]
theorem totalSize_nil : totalSize [] = 0 := rfl

@[simp]
theorem totalSize_cons (item : TcpTxItem) (rest : List TcpTxItem) :
    totalSize (item :: rest) = item.size + totalSize rest := by simp [totalSize]

theorem bytesOf_le (flag : TcpTxItem → Bool) (items : List TcpTxItem) :
    bytesOf flag items ≤ totalSize items := by
  induction items with
  | nil => simp
  | cons item rest ih =>
    simp only [bytesOf_cons, totalSize_cons]
    split <;> omega

variable {items rest rest' items' : List TcpTxItem} {hit : Nat → Bool} {s l n i lostOut : Nat}
  {m : Marking} {item : TcpTxItem} {b : TcpTxBuffer}

theorem exclusive_le (exclusive : ∀ item ∈ items, item.Exclusive) :
    bytesOf TcpTxItem.sacked items + bytesOf TcpTxItem.lost items ≤ totalSize items := by
  induction items with
  | nil => simp
  | cons item rest ih =>
    have apart := exclusive item mem_cons_self
    have rest_ := ih fun other mem => exclusive other (mem_cons_of_mem item mem)
    unfold TcpTxItem.Exclusive at apart
    cases sacked : item.sacked <;> cases lost : item.lost <;> simp [sacked, lost] at apart ⊢ <;> omega

/-! ## Where the items lie -/

/-- The sequence numbers of the items of these sizes, from `first` on. -/
def spans : SequenceNumber32 → List Nat → List SackBlock
  | _, [] => []
  | first, size :: rest => (first, first.add size) :: spans (first.add size) rest

/-- The `i`-th item is wholly inside the block. -/
def Covers (block : SackBlock) (spans : List SackBlock) (i : Nat) : Prop :=
  ∃ span ∈ spans[i]?, Inside span block

/-- It is, and no item before it ends after the block. -/
def Hits (block : SackBlock) (spans : List SackBlock) (i : Nat) : Prop :=
  Covers block spans i ∧ ∀ span ∈ spans.take i, Le span.2 block.2

instance (block : SackBlock) (spans : List SackBlock) (i : Nat) :
    Decidable (Covers block spans i) :=
  inferInstanceAs (Decidable (∃ span ∈ spans[i]?, Inside span block))

instance (block : SackBlock) (spans : List SackBlock) (i : Nat) : Decidable (Hits block spans i) :=
  inferInstanceAs (Decidable (_ ∧ ∀ span ∈ spans.take i, Le span.2 block.2))

@[simp]
theorem covers_zero (block span : SackBlock) (spans : List SackBlock) :
    Covers block (span :: spans) 0 ↔ Inside span block := by simp [Covers]

@[simp]
theorem covers_succ (block span : SackBlock) (spans : List SackBlock) (i : Nat) :
    Covers block (span :: spans) (i + 1) ↔ Covers block spans i := by simp [Covers]

@[simp]
theorem hits_zero (block span : SackBlock) (spans : List SackBlock) :
    Hits block (span :: spans) 0 ↔ Inside span block := by simp [Hits]

@[simp]
theorem hits_succ (block span : SackBlock) (spans : List SackBlock) (i : Nat) :
    Hits block (span :: spans) (i + 1) ↔ Le span.2 block.2 ∧ Hits block spans i := by
  simp [Hits, and_left_comm]

/-- The items with those at `hit` sacked. -/
def sackAt (hit : Nat → Bool) (items : List TcpTxItem) : List TcpTxItem :=
  items.mapIdx fun i item => if hit i then item.sack else item

@[simp]
theorem sackAt_nil (hit : Nat → Bool) : sackAt hit [] = [] := rfl

@[simp]
theorem sackAt_cons (hit : Nat → Bool) (item : TcpTxItem) (rest : List TcpTxItem) :
    sackAt hit (item :: rest) =
      (if hit 0 then item.sack else item) :: sackAt (fun i => hit (i + 1)) rest := by
  simp [sackAt, mapIdx_cons]

theorem sackAt_none (items : List TcpTxItem) : sackAt (fun _ => false) items = items := by
  induction items with
  | nil => rfl
  | cons item rest ih => simp [ih]

theorem sackAt_sizes (hit : Nat → Bool) (items : List TcpTxItem) :
    (sackAt hit items).map TcpTxItem.size = items.map TcpTxItem.size := by
  induction items generalizing hit with
  | nil => rfl
  | cons item rest ih =>
    simp only [sackAt_cons, map_cons, ih]
    split <;> rfl

@[simp]
theorem sackAt_length (hit : Nat → Bool) (items : List TcpTxItem) :
    (sackAt hit items).length = items.length := length_mapIdx

theorem sackAt_exclusive (exclusive : ∀ item ∈ items, item.Exclusive) :
    ∀ item ∈ sackAt hit items, item.Exclusive := by
  induction items generalizing hit with
  | nil => simp
  | cons item rest ih =>
    intro other mem
    rw [sackAt_cons, mem_cons] at mem
    rcases mem with rfl | mem
    · split
      · simp [TcpTxItem.Exclusive, TcpTxItem.sack]
      · exact exclusive item mem_cons_self
    · exact ih (fun other mem => exclusive other (mem_cons_of_mem item mem)) other mem

theorem sackAt_sackAt {hit' : Nat → Bool} (items : List TcpTxItem) :
    sackAt hit' (sackAt hit items) = sackAt (fun i => hit i || hit' i) items := by
  induction items generalizing hit hit' with
  | nil => rfl
  | cons item rest ih =>
    simp only [sackAt_cons, ih]
    cases hit 0 <;> cases hit' 0 <;> rfl

/-! ## The scan for one block -/

/-- The iterator is the end of the list or one of its `n` items. -/
def Anchored (n : Nat) (it : Iterator) : Prop := it = .end_ ∨ ∃ i < n, it = .item i

/-- The counters are those of the items, with `s` and `l` bytes sacked and lost before them. -/
structure Counted (s l : Nat) (items : List TcpTxItem) (m : Marking) : Prop where
  sackedOut : m.sackedOut = s + bytesOf TcpTxItem.sacked items
  lostOut : m.lostOut = l + bytesOf TcpTxItem.lost items
  bytesSacked : m.bytesSacked ≤ m.sackedOut
  sackedFits : s + totalSize items < 2 ^ 32
  lostFits : l + totalSize items < 2 ^ 32
  highest : 0 < m.bytesSacked → m.highestSack.1 ≠ .end_

/-- What the scan of `items`, the first of which is the `i`-th, has changed. -/
structure Scanned (s l n : Nat) (items items' : List TcpTxItem) (m m' : Marking) : Prop where
  counted : Counted s l items' m'
  bytes : m'.bytesSacked + bytesOf TcpTxItem.sacked items =
    m.bytesSacked + bytesOf TcpTxItem.sacked items'
  anchored : Anchored n m.highestSack.1 → Anchored n m'.highestSack.1

theorem Scanned.refl (counted : Counted s l items m) : Scanned s l n items items m m :=
  ⟨counted, rfl, id⟩

theorem add32_eq {a c : Nat} (fits : a + c < 2 ^ 32) : add32 a c = a + c := Nat.mod_eq_of_lt fits

theorem sub32_eq {a c : Nat} (le : c ≤ a) (fits : a < 2 ^ 32) : sub32 a c = a - c := by
  unfold sub32
  omega

theorem Scanned.skip
    {m' : Marking} (scanned : Scanned (s + if item.sacked then item.size else 0)
      (l + if item.lost then item.size else 0) n rest rest' m m')
    (sizes : totalSize rest' = totalSize rest) (sackedFits : s + totalSize (item :: rest) < 2 ^ 32)
    (lostFits : l + totalSize (item :: rest) < 2 ^ 32) :
    Scanned s l n (item :: rest) (item :: rest') m m' := by
  obtain ⟨⟨sackedOut, lostOut, le, -, -, highest⟩, bytes, anchored⟩ := scanned
  rw [totalSize_cons] at sackedFits lostFits
  refine ⟨⟨?_, ?_, le, ?_, ?_, highest⟩, ?_, anchored⟩
  · rw [sackedOut, bytesOf_cons, add_assoc]
  · rw [lostOut, bytesOf_cons, add_assoc]
  · rw [totalSize_cons]
    omega
  · rw [totalSize_cons]
    omega
  · simp only [bytesOf_cons]
    omega

theorem Counted.skip (counted : Counted s l (item :: rest) m) :
    Counted (s + if item.sacked then item.size else 0) (l + if item.lost then item.size else 0)
      rest m := by
  obtain ⟨sackedOut, lostOut, le, sackedFits, lostFits, highest⟩ := counted
  rw [bytesOf_cons] at sackedOut lostOut
  rw [totalSize_cons] at sackedFits lostFits
  exact ⟨by omega, by omega, le, by split <;> omega, by split <;> omega, highest⟩

theorem Counted.mark (counted : Counted s l (item :: rest) m) (unsacked : item.sacked = false)
    (i : Nat) (begin_ : SequenceNumber32) :
    Counted (s + item.size) l rest (m.mark i begin_ item) ∧
      (m.mark i begin_ item).bytesSacked = m.bytesSacked + item.size := by
  obtain ⟨sackedOut, lostOut, le, sackedFits, lostFits, highest⟩ := counted
  rw [bytesOf_cons, unsacked, if_neg Bool.false_ne_true] at sackedOut
  rw [bytesOf_cons] at lostOut
  rw [totalSize_cons] at sackedFits lostFits
  have sackedLe := bytesOf_le TcpTxItem.sacked rest
  have lostLe := bytesOf_le TcpTxItem.lost rest
  have sackedSum : add32 m.sackedOut item.size = m.sackedOut + item.size := add32_eq (by omega)
  have bytesSum : add32 m.bytesSacked item.size = m.bytesSacked + item.size := add32_eq (by omega)
  refine ⟨⟨?_, ?_, ?_, by omega, by omega, ?_⟩, bytesSum⟩
  · simp only [Marking.mark]
    omega
  · unfold Marking.mark
    cases lost : item.lost with
    | false => simpa [lost] using lostOut
    | true =>
      simp only [lost, if_true] at lostOut ⊢
      rw [sub32_eq (by omega) (by omega)]
      omega
  · simp only [Marking.mark]
    omega
  · intro _
    simp only [Marking.mark]
    split
    · simp
    · rename_i other
      exact fun same => other (Or.inl same)

theorem mark_anchored (inside : i < n) (begin_ : SequenceNumber32) (item : TcpTxItem)
    (anchored : Anchored n m.highestSack.1) :
    Anchored n (m.mark i begin_ item).highestSack.1 := by
  unfold Marking.mark
  dsimp only
  split
  · exact Or.inr ⟨i, inside, rfl⟩
  · exact anchored

theorem totalSize_sackAt (hit : Nat → Bool) (items : List TcpTxItem) :
    totalSize (sackAt hit items) = totalSize items := by
  unfold totalSize
  rw [sackAt_sizes]

theorem Scanned.mark {begin_ : SequenceNumber32} {m' : Marking}
    (scanned : Scanned (s + item.size) l n rest rest' (m.mark i begin_ item) m')
    (unsacked : item.sacked = false)
    (bytes : (m.mark i begin_ item).bytesSacked = m.bytesSacked + item.size)
    (sizes : totalSize rest' = totalSize rest) (sackedFits : s + totalSize (item :: rest) < 2 ^ 32)
    (lostFits : l + totalSize (item :: rest) < 2 ^ 32)
    (anchored : Anchored n m.highestSack.1 → Anchored n (m.mark i begin_ item).highestSack.1) :
    Scanned s l n (item :: rest) (item.sack :: rest') m m' := by
  obtain ⟨⟨sackedOut, lostOut, le, -, -, highest⟩, bytes', anchored'⟩ := scanned
  rw [totalSize_cons] at sackedFits lostFits
  refine ⟨⟨?_, ?_, le, ?_, ?_, highest⟩, ?_, fun start => anchored' (anchored start)⟩
  · simp only [bytesOf_cons, TcpTxItem.sack_size]
    rw [sackedOut, add_assoc]
    rfl
  · simp only [bytesOf_cons]
    rw [lostOut]
    simp [TcpTxItem.sack]
  · rw [totalSize_cons, TcpTxItem.sack_size]
    omega
  · rw [totalSize_cons, TcpTxItem.sack_size]
    omega
  · have flag : item.sack.sacked = true := rfl
    simp only [bytesOf_cons, TcpTxItem.sack_size, flag, unsacked, if_true, Bool.false_eq_true,
      if_false]
    omega

theorem scanBlock_spec (block : SackBlock) (i : Nat) (begin_ : SequenceNumber32)
    (exclusive : ∀ item ∈ items, item.Exclusive) (counted : Counted s l items m)
    (last : i + items.length ≤ n) :
    ∃ m', scanBlock block i begin_ items m =
        some (sackAt (fun k => Hits block (spans begin_ (items.map TcpTxItem.size)) k) items, m') ∧
      Scanned s l n items
        (sackAt (fun k => Hits block (spans begin_ (items.map TcpTxItem.size)) k) items) m m' := by
  induction items generalizing s l i begin_ m with
  | nil => exact ⟨m, rfl, Scanned.refl counted⟩
  | cons item rest ih =>
    have exclusive' := fun other mem => exclusive other (mem_cons_of_mem item mem)
    have last' : i + 1 + rest.length ≤ n := by
      rw [length_cons] at last
      omega
    have lostFits := counted.lostFits
    have sackedFits := counted.sackedFits
    simp only [map_cons, spans, sackAt_cons, hits_zero, hits_succ, decide_eq_true_eq]
    unfold scanBlock
    by_cases inside : Inside (begin_, begin_.add item.size) block
    · have le : Le (begin_.add item.size) block.2 := inside.2
      rw [if_pos inside, if_pos inside]
      simp only [le, true_and]
      cases sacked : item.sacked with
      | true =>
        have alone : item.lost = false := by
          have := exclusive item mem_cons_self
          simpa [TcpTxItem.Exclusive, sacked] using this
        obtain ⟨m', done, scanned⟩ := ih (i + 1) (begin_.add item.size) exclusive'
          counted.skip last'
        rw [(exclusive item mem_cons_self).sack_eq sacked]
        refine ⟨m', ?_, scanned.skip (totalSize_sackAt _ _) sackedFits lostFits⟩
        simp [alone, done]
      | false =>
        obtain ⟨counted', bytes⟩ := counted.mark sacked i begin_
        obtain ⟨m', done, scanned⟩ := ih (i + 1) (begin_.add item.size) exclusive' counted' last'
        refine ⟨m', by simp [done], scanned.mark sacked bytes (totalSize_sackAt _ _) sackedFits
          lostFits (mark_anchored (by rw [length_cons] at last; omega) begin_ item)⟩
    · rw [if_neg inside, if_neg inside]
      by_cases past : (begin_.add item.size).Gt block.2
      · have stop : ¬ Le (begin_.add item.size) block.2 := fun le => le past
        simp only [stop, false_and, decide_false, sackAt_none, if_pos past]
        exact ⟨m, rfl, Scanned.refl counted⟩
      · have le : Le (begin_.add item.size) block.2 := past
        obtain ⟨m', done, scanned⟩ := ih (i + 1) (begin_.add item.size) exclusive'
          counted.skip last'
        simp only [le, true_and, if_neg past]
        exact ⟨m', by simp [done], scanned.skip (totalSize_sackAt _ _) sackedFits lostFits⟩

/-! ## All blocks -/

/-- The blocks before the first one that begins after the sent data. -/
def scannedBlocks (sentEnd : SequenceNumber32) (list : List SackBlock) : List SackBlock :=
  list.takeWhile fun block => ¬ Lt sentEnd block.1

/-- Some block that is scanned hits the `i`-th item. -/
def Marked (sentEnd : SequenceNumber32) (list spans : List SackBlock) (i : Nat) : Prop :=
  ∃ block ∈ scannedBlocks sentEnd list, Hits block spans i

instance (sentEnd : SequenceNumber32) (list spans : List SackBlock) (i : Nat) :
    Decidable (Marked sentEnd list spans i) :=
  inferInstanceAs (Decidable (∃ block ∈ scannedBlocks sentEnd list, Hits block spans i))

theorem marked_cons {sentEnd : SequenceNumber32} {block : SackBlock} {blocks spans : List SackBlock}
    (within : ¬ Lt sentEnd block.1) :
    Marked sentEnd (block :: blocks) spans i ↔
      Hits block spans i ∨ Marked sentEnd blocks spans i := by
  unfold Marked scannedBlocks
  rw [takeWhile_cons_of_pos (by simpa using within)]
  simp [or_and_right, exists_or]

theorem not_marked {sentEnd : SequenceNumber32} {block : SackBlock} {blocks spans : List SackBlock}
    (beyond : Lt sentEnd block.1) : ¬ Marked sentEnd (block :: blocks) spans i := by
  unfold Marked scannedBlocks
  rw [takeWhile_cons_of_neg (by simpa using beyond)]
  simp

theorem scanBlocks_spec (first : SequenceNumber32) (sentSize : Nat) (list : List SackBlock)
    (exclusive : ∀ item ∈ items, item.Exclusive) (counted : Counted 0 0 items m) :
    ∃ m' all, scanBlocks first sentSize list items m = some (sackAt (fun i =>
        Marked (first.add sentSize) list (spans first (items.map TcpTxItem.size)) i) items, m', all) ∧
      Scanned 0 0 items.length items (sackAt (fun i =>
        Marked (first.add sentSize) list (spans first (items.map TcpTxItem.size)) i) items) m m' := by
  induction list generalizing items m with
  | nil =>
    have none_ : (fun i => decide (Marked (first.add sentSize) []
        (spans first (items.map TcpTxItem.size)) i)) = fun _ => false := by
      simp [Marked, scannedBlocks]
    rw [none_, sackAt_none]
    exact ⟨m, true, rfl, Scanned.refl counted⟩
  | cons block blocks ih =>
    unfold scanBlocks
    by_cases beyond : Lt (first.add sentSize) block.1
    · have none_ : (fun i => decide (Marked (first.add sentSize) (block :: blocks)
          (spans first (items.map TcpTxItem.size)) i)) = fun _ => false := by
        simp [not_marked beyond]
      rw [none_, sackAt_none, if_pos beyond]
      exact ⟨m, false, rfl, Scanned.refl counted⟩
    · obtain ⟨m₁, scanned, one⟩ := scanBlock_spec block 0 first exclusive counted (zero_add _).le
      obtain ⟨m₂, all, rest, others⟩ := ih (sackAt_exclusive exclusive) one.counted
      have both : (fun i => decide (Hits block (spans first (items.map TcpTxItem.size)) i) ||
          decide (Marked (first.add sentSize) blocks (spans first (items.map TcpTxItem.size)) i)) =
          fun i => decide (Marked (first.add sentSize) (block :: blocks)
            (spans first (items.map TcpTxItem.size)) i) := by
        funext i
        simp [marked_cons beyond]
      rw [sackAt_sizes, sackAt_sackAt, both] at rest others
      refine ⟨m₂, all, ?_, others.counted, ?_, ?_⟩
      · rw [if_neg beyond, scanned]
        exact rest
      · have first_ := one.bytes
        have second := others.bytes
        omega
      · intro anchored
        have second := others.anchored
        rw [sackAt_length] at second
        exact second (one.anchored anchored)

/-! ## The lost items -/

/-- Everything of an item but its lost flag. -/
def butLost (item : TcpTxItem) : TcpTxItem := { item with lost := false }

theorem butLost_size (item : TcpTxItem) : (butLost item).size = item.size := rfl

theorem totalSize_of_butLost (same : items'.map butLost = items.map butLost) :
    totalSize items' = totalSize items := by
  have sizes := congrArg (List.map TcpTxItem.size) same
  simp only [map_map, Function.comp_def, butLost_size] at sizes
  unfold totalSize
  rw [sizes]

/-- Items of which some have got lost, after `l` bytes that are. -/
structure Walked (l : Nat) (items items' : List TcpTxItem) (lostOut : Nat) : Prop where
  same : items'.map butLost = items.map butLost
  exclusive : ∀ item ∈ items', item.Exclusive
  counted : lostOut = l + bytesOf TcpTxItem.lost items'

theorem Walked.keep (walked : Walked (l + if item.lost then item.size else 0) rest rest' lostOut)
    (exclusive : item.Exclusive) : Walked l (item :: rest) (item :: rest') lostOut := by
  obtain ⟨same, others, counted⟩ := walked
  refine ⟨by simp [same], ?_, ?_⟩
  · intro other mem
    rcases mem_cons.mp mem with rfl | mem
    · exact exclusive
    · exact others other mem
  · rw [bytesOf_cons, counted]
    omega

theorem Walked.lose (walked : Walked (l + if item.lost then item.size else 0) rest rest' lostOut)
    (unsacked : item.sacked = false) (found : item.lost = false)
    (fits : l + totalSize (item :: rest) < 2 ^ 32) :
    Walked l (item :: rest) ({ item with lost := true } :: rest') (add32 lostOut item.size) := by
  obtain ⟨same, others, counted⟩ := walked
  rw [found, if_neg Bool.false_ne_true] at counted
  have le := bytesOf_le TcpTxItem.lost rest'
  have sizes := totalSize_of_butLost same
  rw [totalSize_cons] at fits
  refine ⟨by simp [same, butLost], ?_, ?_⟩
  · intro other mem
    rcases mem_cons.mp mem with rfl | mem
    · simp [TcpTxItem.Exclusive, unsacked]
    · exact others other mem
  · rw [add32_eq (by omega), bytesOf_cons, counted]
    simp only [if_true, TcpTxItem.size]
    omega

@[simp]
theorem bytesOf_append (flag : TcpTxItem → Bool) (items others : List TcpTxItem) :
    bytesOf flag (items ++ others) = bytesOf flag items + bytesOf flag others := by simp [bytesOf]

@[simp]
theorem totalSize_append (items others : List TcpTxItem) :
    totalSize (items ++ others) = totalSize items + totalSize others := by simp [totalSize]

theorem Walked.append {after : List TcpTxItem}
    (walked : Walked (l + bytesOf TcpTxItem.lost after) items items' lostOut)
    (exclusive : ∀ item ∈ after, item.Exclusive) :
    Walked l (items ++ after) (items' ++ after) lostOut := by
  obtain ⟨same, others, counted⟩ := walked
  refine ⟨by simp [same], ?_, ?_⟩
  · intro other mem
    exact (mem_append.mp mem).elim (others other) (exclusive other)
  · rw [bytesOf_append, counted]
    omega

theorem lostFrom_spec (dupAckThresh lostOut : Nat) (items : List TcpTxItem)
    (exclusive : ∀ item ∈ items, item.Exclusive)
    (counted : lostOut = l + bytesOf TcpTxItem.lost items) (fits : l + totalSize items < 2 ^ 32) :
    Walked l items (lostFrom dupAckThresh lostOut items).1
      (lostFrom dupAckThresh lostOut items).2.2 := by
  induction items generalizing l with
  | nil => exact ⟨rfl, by simp [lostFrom], counted⟩
  | cons item rest ih =>
    have here := exclusive item mem_cons_self
    have walked := ih (l := l + if item.lost then item.size else 0)
      (fun other mem => exclusive other (mem_cons_of_mem item mem))
      (by rw [counted, bytesOf_cons]; omega)
      (by rw [totalSize_cons] at fits; split <;> omega)
    unfold lostFrom
    dsimp only
    generalize lostFrom dupAckThresh lostOut rest = result at *
    generalize (if item.sacked = true then result.2.1 + 1 else result.2.1) = sacked
    by_cases test : dupAckThresh ≤ sacked ∧ (!item.sacked) = true ∧ (!item.lost) = true
    · rw [if_pos test]
      exact walked.lose (by simpa using test.2.1) (by simpa using test.2.2) fits
    · rw [if_neg test]
      exact walked.keep here

/-! ## The sent list -/

/-- The counters are those of the items, and the head is not sacked. -/
structure Scoreboard (b : TcpTxBuffer) : Prop where
  sentSize : b.sentSize = totalSize b.sentList
  fits : b.sentSize < 2 ^ 32
  sackedOut : b.sackedOut = bytesOf TcpTxItem.sacked b.sentList
  lostOut : b.lostOut = bytesOf TcpTxItem.lost b.sentList
  exclusive : ∀ item ∈ b.sentList, item.Exclusive
  head : ∃ head ∈ b.sentList.head?, head.sacked = false
  highest : Anchored b.sentList.length b.highestSack.1

theorem bytesOf_sacked_of_butLost (same : items'.map butLost = items.map butLost) :
    bytesOf TcpTxItem.sacked items' = bytesOf TcpTxItem.sacked items := by
  have flags (items : List TcpTxItem) :
      bytesOf TcpTxItem.sacked (items.map butLost) = bytesOf TcpTxItem.sacked items := by
    induction items with
    | nil => rfl
    | cons item rest ih =>
      rw [map_cons, bytesOf_cons, bytesOf_cons, ih]
      rfl
  rw [← flags items', same, flags]

theorem Walked.scoreboard (walked : Walked 0 b.sentList items lostOut) (board : Scoreboard b) :
    Scoreboard { b with sentList := items, lostOut := lostOut } := by
  obtain ⟨same, exclusive, counted⟩ := walked
  obtain ⟨sentSize, fits, sackedOut, -, -, ⟨head, front, unsacked⟩, highest⟩ := board
  have fronts : items.head?.map butLost = b.sentList.head?.map butLost := by
    rw [← head?_map, same, head?_map]
  have lengths : items.length = b.sentList.length := by simpa using congrArg List.length same
  rw [Option.mem_def.mp front] at fronts
  obtain ⟨head', front', eq⟩ := Option.map_eq_some_iff.mp fronts
  refine ⟨?_, fits, ?_, ?_, exclusive, ⟨head', front', ?_⟩, ?_⟩
  · exact sentSize.trans (totalSize_of_butLost same).symm
  · exact sackedOut.trans (bytesOf_sacked_of_butLost same).symm
  · exact counted.trans (zero_add _)
  · have flag := congrArg TcpTxItem.sacked eq
    exact flag.trans unsacked
  · dsimp only
    rwa [lengths]

/-- What is lost is counted anew, and nothing else changes. -/
theorem updateLostCount_spec (board : Scoreboard b) (set : b.highestSack.1 ≠ .end_) :
    ∃ items lostOut, b.updateLostCount = some { b with sentList := items, lostOut := lostOut } ∧
      Walked 0 b.sentList items lostOut := by
  obtain ⟨i, inside, at_⟩ := board.highest.resolve_left set
  obtain ⟨head, front, unsacked⟩ := board.head
  obtain ⟨rest, list⟩ := head?_eq_some_iff.mp front
  have exclusive := board.exclusive
  have counted := board.lostOut
  have fits := board.fits
  rw [board.sentSize] at fits
  rw [list] at exclusive counted fits ⊢
  have others := fun item mem => exclusive item (mem_cons_of_mem head mem)
  have split := take_append_drop i rest
  have total := congrArg totalSize split
  have lost := congrArg (bytesOf TcpTxItem.lost) split
  rw [totalSize_append] at total
  rw [bytesOf_append] at lost
  rw [bytesOf_cons] at counted
  have headLe := bytesOf_le TcpTxItem.lost (rest.drop i)
  have fits' := fits
  rw [totalSize_cons] at fits'
  have walked := lostFrom_spec b.dupAckThresh b.lostOut (rest.take i)
    (l := (0 + if head.lost then head.size else 0) + bytesOf TcpTxItem.lost (rest.drop i))
    (fun item mem => others item (mem_of_mem_take mem)) (by omega) (by split <;> omega)
  have all := walked.append fun item mem => others item (mem_of_mem_drop mem)
  rw [split] at all
  unfold updateLostCount
  rw [at_, list]
  dsimp only
  by_cases test : b.dupAckThresh ≤ (lostFrom b.dupAckThresh b.lostOut (rest.take i)).2.1 ∧
      (!head.lost) = true
  · rw [if_pos test]
    exact ⟨_, _, rfl, all.lose unsacked (by simpa using test.2) (by simpa using fits)⟩
  · rw [if_neg test]
    exact ⟨_, _, rfl, all.keep (exclusive head mem_cons_self)⟩

/-! ## `Update` -/

/-- Where the sent items lie. -/
def sentSpans (b : TcpTxBuffer) : List SackBlock :=
  spans b.firstByteSeq (b.sentList.map TcpTxItem.size)

/-- The bytes of the items that have got sacked. -/
def newlySacked (items items' : List TcpTxItem) : Nat :=
  (((items.zip items').filter fun x => !x.1.sacked && x.2.sacked).map fun x => x.1.size).sum

/-- The scoreboard is marked exactly: an item is sacked if it was before or some block covers it,
wherever the block stands in the list. -/
structure Marks (b b' : TcpTxBuffer) (list : List SackBlock) (bytes : Nat) : Prop where
  length : b'.sentList.length = b.sentList.length
  sacked : ∀ (i : Nat) (item item' : TcpTxItem), b.sentList[i]? = some item →
    b'.sentList[i]? = some item' → (item'.sacked = true ↔
      item.sacked = true ∨ ∃ block ∈ list, Covers block b.sentSpans i)
  bytes : bytes = newlySacked b.sentList b'.sentList

/-- Each item covered by a block is hit by a block that is scanned. -/
def ReachesAll (b : TcpTxBuffer) (list : List SackBlock) : Prop :=
  ∀ (i : Nat) (item : TcpTxItem), b.sentList[i]? = some item → item.sacked = false →
    ∀ block ∈ list, Covers block b.sentSpans i →
      Marked (b.firstByteSeq.add b.sentSize) list b.sentSpans i

theorem newlySacked_cons (item item' : TcpTxItem) (rest rest' : List TcpTxItem) :
    newlySacked (item :: rest) (item' :: rest') =
      (if !item.sacked && item'.sacked then item.size else 0) + newlySacked rest rest' := by
  unfold newlySacked
  rw [zip_cons_cons, filter_cons]
  split <;> simp [*]

theorem butLost_sack {hit : Bool} {item' : TcpTxItem}
    (same : butLost item' = butLost (if hit then item.sack else item)) :
    item'.sacked = (item.sacked || hit) ∧ item'.size = item.size := by
  have flag := congrArg TcpTxItem.sacked same
  have size := congrArg TcpTxItem.size same
  cases hit with
  | true => exact ⟨by simpa [butLost, TcpTxItem.sack] using flag, size⟩
  | false => exact ⟨by simpa [butLost] using flag, size⟩

theorem newlySacked_add (same : items'.map butLost = (sackAt hit items).map butLost) :
    newlySacked items items' + bytesOf TcpTxItem.sacked items = bytesOf TcpTxItem.sacked items' := by
  induction items generalizing hit items' with
  | nil =>
    obtain rfl : items' = [] := by simpa using same
    rfl
  | cons item rest ih =>
    cases items' with
    | nil => simp at same
    | cons item' rest' =>
      rw [sackAt_cons, map_cons, map_cons] at same
      obtain ⟨here, others⟩ := List.cons.inj same
      obtain ⟨flag, size⟩ := butLost_sack here
      have rest_ := ih others
      rw [newlySacked_cons, bytesOf_cons, bytesOf_cons, flag, size]
      cases item.sacked <;> cases hit 0 <;> simp <;> omega

theorem sacked_iff (same : items'.map butLost = (sackAt hit items).map butLost) {item' : TcpTxItem}
    (at_ : items[i]? = some item) (at' : items'[i]? = some item') :
    item'.sacked = true ↔ item.sacked = true ∨ hit i = true := by
  have here := congrArg (fun items => items[i]?) same
  simp only [getElem?_map, sackAt, getElem?_mapIdx, at_, at'] at here
  simp [(butLost_sack (Option.some.inj here)).1]

theorem marks_iff {b' : TcpTxBuffer} {list : List SackBlock} {bytes : Nat}
    (same : b'.sentList.map butLost = (sackAt (fun i =>
      Marked (b.firstByteSeq.add b.sentSize) list b.sentSpans i) b.sentList).map butLost)
    (counted : bytes + bytesOf TcpTxItem.sacked b.sentList = bytesOf TcpTxItem.sacked b'.sentList) :
    Marks b b' list bytes ↔ b.ReachesAll list := by
  have length : b'.sentList.length = b.sentList.length := by simpa using congrArg List.length same
  constructor
  · intro marks i item at_ unsacked block mem covers
    obtain ⟨item', at'⟩ : ∃ item', b'.sentList[i]? = some item' := by
      have inside := (List.getElem?_eq_some_iff.mp at_).1
      exact ⟨_, getElem?_eq_getElem (length ▸ inside)⟩
    have now := (marks.sacked i item item' at_ at').mpr (Or.inr ⟨block, mem, covers⟩)
    have hit := (sacked_iff same at_ at').mp now
    simpa [unsacked] using hit
  · intro reaches
    refine ⟨length, fun i item item' at_ at' => ?_, ?_⟩
    · rw [sacked_iff same at_ at', decide_eq_true_eq]
      constructor
      · rintro (was | ⟨block, mem, hits⟩)
        · exact Or.inl was
        · exact Or.inr ⟨block, takeWhile_subset _ mem, hits.1⟩
      · rintro (was | ⟨block, mem, covers⟩)
        · exact Or.inl was
        · cases was : item.sacked with
          | true => exact Or.inl rfl
          | false => exact Or.inr (reaches i item at_ was block mem covers)
    · have := newlySacked_add same
      omega

theorem Scoreboard.scanned (board : Scoreboard b)
    (scanned : Scanned 0 0 b.sentList.length b.sentList (sackAt hit b.sentList)
      ⟨b.lostOut, b.sackedOut, 0, b.highestSack⟩ m) (head : hit 0 = false) :
    Scoreboard { b with
      sentList := sackAt hit b.sentList
      lostOut := m.lostOut
      sackedOut := m.sackedOut
      highestSack := m.highestSack } where
  sentSize := board.sentSize.trans (totalSize_sackAt _ _).symm
  fits := board.fits
  sackedOut := scanned.counted.sackedOut.trans (zero_add _)
  lostOut := scanned.counted.lostOut.trans (zero_add _)
  exclusive := sackAt_exclusive board.exclusive
  head := by
    obtain ⟨item, front, unsacked⟩ := board.head
    obtain ⟨rest, list⟩ := head?_eq_some_iff.mp front
    refine ⟨item, ?_, unsacked⟩
    simp [list, head]
  highest := by
    have anchored := scanned.anchored board.highest
    dsimp only
    rwa [sackAt_length]

theorem Scoreboard.asserted (board : Scoreboard b) : (match b.sentList with
    | [] => none
    | head :: _ =>
      if head.sacked = false ∧ add32 b.sackedOut b.lostOut ≤ b.sentSize then some b
      else none) = some b := by
  obtain ⟨head, front, unsacked⟩ := board.head
  obtain ⟨rest, list⟩ := head?_eq_some_iff.mp front
  have le := exclusive_le board.exclusive
  have fits := board.fits
  have sentSize := board.sentSize
  have sum : add32 b.sackedOut b.lostOut ≤ b.sentSize := by
    rw [board.sackedOut, board.lostOut, add32_eq (by omega)]
    omega
  rw [list]
  exact if_pos ⟨unsacked, sum⟩

theorem Scoreboard.afterScan (board : Scoreboard b) {bytesSacked : Nat}
    (set : 0 < bytesSacked → b.highestSack.1 ≠ .end_) :
    ∃ b', b.afterScan bytesSacked = some b' ∧ Scoreboard b' ∧
      b'.sentList.map butLost = b.sentList.map butLost := by
  unfold TcpTxBuffer.afterScan
  by_cases some_ : 0 < bytesSacked
  · obtain ⟨items, lostOut, lost, walked⟩ := updateLostCount_spec board (set some_)
    have board' := walked.scoreboard board
    rw [if_pos some_, if_neg (set some_), lost]
    exact ⟨_, board'.asserted, board', walked.same⟩
  · rw [if_neg some_]
    exact ⟨b, board.asserted, board, rfl⟩

theorem eq_of_asserted {b' : TcpTxBuffer} (h : (match b.sentList with
    | [] => none
    | head :: _ =>
      if head.sacked = false ∧ add32 b.sackedOut b.lostOut ≤ b.sentSize then some b
      else none) = some b') : b = b' := by
  split at h
  · cases h
  · exact (Option.ite_none_right_eq_some.mp h).2 |> Option.some.inj

theorem afterScan_some {b' : TcpTxBuffer} {bytesSacked : Nat}
    (done : b.afterScan bytesSacked = some b') :
    if 0 < bytesSacked then b.updateLostCount = some b' else b = b' := by
  unfold afterScan at done
  by_cases some_ : 0 < bytesSacked
  · rw [if_pos some_] at done ⊢
    split at done
    · cases done
    · obtain ⟨b₁, lost, rest⟩ := Option.bind_eq_some_iff.mp done
      rwa [← eq_of_asserted rest]
  · rw [if_neg some_] at done ⊢
    exact eq_of_asserted done

/-- Before the scan the counters are those of the sent items. -/
theorem Scoreboard.counted (board : Scoreboard b) :
    Counted 0 0 b.sentList ⟨b.lostOut, b.sackedOut, 0, b.highestSack⟩ := by
  have sentSize := board.sentSize
  have fits := board.fits
  exact ⟨board.sackedOut.trans (zero_add _).symm, board.lostOut.trans (zero_add _).symm,
    Nat.zero_le _, by omega, by omega, fun pos => absurd pos (lt_irrefl 0)⟩

/-- **SACK blocks.** `Update` returns, and marks the scoreboard exactly if and only if the
blocks that are scanned reach whatever any block covers. -/
theorem update_marks_iff {b : TcpTxBuffer} (board : Scoreboard b) {list : List SackBlock}
    (uncovered : ∀ block ∈ list, ¬ Covers block b.sentSpans 0) :
    ∃ b' bytes, b.update list = some (b', bytes) ∧ (Marks b b' list bytes ↔ b.ReachesAll list) := by
  obtain ⟨m, all, done, scanned⟩ := scanBlocks_spec b.firstByteSeq b.sentSize list board.exclusive
    board.counted
  have head : decide (Marked (b.firstByteSeq.add b.sentSize) list b.sentSpans 0) = false := by
    rw [decide_eq_false_iff_not]
    rintro ⟨block, mem, hits⟩
    exact uncovered block (takeWhile_subset _ mem) hits.1
  have board' := board.scanned scanned head
  have bytes : m.bytesSacked + bytesOf TcpTxItem.sacked b.sentList =
      bytesOf TcpTxItem.sacked (sackAt (fun i =>
        Marked (b.firstByteSeq.add b.sentSize) list b.sentSpans i) b.sentList) :=
    scanned.bytes.trans (zero_add _)
  unfold update
  rw [done]
  cases all with
  | false => exact ⟨_, _, rfl, marks_iff rfl bytes⟩
  | true =>
    obtain ⟨b', after, -, same⟩ := board'.afterScan scanned.counted.highest
    refine ⟨b', m.bytesSacked, ?_, marks_iff same ?_⟩
    · exact congrArg (fun b' => b'.bind fun b' => some (b', m.bytesSacked)) after
    · rw [bytes]
      exact (bytesOf_sacked_of_butLost same).symm

/-! ## One block too far -/

/-- A buffer with two bytes that have been sent, in an item each. -/
def twoSent : TcpTxBuffer :=
  { create (.of 1) with
    sentList := [⟨.of 1, [0x61], false, false, false, 0⟩, ⟨.of 2, [0x62], false, false, false, 0⟩]
    size := 2
    sentSize := 2
    highestSack := (.end_, .of 0)
    dupAckThresh := 3 }

theorem twoSent_scoreboard : Scoreboard twoSent where
  sentSize := rfl
  fits := by decide
  sackedOut := rfl
  lostOut := rfl
  exclusive := by simp [twoSent, TcpTxItem.Exclusive]
  head := ⟨_, rfl, rfl⟩
  highest := Or.inl rfl

/-- The block beyond the sent data comes last. -/
theorem second_sacked : ∃ b' bytes,
    twoSent.update [(.of 2, .of 3), (.of 10, .of 12)] = some (b', bytes) ∧
      Marks twoSent b' [(.of 2, .of 3), (.of 10, .of 12)] bytes := by
  obtain ⟨b', bytes, done, iff_⟩ := @update_marks_iff _ twoSent_scoreboard
    [(.of 2, .of 3), (.of 10, .of 12)] (by decide)
  refine ⟨b', bytes, done, iff_.mpr fun i item at_ unsacked block mem covers => ?_⟩
  match i with
  | 0 => exact absurd covers (by revert block; decide)
  | 1 => decide
  | i + 2 => simp [twoSent] at at_

/-- It comes first, and the other one is not looked at. -/
theorem block_ignored : ¬ ∀ (b : TcpTxBuffer) (list : List SackBlock), Scoreboard b →
    (∀ block ∈ list, ¬ Covers block b.sentSpans 0) →
      ∃ b' bytes, b.update list = some (b', bytes) ∧ Marks b b' list bytes := by
  intro all
  obtain ⟨b', bytes, done, marks⟩ := all twoSent [(.of 10, .of 12), (.of 2, .of 3)]
    twoSent_scoreboard (by decide)
  have same : twoSent.update [(.of 10, .of 12), (.of 2, .of 3)] = some (twoSent, 0) := rfl
  obtain ⟨rfl, rfl⟩ := Prod.mk.inj (Option.some.inj (same.symm.trans done))
  have second := (marks.sacked 1 _ _ rfl rfl).mpr (Or.inr ⟨(.of 2, .of 3), by decide, by decide⟩)
  exact absurd second (by decide)

end TcpTxBuffer

end Ns3.Internet
