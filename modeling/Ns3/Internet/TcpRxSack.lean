import Ns3.Internet.TcpRxDelivery

/-!
# The SACK list of `TcpRxBuffer`

`UpdateSackList` merges a new block with those that touch it, and looks for no other
overlap. The list is right as long as the new block overlaps none of them, which it does
when `Add` erases a packet that one of them reports.
-/

namespace Ns3.Internet

open SequenceNumber32 NatInterval
open List hiding length

/-! ## Merging -/

section Merging

variable {low : Nat} {head : NatInterval} {blocks : List NatInterval}

/-- The sequence numbers of a block. -/
def seqs (x : NatInterval) : SackBlock := (.of x.start, .of x.stop)

/-- Blocks that the new one may be merged with. -/
structure Mergeable (low : Nat) (head : NatInterval) (blocks : List NatInterval) : Prop where
  within : Within low (head :: blocks)
  filled : Filled (head :: blocks)
  clear : ∀ x ∈ blocks, NoOverlap head x
  apart : blocks.Pairwise Apart

theorem Mergeable.start_eq (mergeable : Mergeable low head blocks) {x : NatInterval}
    (mem : x ∈ blocks) :
    ((seqs head).1 = (seqs x).2 ↔ x.stop = head.start) ∧
      ((seqs head).2 = (seqs x).1 ↔ head.stop = x.start) := by
  have head_bounds := mergeable.within head mem_cons_self
  have bounds := mergeable.within x (mem_cons_of_mem _ mem)
  have head_le : head.start ≤ head.stop := Nat.le_add_right _ _
  have le : x.start ≤ x.stop := Nat.le_add_right _ _
  unfold seqs
  rw [eq_iff (by omega) (by omega), eq_iff (by omega) (by omega)]
  exact ⟨eq_comm, Iff.rfl⟩

/-- What a merge leaves: the merged block and the others. -/
structure Merged (low : Nat) (head : NatInterval) (blocks : List NatInterval)
    (merged : NatInterval) (others : List NatInterval) : Prop where
  mergeable : Mergeable low merged others
  sublist : others.Sublist blocks
  grows : ∀ n, head.Has n → merged.Has n
  from_old : ∀ n, merged.Has n → head.Has n ∨ ∃ x ∈ blocks, x.Has n

theorem Mergeable.tail {x : NatInterval} (mergeable : Mergeable low head (x :: blocks)) :
    Mergeable low head blocks where
  within y mem := mergeable.within y (by simp at mem ⊢; tauto)
  filled y mem := mergeable.filled y (by simp at mem ⊢; tauto)
  clear y mem := mergeable.clear y (mem_cons_of_mem x mem)
  apart := (pairwise_cons.1 mergeable.apart).2

/-- The block `x` touches the new one `head`; they become `x'` followed by `y'`. -/
theorem Mergeable.join {x x' y' : NatInterval} (mergeable : Mergeable low head (x :: blocks))
    (adjacent : x'.stop = y'.start) (which : x' = x ∧ y' = head ∨ x' = head ∧ y' = x) :
    Merged low head (x :: blocks) (NatInterval.join x' y') blocks := by
  have head_filled := mergeable.filled.stop_pos mem_cons_self
  have x_filled := mergeable.filled.stop_pos (mem_cons_of_mem head mem_cons_self)
  have head_within := mergeable.within head mem_cons_self
  have x_within := mergeable.within x (mem_cons_of_mem head mem_cons_self)
  obtain ⟨x_apart, -⟩ := pairwise_cons.1 mergeable.apart
  have stop := join_stop adjacent
  have start : (NatInterval.join x' y').start = x'.start := rfl
  refine ⟨⟨?_, ?_, ?_, mergeable.tail.apart⟩, sublist_cons_self _ _, ?_, ?_⟩
  · intro y mem
    rcases mem_cons.1 mem with rfl | mem
    · rw [stop, start]
      rcases which with ⟨rfl, rfl⟩ | ⟨rfl, rfl⟩
      · exact ⟨x_within.1, head_within.2⟩
      · exact ⟨head_within.1, x_within.2⟩
    · exact mergeable.tail.within y (mem_cons_of_mem _ mem)
  · intro y mem
    rcases mem_cons.1 mem with rfl | mem
    · have x_pos := mergeable.filled x (mem_cons_of_mem head mem_cons_self)
      have head_pos := mergeable.filled head mem_cons_self
      rcases which with ⟨rfl, rfl⟩ | ⟨rfl, rfl⟩
      · exact Nat.add_pos_left x_pos _
      · exact Nat.add_pos_left head_pos _
    · exact mergeable.tail.filled y (mem_cons_of_mem _ mem)
  · intro y mem
    have y_filled := mergeable.tail.filled.stop_pos (mem_cons_of_mem head mem)
    have head_clear := mergeable.clear y (mem_cons_of_mem x mem)
    have x_clear := (x_apart y mem).noOverlap
    rcases which with ⟨rfl, rfl⟩ | ⟨rfl, rfl⟩
    · exact noOverlap_join adjacent x_filled head_filled y_filled x_clear head_clear
    · exact noOverlap_join adjacent head_filled x_filled y_filled head_clear x_clear
  · intro n has
    rw [join_has adjacent]
    rcases which with ⟨rfl, rfl⟩ | ⟨rfl, rfl⟩
    · exact .inr has
    · exact .inl has
  · intro n has
    rw [join_has adjacent] at has
    have old : x.Has n → ∃ y ∈ x :: blocks, y.Has n := fun has => ⟨x, mem_cons_self, has⟩
    rcases which with ⟨rfl, rfl⟩ | ⟨rfl, rfl⟩
    · exact has.symm.imp_right old
    · exact has.imp_right old

theorem Merged.cons {merged x : NatInterval} {others : List NatInterval}
    (result : Merged low head blocks merged others)
    (mergeable : Mergeable low head (x :: blocks)) :
    Merged low head (x :: blocks) merged (x :: others) := by
  obtain ⟨⟨within, filled, clear, apart⟩, sublist, grows, from_old⟩ := result
  have x_filled := mergeable.filled.stop_pos (mem_cons_of_mem head mem_cons_self)
  obtain ⟨x_apart, -⟩ := pairwise_cons.1 mergeable.apart
  refine ⟨⟨?_, ?_, ?_, ?_⟩, sublist.cons_cons x, grows, fun n has => (from_old n has).imp_right
    fun ⟨y, mem, has⟩ => ⟨y, mem_cons_of_mem x mem, has⟩⟩
  · intro y mem
    rcases mem_cons.1 mem with rfl | mem
    · exact within y mem_cons_self
    rcases mem_cons.1 mem with rfl | mem
    · exact mergeable.within y (mem_cons_of_mem head mem_cons_self)
    · exact within y (mem_cons_of_mem merged mem)
  · intro y mem
    rcases mem_cons.1 mem with rfl | mem
    · exact filled y mem_cons_self
    rcases mem_cons.1 mem with rfl | mem
    · exact mergeable.filled y (mem_cons_of_mem head mem_cons_self)
    · exact filled y (mem_cons_of_mem merged mem)
  · intro y mem
    rcases mem_cons.1 mem with rfl | mem
    · refine .of_has (filled.stop_pos mem_cons_self) x_filled fun n has y_has => ?_
      rcases from_old n has with in_head | ⟨z, z_mem, z_has⟩
      · exact (mergeable.clear y mem_cons_self).not_has in_head y_has
      · exact (x_apart z z_mem).noOverlap.not_has y_has z_has
    · exact clear y mem
  · exact pairwise_cons.2 ⟨fun y mem => x_apart y (sublist.subset mem), apart⟩

theorem mergeFirst_spec (mergeable : Mergeable low head blocks) :
    (mergeFirst (seqs head) (blocks.map seqs) = none ∧ ∀ x ∈ blocks, Apart head x) ∨
    ∃ merged others, mergeFirst (seqs head) (blocks.map seqs) =
        some (seqs merged, others.map seqs) ∧ others.length + 1 = blocks.length ∧
      Merged low head blocks merged others := by
  induction blocks with
  | nil => exact .inl ⟨rfl, nofun⟩
  | cons x rest ih =>
    obtain ⟨left_iff, right_iff⟩ := mergeable.start_eq mem_cons_self
    rw [map_cons, mergeFirst]
    by_cases left : x.stop = head.start
    · rw [if_pos (left_iff.2 left)]
      refine .inr ⟨join x head, rest, ?_, rfl, mergeable.join left (.inl ⟨rfl, rfl⟩)⟩
      rw [seqs, seqs, seqs, join_stop left]
      rfl
    rw [if_neg fun same => left (left_iff.1 same)]
    by_cases right : head.stop = x.start
    · rw [if_pos (right_iff.2 right)]
      refine .inr ⟨join head x, rest, ?_, rfl, mergeable.join right (.inr ⟨rfl, rfl⟩)⟩
      rw [seqs, seqs, seqs, join_stop right]
      rfl
    rw [if_neg fun same => right (right_iff.1 same)]
    rcases ih mergeable.tail with ⟨none_, apart⟩ | ⟨merged, others, found, count, result⟩
    · rw [none_]
      refine .inl ⟨rfl, ?_⟩
      intro y mem
      rcases mem_cons.1 mem with rfl | mem
      · have clear := mergeable.clear y mem_cons_self
        unfold NoOverlap at clear
        unfold Apart
        omega
      · exact apart y mem
    · rw [found]
      exact .inr ⟨merged, x :: others, rfl, congrArg (· + 1) count, result.cons mergeable⟩

theorem mergeAll_spec {n : Nat} (mergeable : Mergeable low head blocks)
    (enough : blocks.length ≤ n) :
    ∃ merged others, mergeAll n (seqs head) (blocks.map seqs) = (merged :: others).map seqs ∧
      Merged low head blocks merged others ∧ ∀ x ∈ others, Apart merged x := by
  induction n generalizing head blocks with
  | zero =>
    obtain rfl := length_eq_zero_iff.1 (Nat.le_zero.1 enough)
    exact ⟨head, [], rfl, ⟨mergeable, .slnil, fun _ has => has, fun _ has => .inl has⟩, nofun⟩
  | succ n ih =>
    unfold mergeAll
    rcases mergeFirst_spec mergeable with ⟨none_, apart⟩ | ⟨merged, others, found, count, result⟩
    · rw [none_]
      exact ⟨head, blocks, rfl, ⟨mergeable, .refl _, fun _ has => has, fun _ has => .inl has⟩,
        apart⟩
    · rw [found]
      obtain ⟨merged', others', eq, result', apart⟩ := ih result.mergeable (by omega)
      refine ⟨merged', others', eq, ⟨result'.mergeable, result'.sublist.trans result.sublist,
        fun n has => result'.grows n (result.grows n has), fun n has => ?_⟩, apart⟩
      rcases result'.from_old n has with here | ⟨x, mem, has'⟩
      · exact result.from_old n here
      · exact .inr ⟨x, result.sublist.subset mem, has'⟩

end Merging

/-! ## The list and the stored bytes -/

/-- The sequence number is in the block. -/
def Contains (block : SackBlock) (n : SequenceNumber32) : Prop :=
  n.sub block.1 < block.2.sub block.1

namespace TcpRxBuffer

/-- The byte is stored. -/
def Stores (b : TcpRxBuffer) (n : SequenceNumber32) : Prop :=
  ∃ entry ∈ b.data, n.sub entry.1 < entry.2.length

/-- What a SACK list has to be. -/
structure SackListSound (b : TcpRxBuffer) : Prop where
  few : b.sackList.length ≤ 4
  apart : b.sackList.Pairwise fun x y => x.1.Gt y.2 ∨ y.1.Gt x.2
  above : ∀ block ∈ b.sackList, block.1.Gt b.nextRxSeq ∧ block.2.Gt block.1
  stored : ∀ block ∈ b.sackList, ∀ n, Contains block n → b.Stores n

/-- The first block of `b'` contains what has been stored since `b`. -/
def NewestFirst (b b' : TcpRxBuffer) : Prop :=
  ∀ n, b'.Stores n → ¬ b.Stores n → ∃ first ∈ b'.sackList.head?, Contains first n

end TcpRxBuffer

/-- The sequence numbers from the start of a part of the stream on are those of its places. -/
theorem sub_lt_iff {x : NatInterval} (small : x.length < 2 ^ 32) {n : SequenceNumber32} :
    n.sub (.of x.start) < x.length ↔ ∃ k, x.Has k ∧ n = .of k := by
  constructor
  · intro lt
    refine ⟨x.start + n.sub (.of x.start), ⟨Nat.le_add_right _ _, Nat.add_lt_add_left lt _⟩, ?_⟩
    rw [← Serial.of_add, Serial.add_sub]
  · rintro ⟨k, ⟨low, high⟩, rfl⟩
    unfold NatInterval.stop at high
    rw [Serial.of_sub_of low (by omega)]
    omega

theorem contains_iff {x : NatInterval} (small : x.length < 2 ^ 32) {n : SequenceNumber32} :
    Contains (seqs x) n ↔ ∃ k, x.Has k ∧ n = .of k := by
  have length : (seqs x).2.sub (seqs x).1 = x.length := by
    have stop : x.stop = x.start + x.length := rfl
    unfold seqs
    rw [Serial.of_sub_of (by omega : x.start ≤ x.stop) (by omega)]
    omega
  rw [Contains, length]
  exact sub_lt_iff small

theorem stores_iff {b : TcpRxBuffer} {stream : Stream} {parts : List NatInterval}
    (data : b.data = stream.stored parts) (small : ∀ x ∈ parts, x.length < 2 ^ 32)
    {n : SequenceNumber32} : b.Stores n ↔ ∃ x ∈ parts, ∃ k, x.Has k ∧ n = .of k := by
  unfold TcpRxBuffer.Stores Stream.stored at *
  rw [data]
  simp only [mem_map, exists_exists_and_eq_and, stream.bytes_length]
  exact exists_congr fun x => and_congr_right fun mem => sub_lt_iff (small x mem)

/-! ## RCV.NXT goes on -/

namespace TcpRxBuffer

theorem advance_sublist (data : Segments) (b : TcpRxBuffer) :
    (advance data b).sackList.Sublist b.sackList := by
  induction data generalizing b with
  | nil => exact .refl _
  | cons entry rest ih =>
    unfold advance
    split
    · exact ih b
    split
    · exact .refl _
    · exact (ih _).trans filter_sublist

/-- The blocks that are left end after RCV.NXT. -/
theorem advance_cleared (data : Segments) (b : TcpRxBuffer)
    (cleared : ∀ block ∈ b.sackList, ¬ Le block.2 b.nextRxSeq) :
    ∀ block ∈ (advance data b).sackList, ¬ Le block.2 (advance data b).nextRxSeq := by
  induction data generalizing b with
  | nil => exact cleared
  | cons entry rest ih =>
    unfold advance
    split
    · exact ih b cleared
    split
    · exact cleared
    · apply ih
      intro block mem
      simpa using (mem_filter.1 mem).2

/-- RCV.NXT stays where it is when no packet starts there. -/
theorem advance_idle (data : Segments) (b : TcpRxBuffer)
    (idle : ∀ entry ∈ data, entry.1 ≠ b.nextRxSeq) : advance data b = b := by
  induction data with
  | nil => rfl
  | cons entry rest ih =>
    obtain ⟨here, others⟩ := forall_mem_cons.1 idle
    unfold advance
    by_cases gt : entry.1.Gt b.nextRxSeq
    · rw [if_neg fun lt => lt.1 gt, if_pos gt]
    · rw [if_pos ⟨gt, here⟩]
      exact ih others

end TcpRxBuffer

/-- At most four of the merged blocks stay, the first one among them. -/
theorem TcpRxBuffer.listed_kept (b : TcpRxBuffer) {new merged : NatInterval}
    {blocks others : List NatInterval} (list : b.sackList = blocks.map seqs)
    (behind : (Serial.of new.start : SequenceNumber32).Gt b.nextRxSeq)
    (eq : mergeAll blocks.length (seqs new) (blocks.map seqs) = (merged :: others).map seqs)
    (few : (merged :: others).length ≤ 5) :
    ∃ kept : List NatInterval, b.listed (.of new.start) (.of new.stop) = kept.map seqs ∧
      kept.Sublist (merged :: others) ∧ kept.length ≤ 4 ∧ merged ∈ kept.head? := by
  have merge : mergeAll b.sackList.length (.of new.start, .of new.stop) b.sackList =
      (merged :: others).map seqs := by
    rw [list, length_map]
    exact eq
  unfold listed updateSackList
  rw [if_pos behind]
  dsimp only
  rw [merge, length_map]
  split
  · rename_i five
    refine ⟨(merged :: others).dropLast, map_dropLast.symm, dropLast_sublist _, ?_, ?_⟩
    · rw [length_dropLast]
      omega
    · cases others with
      | nil => simp at five
      | cons other others => rfl
  · exact ⟨merged :: others, rfl, .refl _, by omega, rfl⟩

namespace TcpReceiver

variable {stream : Stream} {r : TcpReceiver} {pre post blocks : List NatInterval}

/-- The SACK list reports these parts of the stream behind the first missing byte. -/
structure Reports (stream : Stream) (r : TcpReceiver) (post blocks : List NatInterval) : Prop where
  list : r.buffer.sackList = blocks.map seqs
  few : blocks.length ≤ 4
  apart : blocks.Pairwise Apart
  filled : Filled blocks
  stored : ∀ x ∈ blocks, ∀ n, x.Has n → ∃ y ∈ post, y.Has n

theorem has_ends {x : NatInterval} (filled : x.start < x.stop) :
    x.Has x.start ∧ x.Has (x.stop - 1) := by
  unfold Has
  omega

theorem Reports.above (reports : Reports stream r post blocks)
    (buffered : Buffered stream r pre post) {x : NatInterval} (mem : x ∈ blocks) :
    r.inOrder stream < x.start := by
  obtain ⟨y, mem', has⟩ := reports.stored x mem x.start (has_ends (reports.filled.stop_pos mem)).1
  have later := buffered.later y mem'
  have le := has.1
  omega

/-- What covers stored bytes only lies where these do. -/
theorem within_of_stored {low : Nat} {parts : List NatInterval} (filled : Filled blocks)
    (stored : ∀ x ∈ blocks, ∀ n, x.Has n → ∃ y ∈ parts, y.Has n) (within : Within low parts) :
    Within low blocks := by
  intro x mem
  obtain ⟨first, last⟩ := has_ends (filled.stop_pos mem)
  obtain ⟨y, y_mem, y_has⟩ := stored x mem _ first
  obtain ⟨z, z_mem, z_has⟩ := stored x mem _ last
  have y_within := within y y_mem
  have z_within := within z z_mem
  unfold Has at *
  omega

theorem Reports.within (reports : Reports stream r post blocks) {low : Nat}
    (within : Within low (pre ++ post)) : Within low blocks :=
  within_of_stored reports.filled reports.stored fun x mem =>
    within x (mem_append_right pre mem)

theorem Within.length_lt {low : Nat} {xs : List NatInterval} (within : Within low xs)
    {x : NatInterval} (mem : x ∈ xs) : x.length < 2 ^ 32 := by
  have bounds := within x mem
  unfold NatInterval.stop at bounds
  omega

theorem Reports.sound (reports : Reports stream r post blocks)
    (buffered : Buffered stream r pre post) : r.buffer.SackListSound := by
  obtain ⟨low, within, low_le, lt_low, -⟩ := buffered.exists_low
  have blocks_within := reports.within within
  constructor
  case few =>
    rw [reports.list, length_map]
    exact reports.few
  case apart =>
    rw [reports.list, pairwise_map]
    refine reports.apart.imp_of_mem fun {x y} x_mem y_mem apart => ?_
    have x_bounds := blocks_within x x_mem
    have y_bounds := blocks_within y y_mem
    have x_le : x.start ≤ x.stop := Nat.le_add_right _ _
    have y_le : y.start ≤ y.stop := Nat.le_add_right _ _
    unfold seqs
    rw [gt_iff ⟨by omega, by omega⟩, gt_iff ⟨by omega, by omega⟩]
    exact apart.symm
  case above =>
    rw [reports.list]
    intro block listed
    obtain ⟨x, mem, rfl⟩ := mem_map.1 listed
    have bounds := blocks_within x mem
    have filled := reports.filled.stop_pos mem
    have above := reports.above buffered mem
    have next_eq : r.next stream = r.inOrder stream := by
      obtain ⟨y, y_mem, has⟩ := reports.stored x mem _ (has_ends filled).1
      refine Buffered.next_eq (n := x.start) ?_ fun last finish => ?_
      · unfold TcpReceiver.next
        split <;> omega
      · have stop_le := buffered.inside y (mem_append_right pre y_mem) last finish
        have lt := has.2
        omega
    unfold seqs
    rw [buffered.next, next_eq]
    rw [gt_iff ⟨by omega, by omega⟩, gt_iff ⟨by omega, by omega⟩]
    exact ⟨above, filled⟩
  case stored =>
    rw [reports.list]
    intro block listed n contains
    obtain ⟨x, mem, rfl⟩ := mem_map.1 listed
    rw [contains_iff (Within.length_lt blocks_within mem)] at contains
    obtain ⟨k, has, rfl⟩ := contains
    obtain ⟨y, y_mem, y_has⟩ := reports.stored x mem k has
    rw [stores_iff buffered.data fun x mem => Within.length_lt within mem]
    exact ⟨y, mem_append_right pre y_mem, k, y_has, rfl⟩

/-! ## A step -/

/-- The segment embeds the whole entry and misses a byte before it, so that `Add` erases the
entry. -/
def Engulfs (stream : Stream) (r : TcpReceiver) (place length : Nat)
    (entry : SequenceNumber32 × List UInt8) : Prop :=
  (∃ missing, place ≤ missing ∧ missing < r.firstPlace stream entry.1 ∧
    ¬ r.buffer.Stores (.of missing)) ∧
  r.firstPlace stream entry.1 + entry.2.length < place + length ∧
  ∀ front ∈ r.buffer.data.head?, r.firstPlace stream entry.1 + entry.2.length <
    r.firstPlace stream front.1 + r.buffer.maxBuffer

/-- A segment behind RCV.NXT embeds no packet of which a byte is reported. -/
def Spares (stream : Stream) (r : TcpReceiver) : RxEvent → Prop
  | .add place length => r.next stream < place → ∀ entry ∈ r.buffer.data,
    ∀ block ∈ r.buffer.sackList, (∃ n, Contains block n ∧ n.sub entry.1 < entry.2.length) →
      ¬ r.Engulfs stream place length entry
  | _ => True

/-- The list with the new block, before RCV.NXT goes on. -/
structure Listed (stream : Stream) (r : TcpReceiver) (parts : List NatInterval)
    (new : NatInterval) (blocks : List NatInterval) : Prop where
  list : r.buffer.listed (.of new.start) (.of new.stop) = blocks.map seqs
  few : blocks.length ≤ 4
  apart : blocks.Pairwise Apart
  filled : Filled blocks
  stored : ∀ x ∈ blocks, ∀ n, x.Has n → ∃ y ∈ parts, y.Has n
  above : ∀ x ∈ blocks, r.inOrder stream < x.start
  newest : r.next stream < new.start → ∃ first ∈ blocks.head?, ∀ n, new.Has n → first.Has n

section Added

variable {place length low : Nat} {before mid behind : List NatInterval} {new : NatInterval}

section

variable (placed : Buffered.Placed stream r pre post place length before mid behind new low)
include placed

theorem Buffered.Placed.keeps {y : NatInterval} (mem : y ∈ post) {n : Nat} (has : y.Has n) :
    ∃ z ∈ before ++ new :: behind, z.Has n := by
  rw [placed.post_eq, mem_append, mem_append] at mem
  rcases mem with in_before | in_mid | in_behind
  · exact ⟨y, mem_append_left _ in_before, has⟩
  · obtain ⟨after, le, -⟩ := placed.covered y in_mid
    refine ⟨new, mem_append_right _ mem_cons_self, ?_⟩
    unfold Has at *
    omega
  · exact ⟨y, mem_append_right _ (mem_cons_of_mem _ in_behind), has⟩

theorem Buffered.Placed.new_or_old {y : NatInterval} (mem : y ∈ pre ++ (before ++ new :: behind)) :
    y = new ∨ y ∈ pre ++ post := by
  rw [placed.post_eq]
  simp only [mem_append, mem_cons] at mem ⊢
  tauto

/-- What the new packet holds was stored in erased packets only. -/
theorem Buffered.Placed.old_in_mid {y : NatInterval} (mem : y ∈ post) {n : Nat} (has : y.Has n)
    (new_has : new.Has n) : y ∈ mid := by
  obtain ⟨-, across, after⟩ := pairwise_append.1 placed.fits.sorted
  rw [placed.post_eq, mem_append, mem_append] at mem
  rcases mem with in_before | in_mid | in_behind
  · have le := after y in_before new mem_cons_self
    unfold Has at *
    omega
  · exact in_mid
  · have le := (pairwise_cons.1 across).1 y in_behind
    unfold Has at *
    omega

theorem Buffered.Placed.missing (buffered : Buffered stream r pre post) :
    ¬ r.buffer.Stores (.of new.start) := by
  obtain ⟨old_low, old_within, -⟩ := buffered.exists_low
  rw [stores_iff buffered.data fun x mem => Within.length_lt old_within mem]
  rintro ⟨y, mem, n, has, same⟩
  have new_filled := placed.fits.filled.stop_pos (x := new) (by simp)
  have new_bounds := placed.fits.within new (by simp)
  have here : new.Has new.start := (has_ends new_filled).1
  have n_bounds : low ≤ n ∧ n < low + 2 ^ 31 := by
    rcases mem_append.1 mem with in_pre | in_post
    · have bounds := placed.fits.within y (mem_append_left _ in_pre)
      unfold Has at has
      omega
    · obtain ⟨z, z_mem, z_has⟩ := placed.keeps in_post has
      have bounds := placed.fits.within z (mem_append_right _ z_mem)
      unfold Has at z_has
      omega
  obtain rfl : new.start = n := (eq_iff (by omega) (by omega)).1 same
  rcases mem_append.1 mem with in_pre | in_post
  · have bounds := buffered.chain.bounds in_pre
    have le := placed.fits.from_next new (by simp)
    unfold Has at has
    omega
  · have after := (placed.covered y (placed.old_in_mid in_post has here)).1
    unfold Has at has
    omega

theorem Buffered.Placed.clear (buffered : Buffered stream r pre post)
    (reports : Reports stream r post blocks) (spares : r.Spares stream (.add place length))
    (behind_next : r.next stream < new.start) {x : NatInterval} (mem : x ∈ blocks) :
    NoOverlap new x := by
  obtain ⟨old_low, old_within, -⟩ := buffered.exists_low
  have out_of_order : r.next stream < place := by
    by_contra le
    exact absurd (placed.in_sequence (by omega)) (by omega)
  refine .of_has (placed.fits.filled.stop_pos (by simp)) (reports.filled.stop_pos mem)
    fun n new_has has => ?_
  obtain ⟨y, y_mem, y_has⟩ := reports.stored x mem n has
  obtain ⟨after, -, stop_lt, window⟩ := placed.covered y (placed.old_in_mid y_mem y_has new_has)
  have in_all : y ∈ pre ++ post := List.mem_append_right pre y_mem
  have entry : (Serial.of y.start, stream.bytes y.start y.length) ∈ r.buffer.data := by
    rw [buffered.data]
    exact List.mem_map.2 ⟨y, in_all, rfl⟩
  have place_eq := buffered.firstPlace_eq in_all
  have stop_eq : y.start + y.length = y.stop := rfl
  have small := Within.length_lt old_within in_all
  have x_small := Within.length_lt (reports.within old_within) mem
  refine spares out_of_order _ entry (seqs x) ?_ ⟨.of n, (contains_iff x_small).2 ⟨n, has, rfl⟩, ?_⟩
    ⟨⟨new.start, placed.from_place, ?_, placed.missing buffered⟩, ?_, ?_⟩
  · rw [reports.list]
    exact List.mem_map.2 ⟨x, mem, rfl⟩
  · rw [stream.bytes_length]
    exact (sub_lt_iff small).2 ⟨n, y_has, rfl⟩
  · rw [place_eq]
    exact after
  · rw [place_eq, stream.bytes_length, stop_eq]
    exact stop_lt
  · rw [place_eq, stream.bytes_length, stop_eq]
    exact window

theorem Buffered.Placed.listed (buffered : Buffered stream r pre post)
    (reports : Reports stream r post blocks) (spares : r.Spares stream (.add place length)) :
    ∃ blocks', Listed stream r (before ++ new :: behind) new blocks' := by
  have stored : ∀ x ∈ blocks, ∀ n, x.Has n → ∃ z ∈ before ++ new :: behind, z.Has n := by
    intro x mem n has
    obtain ⟨y, y_mem, y_has⟩ := reports.stored x mem n has
    exact placed.keeps y_mem y_has
  have new_within := placed.fits.within new (by simp)
  have new_filled := placed.fits.filled.stop_pos (x := new) (by simp)
  have gt_next : (Serial.of new.start : SequenceNumber32).Gt r.buffer.nextRxSeq ↔
      r.next stream < new.start := by
    have bounds := placed.fits.lt_low
    have bounds' := placed.fits.low_le
    rw [buffered.next, placed.open_, gt_iff ⟨by omega, by omega⟩]
  by_cases behind_next : r.next stream < new.start
  · have mergeable : Mergeable low new blocks := by
      refine ⟨?_, ?_, fun x mem => placed.clear buffered reports spares behind_next mem,
        reports.apart⟩
      · intro x mem
        rcases mem_cons.1 mem with rfl | mem
        · exact new_within
        · exact within_of_stored reports.filled stored
            (fun y mem => placed.fits.within y (mem_append_right _ mem)) x mem
      · intro x mem
        rcases mem_cons.1 mem with rfl | mem
        · exact placed.fits.filled x (by simp)
        · exact reports.filled x mem
    obtain ⟨merged, others, eq, result, apart⟩ := mergeAll_spec mergeable le_rfl
    obtain ⟨kept, list, sublist, few, first⟩ := r.buffer.listed_kept reports.list
      (gt_next.2 behind_next) eq (by
        have count := result.sublist.length_le
        have few := reports.few
        rw [length_cons]
        omega)
    have old : ∀ x ∈ kept, ∀ n, x.Has n → new.Has n ∨ ∃ y ∈ blocks, y.Has n := by
      intro x mem n has
      rcases mem_cons.1 (sublist.subset mem) with rfl | mem
      · exact result.from_old n has
      · exact .inr ⟨x, result.sublist.subset mem, has⟩
    have filled : Filled kept := fun x mem => result.mergeable.filled x (sublist.subset mem)
    refine ⟨kept, list, few, ?_, filled, ?_, ?_, fun _ => ⟨merged, first, result.grows⟩⟩
    · exact (pairwise_cons.2 ⟨apart, result.mergeable.apart⟩).sublist sublist
    · intro x mem n has
      rcases old x mem n has with here | ⟨y, y_mem, y_has⟩
      · exact ⟨new, by simp, here⟩
      · exact stored y y_mem n y_has
    · intro x mem
      rcases old x mem _ (has_ends (filled.stop_pos mem)).1 with here | ⟨y, y_mem, y_has⟩
      · have start := here.1
        have open_ := placed.open_
        omega
      · have above := reports.above buffered y_mem
        have start := y_has.1
        omega
  · refine ⟨blocks, ?_, reports.few, reports.apart, reports.filled, stored,
      fun x mem => reports.above buffered mem, fun lt => absurd lt behind_next⟩
    rw [TcpRxBuffer.listed, if_neg fun gt => behind_next (gt_next.1 gt)]
    exact reports.list

end

end Added

theorem Buffered.next_missing (buffered : Buffered stream r pre post) {y : NatInterval}
    (mem : y ∈ pre ++ post) : ¬ y.Has (r.inOrder stream) := by
  intro has
  unfold Has at has
  rcases mem_append.1 mem with in_pre | in_post
  · have bounds := buffered.chain.bounds in_pre
    omega
  · have after := buffered.later y in_post
    omega

/-- What an event does to the list. -/
structure Updated (stream : Stream) (r r' : TcpReceiver) (e : RxEvent) : Prop where
  kept : ∃ pre post blocks, Buffered stream r' pre post ∧ Reports stream r' post blocks
  newest : ∀ place length, e = .add place length →
    (Serial.of place : SequenceNumber32).Gt r.buffer.nextRxSeq → r.buffer.NewestFirst r'.buffer

theorem Reports.add (reports : Reports stream r post blocks) (buffered : Buffered stream r pre post)
    {place length : Nat} (comparable : r.Comparable stream place length)
    (inside : ∀ last ∈ stream.finish, place + length ≤ last)
    (spares : r.Spares stream (.add place length)) :
    Updated stream r
      { r with buffer := (r.buffer.add (stream.bytes place length) (.of place)).1 }
      (.add place length) := by
  rcases buffered.add_cases comparable inside with same | ⟨before, mid, behind, new, low, placed⟩
  · rw [same]
    refine ⟨⟨pre, post, blocks, buffered, reports⟩, fun _ _ _ _ n now before => absurd now before⟩
  obtain ⟨moved, moved_eq, add_eq⟩ := placed.added
  obtain ⟨listed, list⟩ := placed.listed buffered reports spares
  obtain ⟨pre', post', buffered', parts, next'⟩ :=
    buffered.advanced placed.fits placed.open_ rfl moved_eq add_eq
  generalize r'_eq : TcpReceiver.mk _ _ = r' at buffered' next' ⊢
  have sackList : r'.buffer.sackList = moved.sackList := by
    rw [← r'_eq]
    rw [add_eq]
    split <;> rfl
  generalize begun_eq : ({ r.buffer with
      data := stream.stored (pre ++ (before ++ new :: behind))
      size := total (pre ++ (before ++ new :: behind))
      sackList := r.buffer.listed (.of new.start) (.of new.stop) } : TcpRxBuffer) = begun
    at moved_eq
  have begun_next : begun.nextRxSeq = .of (r.inOrder stream) := by
    rw [← begun_eq, ← placed.open_]
    exact buffered.next
  have begun_list : begun.sackList = listed.map seqs := by
    rw [← begun_eq]
    exact list.list
  have old_low := placed.fits.low_le
  have lt_low := placed.fits.lt_low
  have listed_within : Within low listed := within_of_stored list.filled list.stored
    fun x mem => placed.fits.within x (mem_append_right _ mem)
  refine ⟨⟨pre', post', ?_⟩, ?_⟩
  · have sublist := TcpRxBuffer.advance_sublist
      (stream.stored (pre ++ (before ++ new :: behind))) begun
    rw [← moved_eq, begun_list] at sublist
    obtain ⟨kept, sublist, kept_eq⟩ := sublist_map_iff.1 sublist
    have cleared : ∀ x ∈ kept, ¬ Le (seqs x).2 moved.nextRxSeq := by
      have all := TcpRxBuffer.advance_cleared (stream.stored (pre ++ (before ++ new :: behind)))
        begun (by
          rw [begun_list, begun_next]
          intro block reported
          obtain ⟨x, mem, rfl⟩ := mem_map.1 reported
          have bounds := listed_within x mem
          have above := list.above x mem
          have le : x.start ≤ x.stop := Nat.le_add_right _ _
          unfold seqs
          rw [le_iff ⟨by omega, by omega⟩]
          omega)
      rw [← moved_eq, kept_eq] at all
      exact fun x mem => all (seqs x) (mem_map.2 ⟨x, mem, rfl⟩)
    have stored : ∀ x ∈ kept, ∀ n, x.Has n → ∃ y ∈ pre' ++ post', y.Has n := by
      intro x mem n has
      obtain ⟨y, y_mem, y_has⟩ := list.stored x (sublist.subset mem) n has
      exact ⟨y, by rw [parts]; exact mem_append_right _ y_mem, y_has⟩
    have filled : Filled kept := fun x mem => list.filled x (sublist.subset mem)
    have later : ∀ x ∈ kept, r'.inOrder stream < x.start := by
      intro x mem
      obtain ⟨low', within', low_le', lt_low', -⟩ := buffered'.exists_low
      have bounds := within_of_stored filled stored within' x mem
      have le : x.start ≤ x.stop := Nat.le_add_right _ _
      have passed := cleared x mem
      unfold seqs at passed
      rw [next'] at passed
      rw [le_iff ⟨by omega, by omega⟩] at passed
      by_contra before_next
      obtain ⟨y, y_mem, y_has⟩ := stored x mem (r'.inOrder stream) ⟨by omega, by omega⟩
      exact buffered'.next_missing y_mem y_has
    refine ⟨kept, buffered', ?_, ?_, list.apart.sublist sublist, filled, ?_⟩
    · rw [sackList]
      exact kept_eq
    · have few := list.few
      have count := sublist.length_le
      omega
    · intro x mem n has
      obtain ⟨y, y_mem, y_has⟩ := stored x mem n has
      have after := later x mem
      refine ⟨y, (mem_append.1 y_mem).resolve_left fun in_pre => ?_, y_has⟩
      have bounds := buffered'.chain.bounds in_pre
      unfold Has at has y_has
      omega
  · intro place' length' same gt n now before_
    obtain ⟨rfl, rfl⟩ := RxEvent.add.inj same
    obtain ⟨place_lt, next_lt⟩ := comparable.near
    rw [buffered.next, gt_iff ⟨place_lt, next_lt⟩] at gt
    have behind_next := lt_of_lt_of_le gt placed.from_place
    obtain ⟨first, at_front, holds⟩ := list.newest behind_next
    have idle : moved = begun := by
      rw [moved_eq]
      refine TcpRxBuffer.advance_idle _ _ fun entry stored same => ?_
      obtain ⟨y, mem, rfl⟩ := mem_map.1 stored
      have bounds := placed.fits.within y mem
      have le : y.start ≤ y.stop := Nat.le_add_right _ _
      have here := (has_ends (placed.fits.filled.stop_pos mem)).1
      rw [begun_next, eq_iff (by omega) (by omega)] at same
      rcases placed.new_or_old mem with rfl | old
      · have open_ := placed.open_
        omega
      · exact buffered.next_missing old (same ▸ here)
    have stores : r'.buffer.data = stream.stored (pre ++ (before ++ new :: behind)) := by
      rw [buffered'.data, parts]
    rw [stores_iff stores fun x mem => Within.length_lt placed.fits.within mem] at now
    obtain ⟨y, mem, k, has, rfl⟩ := now
    refine ⟨seqs first, ?_, ?_⟩
    · rw [sackList, idle, begun_list, head?_map, at_front]
      rfl
    · have first_mem : first ∈ listed := mem_of_mem_head? at_front
      rw [contains_iff (Within.length_lt listed_within first_mem)]
      refine ⟨k, holds k ?_, rfl⟩
      rcases placed.new_or_old mem with rfl | old
      · exact has
      · obtain ⟨old_low, old_within, -⟩ := buffered.exists_low
        refine absurd ?_ before_
        rw [stores_iff buffered.data fun x mem => Within.length_lt old_within mem]
        exact ⟨y, old, k, has, rfl⟩

theorem extractLoop_sackList {data : Segments} {b b' : TcpRxBuffer} {extractSize : Nat}
    {outPkt outPkt' : List UInt8}
    (done : TcpRxBuffer.extractLoop data b extractSize outPkt = some (b', outPkt')) :
    b'.sackList = b.sackList := by
  induction data generalizing b extractSize outPkt with
  | nil =>
    cases extractSize with
    | zero =>
      obtain ⟨rfl, -⟩ := by simpa [TcpRxBuffer.extractLoop] using done
      rfl
    | succ extractSize => cases done
  | cons entry rest ih =>
    cases extractSize with
    | zero =>
      obtain ⟨rfl, -⟩ := by simpa [TcpRxBuffer.extractLoop] using done
      rfl
    | succ extractSize =>
      unfold TcpRxBuffer.extractLoop at done
      split at done
      · have same := ih done
        exact same
      · cases done
        rfl

theorem extract_sackList {r' : TcpReceiver} {maxSize : Nat}
    (here : r.step stream (.extract maxSize) = some r') :
    r'.buffer.sackList = r.buffer.sackList := by
  obtain ⟨⟨b, packet⟩, done, eq⟩ := Option.bind_eq_some_iff.1 here
  cases eq
  unfold TcpRxBuffer.extract at done
  dsimp only at done
  split at done
  · cases done
    rfl
  · obtain ⟨⟨b', outPkt⟩, loop, eq⟩ := Option.bind_eq_some_iff.1 done
    cases eq
    exact extractLoop_sackList loop

/-- Comparable data that spares what is reported. -/
def Disciplined (stream : Stream) (r : TcpReceiver) (e : RxEvent) : Prop :=
  r.Orderly stream e ∧ r.Spares stream e

theorem Reports.step (reports : Reports stream r post blocks)
    (buffered : Buffered stream r pre post) {e : RxEvent} {r' : TcpReceiver}
    (disciplined : r.Disciplined stream e)
    (here : r.step stream e = some r') : Updated stream r r' e := by
  obtain ⟨orderly, spares⟩ := disciplined
  cases e with
  | add place length =>
    simp only [TcpReceiver.step, Option.ite_none_right_eq_some, Option.some.injEq] at here
    obtain ⟨⟨-, inside⟩, rfl⟩ := here
    exact reports.add buffered orderly inside spares
  | extract maxSize =>
    obtain ⟨next, pre', eq, kept⟩ := buffered.extract maxSize
    cases eq.symm.trans here
    refine ⟨⟨pre', post, blocks, kept, { reports with list := ?_ }⟩, by simp⟩
    rw [extract_sackList here]
    exact reports.list
  | setFinSequence =>
    cases finish : stream.finish with
    | none => simp [TcpReceiver.step, finish] at here
    | some last =>
      simp only [TcpReceiver.step, finish] at here
      cases here
      exact ⟨⟨pre, post, blocks, buffered.set_fin_sequence finish (orderly last finish),
        { reports with }⟩, by simp⟩
  | setMaxBufferSize s =>
    cases here
    exact ⟨⟨pre, post, blocks, { buffered with }, { reports with }⟩, by simp⟩

/-- **SACK list.** Along a run in which no segment behind RCV.NXT embeds a reported packet, each
event leaves a sound list, and a segment behind RCV.NXT one that begins with it. -/
theorem sackList_sound (stream : Stream) (enough : ∀ last ∈ stream.finish, stream.start ≤ last)
    {r r' : TcpReceiver} {e : RxEvent}
    (reaches : Machine.Reaches (fun r e => step stream r e) (fun r e => r.Disciplined stream e)
      (· = create stream) r)
    (disciplined : r.Disciplined stream e) (here : r.step stream e = some r') :
    r'.buffer.SackListSound ∧ ∀ place length, e = .add place length →
      (Serial.of place : SequenceNumber32).Gt r.buffer.nextRxSeq →
        r.buffer.NewestFirst r'.buffer := by
  have kept : ∃ pre post blocks, Buffered stream r pre post ∧ Reports stream r post blocks := by
    refine reaches.invariant
      (fun r => ∃ pre post blocks, Buffered stream r pre post ∧ Reports stream r post blocks) ?_ ?_
    · rintro r rfl
      exact ⟨[], [], [], .create stream enough, rfl, Nat.zero_le _, .nil, nofun, nofun⟩
    · rintro r e r' ⟨pre, post, blocks, buffered, reports⟩ disciplined here
      exact (reports.step buffered disciplined here).kept
  obtain ⟨pre, post, blocks, buffered, reports⟩ := kept
  obtain ⟨⟨pre', post', blocks', buffered', reports'⟩, newest⟩ :=
    reports.step buffered disciplined here
  exact ⟨reports'.sound buffered', newest⟩

def countStream : Stream := ⟨0, fun n => .ofNat n, none⟩

/-- Two bytes have arrived, three ahead. -/
def partAhead : TcpReceiver :=
  ⟨((create countStream).buffer.add (countStream.bytes 3 2) (.of 3)).1, []⟩

theorem partAhead_spares : partAhead.Spares countStream (.add 7 2) := by
  intro _ entry mem block _ _
  obtain rfl := List.mem_singleton.1 mem
  rintro ⟨⟨missing, le, lt, -⟩, -⟩
  have place : partAhead.firstPlace countStream (.of 3) = 3 := rfl
  have bound : missing < 3 := place ▸ lt
  omega

/-- Two more arrive further ahead, and are reported first. -/
theorem second_part_first : ∃ r' : TcpReceiver, partAhead.step countStream (.add 7 2) = some r' ∧
      r'.buffer.sackList = [(.of 7, .of 9), (.of 3, .of 5)] ∧ r'.buffer.SackListSound ∧
        partAhead.buffer.NewestFirst r'.buffer := by
  have first : Machine.Reaches (fun r e => step countStream r e)
      (fun r e => r.Disciplined countStream e) (· = create countStream) partAhead :=
    .next (e := .add 3 2) (.start rfl) ⟨by decide, fun _ => nofun⟩ rfl
  obtain ⟨sound, newest⟩ := sackList_sound countStream nofun first
    (e := .add 7 2) ⟨by decide, partAhead_spares⟩ rfl
  exact ⟨_, rfl, rfl, sound, newest 7 2 rfl (by decide)⟩

/-- A part arrives that embeds one that is reported. -/
theorem embedded_reported_twice : ∃ (stream : Stream) (r : TcpReceiver),
    Machine.Reaches (fun r e => step stream r e) (fun r e => r.Orderly stream e)
      (· = create stream) r ∧ ¬ r.buffer.SackListSound := by
  have check : ((Machine.runAllowed (fun r e => step countStream r e)
      (fun r e => r.Orderly countStream e) (create countStream) [.add 10 2, .add 8 6]).any
        fun r => decide (r.buffer.sackList = [(.of 8, .of 14), (.of 10, .of 12)])) = true := by
    decide
  rw [Option.any_eq_true] at check
  obtain ⟨r, run, check⟩ := check
  refine ⟨_, r, .of_runAllowed (.start rfl) run, fun sound => ?_⟩
  have apart := sound.apart
  rw [of_decide_eq_true check] at apart
  exact absurd apart (by decide)

end TcpReceiver

end Ns3.Internet
