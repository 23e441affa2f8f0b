import Ns3.Internet.TcpRxStored

/-!
# `Add` keeps the buffer a part of the stream

The buffer holds the bytes in sequence that were not extracted, and behind the
next missing byte some disjoint parts of the stream.
-/

namespace Ns3.Internet

open SequenceNumber32 NatInterval List TcpRxBuffer

/-- The SACK list with what `Add` stores. -/
def TcpRxBuffer.listed (b : TcpRxBuffer) (head tail : SequenceNumber32) : List SackBlock :=
  if head.Gt b.nextRxSeq then (b.updateSackList head tail).sackList else b.sackList

namespace TcpReceiver

variable (stream : Stream) (r : TcpReceiver)

/-- The place of the first byte that was not extracted. -/
def unread : Nat := stream.start + r.read.length

/-- The place after the bytes in sequence. -/
def inOrder : Nat := r.unread stream + r.buffer.availBytes

/-- RCV.NXT, which also counts a FIN in sequence. -/
def next : Nat :=
  r.inOrder stream + if r.buffer.gotFin ∧ stream.finish = some (r.inOrder stream) then 1 else 0

/-- The place of the first buffered byte, if there is one. -/
def firstPlace (front : SequenceNumber32) : Nat :=
  r.unread stream + front.sub (.of (r.unread stream))

/-- The sequence numbers that `Add` compares are less than half the sequence space apart:
the segment and RCV.NXT, and the end of the window (or the first buffered byte) and both. -/
structure Comparable (place length : Nat) : Prop where
  near : Serial.Near (2 ^ 31) place (r.next stream)
  stop_near : place + length < r.next stream + 2 ^ 31
  window : ∀ front ∈ r.buffer.data.head?,
    Serial.Near (2 ^ 31) (r.firstPlace stream front.1 + r.buffer.maxBuffer) (place + length) ∧
    r.next stream < r.firstPlace stream front.1 + r.buffer.maxBuffer + 2 ^ 31 ∧
    (2 ^ 31 ≤ r.buffer.maxBuffer → place + length < r.firstPlace stream front.1 + 2 ^ 31)

/-- The buffered data is `pre`, in sequence and not extracted, and `post` behind it. -/
structure Buffered (pre post : List NatInterval) : Prop where
  data : r.buffer.data = stream.stored (pre ++ post)
  chain : Chain (r.unread stream) pre (r.inOrder stream)
  later : ∀ x ∈ post, r.inOrder stream < x.start
  sorted : Sorted post
  filled : Filled (pre ++ post)
  span : ∀ x ∈ pre ++ post, ∀ y ∈ pre ++ post, y.stop < x.start + 2 ^ 31
  near : ∀ x ∈ pre ++ post, x.stop < r.inOrder stream + 2 ^ 31
  inside : ∀ x ∈ pre ++ post, ∀ last ∈ stream.finish, x.stop ≤ last
  size : r.buffer.size = total (pre ++ post)
  read : r.read = stream.bytes stream.start r.read.length
  finish_le : ∀ last ∈ stream.finish, r.inOrder stream ≤ last
  fin : r.buffer.gotFin = true →
    ∃ last ∈ stream.finish, r.buffer.finSeq = .of last ∧ last < r.inOrder stream + 2 ^ 32
  next : r.buffer.nextRxSeq = .of (r.next stream)

variable {stream r} {pre post : List NatInterval}

namespace Buffered

section

variable (buffered : Buffered stream r pre post)
include buffered

theorem sorted_all : Sorted (pre ++ post) := by
  refine pairwise_append.2 ⟨buffered.chain.sorted, buffered.sorted, ?_⟩
  intro x mem y mem'
  have bounds := buffered.chain.bounds mem
  have later := buffered.later y mem'
  omega

/-- Half the sequence space holds all that is buffered. -/
theorem exists_low : ∃ low, Within low (pre ++ post) ∧ low ≤ r.inOrder stream ∧
      r.inOrder stream < low + 2 ^ 31 ∧
      (low = r.inOrder stream ∨ ∃ x ∈ (pre ++ post).head?, low = x.start) := by
  have sorted := buffered.sorted_all
  have span := buffered.span
  have near := buffered.near
  have last : ∀ x, (pre ++ post).head? = some x → x.start ≤ r.inOrder stream →
      ∃ y ∈ pre ++ post, y.stop = r.inOrder stream := by
    intro x first in_order
    have chain := buffered.chain
    cases pre with
    | nil =>
      have behind := buffered.later x (mem_of_mem_head? first)
      omega
    | cons y ys =>
      obtain ⟨z, mem, stop⟩ := chain.exists_stop
      exact ⟨z, mem_append_left _ mem, stop⟩
  cases whole : pre ++ post with
  | nil => exact ⟨r.inOrder stream, nofun, le_rfl, by omega, .inl rfl⟩
  | cons x xs =>
    rw [whole] at sorted span near last
    have first : ∀ y ∈ x :: xs, x.start ≤ y.start := by
      intro y mem
      rcases mem_cons.1 mem with rfl | mem
      · exact le_rfl
      · have after := (pairwise_cons.1 sorted).1 y mem
        have le : x.start ≤ x.stop := Nat.le_add_right _ _
        omega
    by_cases behind : r.inOrder stream < x.start
    · refine ⟨r.inOrder stream, ?_, le_rfl, by omega, .inl rfl⟩
      intro y mem
      have le := first y mem
      exact ⟨by omega, near y mem⟩
    · refine ⟨x.start, ?_, by omega, ?_, .inr ⟨x, rfl, rfl⟩⟩
      · exact fun y mem => ⟨first y mem, span x mem_cons_self y mem⟩
      · obtain ⟨y, mem, stop⟩ := last x rfl (by omega)
        have near_first := span x mem_cons_self y mem
        omega

theorem inOrder_lt : r.inOrder stream < r.unread stream + 2 ^ 31 := by
  have chain := buffered.chain
  cases pre with
  | nil =>
    have empty : r.unread stream = r.inOrder stream := chain
    omega
  | cons x xs =>
    obtain ⟨y, mem, stop⟩ := chain.exists_stop
    have span := buffered.span x (mem_append_left _ mem_cons_self) y (mem_append_left _ mem)
    have start := chain.1
    omega

theorem unread_le {x : NatInterval} (mem : x ∈ pre ++ post) : r.unread stream ≤ x.start := by
  rcases mem_append.1 mem with in_order | behind
  · exact (buffered.chain.bounds in_order).1
  · have later := buffered.later x behind
    have le : r.unread stream ≤ r.inOrder stream := Nat.le_add_right _ _
    omega

theorem firstPlace_eq {x : NatInterval}
    (mem : x ∈ pre ++ post) : r.firstPlace stream (.of x.start) = x.start := by
  have le := buffered.unread_le mem
  have near := buffered.near x mem
  have in_order := buffered.inOrder_lt
  have start_le : x.start ≤ x.stop := Nat.le_add_right _ _
  have ahead : (Serial.of x.start : SequenceNumber32).sub (.of (r.unread stream)) =
      x.start - r.unread stream := Serial.of_sub_of le (by omega)
  rw [firstPlace, ahead]
  omega

end

/-- RCV.NXT counts the FIN when there is nothing left to come. -/
theorem next_eq {n : Nat} (next_le : r.next stream ≤ n)
    (inside : ∀ last ∈ stream.finish, n ≤ last) :
    r.next stream = r.inOrder stream := by
  by_cases finished : r.buffer.gotFin ∧ stream.finish = some (r.inOrder stream)
  · have le := inside _ finished.2
    rw [TcpReceiver.next, if_pos finished] at next_le
    omega
  · simp [TcpReceiver.next, if_neg finished]

theorem fitWindow_spec (buffered : Buffered stream r pre post) {place length : Nat}
    (comparable : r.Comparable stream place length)
    (inside : ∀ last ∈ stream.finish, place + length ≤ last) :
    (∃ headSeq tailSeq, Ge headSeq tailSeq ∧ removeOverlap r.buffer.data r.buffer.size
        (r.buffer.fitWindow (.of place) (.of (place + length))).1
        (r.buffer.fitWindow (.of place) (.of (place + length))).2 =
          ⟨r.buffer.data, r.buffer.size, headSeq, tailSeq⟩) ∨
    ∃ low head tail, r.buffer.fitWindow (.of place) (.of (place + length)) = (.of head, .of tail) ∧
      Within low (pre ++ post) ∧ low ≤ r.inOrder stream ∧ r.inOrder stream < low + 2 ^ 31 ∧
      head = max place (r.next stream) ∧ head ≤ tail ∧ tail ≤ place + length ∧
      tail < low + 2 ^ 31 ∧ ∀ front ∈ r.buffer.data.head?,
        tail ≤ r.firstPlace stream front.1 + r.buffer.maxBuffer := by
  obtain ⟨⟨place_lt, next_lt⟩, stop_lt, window⟩ := comparable
  have trim_head : (if Lt (.of place) r.buffer.nextRxSeq then r.buffer.nextRxSeq else .of place) =
      (.of (max place (r.next stream)) : SequenceNumber32) := by
    rw [buffered.next]
    split
    case isTrue before =>
      rw [lt_iff ⟨place_lt, next_lt⟩] at before
      rw [max_eq_right (le_of_lt before)]
    case isFalse not_before =>
      rw [lt_iff ⟨place_lt, next_lt⟩, not_lt] at not_before
      rw [max_eq_left not_before]
  obtain ⟨low, within, low_le, lt_low, which⟩ := buffered.exists_low
  have sorted := buffered.sorted_all
  have filled := buffered.filled
  have first := fun x mem => buffered.firstPlace_eq (x := x) mem
  rw [buffered.data] at *
  unfold fitWindow
  rw [trim_head, buffered.data]
  generalize whole : pre ++ post = all at *
  cases all with
  | nil =>
    obtain rfl : low = r.inOrder stream := by simpa using which
    by_cases le : max place (r.next stream) ≤ place + length
    · have next_le : r.next stream ≤ place + length := by omega
      have open_ := next_eq next_le inside
      exact .inr ⟨r.inOrder stream, _, _, rfl, by simp [Within], le_rfl, by omega, rfl,
        le, le_rfl, by omega, by simp⟩
    · refine .inl ⟨.of (max place (r.next stream)), .of (place + length), ?_, rfl⟩
      rw [ge_iff ⟨by omega, by omega⟩]
      omega
  | cons x xs =>
    have place_eq := first x mem_cons_self
    have window := window (.of x.start, stream.bytes x.start x.length) rfl
    rw [place_eq] at window
    obtain ⟨stop_near, next_near, wide⟩ := window
    simp only [stream.stored_cons, Serial.of_add, lt_iff stop_near]
    have trim_tail : (if x.start + r.buffer.maxBuffer < place + length then
        .of (x.start + r.buffer.maxBuffer) else .of (place + length)) =
        (.of (min (x.start + r.buffer.maxBuffer) (place + length)) : SequenceNumber32) := by
      split
      · rw [min_eq_left (by omega)]
      · rw [min_eq_right (by omega)]
    obtain ⟨window_lt, lt_window⟩ := stop_near
    rw [trim_tail]
    generalize tail_eq : min (x.start + r.buffer.maxBuffer) (place + length) = tail
    have tail_near : Serial.Near (2 ^ 31) tail (max place (r.next stream)) := ⟨by omega, by omega⟩
    by_cases none : tail < max place (r.next stream)
    · rw [if_pos ((lt_iff tail_near).2 none)]
      obtain ⟨headSeq, tailSeq, ge, eq⟩ :=
        removeOverlap_point stream within sorted filled r.buffer.size (.of tail)
      exact .inl ⟨headSeq, tailSeq, ge, eq⟩
    · have not_lt : ¬ Lt (Serial.of tail : SequenceNumber32) (.of (max place (r.next stream))) := by
        rw [lt_iff tail_near]
        exact none
      rw [if_neg not_lt]
      refine .inr ⟨low, _, _, rfl, within, low_le, lt_low, rfl, by omega, by omega, ?_, ?_⟩
      case refine_2 =>
        rintro front ⟨⟩
        dsimp only
        omega
      have next_le : r.next stream ≤ place + length := by omega
      have open_ := next_eq next_le inside
      rcases which with rfl | ⟨y, first_y, rfl⟩
      · omega
      · obtain rfl : x = y := Option.some.inj first_y
        by_cases big : 2 ^ 31 ≤ r.buffer.maxBuffer
        · have stop_lt := wide big
          omega
        · omega

theorem add_nothing {b : TcpRxBuffer} {p : List UInt8} {seq headSeq tailSeq : SequenceNumber32}
    (trimmed : removeOverlap b.data b.size (b.fitWindow seq (seq.add p.length)).1
      (b.fitWindow seq (seq.add p.length)).2 = ⟨b.data, b.size, headSeq, tailSeq⟩)
    (nothing : Ge headSeq tailSeq) : (b.add p seq).1 = b := by
  rw [add]
  dsimp only
  rw [trimmed, if_pos nothing]

theorem add_something {b : TcpRxBuffer} {p : List UInt8} {seq : SequenceNumber32}
    {t : Trimmed}
    (trimmed : removeOverlap b.data b.size (b.fitWindow seq (seq.add p.length)).1
      (b.fitWindow seq (seq.add p.length)).2 = t)
    (something : ¬ Ge t.headSeq t.tailSeq) {left : List UInt8} {data : Segments}
    (left_eq : createFragment p (t.headSeq.sub seq) (t.tailSeq.sub t.headSeq) = left)
    (data_eq : Segments.assign t.headSeq left t.data = data) :
    ∃ moved, moved = advance data
        { b with
          data
          size := add32 t.size left.length
          sackList := b.listed t.headSeq t.tailSeq } ∧
      (b.add p seq).1 = if moved.gotFin ∧ moved.nextRxSeq = moved.finSeq then
          { moved with nextRxSeq := moved.nextRxSeq.add 1 }
        else moved := by
  rw [add]
  dsimp only
  rw [trimmed, if_neg something, left_eq, data_eq]
  unfold listed
  by_cases behind : t.headSeq.Gt b.nextRxSeq
  · rw [if_pos behind, if_pos behind]
    exact ⟨_, rfl, rfl⟩
  · rw [if_neg behind, if_neg behind]
    exact ⟨_, rfl, rfl⟩

/-- What is left of a segment fits between the buffered packets. -/
structure Fits (stream : Stream) (r : TcpReceiver) (pre post' : List NatInterval) (low : Nat) :
    Prop where
  within : Within low (pre ++ post')
  low_le : low ≤ r.inOrder stream
  lt_low : r.inOrder stream < low + 2 ^ 31
  sorted : Sorted post'
  filled : Filled (pre ++ post')
  near : ∀ x ∈ pre ++ post', x.stop < r.inOrder stream + 2 ^ 31
  inside : ∀ x ∈ pre ++ post', ∀ last ∈ stream.finish, x.stop ≤ last
  from_next : ∀ x ∈ post', r.inOrder stream ≤ x.start

/-- With the new packet in the map, what is in sequence now is counted. -/
theorem advanced (buffered : Buffered stream r pre post) {post' : List NatInterval} {low : Nat}
    (fits : Fits stream r pre post' low) (open_ : r.next stream = r.inOrder stream)
    {sackList : List SackBlock} {begun moved b : TcpRxBuffer}
    (begun_eq : begun = { r.buffer with
      data := stream.stored (pre ++ post'), size := total (pre ++ post'), sackList })
    (moved_eq : moved = advance (stream.stored (pre ++ post')) begun)
    (b_eq : b = if moved.gotFin ∧ moved.nextRxSeq = moved.finSeq then
        { moved with nextRxSeq := moved.nextRxSeq.add 1 }
      else moved) :
    ∃ pre' rest, Buffered stream { r with buffer := b } pre' rest ∧ pre' ++ rest = pre ++ post' ∧
      moved.nextRxSeq = .of (TcpReceiver.inOrder stream { r with buffer := b }) := by
  obtain ⟨within, low_le, lt_low, sorted, filled, near, inside, from_next⟩ := fits
  obtain ⟨run, rest, stop, rfl, chain, after⟩ := sorted.chain_front
    (fun x mem => filled x (mem_append_right _ mem)) from_next
  have stop_eq := chain.total_eq
  have stop_cases : stop = r.inOrder stream ∨ ∃ x ∈ run, x.stop = stop := by
    cases run with
    | nil => exact .inl chain.symm
    | cons x xs => exact .inr chain.exists_stop
  have mem_run : ∀ x ∈ run, x ∈ pre ++ (run ++ rest) := fun x mem =>
    mem_append_right _ (mem_append_left _ mem)
  have mem_rest : ∀ x ∈ rest, x ∈ pre ++ (run ++ rest) := fun x mem =>
    mem_append_right _ (mem_append_right _ mem)
  have stop_near : low ≤ stop ∧ stop < low + 2 ^ 31 := by
    rcases stop_cases with same | ⟨x, mem, rfl⟩
    · omega
    · have bounds := within x (mem_run x mem)
      exact ⟨by omega, bounds.2⟩
  have stop_le : ∀ last ∈ stream.finish, stop ≤ last := by
    intro last finish
    rcases stop_cases with rfl | ⟨x, mem, rfl⟩
    · exact buffered.finish_le last finish
    · exact inside x (mem_run x mem) last finish
  have in_order : r.unread stream + r.buffer.availBytes = r.inOrder stream := rfl
  -- The loop passes over what was in sequence, counts the new part and stops behind it.
  have pre_before : ∀ x ∈ pre, x.start < r.inOrder stream := by
    intro x mem
    have bounds := buffered.chain.bounds mem
    have x_filled := filled.stop_pos (mem_append_left _ mem)
    omega
  have counted : ∃ sackList', moved = { r.buffer with
      data := stream.stored (pre ++ (run ++ rest))
      size := total (pre ++ (run ++ rest))
      sackList := sackList'
      nextRxSeq := .of stop
      availBytes := r.buffer.availBytes + total run } := by
    have within_pre : Within low pre := fun x mem => within x (mem_append_left _ mem)
    have within_rest : Within low rest := fun x mem => within x (mem_rest x mem)
    have next_here : begun.nextRxSeq = .of (r.inOrder stream) := by
      rw [begun_eq, ← open_]
      exact buffered.next
    have low_unread : low ≤ r.unread stream := by
      have chain := buffered.chain
      cases pre with
      | nil =>
        have empty : r.unread stream = r.inOrder stream := chain
        omega
      | cons x xs =>
        have bound := within_pre x mem_cons_self
        have start := chain.1
        omega
    have avail_eq : begun.availBytes = r.buffer.availBytes := by rw [begun_eq]
    obtain ⟨sackList', eq⟩ := advance_chain (stream.stored rest) chain next_here (by omega)
    refine ⟨sackList', ?_⟩
    rw [moved_eq, stream.stored_append pre,
      advance_before _ within_pre ⟨low_le, lt_low⟩ next_here pre_before, stream.stored_append run,
      eq, advance_after within_rest stop_near rfl after, begun_eq]
    simp
  obtain ⟨sackList', counted⟩ := counted
  have stored : b = { r.buffer with
      data := stream.stored (pre ++ (run ++ rest))
      size := total (pre ++ (run ++ rest))
      sackList := sackList'
      nextRxSeq := .of (stop + if r.buffer.gotFin ∧ stream.finish = some stop then 1 else 0)
      availBytes := r.buffer.availBytes + total run } := by
    rw [b_eq, counted]
    by_cases finished : r.buffer.gotFin ∧ stream.finish = some stop
    · obtain ⟨last, finish, finSeq, -⟩ := buffered.fin finished.1
      obtain rfl : stop = last := Option.some.inj (finished.2.symm.trans finish)
      rw [if_pos finished, if_pos ⟨finished.1, finSeq.symm⟩, Serial.of_add]
    · rw [if_neg finished, if_neg, add_zero]
      rintro ⟨got, same⟩
      obtain ⟨last, finish, finSeq, last_lt⟩ := buffered.fin got
      have le := stop_le last finish
      have equal : stop = last := (eq_iff (by omega) (by omega)).1 (same.trans finSeq)
      exact finished ⟨got, equal ▸ finish⟩
  have in_order' : TcpReceiver.inOrder stream { r with buffer := b } = stop := by
    rw [stored, TcpReceiver.inOrder, TcpReceiver.unread]
    unfold TcpReceiver.unread at in_order
    dsimp only
    omega
  refine ⟨pre ++ run, rest, ?_, append_assoc _ _ _, by rw [in_order', counted]⟩
  have next' : TcpReceiver.next stream { r with buffer := b } =
      stop + if r.buffer.gotFin ∧ stream.finish = some stop then 1 else 0 := by
    rw [TcpReceiver.next, in_order', stored]
  constructor
  case data => rw [stored, append_assoc]
  case chain =>
    rw [in_order']
    exact buffered.chain.append chain
  case later =>
    rw [in_order']
    exact after
  case sorted => exact (pairwise_append.1 sorted).2.1
  case filled =>
    rw [append_assoc]
    exact filled
  case span =>
    rw [append_assoc]
    intro x mem y mem'
    have x_bounds := within x mem
    have y_bounds := within y mem'
    omega
  case near =>
    rw [append_assoc, in_order']
    intro x mem
    have bound := near x mem
    omega
  case inside =>
    rw [append_assoc]
    exact inside
  case size => rw [stored, append_assoc]
  case read => exact buffered.read
  case finish_le =>
    rw [in_order']
    exact stop_le
  case fin =>
    rw [in_order', stored]
    intro got
    obtain ⟨last, finish, finSeq, last_lt⟩ := buffered.fin got
    exact ⟨last, finish, finSeq, by omega⟩
  case next => rw [next', stored]

/-- What is left of a segment is stored as `new`, and `mid` is erased because it is embedded
in the segment. -/
structure Placed (stream : Stream) (r : TcpReceiver) (pre post : List NatInterval)
    (place length : Nat) (before mid behind : List NatInterval) (new : NatInterval) (low : Nat) :
    Prop where
  post_eq : post = before ++ (mid ++ behind)
  fits : Fits stream r pre (before ++ new :: behind) low
  open_ : r.next stream = r.inOrder stream
  from_place : place ≤ new.start
  in_sequence : place ≤ r.next stream → new.start = r.next stream
  covered : ∀ x ∈ mid, new.start < x.start ∧ x.stop ≤ new.stop ∧ x.stop < place + length ∧
    ∀ front ∈ r.buffer.data.head?, x.stop < r.firstPlace stream front.1 + r.buffer.maxBuffer
  added : ∃ moved, moved = advance (stream.stored (pre ++ (before ++ new :: behind)))
      { r.buffer with
        data := stream.stored (pre ++ (before ++ new :: behind))
        size := total (pre ++ (before ++ new :: behind))
        sackList := r.buffer.listed (.of new.start) (.of new.stop) } ∧
    (r.buffer.add (stream.bytes place length) (.of place)).1 =
      if moved.gotFin ∧ moved.nextRxSeq = moved.finSeq then
        { moved with nextRxSeq := moved.nextRxSeq.add 1 }
      else moved

/-- `Add` changes nothing or stores what is left of the segment. -/
theorem add_cases (buffered : Buffered stream r pre post) {place length : Nat}
    (comparable : r.Comparable stream place length)
    (inside : ∀ last ∈ stream.finish, place + length ≤ last) :
    (r.buffer.add (stream.bytes place length) (.of place)).1 = r.buffer ∨
      ∃ before mid behind new low,
        Placed stream r pre post place length before mid behind new low := by
  have stop_seq : (Serial.of place : SequenceNumber32).add (stream.bytes place length).length =
      .of (place + length) := by rw [stream.bytes_length, Serial.of_add]
  obtain ⟨place_lt, next_lt⟩ := comparable.near
  have stop_lt := comparable.stop_near
  rcases buffered.fitWindow_spec comparable inside with
    ⟨headSeq, tailSeq, ge, eq⟩ | ⟨low, head, tail, fits, within, low_le, lt_low, head_eq, head_le,
      tail_le, tail_lt, window⟩
  · rw [← stop_seq] at eq
    exact .inl (add_nothing eq ge)
  have place_le : place ≤ head := head_eq ▸ le_max_left _ _
  have next_le : r.next stream ≤ head := head_eq ▸ le_max_right _ _
  have open_ : r.next stream = r.inOrder stream := by
    refine next_eq (n := place + length) (by omega) inside
  have size_small : total (pre ++ post) < 2 ^ 32 := by
    have bound := buffered.sorted_all.total_le low (low + 2 ^ 31) (by omega)
      fun x mem => ⟨(within x mem).1, le_of_lt (within x mem).2⟩
    omega
  have pre_stop : ∀ x ∈ pre, x.stop ≤ head := by
    intro x mem
    have bounds := buffered.chain.bounds mem
    omega
  have filled_post : Filled post := fun x mem => buffered.filled x (mem_append_right _ mem)
  have overlap := removeOverlap_stored stream within 0 head tail (by omega)
    ⟨by omega, by omega⟩ ⟨by omega, tail_lt⟩
  rw [zero_add, zero_add, cut_append head_le pre_stop] at overlap
  have trimmed : removeOverlap r.buffer.data r.buffer.size
      (r.buffer.fitWindow (.of place) ((Serial.of place).add (stream.bytes place length).length)).1
      (r.buffer.fitWindow (.of place)
        ((Serial.of place).add (stream.bytes place length).length)).2 =
      ⟨stream.stored (pre ++ (cut post head tail).1), total (pre ++ (cut post head tail).1),
        .of (cut post head tail).2.1, .of (cut post head tail).2.2⟩ := by
    rw [stop_seq, fits, buffered.data, buffered.size]
    exact overlap
  obtain ⟨head_end, tail_end⟩ := cut_ends post head tail
  rcases cut_spec buffered.sorted filled_post head_le with ⟨head', tail', eq, none⟩ |
    ⟨before, mid, behind, head', tail', rfl, eq, head_le', something, tail_le', before_le, covered,
      behind_le⟩
  · rw [eq] at trimmed head_end tail_end
    dsimp only at trimmed head_end tail_end
    have head_window : low ≤ head' ∧ head' < low + 2 ^ 31 := by
      rcases head_end with rfl | ⟨x, mem, rfl⟩
      · omega
      · have bounds := within x (mem_append_right _ mem)
        have le : x.start ≤ x.stop := Nat.le_add_right _ _
        exact ⟨by omega, bounds.2⟩
    have tail_window : low ≤ tail' ∧ tail' < low + 2 ^ 31 := by
      rcases tail_end with rfl | ⟨x, mem, rfl⟩
      · omega
      · have bounds := within x (mem_append_right _ mem)
        have le : x.start ≤ x.stop := Nat.le_add_right _ _
        exact ⟨bounds.1, by omega⟩
    have ge : Ge (Serial.of head' : SequenceNumber32) (.of tail') := by
      rw [ge_iff ⟨by omega, by omega⟩]
      exact none
    rw [← buffered.data, ← buffered.size] at trimmed
    exact .inl (add_nothing trimmed ge)
  rw [eq] at trimmed
  -- The new packet goes between the packets before it and those behind it.
  let new : NatInterval := ⟨head', tail' - head'⟩
  have new_stop : new.stop = tail' := Nat.add_sub_cancel' (le_of_lt something)
  have keep : ∀ x, x ∈ pre ++ (before ++ new :: behind) →
      x = new ∨ x ∈ pre ++ (before ++ (mid ++ behind)) := by
    intro x mem
    simp only [mem_append, mem_cons] at mem ⊢
    tauto
  have within_keep : Within low ((pre ++ before) ++ behind) := by
    intro x mem
    refine within x ?_
    simp only [mem_append] at mem ⊢
    tauto
  have not_ge : ¬ Ge (Serial.of head' : SequenceNumber32) (.of tail') := by
    rw [ge_iff ⟨by omega, by omega⟩]
    omega
  have left_eq : createFragment (stream.bytes place length)
      ((Serial.of head' : SequenceNumber32).sub (.of place))
      ((Serial.of tail' : SequenceNumber32).sub (.of head')) =
        stream.bytes head' (tail' - head') := by
    rw [Serial.of_sub_of (by omega) (by omega), Serial.of_sub_of (by omega) (by omega),
      createFragment_bytes stream (by omega) (by omega),
      Nat.add_sub_cancel' (le_trans place_le head_le')]
  have data_eq : Segments.assign (.of head') (stream.bytes head' (tail' - head'))
      (stream.stored (pre ++ (before ++ behind))) =
        stream.stored (pre ++ (before ++ new :: behind)) := by
    have all_before : ∀ x ∈ pre ++ before, x.start < head' := by
      intro x mem
      have x_stop : x.stop ≤ head' := by
        rcases mem_append.1 mem with in_pre | in_before
        · exact le_trans (pre_stop x in_pre) head_le'
        · exact before_le x in_before
      have x_mem : x ∈ pre ++ (before ++ (mid ++ behind)) := by
        simp only [mem_append] at mem ⊢
        tauto
      have x_filled := buffered.filled.stop_pos x_mem
      omega
    have all_behind : ∀ x ∈ behind, head' < x.start := by
      intro x mem
      have le := behind_le x mem
      omega
    have placed := assign_stored stream (pre ++ before) behind
      (stream.bytes head' (tail' - head')) within_keep ⟨by omega, by omega⟩ all_before all_behind
    simpa [new] using placed
  obtain ⟨moved, moved_eq, add_eq⟩ := add_something trimmed not_ge left_eq data_eq
  have sorted_keep : Sorted (before ++ behind) := buffered.sorted.sublist
    ((sublist_append_right mid behind).append_left before)
  have sorted_new : Sorted (before ++ new :: behind) := by
    obtain ⟨sorted_before, sorted_behind, across⟩ := pairwise_append.1 sorted_keep
    refine pairwise_append.2 ⟨sorted_before, pairwise_cons.2 ⟨?_, sorted_behind⟩, ?_⟩
    · rw [new_stop]
      exact behind_le
    · intro x mem y mem'
      rcases mem_cons.1 mem' with rfl | mem'
      · exact before_le x mem
      · exact across x mem y mem'
  have new_within : low ≤ new.start ∧ new.stop < low + 2 ^ 31 := by
    rw [new_stop]
    exact ⟨le_trans (by omega) head_le', by omega⟩
  have fits' : Fits stream r pre (before ++ new :: behind) low := by
    constructor
    case within =>
      intro x mem
      rcases keep x mem with rfl | old
      · exact new_within
      · exact within x old
    case low_le => exact low_le
    case lt_low => exact lt_low
    case sorted => exact sorted_new
    case filled =>
      intro x mem
      rcases keep x mem with rfl | old
      · exact Nat.sub_pos_of_lt something
      · exact buffered.filled x old
    case near =>
      intro x mem
      rcases keep x mem with rfl | old
      · rw [new_stop]
        omega
      · exact buffered.near x old
    case inside =>
      intro x mem last finish
      rcases keep x mem with rfl | old
      · rw [new_stop]
        exact le_trans (le_trans tail_le' tail_le) (inside last finish)
      · exact buffered.inside x old last finish
    case from_next =>
      intro x mem
      have old_after : ∀ y ∈ before ++ (mid ++ behind), r.inOrder stream ≤ y.start :=
        fun y mem => le_of_lt (buffered.later y mem)
      simp only [mem_append, mem_cons] at mem old_after
      rcases mem with in_before | rfl | in_behind
      · exact old_after x (.inl in_before)
      · exact le_trans (open_ ▸ next_le) head_le'
      · exact old_after x (.inr (.inr in_behind))
  have total_new : add32 (total (pre ++ (before ++ behind)))
      (stream.bytes head' (tail' - head')).length = total (pre ++ (before ++ new :: behind)) := by
    have sum : total (pre ++ (before ++ behind)) + (tail' - head') =
        total (pre ++ (before ++ new :: behind)) := by
      simp only [total_append, total_cons, new]
      omega
    have sorted_all : Sorted (pre ++ (before ++ new :: behind)) := by
      refine pairwise_append.2 ⟨buffered.chain.sorted, sorted_new, ?_⟩
      intro x mem y mem'
      exact le_trans (buffered.chain.bounds mem).2 (fits'.from_next y mem')
    have bound := sorted_all.total_le low (low + 2 ^ 31) (by omega)
      fun x mem => ⟨(fits'.within x mem).1, le_of_lt (fits'.within x mem).2⟩
    rw [stream.bytes_length, add32_eq (by omega)]
    exact sum
  rw [total_new, ← new_stop] at moved_eq
  refine .inr ⟨before, mid, behind, new, low, rfl, fits', open_, le_trans place_le head_le', ?_,
    ?_, moved, moved_eq, add_eq⟩
  · intro place_next
    have head_next : head = r.next stream := head_eq.trans (max_eq_right place_next)
    obtain ⟨_, _, tail'', _, eq', _⟩ := @cut_after _ head tail buffered.sorted filled_post
      fun x mem => by
        rw [head_next, open_]
        exact buffered.later x mem
    have same : head' = head := congrArg (fun result => result.2.1) (eq.symm.trans eq')
    exact same.trans head_next
  · intro x mem
    obtain ⟨after, le⟩ := covered x mem
    have gone : x ∉ (cut (before ++ (mid ++ behind)) head tail).1 := by
      rw [eq]
      intro mem'
      have x_filled := filled_post.stop_pos (mem_append_right before (mem_append_left behind mem))
      rcases mem_append.1 mem' with in_before | in_behind
      · have stop_le := before_le x in_before
        omega
      · have start_le := behind_le x in_behind
        omega
    have erased := cut_erased (mem_append_right before (mem_append_left behind mem)) gone
    refine ⟨after, by rw [new_stop]; exact le, by omega, fun front first => ?_⟩
    exact lt_of_lt_of_le erased (window front first)

/-- **`Add`.** -/
theorem add (buffered : Buffered stream r pre post) {place length : Nat}
    (comparable : r.Comparable stream place length)
    (inside : ∀ last ∈ stream.finish, place + length ≤ last) :
    ∃ pre' post', Buffered stream
      { r with buffer := (r.buffer.add (stream.bytes place length) (.of place)).1 } pre' post' := by
  rcases buffered.add_cases comparable inside with same | ⟨before, mid, behind, new, low, placed⟩
  · rw [same]
    exact ⟨pre, post, buffered⟩
  · obtain ⟨moved, moved_eq, add_eq⟩ := placed.added
    obtain ⟨pre', post', buffered', -⟩ :=
      buffered.advanced placed.fits placed.open_ rfl moved_eq add_eq
    exact ⟨pre', post', buffered'⟩

end Buffered

end TcpReceiver

end Ns3.Internet
