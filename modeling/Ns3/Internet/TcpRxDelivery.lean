import Ns3.Internet.TcpRxAdd
import Ns3.Library.Machine

/-!
# The receiver delivers the stream

`Extract` takes the front of what is in sequence. In any run whose segments can
be compared with what is buffered, the bytes that come out are the stream's.
-/

namespace Ns3.Internet

open SequenceNumber32 NatInterval

theorem extractLoop_stored (stream : Stream) {pre post : List NatInterval} {low a stop k : Nat}
    (chain : Chain a pre stop) (le : a + k ≤ stop) (filled : Filled pre)
    (within : Within low (pre ++ post)) (behind : ∀ x ∈ post, stop ≤ x.start)
    (small : total (pre ++ post) < 2 ^ 32) {b : TcpRxBuffer}
    (size_eq : b.size = total (pre ++ post)) (avail : b.availBytes = stop - a)
    (outPkt : List UInt8) :
    ∃ pre', Chain (a + k) pre' stop ∧
      (∀ y ∈ pre', 0 < y.length ∧ ∃ x ∈ pre, x.start ≤ y.start ∧ y.stop = x.stop) ∧
      TcpRxBuffer.extractLoop (stream.stored (pre ++ post)) b k outPkt = some ({ b with
          data := stream.stored (pre' ++ post)
          size := total (pre' ++ post)
          availBytes := stop - (a + k) }, outPkt ++ stream.bytes a k) := by
  induction pre generalizing a k b outPkt with
  | nil =>
    have empty : a = stop := chain
    obtain rfl : k = 0 := by omega
    refine ⟨[], chain, nofun, ?_⟩
    rw [TcpRxBuffer.extractLoop, add_zero, ← size_eq, ← avail]
    simp [Stream.bytes]
  | cons x xs ih =>
    cases k with
    | zero =>
      refine ⟨x :: xs, chain, fun y mem => ⟨filled y mem, y, mem, le_rfl, rfl⟩, ?_⟩
      rw [TcpRxBuffer.extractLoop, add_zero, ← size_eq, ← avail]
      simp [Stream.bytes]
    | succ k =>
      obtain ⟨rfl, rest⟩ := chain
      have x_filled := filled.stop_pos List.mem_cons_self
      have stop_eq : x.start + x.length = x.stop := rfl
      have rest_le := rest.total_eq
      have sum := total_append xs post
      rw [List.cons_append, total_cons] at small
      rw [List.cons_append, stream.stored_cons, TcpRxBuffer.extractLoop, stream.bytes_length]
      have within_rest : Within low (xs ++ post) := by
        rw [List.cons_append] at within
        exact within.tail
      by_cases whole : x.length ≤ k + 1
      · rw [if_pos whole]
        have size_rest : sub32 b.size x.length = total (xs ++ post) := by
          rw [size_eq, List.cons_append, total_cons, sub32_eq (by omega) (by omega),
            Nat.add_sub_cancel_left]
        have avail_rest : sub32 b.availBytes x.length = stop - x.stop := by
          rw [avail, sub32_eq (by omega) (by omega)]
          omega
        obtain ⟨pre', chain', origin, eq⟩ := ih (k := k + 1 - x.length) rest (by omega)
          (fun y mem => filled y (List.mem_cons_of_mem _ mem)) within_rest (by omega)
          (b := { b with
            size := sub32 b.size x.length
            availBytes := sub32 b.availBytes x.length }) size_rest avail_rest
          (outPkt ++ stream.bytes x.start x.length)
        have moved : x.stop + (k + 1 - x.length) = x.start + (k + 1) := by omega
        rw [moved] at chain' eq
        refine ⟨pre', chain', ?_, ?_⟩
        · intro y mem
          obtain ⟨pos, z, z_mem, start_le, same⟩ := origin y mem
          exact ⟨pos, z, List.mem_cons_of_mem _ z_mem, start_le, same⟩
        · rw [eq, List.append_assoc, ← stop_eq, stream.bytes_append, Nat.add_sub_cancel' whole]
      · rw [if_neg whole]
        have left_eq : createFragment (stream.bytes x.start x.length) (k + 1)
            (x.length - (k + 1)) = stream.bytes (x.start + (k + 1)) (x.length - (k + 1)) :=
          createFragment_bytes stream (by omega) (by omega)
        have out_eq : createFragment (stream.bytes x.start x.length) 0 (k + 1) =
            stream.bytes x.start (k + 1) := createFragment_bytes stream (by omega) (by omega)
        have x_bounds := within x List.mem_cons_self
        have after : ∀ y ∈ xs ++ post, x.start + (k + 1) < y.start := by
          intro y mem
          rcases List.mem_append.1 mem with in_rest | in_post
          · have bounds := rest.bounds in_rest
            omega
          · have bound := behind y in_post
            omega
        have placed := assign_stored stream [x] (xs ++ post)
          (stream.bytes (x.start + (k + 1)) (x.length - (k + 1))) within
          (n := x.start + (k + 1)) ⟨by omega, by omega⟩ (by simp) after
        let left : NatInterval := ⟨x.start + (k + 1), x.length - (k + 1)⟩
        have left_stop : left.stop = x.stop := by
          unfold NatInterval.stop
          dsimp only [left]
          omega
        refine ⟨left :: xs, ⟨rfl, left_stop ▸ rest⟩, ?_, ?_⟩
        · intro y mem
          rcases List.mem_cons.1 mem with rfl | mem
          · exact ⟨Nat.sub_pos_of_lt (by omega), x, List.mem_cons_self, Nat.le_add_right _ _,
              left_stop⟩
          · exact ⟨filled y (List.mem_cons_of_mem _ mem), y, List.mem_cons_of_mem _ mem,
              le_rfl, rfl⟩
        · have size_left : sub32 b.size (k + 1) = total (left :: xs ++ post) := by
            rw [size_eq, List.cons_append, List.cons_append, total_cons, total_cons,
              sub32_eq (by omega) (by omega)]
            dsimp only [left]
            omega
          have avail_left : sub32 b.availBytes (k + 1) = stop - (x.start + (k + 1)) := by
            rw [avail, sub32_eq (by omega) (by omega)]
            omega
          rw [left_eq, out_eq, Serial.of_add, size_left, avail_left]
          rw [List.cons_append, stream.stored_cons, List.nil_append] at placed
          dsimp only
          rw [placed]
          simp [Segments.eraseKey, left]

namespace TcpReceiver

variable {stream : Stream} {r : TcpReceiver} {pre post : List NatInterval}

namespace Buffered

section

variable (buffered : Buffered stream r pre post)
include buffered

theorem total_small : total (pre ++ post) < 2 ^ 32 := by
  obtain ⟨low, within, -⟩ := buffered.exists_low
  have bound := buffered.sorted_all.total_le low (low + 2 ^ 31) (by omega)
    fun x mem => ⟨(within x mem).1, le_of_lt (within x mem).2⟩
  omega

/-- **`Extract`.** It succeeds, and what it returns is the next part of the stream. -/
theorem extract (maxSize : Nat) :
    ∃ r' pre', r.step stream (.extract maxSize) = some r' ∧ Buffered stream r' pre' post := by
  generalize size_eq : min maxSize r.buffer.availBytes = k
  have in_order : r.unread stream + r.buffer.availBytes = r.inOrder stream := rfl
  by_cases none : k = 0
  · refine ⟨r, pre, ?_, buffered⟩
    rw [step, TcpRxBuffer.extract, size_eq, if_pos none]
    simp
  obtain ⟨low, within, -⟩ := buffered.exists_low
  obtain ⟨pre', chain, origin, eq⟩ := extractLoop_stored stream buffered.chain
    (k := k) (by omega) (fun x mem => buffered.filled x (List.mem_append_left _ mem)) within
    (fun x mem => le_of_lt (buffered.later x mem)) buffered.total_small buffered.size
    (by omega) []
  rw [List.nil_append] at eq
  have some_bytes : stream.bytes (r.unread stream) k ≠ [] := by
    rw [ne_eq, stream.bytes_eq_nil]
    exact none
  have step_eq : r.step stream (.extract maxSize) = some ⟨{ r.buffer with
        data := stream.stored (pre' ++ post)
        size := total (pre' ++ post)
        availBytes := r.inOrder stream - (r.unread stream + k) },
        r.read ++ stream.bytes (r.unread stream) k⟩ := by
    rw [step, TcpRxBuffer.extract, size_eq, if_neg none, buffered.data, eq]
    simp [some_bytes]
  refine ⟨_, pre', step_eq, ?_⟩
  generalize next_eq : TcpReceiver.mk _ _ = r'
  have length_eq : r'.read.length = r.read.length + k := by
    rw [← next_eq]
    simp [stream.bytes_length]
  have unread_eq : r'.unread stream = r.unread stream + k := by
    unfold unread
    rw [length_eq, add_assoc]
  have in_order_eq : r'.inOrder stream = r.inOrder stream := by
    have avail_eq : r'.buffer.availBytes = r.inOrder stream - (r.unread stream + k) := by
      rw [← next_eq]
    rw [TcpReceiver.inOrder, unread_eq, avail_eq]
    omega
  have from_old : ∀ y ∈ pre' ++ post, ∃ x ∈ pre ++ post,
      0 < y.length ∧ x.start ≤ y.start ∧ y.stop = x.stop := by
    intro y mem
    rcases List.mem_append.1 mem with left | right
    · obtain ⟨pos, x, x_mem, le, same⟩ := origin y left
      exact ⟨x, List.mem_append_left _ x_mem, pos, le, same⟩
    · have mem' := List.mem_append_right pre right
      exact ⟨y, mem', buffered.filled y mem', le_rfl, rfl⟩
  constructor
  case data => rw [← next_eq]
  case chain => rw [unread_eq, in_order_eq]; exact chain
  case later => rw [in_order_eq]; exact buffered.later
  case sorted => exact buffered.sorted
  case filled =>
    intro y mem
    obtain ⟨x, -, pos, -⟩ := from_old y mem
    exact pos
  case span =>
    intro x mem y mem'
    obtain ⟨x', x_mem, -, x_le, -⟩ := from_old x mem
    obtain ⟨y', y_mem, -, -, y_stop⟩ := from_old y mem'
    have span := buffered.span x' x_mem y' y_mem
    omega
  case near =>
    intro y mem
    obtain ⟨x, x_mem, -, -, same⟩ := from_old y mem
    rw [in_order_eq, same]
    exact buffered.near x x_mem
  case inside =>
    intro y mem
    obtain ⟨x, x_mem, -, -, same⟩ := from_old y mem
    rw [same]
    exact buffered.inside x x_mem
  case size => rw [← next_eq]
  case read =>
    rw [length_eq, ← stream.bytes_append, ← buffered.read, ← next_eq]
    rfl
  case finish_le => rw [in_order_eq]; exact buffered.finish_le
  case fin =>
    rw [in_order_eq, ← next_eq]
    exact buffered.fin
  case next =>
    have next_same : r'.next stream = r.next stream := by
      unfold TcpReceiver.next
      rw [in_order_eq, ← next_eq]
    rw [next_same, ← next_eq]
    exact buffered.next

theorem set_fin_sequence {last : Nat}
    (finish : stream.finish = some last) (near : last < r.inOrder stream + 2 ^ 32) :
    Buffered stream { r with buffer := r.buffer.setFinSequence (.of last) } pre post := by
  have le := buffered.finish_le last finish
  have next_seq : (r.buffer.setFinSequence (.of last)).nextRxSeq =
      .of (r.inOrder stream + if stream.finish = some (r.inOrder stream) then 1 else 0) := by
    rw [TcpRxBuffer.setFinSequence, buffered.next, TcpReceiver.next]
    by_cases here : r.inOrder stream = last
    · subst here
      rw [if_pos finish]
      by_cases got : r.buffer.gotFin = true ∧ stream.finish = some (r.inOrder stream)
      · rw [if_pos got, if_neg]
        rw [eq_iff (by omega) (by omega)]
        omega
      · simp [if_neg got, Serial.of_add]
    · have not_last : stream.finish ≠ some (r.inOrder stream) := by
        intro same
        exact here (Option.some.inj (same.symm.trans finish))
      have not_both : ¬ (r.buffer.gotFin = true ∧ stream.finish = some (r.inOrder stream)) :=
        fun both => not_last both.2
      rw [if_neg not_both, if_neg not_last, add_zero, if_neg]
      rw [eq_iff (by omega) (by omega)]
      exact here
  have next_eq : TcpReceiver.next stream { r with buffer := r.buffer.setFinSequence (.of last) } =
      r.inOrder stream + if stream.finish = some (r.inOrder stream) then 1 else 0 :=
    congrArg _ (if_congr (and_iff_right rfl) rfl rfl)
  refine { buffered with fin := ?_, next := ?_ }
  · exact fun _ => ⟨last, finish, rfl, near⟩
  · rw [next_eq]
    exact next_seq

end

end Buffered

/-! ## Runs -/

/-- The data of a segment lies within `2 ^ 31` of RCV.NXT. -/
def DataNear (stream : Stream) (r : TcpReceiver) : RxEvent → Prop
  | .add place length =>
    Serial.Near (2 ^ 31) place (r.next stream) ∧ place + length < r.next stream + 2 ^ 31
  | _ => True

/-- The data of a segment can be compared with what is buffered, and the FIN with RCV.NXT. -/
def Orderly (stream : Stream) (r : TcpReceiver) : RxEvent → Prop
  | .add place length => r.Comparable stream place length
  | .setFinSequence => ∀ last ∈ stream.finish, last < r.inOrder stream + 2 ^ 32
  | _ => True

instance (r : TcpReceiver) (place length : Nat) : Decidable (r.Comparable stream place length) :=
  decidable_of_iff (Serial.Near (2 ^ 31) place (r.next stream) ∧
      place + length < r.next stream + 2 ^ 31 ∧
      ∀ front ∈ r.buffer.data.head?,
        Serial.Near (2 ^ 31) (r.firstPlace stream front.1 + r.buffer.maxBuffer) (place + length) ∧
        r.next stream < r.firstPlace stream front.1 + r.buffer.maxBuffer + 2 ^ 31 ∧
        (2 ^ 31 ≤ r.buffer.maxBuffer → place + length < r.firstPlace stream front.1 + 2 ^ 31))
    ⟨fun ⟨near, stop_near, window⟩ => ⟨near, stop_near, window⟩,
      fun ⟨near, stop_near, window⟩ => ⟨near, stop_near, window⟩⟩

instance (r : TcpReceiver) (e : RxEvent) : Decidable (r.DataNear stream e) :=
  match e with
  | .add _ _ => inferInstanceAs (Decidable (_ ∧ _))
  | .extract _ | .setFinSequence | .setMaxBufferSize _ => isTrue trivial

instance (r : TcpReceiver) (e : RxEvent) : Decidable (r.Orderly stream e) :=
  match e with
  | .add place length => inferInstanceAs (Decidable (r.Comparable stream place length))
  | .setFinSequence => inferInstanceAs (Decidable (∀ last ∈ stream.finish, _))
  | .extract _ | .setMaxBufferSize _ => isTrue trivial

/-- The buffered packets are disjoint parts of the stream, what was extracted is its
front, and the counters are right. -/
structure Delivers (stream : Stream) (r : TcpReceiver) (parts : List NatInterval) : Prop where
  data : r.buffer.data = stream.stored parts
  disjoint : parts.Pairwise fun x y => x.stop ≤ y.start
  inside : ∀ x ∈ parts, ∀ last ∈ stream.finish, x.stop ≤ last
  size : r.buffer.size = total parts
  /-- The bytes in sequence are the front of the buffer, up to a byte that is missing. -/
  avail : ∃ pre post, parts = pre ++ post ∧ Chain (r.unread stream) pre (r.inOrder stream) ∧
    ∀ x ∈ post, r.inOrder stream < x.start
  next : r.buffer.nextRxSeq = .of (r.inOrder stream +
    if r.buffer.gotFin ∧ stream.finish = some (r.inOrder stream) then 1 else 0)
  read : r.read = stream.bytes stream.start r.read.length
  /-- `Extract` never looks at an empty map. -/
  extracts : ∀ maxSize, (r.step stream (.extract maxSize)).isSome

theorem Buffered.create (stream : Stream) (enough : ∀ last ∈ stream.finish, stream.start ≤ last) :
    Buffered stream (create stream) [] [] := by
  have in_order : (TcpReceiver.create stream).inOrder stream = stream.start := rfl
  constructor
  case chain => exact in_order.symm
  case finish_le => exact enough
  case fin => exact nofun
  all_goals first | rfl | exact .nil | exact nofun

theorem Buffered.step_keeps (buffered : Buffered stream r pre post) {e : RxEvent} {r' : TcpReceiver}
    (orderly : r.Orderly stream e) (here : r.step stream e = some r') :
    ∃ pre' post', Buffered stream r' pre' post' := by
  cases e with
  | add place length =>
    simp only [step, Option.ite_none_right_eq_some, Option.some.injEq] at here
    obtain ⟨⟨-, inside⟩, rfl⟩ := here
    exact buffered.add orderly inside
  | extract maxSize =>
    obtain ⟨next, pre', eq, kept⟩ := buffered.extract maxSize
    cases eq.symm.trans here
    exact ⟨pre', post, kept⟩
  | setFinSequence =>
    cases finish : stream.finish with
    | none => simp [step, finish] at here
    | some last =>
      simp only [step, finish] at here
      cases here
      exact ⟨pre, post, buffered.set_fin_sequence finish (orderly last finish)⟩
  | setMaxBufferSize s =>
    cases here
    exact ⟨pre, post, { buffered with }⟩

theorem Buffered.delivers (buffered : Buffered stream r pre post) :
    r.Delivers stream (pre ++ post) := by
  constructor
  case data => exact buffered.data
  case disjoint => exact buffered.sorted_all
  case inside => exact buffered.inside
  case size => exact buffered.size
  case avail => exact ⟨pre, post, rfl, buffered.chain, buffered.later⟩
  case next => exact buffered.next
  case read => exact buffered.read
  case extracts =>
    intro maxSize
    obtain ⟨r', pre', eq, -⟩ := buffered.extract maxSize
    rw [eq]
    rfl

end TcpReceiver

end Ns3.Internet
