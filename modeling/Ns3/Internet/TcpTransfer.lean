import Ns3.Internet.TcpRxDelivery
import Ns3.Internet.TcpTxStream

/-!
# From transmit buffer to receive buffer

What `CopyFromSequence` hands out may be lost, doubled and overtaken on its way. What comes out of
the receive buffer is the front of what went into the transmit buffer.
-/

namespace Ns3.Internet

open List TcpTxBuffer

inductive TcpOutput
  /-- The buffer accepted the bytes. -/
  | written (p : List UInt8)
  /-- An item, with the place of its first byte in the stream. -/
  | sent (place : Nat) (item : TcpTxItem)
  deriving DecidableEq

/-- The stream that the buffer accepted. -/
def written (out : List TcpOutput) : List UInt8 :=
  out.flatMap fun | .written p => p | .sent _ _ => []

/-- A transmit buffer, and how many bytes of the stream it has discarded. -/
structure TcpSender where
  buffer : TcpTxBuffer
  discarded : Nat

namespace TcpSender

def discards (s : TcpSender) : TxEvent → Nat
  | .discardUpTo _ seq => s.buffer.dropped seq
  | _ => 0

def outputs (s : TcpSender) : TxEvent → List TcpOutput
  | .add p => if (s.buffer.add p).2 then [.written p] else []
  | .copyFromSequence now numBytes seq =>
    ((s.buffer.copyFromSequence now numBytes seq).bind Prod.snd).toList.map
      (.sent (s.discarded + seq.sub s.buffer.firstByteSeq))
  | _ => []

def step (s : TcpSender) (e : TxEvent) : Option (TcpSender × List TcpOutput) :=
  (s.buffer.step e).map fun b => (⟨b, s.discarded + s.discards e⟩, s.outputs e)

/-- The head sequence number is not set again, and nothing is acknowledged beyond the data. -/
def Allowed (s : TcpSender) : TxEvent → Prop
  | .setHeadSequence _ => False
  | .discardUpTo _ seq => s.buffer.dropped seq ≤ s.buffer.size
  | _ => True

/-- The buffer holds the rest of the stream, and all that was sent is cut from it. -/
structure Sends (start : Nat) (s : TcpSender) (out : List TcpOutput) : Prop where
  le : s.discarded ≤ (written out).length
  first : s.buffer.firstByteSeq = .of (start + s.discarded)
  holds : Holds s.buffer ((written out).drop s.discarded)
  sent : ∀ place item, .sent place item ∈ out → item.startSeq = .of (start + place) ∧
    place + item.size ≤ (written out).length ∧
    item.packet = ((written out).drop place).take item.size

variable {start : Nat} {s s' : TcpSender} {b : TcpTxBuffer} {out new : List TcpOutput} {e : TxEvent}
  {bytes : List UInt8}

theorem step_first (holds : Holds s.buffer bytes) (allowed : s.Allowed e)
    (done : s.buffer.step e = some b) :
    b.firstByteSeq = s.buffer.firstByteSeq.add (s.discards e) := by
  have kept (first : b.firstByteSeq = s.buffer.firstByteSeq) :
      b.firstByteSeq = s.buffer.firstByteSeq.add 0 := first.trans (Serial.add_zero _).symm
  cases e with
  | setHeadSequence seq => exact allowed.elim
  | add p =>
    cases done
    apply kept
    unfold TcpTxBuffer.add
    split_ifs <;> rfl
  | copyFromSequence now numBytes seq =>
    obtain ⟨⟨b₁, returned⟩, copied, rfl⟩ := Option.map_eq_some_iff.mp done
    exact kept (holds.copyFromSequence copied).2.1
  | discardUpTo now seq =>
    rw [(holds.discardUpTo done).2, discards, dropped]
    split_ifs
    · exact (Serial.add_zero _).symm
    · exact (Serial.add_sub _ _).symm
  | update list =>
    obtain ⟨⟨b₁, sacked⟩, updated, rfl⟩ := Option.map_eq_some_iff.mp done
    exact kept (update_flagged updated).first
  | addRenoSack => exact kept (addRenoSack_flagged done).first
  | setSentListLost resetSack => exact kept (setSentListLost_flagged done).first
  | markHeadAsLost =>
    cases done
    exact kept (markHeadAsLost_flagged _).first
  | deleteRetransmittedFlagFromHead =>
    exact kept (deleteRetransmittedFlagFromHead_flagged done).first
  | resetLastSegmentSent =>
    cases done
    apply kept
    unfold TcpTxBuffer.resetLastSegmentSent
    split <;> rfl
  | resetRenoSack | resetSentList =>
    cases done
    exact kept rfl

theorem written_append : written (out ++ new) = written out ++ written new := flatMap_append

theorem discards_le (allowed : s.Allowed e) : s.discards e ≤ s.buffer.size := by
  cases e with
  | discardUpTo now seq => exact allowed
  | _ => exact Nat.zero_le _

theorem stream_eq (e : TxEvent) (bytes : List UInt8) :
    s.buffer.stream bytes e = (bytes ++ written (s.outputs e)).drop (s.discards e) := by
  cases e with
  | add p =>
    dsimp only [stream, outputs, discards]
    split_ifs <;> simp [written]
  | copyFromSequence now numBytes seq => simp [stream, outputs, discards, written, flatMap_map]
  | _ => simp [stream, outputs, discards, written]

/-- What is sent in an event is cut from the stream. -/
theorem Sends.carries (sends : Sends start s out) (done : s.buffer.step e = some b) {place : Nat}
    {item : TcpTxItem} (mem : .sent place item ∈ s.outputs e) :
    item.startSeq = .of (start + place) ∧ place + item.size ≤ (written out).length ∧
      item.packet = ((written out).drop place).take item.size := by
  obtain ⟨le, first, holds, -⟩ := sends
  unfold outputs at mem
  split at mem
  · split at mem <;> simp at mem
  · obtain ⟨_, mem, same⟩ := mem_map.mp mem
    cases same
    obtain ⟨⟨b₁, _⟩, copied, rfl⟩ := Option.bind_eq_some_iff.mp (Option.mem_toList.mp mem)
    obtain ⟨-, -, -, carried⟩ := holds.copyFromSequence copied
    obtain ⟨starts, -, -, offset, rfl, inside, packet⟩ := (carried item rfl).2
    have size := holds.size
    have small := holds.small
    rw [length_drop] at inside size
    rw [range_length _ (by omega)]
    rw [drop_drop] at packet
    refine ⟨?_, by omega, packet⟩
    rw [starts, first, Serial.of_add, Nat.add_assoc]
  · cases mem

theorem Sends.step (sends : Sends start s out) (allowed : s.Allowed e)
    (done : s.step e = some (s', new)) : Sends start s' (out ++ new) := by
  obtain ⟨b, here, done⟩ := Option.map_eq_some_iff.mp done
  cases done
  obtain ⟨le, first, holds, sent⟩ := id sends
  have size := holds.size
  have discards := discards_le allowed
  rw [length_drop] at size
  have held := step_holds holds here
  rw [stream_eq, ← drop_append_of_le_length le, drop_drop, ← written_append] at held
  refine ⟨?_, ?_, held, fun place item mem => ?_⟩
  · rw [written_append, length_append]
    dsimp only
    omega
  · rw [step_first holds allowed here, first, Serial.of_add, Nat.add_assoc]
  · obtain ⟨starts, inside, packet⟩ := (mem_append.mp mem).elim (sent place item)
      (sends.carries here)
    rw [written_append, length_append]
    refine ⟨starts, by omega, ?_⟩
    rw [packet, drop_append_of_le_length (by omega), take_append_of_le_length]
    rw [length_drop]
    omega

theorem Sends.run {events : List TxEvent} (sends : Sends start s out)
    (meets : Machine.Meets TcpSender.step Allowed s events)
    (done : Machine.run TcpSender.step s events = some (s', new)) :
    Sends start s' (out ++ new) := by
  induction events generalizing s out new with
  | nil =>
    cases done
    rwa [append_nil]
  | cons e events ih =>
    obtain ⟨mid, first, rest, here, later, rfl⟩ := Machine.run_cons done
    cases meets with
    | cons allowed after =>
      rw [← append_assoc]
      exact ih (sends.step allowed here) (after _ _ here) later

end TcpSender

/-! ## The receiver -/

/-- A stream that ends. -/
def Stream.ofBytes (start : Nat) (bytes : List UInt8) : Stream :=
  ⟨start, fun n => bytes.getD (n - start) 0, some (start + bytes.length)⟩

theorem Stream.bytes_ofBytes {start place n : Nat} {bytes : List UInt8}
    (le : place + n ≤ bytes.length) :
    (ofBytes start bytes).bytes (start + place) n = (bytes.drop place).take n := by
  apply ext_getElem
  · rw [bytes_length, length_take, length_drop]
    omega
  · intro i lt _
    rw [bytes_length] at lt
    have inside : place + i < bytes.length := by omega
    simp [Stream.bytes, ofBytes, Nat.add_assoc, getElem?_eq_getElem inside]

inductive Arrival
  /-- An item, which was sent at this place of the stream. -/
  | segment (place : Nat) (item : TcpTxItem)
  | extract (maxSize : Nat)
  | setMaxBufferSize (s : Nat)

namespace TcpReceiver

def receive (r : TcpReceiver) : Arrival → Option TcpReceiver
  | .segment _ item => some { r with buffer := (r.buffer.add item.packet item.startSeq).1 }
  | .extract maxSize => do
    let (buffer, packet) ← r.buffer.extract maxSize
    return ⟨buffer, r.read ++ packet.getD []⟩
  | .setMaxBufferSize s => some { r with buffer := r.buffer.setMaxBufferSize (s % 2 ^ 32) }

/-- Only what was sent arrives, lost or doubled or late, but near enough to what is buffered to
be compared with it. -/
def Arrives (start : Nat) (out : List TcpOutput) (r : TcpReceiver) : Arrival → Prop
  | .segment place item => .sent place item ∈ out ∧
    r.Comparable (.ofBytes start (written out)) (start + place) item.size
  | _ => True

variable {start : Nat} {out : List TcpOutput} {r r' : TcpReceiver}

theorem Buffered.receive_keeps {pre post : List NatInterval} {s : TcpSender}
    (sends : TcpSender.Sends start s out)
    (buffered : Buffered (.ofBytes start (written out)) r pre post) {a : Arrival}
    (arrives : Arrives start out r a) (done : r.receive a = some r') :
    ∃ pre post, Buffered (.ofBytes start (written out)) r' pre post := by
  cases a with
  | segment place item =>
    obtain ⟨sent, comparable⟩ := arrives
    obtain ⟨starts, inside, packet⟩ := sends.sent place item sent
    refine buffered.step_keeps (e := .add (start + place) item.size) comparable ?_
    have within : (Stream.ofBytes start (written out)).start ≤ start + place ∧
        ∀ last ∈ (Stream.ofBytes start (written out)).finish, start + place + item.size ≤ last := by
      refine ⟨Nat.le_add_right _ _, ?_⟩
      rintro _ ⟨⟩
      omega
    rw [step, if_pos within, Stream.bytes_ofBytes inside, ← packet, ← starts]
    exact done
  | extract maxSize => exact buffered.step_keeps (e := .extract maxSize) trivial done
  | setMaxBufferSize s => exact buffered.step_keeps (e := .setMaxBufferSize s) trivial done

theorem Buffered.reads {pre post : List NatInterval} {bytes : List UInt8}
    (buffered : Buffered (.ofBytes start bytes) r pre post) : r.read <+: bytes := by
  have bound := buffered.finish_le _ rfl
  have unread : start + r.read.length + NatInterval.total pre = _ := buffered.chain.total_eq
  have front : (Stream.ofBytes start bytes).bytes (start + 0) r.read.length =
      bytes.take r.read.length := Stream.bytes_ofBytes (by omega)
  rw [buffered.read]
  exact front ▸ take_prefix _ _

end TcpReceiver

end Ns3.Internet
