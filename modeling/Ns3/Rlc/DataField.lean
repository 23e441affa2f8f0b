import Ns3.Library.Framing
import Ns3.Rlc.Header
import Ns3.Time

/-!
# The data field of an RLC PDU

The loop of `DoNotifyTxOpportunity` that takes SDUs and segments off the
transmission buffer. It is the same in `LteRlcUm` and `LteRlcAm`, up to the
type of the header.
-/

namespace Ns3.Rlc

open Framing List

/-- `LteRlcSduStatusTag::SduStatus_t`, less the one no entry ever has. -/
inductive SduStatus
  | fullSdu
  | firstSegment
  | middleSegment
  | lastSegment
  deriving DecidableEq

namespace SduStatus

/-- The tags of a segment cut off and of the rest. -/
def cut : SduStatus → SduStatus × SduStatus
  | fullSdu => (firstSegment, lastSegment)
  | lastSegment => (middleSegment, lastSegment)
  | status => (status, status)

/-- The tag of a segment that turns out to be the rest. -/
def whole : SduStatus → SduStatus
  | firstSegment => fullSdu
  | middleSegment => lastSegment
  | status => status

/-- It does not begin with the first byte of an SDU. -/
def startsMid : SduStatus → Bool
  | fullSdu | firstSegment => false
  | middleSegment | lastSegment => true

/-- It does not end with the last byte of an SDU. -/
def endsMid : SduStatus → Bool
  | fullSdu | lastSegment => false
  | firstSegment | middleSegment => true

end SduStatus

/-- A packet with its status tag, and when it came to the transmission buffer. -/
structure TxPdu where
  pdu : Packet
  status : SduStatus
  waitingSince : Time
  deriving DecidableEq

structure Segment where
  bytes : Packet
  status : SduStatus
  deriving DecidableEq

def add32 (a b : Nat) : Nat := (a + b) % 2 ^ 32

def sub32 (a b : Nat) : Nat := (a + 2 ^ 32 - b) % 2 ^ 32

namespace TxPdu

def segment (p : TxPdu) : Segment := ⟨p.pdu, p.status⟩

/-- The first bytes as a segment, and the rest if there is any. -/
def segmentAt (p : TxPdu) (currSegmentSize : Nat) : Segment × Option TxPdu :=
  let newSegment := p.pdu.take currSegmentSize
  let rest := p.pdu.drop currSegmentSize
  if 0 < rest.length then
    (⟨newSegment, p.status.cut.1⟩, some { p with pdu := rest, status := p.status.cut.2 })
  else
    (⟨newSegment, p.status.cut.1.whole⟩, none)

end TxPdu

/-- What the loop leaves behind. -/
structure DataField (Header : Type) where
  rlcHeader : Header
  dataField : List Segment
  txBuffer : List TxPdu
  txBufferSize : Nat

/-- The header's `PushExtensionBit` and `PushLengthIndicator`. -/
structure Pushes (Header : Type) where
  extensionBit : Header → Nat → Header
  lengthIndicator : Header → Nat → Header

variable {Header : Type}

def buildDataField (push : Pushes Header) (rlcHeader : Header) (dataField : List Segment)
    (txBufferSize nextSegmentSize nextSegmentId : Nat) (firstSegment : TxPdu)
    (txBuffer : List TxPdu) : DataField Header :=
  if 0 < firstSegment.pdu.length ∧ 0 < nextSegmentSize then
    if nextSegmentSize < firstSegment.pdu.length ∨ 2047 < firstSegment.pdu.length then
      let currSegmentSize := min firstSegment.pdu.length nextSegmentSize
      let (newSegment, rest) := firstSegment.segmentAt currSegmentSize
      ⟨push.extensionBit rlcHeader 0, dataField ++ [newSegment], rest.toList ++ txBuffer,
        add32 txBufferSize (rest.toList.map fun p => p.pdu.length).sum⟩
    else
      match txBuffer with
      | [] =>
        ⟨push.extensionBit rlcHeader 0, dataField ++ [firstSegment.segment], [], txBufferSize⟩
      | second :: later =>
        if nextSegmentSize - firstSegment.pdu.length ≤ 2 then
          ⟨push.extensionBit rlcHeader 0, dataField ++ [firstSegment.segment], second :: later,
            txBufferSize⟩
        else
          buildDataField push
            (push.lengthIndicator (push.extensionBit rlcHeader 1) firstSegment.pdu.length)
            (dataField ++ [firstSegment.segment]) (sub32 txBufferSize second.pdu.length)
            (nextSegmentSize - ((if nextSegmentId % 2 = 1 then 2 else 1) + firstSegment.pdu.length))
            (nextSegmentId + 1) second later
  else
    ⟨rlcHeader, dataField, txBuffer, txBufferSize⟩

/-! ## What the loop builds -/

/-- Full SDUs, as they are put into the transmission buffer. -/
def FullSdus (txBuffer : List TxPdu) : Prop :=
  ∀ p ∈ txBuffer, p.status = .fullSdu ∧ p.pdu ≠ []

/-- A transmission buffer between two opportunities: full SDUs, after the rest
of one if it has been begun. -/
inductive Ready : Bool → List TxPdu → Prop
  | full {txBuffer : List TxPdu} (full : FullSdus txBuffer) : Ready false txBuffer
  | begun {p : TxPdu} {txBuffer : List TxPdu} (last : p.status = .lastSegment)
      (some : p.pdu ≠ []) (full : FullSdus txBuffer) : Ready true (p :: txBuffer)

/-- The header with the pushes of the loop done. -/
def pushAll (push : Pushes Header) (rlcHeader : Header) : List Nat → Header
  | [] => push.extensionBit rlcHeader 0
  | li :: lis => pushAll push (push.lengthIndicator (push.extensionBit rlcHeader 1) li) lis

/-- The data field `segments` taken off `queue`, with `built` left behind. -/
structure Builds (push : Pushes Header) (rlcHeader : Header) (mid : Bool) (queue : List TxPdu)
    (segments : List Segment) (built : DataField Header) : Prop where
  header : ∃ lis, lis = (segments.map fun s => s.bytes.length).dropLast ∧
    (∀ li ∈ lis, li < 2048) ∧ built.rlcHeader = pushAll push rlcHeader lis
  first : (segments.head?.map fun s => s.status.startsMid) = some mid
  last : ∃ endsMid, (segments.getLast?.map fun s => s.status.endsMid) = some endsMid ∧
    Cut (queue.map TxPdu.pdu) (segments.map Segment.bytes) endsMid (built.txBuffer.map TxPdu.pdu) ∧
    Ready endsMid built.txBuffer

variable {push : Pushes Header} {rlcHeader : Header} {mid : Bool} {p : TxPdu}
  {txBuffer : List TxPdu}

theorem Ready.head (ready : Ready mid (p :: txBuffer)) :
    p.pdu ≠ [] ∧ p.status = (if mid then .lastSegment else .fullSdu) ∧ FullSdus txBuffer := by
  cases ready with
  | full full =>
    obtain ⟨status, some⟩ := full p (mem_cons_self ..)
    exact ⟨some, status, fun q mem => full q (mem_cons_of_mem _ mem)⟩
  | begun last some full => exact ⟨some, last, full⟩

theorem builds_whole (ready : Ready mid (p :: txBuffer)) (dataField : List Segment)
    (txBufferSize : Nat) :
    Builds push rlcHeader mid (p :: txBuffer) [p.segment]
      ⟨push.extensionBit rlcHeader 0, dataField, txBuffer, txBufferSize⟩ := by
  obtain ⟨-, status, full⟩ := ready.head
  refine ⟨⟨[], rfl, by simp, rfl⟩, ?_, false, ?_, Cut.whole _ _, Ready.full full⟩
  · cases mid <;> simp [TxPdu.segment, status, SduStatus.startsMid]
  · cases mid <;> simp [TxPdu.segment, status, SduStatus.endsMid]

theorem builds_cut (ready : Ready mid (p :: txBuffer)) (dataField : List Segment)
    (size txBufferSize : Nat) :
    Builds push rlcHeader mid (p :: txBuffer) [(p.segmentAt size).1]
      ⟨push.extensionBit rlcHeader 0, dataField, (p.segmentAt size).2.toList ++ txBuffer,
        txBufferSize⟩ := by
  obtain ⟨-, status, full⟩ := ready.head
  unfold TxPdu.segmentAt
  by_cases more : 0 < (p.pdu.drop size).length
  · have some : p.pdu.drop size ≠ [] := ne_nil_of_length_pos more
    have cut := Cut.split (p.pdu.take size) (p.pdu.drop size) (txBuffer.map TxPdu.pdu)
    rw [take_append_drop] at cut
    simp only [more]
    refine ⟨⟨[], rfl, by simp, rfl⟩, ?_, true, ?_, cut, Ready.begun ?_ some full⟩
    · cases mid <;> simp [status, SduStatus.cut, SduStatus.startsMid]
    · cases mid <;> simp [status, SduStatus.cut, SduStatus.endsMid]
    · cases mid <;> simp [status, SduStatus.cut]
  · have all : p.pdu.take size = p.pdu := take_of_length_le (by
      rw [length_drop] at more
      omega)
    simp only [more, all]
    refine ⟨⟨[], rfl, by simp, rfl⟩, ?_, false, ?_, Cut.whole _ _, Ready.full full⟩
    · cases mid <;> simp [status, SduStatus.cut, SduStatus.whole, SduStatus.startsMid]
    · cases mid <;> simp [status, SduStatus.cut, SduStatus.whole, SduStatus.endsMid]

/-- A whole entry before the segments of the next round. -/
theorem Builds.cons {second : TxPdu} {later : List TxPdu} {segments : List Segment}
    {built : DataField Header} (ready : Ready mid (p :: second :: later))
    (small : p.pdu.length < 2048)
    (builds : Builds push (push.lengthIndicator (push.extensionBit rlcHeader 1) p.pdu.length) false
      (second :: later) segments built) :
    Builds push rlcHeader mid (p :: second :: later) (p.segment :: segments) built := by
  obtain ⟨-, status, -⟩ := ready.head
  obtain ⟨⟨lis, lis_eq, bounds, header⟩, first, endsMid, last, cut, rest⟩ := builds
  have more : segments ≠ [] := by
    rintro rfl
    simp at first
  refine ⟨⟨p.pdu.length :: lis, ?_, ?_, header⟩, ?_, endsMid, ?_, cut.cons _, rest⟩
  · rw [map_cons, dropLast_cons_of_ne_nil (by simpa using more), ← lis_eq]
    rfl
  · intro li mem
    rcases mem_cons.mp mem with rfl | mem
    · exact small
    · exact bounds li mem
  · cases mid <;> simp [TxPdu.segment, status, SduStatus.startsMid]
  · rwa [getLast?_cons_of_ne_nil more]

/-- **Data field.** The loop cuts the front of the transmission buffer, and its
length indicators are the sizes of all the segments but the last. -/
theorem buildDataField_builds (push : Pushes Header) (rlcHeader : Header)
    (dataField : List Segment) (txBufferSize : Nat) {nextSegmentSize : Nat} (nextSegmentId : Nat)
    (ready : Ready mid (p :: txBuffer)) (room : 0 < nextSegmentSize) :
    ∃ segments, (buildDataField push rlcHeader dataField txBufferSize nextSegmentSize
        nextSegmentId p txBuffer).dataField = dataField ++ segments ∧
      Builds push rlcHeader mid (p :: txBuffer) segments
        (buildDataField push rlcHeader dataField txBufferSize nextSegmentSize nextSegmentId
          p txBuffer) := by
  induction txBuffer generalizing p rlcHeader dataField txBufferSize nextSegmentSize nextSegmentId
    mid with
  | nil =>
    have open_ : 0 < p.pdu.length ∧ 0 < nextSegmentSize := ⟨length_pos_of_ne_nil ready.head.1, room⟩
    unfold buildDataField
    rw [if_pos open_]
    split
    · exact ⟨_, rfl, builds_cut ready _ _ _⟩
    · exact ⟨_, rfl, builds_whole ready _ _⟩
  | cons second later ih =>
    have open_ : 0 < p.pdu.length ∧ 0 < nextSegmentSize := ⟨length_pos_of_ne_nil ready.head.1, room⟩
    unfold buildDataField
    rw [if_pos open_]
    by_cases long : nextSegmentSize < p.pdu.length ∨ 2047 < p.pdu.length
    · rw [if_pos long]
      exact ⟨_, rfl, builds_cut ready _ _ _⟩
    · rw [if_neg long]
      by_cases tight : nextSegmentSize - p.pdu.length ≤ 2
      · simp only [if_pos tight]
        exact ⟨_, rfl, builds_whole ready _ _⟩
      · have room' : 0 < nextSegmentSize -
            ((if nextSegmentId % 2 = 1 then 2 else 1) + p.pdu.length) := by
          split <;> omega
        obtain ⟨segments, taken, builds⟩ := ih
          (push.lengthIndicator (push.extensionBit rlcHeader 1) p.pdu.length)
          (dataField ++ [p.segment]) (sub32 txBufferSize second.pdu.length) (nextSegmentId + 1)
          (Ready.full ready.head.2.2) room'
        simp only [if_neg tight]
        refine ⟨p.segment :: segments, ?_, builds.cons ready (by omega)⟩
        rw [taken, append_assoc]
        rfl

/-! ## Sizes -/

theorem add32_eq {x y : Nat} (small : x + y < 2 ^ 32) : add32 x y = x + y := Nat.mod_eq_of_lt small

theorem sub32_eq {x y z : Nat} (split : z + y = x) (small : x < 2 ^ 32) : sub32 x y = z := by
  unfold sub32
  omega

/-- The bytes in a transmission buffer. -/
def waiting (txBuffer : List TxPdu) : Nat := (txBuffer.map fun p => p.pdu.length).sum

theorem waiting_cons (p : TxPdu) (txBuffer : List TxPdu) :
    waiting (p :: txBuffer) = p.pdu.length + waiting txBuffer := by simp [waiting]

theorem waiting_append (txBuffer more : List TxPdu) :
    waiting (txBuffer ++ more) = waiting txBuffer + waiting more := by simp [waiting]

/-- The segment cut off an entry, and what is left. -/
theorem segmentAt_sizes (p : TxPdu) (size : Nat) : (p.segmentAt size).1.bytes.length ≤ size ∧
      waiting (p.segmentAt size).2.toList ≤ p.pdu.length := by
  unfold TxPdu.segmentAt
  by_cases more : 0 < (p.pdu.drop size).length
  · simp only [if_pos more]
    simp [waiting]
  · simp only [if_neg more]
    simp [waiting]

theorem segmentAt_waiting (small : waiting (p :: txBuffer) < 2 ^ 32) (size : Nat) :
    add32 (waiting txBuffer) (waiting (p.segmentAt size).2.toList) =
      waiting ((p.segmentAt size).2.toList ++ txBuffer) := by
  have rest := (segmentAt_sizes p size).2
  rw [waiting_cons] at small
  rw [waiting_append, add32_eq (by omega), add_comm]

theorem buildDataField_sized (push : Pushes Header) (rlcHeader : Header)
    (dataField : List Segment) (nextSegmentSize nextSegmentId : Nat)
    (small : waiting (p :: txBuffer) < 2 ^ 32) :
    (buildDataField push rlcHeader dataField (waiting txBuffer) nextSegmentSize nextSegmentId p
        txBuffer).txBufferSize =
      waiting (buildDataField push rlcHeader dataField (waiting txBuffer) nextSegmentSize
        nextSegmentId p txBuffer).txBuffer := by
  induction txBuffer generalizing p rlcHeader dataField nextSegmentSize nextSegmentId with
  | nil =>
    unfold buildDataField
    split
    · split
      · exact segmentAt_waiting small _
      · rfl
    · rfl
  | cons second later ih =>
    unfold buildDataField
    split
    · split
      · exact segmentAt_waiting small _
      · have split := waiting_cons second later
        rw [waiting_cons] at small
        have less : sub32 (waiting (second :: later)) second.pdu.length = waiting later :=
          sub32_eq (by omega) (by omega)
        simp only [less]
        by_cases tight : nextSegmentSize - p.pdu.length ≤ 2
        · simp only [if_pos tight]
        · simp only [if_neg tight]
          exact ih _ _ _ _ (by omega)
    · rfl

/-- The bytes that `count` length indicators take from the `id`-th on. -/
def liBytes : (id count : Nat) → Nat
  | _, 0 => 0
  | id, count + 1 => (if id % 2 = 1 then 2 else 1) + liBytes (id + 1) count

theorem liBytes_eq (id count : Nat) :
    liBytes id count = 3 * (count / 2) + (if id % 2 = 1 then 2 else 1) * (count % 2) := by
  induction count generalizing id with
  | zero => simp [liBytes]
  | succ count ih =>
    rw [liBytes, ih]
    have parity := Nat.mod_two_eq_zero_or_one count
    by_cases odd : id % 2 = 1
    · rw [if_pos odd, if_neg (by omega)]
      omega
    · rw [if_neg odd, if_pos (by omega)]
      omega

theorem buildDataField_fits (push : Pushes Header) (rlcHeader : Header) (dataField : List Segment)
    (txBufferSize nextSegmentSize nextSegmentId : Nat) (p : TxPdu) (txBuffer : List TxPdu) :
    ∃ segments, (buildDataField push rlcHeader dataField txBufferSize nextSegmentSize
        nextSegmentId p txBuffer).dataField = dataField ++ segments ∧
      (segments.map fun s => s.bytes.length).sum + liBytes nextSegmentId (segments.length - 1) ≤
        nextSegmentSize := by
  induction txBuffer generalizing p rlcHeader dataField txBufferSize nextSegmentSize
    nextSegmentId with
  | nil =>
    unfold buildDataField
    split
    · split
      · have cut := (segmentAt_sizes p (min p.pdu.length nextSegmentSize)).1
        refine ⟨_, rfl, ?_⟩
        simp only [map_cons, map_nil, sum_singleton, length_singleton, Nat.sub_self, liBytes]
        omega
      · refine ⟨_, rfl, ?_⟩
        simp only [map_cons, map_nil, sum_singleton, length_singleton,
          Nat.sub_self, liBytes, TxPdu.segment]
        omega
    · exact ⟨[], by simp, by simp [liBytes]⟩
  | cons second later ih =>
    unfold buildDataField
    split
    · split
      · have cut := (segmentAt_sizes p (min p.pdu.length nextSegmentSize)).1
        refine ⟨_, rfl, ?_⟩
        simp only [map_cons, map_nil, sum_singleton, length_singleton, Nat.sub_self, liBytes]
        omega
      · by_cases tight : nextSegmentSize - p.pdu.length ≤ 2
        · simp only [if_pos tight]
          refine ⟨_, rfl, ?_⟩
          simp only [map_cons, map_nil, sum_singleton, length_singleton,
            Nat.sub_self, liBytes, TxPdu.segment]
          omega
        · simp only [if_neg tight]
          obtain ⟨segments, taken, fits⟩ := ih
            (push.lengthIndicator (push.extensionBit rlcHeader 1) p.pdu.length)
            (dataField ++ [p.segment]) (sub32 txBufferSize second.pdu.length)
            (nextSegmentSize - ((if nextSegmentId % 2 = 1 then 2 else 1) + p.pdu.length))
            (nextSegmentId + 1) second
          refine ⟨p.segment :: segments, by rw [taken, append_assoc]; rfl, ?_⟩
          have room : (if nextSegmentId % 2 = 1 then 2 else 1) + p.pdu.length ≤
              nextSegmentSize := by
            split <;> omega
          have first : liBytes nextSegmentId segments.length ≤
              (if nextSegmentId % 2 = 1 then 2 else 1) +
                liBytes (nextSegmentId + 1) (segments.length - 1) := by
            cases segments with
            | nil => simp [liBytes]
            | cons s segments => exact le_rfl
          simp only [map_cons, sum_cons, length_cons, TxPdu.segment, Nat.add_sub_cancel]
          omega
    · exact ⟨[], by simp, by simp [liBytes]⟩

end Ns3.Rlc
