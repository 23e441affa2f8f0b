import Ns3.Rlc.UmTransmitter

/-!
# `LteRlcUm::ReassembleAndDeliver`

The reassembling state machine over the RLC PDUs that leave the reception
buffer. `reassemble_encode` says what it does with a PDU that the transmitting
side has made, as long as it goes on where it should.
-/

namespace Ns3.Rlc

open Framing SequenceNumber10 LteRlcHeader

/-- `ReassemblingState_t`, with `m_keepS0` where it is in use. -/
inductive ReassemblingState
  | waitingS0Full
  | waitingSiSf (keepS0 : Packet)
  deriving DecidableEq

/-- The loop that builds the list of SDUs. `none` is a fragment longer than
the packet. -/
def splitSdus : (extensionBits lengthIndicators : List Nat) → Packet → Option (List Packet)
  | extensionBit :: es, lis, packet =>
    if extensionBit = 0 then
      some [packet]
    else
      match lis with
      | [] => none
      | lengthIndicator :: lis =>
        if lengthIndicator ≤ packet.length then do
          let rest ← splitSdus es lis (packet.drop lengthIndicator)
          return packet.take lengthIndicator :: rest
        else
          none
  | [], _, _ => none

/-- `while (m_sdusBuffer.size() > 1)` deliver, then keep S0. -/
def keepLast (sdusBuffer : List Packet) : ReassemblingState × List Packet × List Packet :=
  match sdusBuffer.getLast? with
  | some s0 => (.waitingSiSf s0, [], sdusBuffer.dropLast)
  | none => (.waitingS0Full, [], [])

/-- The switch over the framing info in `WAITING_S0_FULL`, and after losses in
either state: the next state, what stays in `m_sdusBuffer`, and what is
delivered. -/
def fromS0Full (state : ReassemblingState) (framingInfo : Nat) (sdusBuffer : List Packet) :
    ReassemblingState × List Packet × List Packet :=
  match framingInfo with
  | 0 => (.waitingS0Full, [], sdusBuffer)
  | 1 => keepLast sdusBuffer
  | 2 => (.waitingS0Full, [], sdusBuffer.tail)
  | 3 => if sdusBuffer.length = 1 then (.waitingS0Full, [], []) else keepLast sdusBuffer.tail
  | _ => (state, sdusBuffer, [])

/-- The switch in `WAITING_SI_SF` without losses. A PDU that begins with the
first byte of an SDU is an error there: its SDUs stay in `m_sdusBuffer`. -/
def fromSiSf (keepS0 : Packet) (framingInfo : Nat) (sdusBuffer : List Packet) :
    ReassemblingState × List Packet × List Packet :=
  match framingInfo, sdusBuffer with
  | 2, si :: rest => (.waitingS0Full, [], (keepS0 ++ si) :: rest)
  | 3, [si] => (.waitingSiSf (keepS0 ++ si), [], [])
  | 3, si :: rest =>
    let (state, left, delivered) := keepLast rest
    (state, left, (keepS0 ++ si) :: delivered)
  | _, _ => (.waitingSiSf keepS0, sdusBuffer, [])

structure Reassembly where
  reassemblingState : ReassemblingState
  sdusBuffer : List Packet
  expectedSeqNumber : SequenceNumber10

namespace Reassembly

def create : Reassembly := ⟨.waitingS0Full, [], ofNat 0⟩

/-- With the packets handed to `ReceivePdcpPdu`. -/
def reassembleAndDeliver (r : Reassembly) (packet : Packet) :
    Option (Reassembly × List Packet) := do
  let (rlcHeader, packet) ← removeHeader packet
  let currSeqNumber := rlcHeader.sequenceNumber
  let expectedSnLost := !currSeqNumber.eq r.expectedSeqNumber
  let expectedSeqNumber :=
    if expectedSnLost then currSeqNumber.add 1 else r.expectedSeqNumber.succ
  let sdus ← splitSdus rlcHeader.extensionBits rlcHeader.lengthIndicators packet
  let (state, sdusBuffer, delivered) :=
    match expectedSnLost, r.reassemblingState with
    | false, .waitingSiSf keepS0 =>
      fromSiSf keepS0 rlcHeader.framingInfo (r.sdusBuffer ++ sdus)
    | _, state => fromS0Full state rlcHeader.framingInfo (r.sdusBuffer ++ sdus)
  return (⟨state, sdusBuffer, expectedSeqNumber⟩, delivered)

end Reassembly

/-! ## The SDUs of a PDU -/

theorem splitSdus_eq : ∀ {pieces : List Packet}, pieces ≠ [] →
    splitSdus (bitsFor (pieces.map List.length).dropLast)
      (pieces.map List.length).dropLast pieces.flatten = some pieces
  | [p], _ => by simp [splitSdus, bitsFor, dataFieldFollows]
  | p :: q :: pieces, _ => by
    have later := splitSdus_eq (List.cons_ne_nil q pieces)
    have lengths : ((p :: q :: pieces).map List.length).dropLast =
        p.length :: ((q :: pieces).map List.length).dropLast := rfl
    rw [lengths, bitsFor_cons, List.flatten_cons, splitSdus, if_neg (by decide)]
    simp only [List.drop_left, List.take_left, later, List.length_append, Nat.le_add_right]
    rfl

/-! ## The state machine -/

/-- The state of a receiver that keeps an open part, or none. -/
def stateOf : Option Packet → ReassemblingState
  | some keepS0 => .waitingSiSf keepS0
  | none => .waitingS0Full

theorem keepLast_eq (sdus : List Packet) :
    keepLast sdus = (stateOf sdus.getLast?, [], sdus.dropLast) := by
  unfold keepLast
  cases last : sdus.getLast? with
  | none =>
    rw [List.getLast?_eq_none_iff.mp last]
    rfl
  | some s0 => rfl

theorem fromS0Full_eq (state : ReassemblingState) {f : Frame UInt8} (some : f.pieces ≠ []) :
    fromS0Full state (framingOf f) f.pieces = (stateOf (f.keeps none), [], f.delivered none) := by
  obtain ⟨starts, pieces, ends⟩ := f
  rw [framingOf_eq]
  cases starts <;> cases ends
  · rfl
  · exact keepLast_eq pieces
  · rfl
  · have step : fromS0Full state 3 pieces =
        if pieces.length = 1 then (.waitingS0Full, [], []) else keepLast pieces.tail := rfl
    have keeps : Frame.keeps ⟨true, pieces, true⟩ none = pieces.tail.getLast? := rfl
    have delivered : Frame.delivered ⟨true, pieces, true⟩ none = pieces.tail.dropLast := rfl
    rw [keeps, delivered]
    refine Eq.trans step ?_
    split
    · rename_i one
      obtain ⟨p, rfl⟩ := List.length_eq_one_iff.mp one
      rfl
    · exact keepLast_eq pieces.tail

theorem fromSiSf_eq (keepS0 : Packet) {f : Frame UInt8} (some_ : f.pieces ≠ [])
    (goesOn : f.startsMid = true) :
    fromSiSf keepS0 (framingOf f) f.pieces =
      (stateOf (f.keeps (some keepS0)), [], f.delivered (some keepS0)) := by
  obtain ⟨starts, pieces, ends⟩ := f
  obtain rfl : starts = true := goesOn
  obtain ⟨si, rest, rfl⟩ := List.exists_cons_of_ne_nil some_
  rw [framingOf_eq]
  cases ends with
  | false => rfl
  | true =>
    cases rest with
    | nil => rfl
    | cons q rest =>
      have step : fromSiSf keepS0 3 (si :: q :: rest) =
          ((keepLast (q :: rest)).1, (keepLast (q :: rest)).2.1,
            (keepS0 ++ si) :: (keepLast (q :: rest)).2.2) := rfl
      refine Eq.trans step ?_
      rw [keepLast_eq]
      rfl

namespace Reassembly

/-- **Reassembly.** A PDU that the transmitting side has made is taken as its
frame, and one that comes after losses as by a receiver that has missed the
open part. -/
theorem reassemble_encode {expected sn : SequenceNumber10} {kept : Option Packet}
    {f : Frame UInt8} (encodable : Encodable f) (small : sn.value < 1024)
    (goesOn : sn.value = expected.value → kept.isSome = true → f.startsMid = true) :
    ∃ expected', expected'.value = (sn.value + 1) % 1024 ∧
      reassembleAndDeliver ⟨stateOf kept, [], expected⟩ (encode sn f) =
        let seen := if sn.value = expected.value then kept else none
        some (⟨stateOf (f.keeps seen), [], expected'⟩, f.delivered seen) := by
  have header := removeHeader_encode encodable small
  have split := splitSdus_eq encodable.some
  have value : (ofNat sn.value).value = sn.value := by
    simp only [ofNat]
    omega
  by_cases same : sn.value = expected.value
  · refine ⟨expected.succ, by simp [succ, same], ?_⟩
    have test : (ofNat sn.value).eq expected = true := by
      simp only [eq, value, beq_iff_eq]
      exact same
    unfold reassembleAndDeliver
    simp only [header, Option.bind_eq_bind, Option.bind_some, built, test, lengthsOf,
      split, List.nil_append, Bool.not_true, Bool.false_eq_true, ↓reduceIte, if_pos same]
    cases kept with
    | none =>
      simp only [fromS0Full_eq _ encodable.some]
      rfl
    | some keepS0 =>
      simp only [stateOf, fromSiSf_eq keepS0 encodable.some (goesOn same rfl)]
      rfl
  · refine ⟨(ofNat sn.value).add 1, ?_, ?_⟩
    · rw [show ofNat sn.value = numbered 0 sn.value from rfl, numbered_add 0 sn.value 1 (by decide)]
      rfl
    · have test : (ofNat sn.value).eq expected = false := by
        simp only [eq, value, beq_eq_false_iff_ne]
        exact same
      unfold reassembleAndDeliver
      simp only [header, Option.bind_eq_bind, Option.bind_some, built, test,
        lengthsOf, split, List.nil_append, Bool.not_false, ↓reduceIte, if_neg same,
        fromS0Full_eq _ encodable.some]
      rfl

end Reassembly

end Ns3.Rlc
