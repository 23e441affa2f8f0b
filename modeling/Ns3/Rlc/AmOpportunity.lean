import Ns3.Rlc.AmTransmitterCounts

/-!
# What an opportunity of `LteRlcAm` can do

`opportunity_cases`: it leaves everything as it is, or retransmits the first
PDU to be retransmitted, or sends a new PDU with the next sequence number.
-/

namespace Ns3.Rlc

open Framing Option LteRlcAmHeader LteRlcHeader

namespace LteRlcAmHeader

theorem pushed_last (lis : List Nat) (sn : SequenceNumber10) {fi : Nat} (hf : fi < 4)
    (poll : Bool) :
    ((((pushed lis).pushExtensionBit 0).setSequenceNumber sn).setFramingInfo fi).setPollingBit
        poll =
      ⟨4 + lisLength lis, poll, fi, sn.value, bitsFor lis, lis⟩ := by
  have masked : fi &&& 0x03 = fi := by
    have all : ∀ fi < 4, fi &&& 0x03 = fi := by decide
    exact all fi hf
  have length : lengthFor (lis.length + 1) = 4 + lisLength lis := by
    simp [UmTransmitter.lisLength_eq, lengthFor, add_assoc]
  rw [lengthFor_succ] at length
  simp only [pushed, pushExtensionBit, setSequenceNumber, setFramingInfo, setPollingBit,
    List.length_append, List.length_replicate, List.length_singleton, masked, length,
    UmTransmitter.bitsFor_eq]
  rfl

end LteRlcAmHeader

namespace AmTransmitter

open SequenceNumber10 CircularBuffer

variable {attributes : AmAttributes} {t t' : AmTransmitter} {a s n bytes : Nat} {mid : Bool}

theorem polls_eq (vtMs : t.vtMs = numbered a (a + 512)) (vtS : t.vtS = numbered a s)
    (a_le_s : a ≤ s) (s_lt : s < a + 1024) (first : Bool) :
    t.polls first = some (first || decide (a + 512 ≤ s) || t.pollRetransmitTimerJustExpired) := by
  unfold polls
  cases first with
  | true => simp
  | false => simp [vtMs, vtS, ge?_numbered a_le_s s_lt (show a ≤ a + 512 by omega) (by omega)]

/-! ## Retransmission -/

theorem firstRetx_spec {fuel sn : Nat} {pdu : AmdPdu} (vtS : t.vtS = numbered a s)
    (a_le_n : a ≤ n) (n_le_s : n ≤ s) (s_lt : s < a + 1024)
    (here : t.firstRetx fuel (numbered a n) = some (sn, pdu)) :
    ∃ k, n ≤ k ∧ k < s ∧ sn = k % 1024 ∧ t.retxBuffer (k % 1024) = some pdu ∧
      ∀ j, n ≤ j → j < k → t.retxBuffer (j % 1024) = none := by
  induction fuel generalizing n with
  | zero => exact absurd here (by simp [firstRetx])
  | succ fuel ih =>
    unfold firstRetx at here
    rw [vtS, lt?_numbered a_le_n (by omega) (show a ≤ s by omega) s_lt] at here
    by_cases inside : n < s
    · simp only [bind_eq_bind, bind_some, inside, decide_true, ↓reduceIte,
        numbered_value, numbered_succ] at here
      cases waits : t.retxBuffer (n % 1024) with
      | some pdu' =>
        simp only [waits] at here
        obtain ⟨rfl, rfl⟩ := by simpa using here
        exact ⟨n, le_refl n, inside, rfl, waits, fun j hj hj' => by omega⟩
      | none =>
        simp only [waits] at here
        obtain ⟨k, low, high, number, stored, before⟩ := ih (by omega) (by omega) here
        refine ⟨k, by omega, high, number, stored, fun j hj hj' => ?_⟩
        by_cases first : j = n
        · rw [first, waits]
        · exact before j (by omega) hj'
    · simp [inside] at here

/-- The PDU at `k` is retransmitted. -/
structure Retransmits (t t' : AmTransmitter) (a s k : Nat) (pdu : AmdPdu) (poll : Bool) : Prop where
  low : a ≤ k
  high : k < s
  stored : t.retxBuffer (k % 1024) = some pdu
  first : ∀ j, a ≤ j → j < k → t.retxBuffer (j % 1024) = none
  poll_eq : poll = (t.txonBuffer.isEmpty && decide (t.retxBufferSize = pdu.size) ||
    decide (a + 512 ≤ s) || t.pollRetransmitTimerJustExpired)
  after : t' = (if poll then t.requestStatus else t).moveToTxed (k % 1024) pdu

theorem retransmit_cases (counts : Counts t a s) {out : Option AmdPdu}
    (here : t.retransmit attributes bytes = some (t', out)) :
    (t' = t ∧ out = none) ∨
      ∃ k pdu poll, Retransmits t t' a s k pdu poll ∧ out = some (pdu.setPollingBit poll) := by
  have a_le_s := counts.a_le_s
  have s_le_ms := counts.s_le_ms
  unfold retransmit at here
  rw [counts.vtS, counts.vtA, lt?_numbered (le_refl a) (by omega) a_le_s (by omega)] at here
  by_cases outstanding : a < s
  · simp only [bind_eq_bind, bind_some, outstanding, decide_true, ↓reduceIte,
      bind_eq_some_iff] at here
    obtain ⟨⟨sn, pdu⟩, found, here⟩ := here
    obtain ⟨k, low, high, rfl, stored, first⟩ :=
      firstRetx_spec counts.vtS (le_refl a) a_le_s (by omega) found
    simp only [polls_eq counts.vtMs counts.vtS a_le_s (show s < a + 1024 by omega)] at here
    generalize poll_eq : (t.txonBuffer.isEmpty && decide (t.retxBufferSize = pdu.size) ||
      decide (a + 512 ≤ s) || t.pollRetransmitTimerJustExpired) = poll at here
    split at here
    · cases here
      exact .inr ⟨k, pdu, poll, ⟨low, high, stored, first, poll_eq.symm, rfl⟩, rfl⟩
    · cases here
      exact .inl ⟨rfl, rfl⟩
  · simp [outstanding] at here

/-! ## New PDUs -/

/-- Frame `f` is sent with the next sequence number, and polls. -/
structure SendsNew (t t' : AmTransmitter) (mid : Bool) (a s bytes : Nat) (f : Frame UInt8)
    (pdu : AmdPdu) : Prop where
  room : s < a + 512
  carries : Carries s f pdu
  encodable : Encodable f
  startsMid : f.startsMid = mid
  cut : Cut (t.txonBuffer.map TxPdu.pdu) f.pieces f.endsMid (t'.txonBuffer.map TxPdu.pdu)
  ready : Ready f.endsMid t'.txonBuffer
  fits : pdu.size ≤ bytes
  sized : t.txonBufferSize = waiting t.txonBuffer → waiting t.txonBuffer < 2 ^ 32 →
    t'.txonBufferSize = waiting t'.txonBuffer
  after : t' = { t with
    txonBuffer := t'.txonBuffer
    txonBufferSize := t'.txonBufferSize
    vtS := numbered a (s + 1)
    pollSn := (numbered a (s + 1)).sub 1
    pduWithoutPoll := 0
    byteWithoutPoll := 0
    pollRetransmitTimer := true
    pollRetransmitTimerJustExpired := false
    txedBufferSize := add32 t.txedBufferSize pdu.size
    txedBuffer := Function.update t.txedBuffer (s % 1024) (some pdu) }

theorem sendNew_eq (counts : Counts t a s) (room : s < a + 512) {queue : List TxPdu}
    {segments : List Segment} {built : DataField LteRlcAmHeader}
    (taken : built.dataField = segments)
    (builds : Builds pushes setDataPdu mid queue segments built) :
    ∃ f pdu, Carries s f pdu ∧ Encodable f ∧ f.startsMid = mid ∧
      f.pieces = segments.map Segment.bytes ∧
      Cut (queue.map TxPdu.pdu) f.pieces f.endsMid (built.txBuffer.map TxPdu.pdu) ∧
      Ready f.endsMid built.txBuffer ∧
      t.sendNew built = some ({ t with
        txonBuffer := built.txBuffer
        txonBufferSize := built.txBufferSize
        vtS := numbered a (s + 1)
        pollSn := (numbered a (s + 1)).sub 1
        pduWithoutPoll := 0
        byteWithoutPoll := 0
        pollRetransmitTimer := true
        pollRetransmitTimerJustExpired := false
        txedBufferSize := add32 t.txedBufferSize pdu.size
        txedBuffer := Function.update t.txedBuffer (s % 1024) (some pdu) }, pdu) := by
  have a_le_s := counts.a_le_s
  obtain ⟨⟨lis, lis_eq, small, header⟩, first, endsMid, last, cut, rest⟩ := builds
  obtain ⟨head, head_eq, starts⟩ := map_eq_some_iff.mp first
  obtain ⟨tail, tail_eq, ends⟩ := map_eq_some_iff.mp last
  have lengths : lengthsOf ⟨mid, segments.map Segment.bytes, endsMid⟩ = lis := by
    rw [lis_eq, lengthsOf, List.map_map]
    rfl
  have closed : built.rlcHeader = (pushed lis).pushExtensionBit 0 :=
    header.trans (pushAll_eq [] lis)
  have framing : UmTransmitter.framingInfo head tail =
      framingOf ⟨mid, segments.map Segment.bytes, endsMid⟩ := by
    rw [UmTransmitter.framingInfo, starts, ends]
    rfl
  refine ⟨⟨mid, segments.map Segment.bytes, endsMid⟩,
    ⟨⟨4 + lisLength lis, true, UmTransmitter.framingInfo head tail, s % 1024,
      bitsFor lis, lis⟩, (segments.map Segment.bytes).flatten⟩,
    ?_, ⟨cut.pieces_ne_nil, ?_⟩, rfl, rfl, cut, rest, ?_⟩
  · rw [← lengths]
    exact ⟨rfl, framing, rfl, rfl, rfl, rfl⟩
  · rw [lengths]
    exact small
  · have header_eq := pushed_last lis (numbered a s)
      (framing ▸ framingOf_lt ⟨mid, segments.map Segment.bytes, endsMid⟩) true
    have due : decide (pollPdu ≤ add32 0 1) = true := rfl
    unfold sendNew
    simp only [taken, head_eq, tail_eq, bind_eq_bind, bind_some, counts.vtS,
      counts.vtMs, counts.vtA, counts.noPdu, numbered_succ,
      lt?_numbered a_le_s (show s < a + 1024 by omega) (show a ≤ a + 512 by omega) (by omega),
      ge?_numbered a_le_s (show s < a + 1024 by omega) (le_refl a) (by omega), room, a_le_s,
      decide_true, Bool.and_self, ↓reduceIte, closed]
    simp only [due, Bool.true_or, polls, ↓reduceIte, bind_some, header_eq]
    rfl

theorem transmitNew_cases (counts : Counts t a s) (ready : Ready mid t.txonBuffer)
    {out : Option AmdPdu} (here : t.transmitNew bytes = some (t', out)) :
    (t' = t ∧ out = none) ∨ ∃ f pdu, SendsNew t t' mid a s bytes f pdu ∧ out = some pdu := by
  have a_le_s := counts.a_le_s
  have s_le_ms := counts.s_le_ms
  unfold transmitNew at here
  by_cases small : bytes < 7
  · exact absurd here (by simp [small])
  · rw [if_neg small, counts.vtS, counts.vtMs,
      le?_numbered a_le_s (by omega) (show a ≤ a + 512 by omega) (by omega)] at here
    simp only [s_le_ms] at here
    have full : (numbered a s).eq (numbered a (a + 512)) = decide (s = a + 512) := by
      apply Bool.eq_iff_iff.mpr
      simp only [SequenceNumber10.eq, beq_iff_eq, decide_eq_true_eq]
      exact ⟨fun same => Circular.eq_of_residue same (by omega) (by omega),
        fun same => by rw [same]⟩
    rw [full] at here
    by_cases stalled : s = a + 512
    · left
      obtain ⟨rfl, rfl⟩ := by simpa [stalled] using here
      exact ⟨rfl, rfl⟩
    · simp only [stalled, decide_false, Bool.false_eq_true, ↓reduceIte] at here
      cases queue : t.txonBuffer with
      | nil =>
        left
        obtain ⟨rfl, rfl⟩ := by simpa [queue] using here
        exact ⟨rfl, rfl⟩
      | cons firstSegment txonBuffer =>
        right
        rw [queue] at ready
        simp only [queue] at here
        obtain ⟨segments, taken, builds⟩ := buildDataField_builds pushes
          setDataPdu [] (sub32 t.txonBufferSize firstSegment.pdu.length) 1 ready
          (show 0 < bytes - 4 by omega)
        obtain ⟨segments', taken', within⟩ := buildDataField_fits pushes
          setDataPdu [] (sub32 t.txonBufferSize firstSegment.pdu.length) (bytes - 4)
          1 firstSegment txonBuffer
        rw [List.nil_append] at taken taken'
        obtain rfl : segments = segments' := taken.symm.trans taken'
        obtain ⟨f, pdu, carries, encodable, starts, pieces, cut, rest, done⟩ :=
          sendNew_eq counts (by omega) taken builds
        rw [done] at here
        obtain ⟨rfl, rfl⟩ := by simpa using here
        refine ⟨f, pdu, ⟨by omega, carries, encodable, starts, ?_, rest, ?_, ?_, rfl⟩, rfl⟩
        · rw [queue]
          exact cut
        · have data : pdu.dataField.length = (segments.map fun s => s.bytes.length).sum := by
            rw [carries.dataField, pieces, List.length_flatten, List.map_map]
            rfl
          have count : (lengthsOf f).length = segments.length - 1 := by simp [lengthsOf, pieces]
          have header : liBytes 1 (segments.length - 1) = lisLength (lengthsOf f) := by
            rw [liBytes_eq, UmTransmitter.lisLength_eq, count]
            rfl
          unfold AmdPdu.size
          rw [carries.headerLength, data]
          omega
        · intro size small
          rw [queue] at size small
          have split := waiting_cons firstSegment txonBuffer
          have first : sub32 t.txonBufferSize firstSegment.pdu.length = waiting txonBuffer :=
            sub32_eq (by omega) (by omega)
          rw [first]
          exact buildDataField_sized _ _ _ _ _ small

/-- **Opportunity.** All that one without a STATUS PDU can do. -/
theorem opportunity_cases (counts : Counts t a s) (ready : Ready mid t.txonBuffer)
    {out : Option AmdPdu} (here : t.doNotifyTxOpportunity attributes bytes = some (t', out)) :
    (t' = t ∧ out = none) ∨
      (∃ k pdu poll, Retransmits t t' a s k pdu poll ∧ out = some (pdu.setPollingBit poll)) ∨
      ∃ f pdu, t.retxBufferSize = 0 ∧ SendsNew t t' mid a s bytes f pdu ∧ out = some pdu := by
  unfold doNotifyTxOpportunity at here
  by_cases waits : 0 < t.retxBufferSize
  · rw [if_pos waits] at here
    rcases retransmit_cases counts here with idle | sends
    · exact .inl idle
    · exact .inr (.inl sends)
  · rw [if_neg waits] at here
    by_cases queued : 0 < t.txonBufferSize
    · rw [if_pos queued] at here
      rcases transmitNew_cases counts ready here with idle | ⟨f, pdu, sends, rfl⟩
      · exact .inl idle
      · exact .inr (.inr ⟨f, pdu, by omega, sends, rfl⟩)
    · rw [if_neg queued] at here
      obtain ⟨rfl, rfl⟩ := by simpa using here
      exact .inl ⟨rfl, rfl⟩

/-! ## What stays true -/

theorem requestStatus_counts (counts : Counts t a s) (poll : Bool) :
    Counts (if poll then t.requestStatus else t) a s := by
  cases poll with
  | false => exact counts
  | true => exact { counts with noPdu := rfl }

theorem requestStatus_buffers (t : AmTransmitter) (poll : Bool) :
    (if poll then t.requestStatus else t).txedBuffer = t.txedBuffer ∧
      (if poll then t.requestStatus else t).retxBuffer = t.retxBuffer ∧
      (if poll then t.requestStatus else t).txonBuffer = t.txonBuffer ∧
      (if poll then t.requestStatus else t).txonBufferSize = t.txonBufferSize := by
  cases poll <;> exact ⟨rfl, rfl, rfl, rfl⟩

variable {k : Nat} {pdu : AmdPdu} {poll : Bool} {f : Frame UInt8}

theorem moveToTxed_counts (counts : Counts t a s) (low : a ≤ k) (high : k < s) (pdu : AmdPdu) :
    Counts (t.moveToTxed (k % 1024) pdu) a s := by
  refine { counts with
    txed := counts.txed.insert pdu low high
    retx := counts.retx.erase _
    apart := fun key => ?_ }
  by_cases here : key = k % 1024
  · exact .inr (by simp [moveToTxed, here])
  · simpa [moveToTxed, Function.update_of_ne here] using counts.apart key

namespace Retransmits

theorem buffers (sends : Retransmits t t' a s k pdu poll) :
    t'.txedBuffer = Function.update t.txedBuffer (k % 1024) (some pdu) ∧
      t'.retxBuffer = Function.update t.retxBuffer (k % 1024) none ∧
      t'.txonBuffer = t.txonBuffer ∧ t'.txonBufferSize = t.txonBufferSize := by
  obtain ⟨txed, retx, txon, size⟩ := requestStatus_buffers t poll
  rw [sends.after]
  simp [moveToTxed, txed, retx, txon, size]

theorem counts (sends : Retransmits t t' a s k pdu poll) (counts : Counts t a s) :
    Counts t' a s := by
  rw [sends.after]
  exact moveToTxed_counts (requestStatus_counts counts poll) sends.low sends.high pdu

end Retransmits

namespace SendsNew

section

variable (sends : SendsNew t t' mid a s bytes f pdu)
include sends

theorem buffers : t'.txedBuffer = Function.update t.txedBuffer (s % 1024) (some pdu) ∧
      t'.retxBuffer = t.retxBuffer := by
  rw [sends.after]
  exact ⟨rfl, rfl⟩

theorem free (counts : Counts t a s) :
    t.txedBuffer (s % 1024) = none ∧ t.retxBuffer (s % 1024) = none := by
  have a_le_s := counts.a_le_s
  have room := sends.room
  exact ⟨counts.txed.eq_none (by omega) (le_refl s) (by omega) a_le_s,
    counts.retx.eq_none (by omega) (le_refl s) (by omega) a_le_s⟩

theorem counts (counts : Counts t a s) : Counts t' a (s + 1) := by
  have a_le_s := counts.a_le_s
  have room := sends.room
  obtain ⟨-, free⟩ := sends.free counts
  rw [sends.after]
  refine ⟨counts.vtA, counts.vtMs, rfl, by omega, by omega,
    (counts.txed.mono (le_refl a) (Nat.le_succ s)).insert pdu a_le_s (Nat.lt_succ_self s),
    counts.retx.mono (le_refl a) (Nat.le_succ s), fun key => ?_, rfl⟩
  by_cases here : key = s % 1024
  · exact .inr (here ▸ free)
  · simpa [Function.update_of_ne here] using counts.apart key

end

end SendsNew

/-! ## The poll-retransmit timer -/

/-- The timer is off, and has just expired. -/
def expired (t : AmTransmitter) : AmTransmitter :=
  { t with pollRetransmitTimer := false, pollRetransmitTimerJustExpired := true }

/-- All it can do when it expires: with both buffers empty by their counters, or
the window full, the transmitted PDUs are to be retransmitted. -/
theorem expirePoll_cases (counts : Counts t a s) (here : t.expirePollRetransmitTimer = some t') :
    (t' = t.expired ∧ ¬(t.txonBufferSize = 0 ∧ t.retxBufferSize = 0) ∧ s < a + 512) ∨
      (Settles (fun _ => true) a s t.expired t' ∧ SameWindow t.expired t') := by
  have a_le_s := counts.a_le_s
  have s_le_ms := counts.s_le_ms
  have full : t.vtS.eq t.vtMs = decide (s = a + 512) := by
    rw [counts.vtS, counts.vtMs]
    apply Bool.eq_iff_iff.mpr
    simp only [SequenceNumber10.eq, beq_iff_eq, decide_eq_true_eq]
    exact ⟨fun same => Circular.eq_of_residue same (by omega) (by omega), fun same => by rw [same]⟩
  have inside : t.vtS.le? t.vtMs = some true := by
    rw [counts.vtS, counts.vtMs, le?_numbered a_le_s (by omega) (by omega) (by omega)]
    simp [s_le_ms]
  unfold expirePollRetransmitTimer at here
  simp only [inside, full, decide_eq_true_eq] at here
  by_cases moves : (t.txonBufferSize = 0 ∧ t.retxBufferSize = 0) ∨ s = a + 512
  · right
    rw [if_pos moves] at here
    obtain ⟨t'', done, settles, same⟩ := moveAllToRetx_spec (t := t.expired) counts.vtS
      (le_refl a) a_le_s (by omega) (show s < a + 1024 by omega) counts.apart
    change moveAllToRetx 1024 t.expired t.vtA = some t' at here
    rw [counts.vtA, done] at here
    cases here
    exact ⟨settles, same⟩
  · left
    rw [if_neg moves] at here
    cases here
    refine ⟨rfl, fun empty => moves (.inl empty), ?_⟩
    have : s ≠ a + 512 := fun full => moves (.inr full)
    omega

end AmTransmitter

end Ns3.Rlc
