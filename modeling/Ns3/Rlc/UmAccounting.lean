import Ns3.Rlc.UmTransmitter

/-!
# The accounts of the transmission buffer

The byte counter, the PDUs that are stored or reported as dropped, and the
size of what is sent. The counter is 32 bits wide, and PDCP discarding reports
a PDU that it stores.
-/

namespace Ns3.Rlc

open List LteRlcHeader

inductive UmEvent
  | transmit (now : Time) (p : Packet) (senderTimestamp : Time)
  | opportunity (bytes : Nat)
  | deadline (now : Time) (pdcpSequenceNumbers : Nat → Nat) (tags : List Nat)

namespace UmTransmitter

def step (a : UmAttributes) (t : UmTransmitter) : UmEvent → Option UmTransmitter
  | .transmit now p senderTimestamp => some (t.doTransmitPdcpPdu a now p senderTimestamp).1
  | .opportunity bytes => (t.doNotifyTxOpportunity bytes).map Prod.fst
  | .deadline now pdcpSequenceNumbers tags =>
    some (t.packetDeadlineTimer a now pdcpSequenceNumbers tags).1

end UmTransmitter

/-- A run, each step of which is `allowed`. -/
inductive UmRun (a : UmAttributes) (allowed : UmTransmitter → UmEvent → Prop) :
    UmTransmitter → Prop
  | start : UmRun a allowed UmTransmitter.create
  | step {t t' : UmTransmitter} (run : UmRun a allowed t) (e : UmEvent) (ok : allowed t e)
      (here : t.step a e = some t') : UmRun a allowed t'

namespace UmTransmitter

/-- The counter is the sum of the sizes. -/
def Counted (t : UmTransmitter) : Prop := t.txBufferSize = waiting t.txBuffer

/-- Stored and not reported, or reported and not stored. -/
def OfferedOnce (a : UmAttributes) (now : Time) (t : UmTransmitter) (p : Packet)
    (senderTimestamp : Time) : Prop :=
  let offered := t.doTransmitPdcpPdu a now p senderTimestamp
  (offered.1.txBuffer = t.txBuffer ++ [⟨p, .fullSdu, senderTimestamp⟩] ∧ offered.2 = []) ∨
    (offered.1.txBuffer = t.txBuffer ∧ offered.2 = [p])

/-- What a step has to account for. -/
def Accounted (a : UmAttributes) (t : UmTransmitter) : UmEvent → Prop
  | .transmit now p senderTimestamp =>
    OfferedOnce a now t p senderTimestamp ∧ Counted (t.doTransmitPdcpPdu a now p senderTimestamp).1
  | .opportunity bytes => ∀ t' pdu, t.doNotifyTxOpportunity bytes = some (t', pdu) →
      Counted t' ∧ ∀ packet ∈ pdu, packet.length ≤ bytes
  | .deadline now pdcpSequenceNumbers tags =>
    Counted (t.packetDeadlineTimer a now pdcpSequenceNumbers tags).1

/-- A PDU that finds room finds it in 32 bits, and is not discarded for the delay of the first. -/
def Exclusive (a : UmAttributes) (t : UmTransmitter) : UmEvent → Prop
  | .transmit now p _ => t.fits a p = true →
      t.txBufferSize + p.length < 2 ^ 32 ∧ t.pdcpDiscards a now = false
  | .opportunity _ | .deadline .. => True

instance (a : UmAttributes) (t : UmTransmitter) : (e : UmEvent) → Decidable (Exclusive a t e)
  | .transmit now p _ => inferInstanceAs (Decidable (t.fits a p = true →
      t.txBufferSize + p.length < 2 ^ 32 ∧ t.pdcpDiscards a now = false))
  | .opportunity _ | .deadline .. => inferInstanceAs (Decidable True)

/-! ## The counter -/

structure Kept (t : UmTransmitter) : Prop where
  counted : Counted t
  small : waiting t.txBuffer < 2 ^ 32

variable {a : UmAttributes} {t : UmTransmitter}

theorem waiting_perm {txBuffer other : List TxPdu} (perm : txBuffer.Perm other) :
    waiting txBuffer = waiting other := 
  Perm.sum_nat (perm.map fun p : TxPdu => p.pdu.length)

theorem discardRepetitions_cons (pdcpSequenceNumbers : Nat → Nat) (tags : List Nat) (p : TxPdu)
    (txBuffer : List TxPdu) : discardRepetitions pdcpSequenceNumbers tags (p :: txBuffer) =
      if pdcpSequenceNumbers (tags.headD 0 % 100) = 1 then
        ((discardRepetitions pdcpSequenceNumbers tags.tail txBuffer).1,
          p :: (discardRepetitions pdcpSequenceNumbers tags.tail txBuffer).2)
      else
        let seen := Function.update pdcpSequenceNumbers (tags.headD 0 % 100) 1
        (p :: (discardRepetitions seen tags.tail txBuffer).1,
          (discardRepetitions seen tags.tail txBuffer).2) := rfl

theorem discardRepetitions_waiting (pdcpSequenceNumbers : Nat → Nat) (tags : List Nat)
    (txBuffer : List TxPdu) :
    waiting txBuffer = waiting (discardRepetitions pdcpSequenceNumbers tags txBuffer).1 +
      waiting (discardRepetitions pdcpSequenceNumbers tags txBuffer).2 := by
  induction txBuffer generalizing pdcpSequenceNumbers tags with
  | nil => rfl
  | cons p txBuffer ih =>
    rw [discardRepetitions_cons]
    split
    · have rest := ih pdcpSequenceNumbers tags.tail
      dsimp only
      rw [waiting_cons, waiting_cons]
      omega
    · have rest := ih (Function.update pdcpSequenceNumbers (tags.headD 0 % 100) 1) tags.tail
      dsimp only
      rw [waiting_cons, waiting_cons]
      omega

theorem waiting_filter (p : TxPdu → Bool) (txBuffer : List TxPdu) :
    waiting txBuffer = waiting (txBuffer.filter p) + waiting (txBuffer.filter fun x => !p x) := by
  rw [← waiting_append]
  exact waiting_perm (filter_append_perm p txBuffer).symm

/-- Nothing gets lost between what stays and what goes. -/
theorem deadlineLoops_waiting (a : UmAttributes) (now : Time) (pdcpSequenceNumbers : Nat → Nat)
    (tags : List Nat) (txBuffer : List TxPdu) :
    waiting txBuffer = waiting (deadlineLoops a now pdcpSequenceNumbers tags txBuffer).1 +
      waiting (deadlineLoops a now pdcpSequenceNumbers tags txBuffer).2 := by
  have parts := waiting_filter (late a now) txBuffer
  unfold deadlineLoops
  simp only [partition_eq_filter_filter]
  split
  · have repeated := discardRepetitions_waiting pdcpSequenceNumbers tags
      (txBuffer.filter fun p => !late a now p)
    rw [waiting_append, parts]
    simp only [Function.comp_def] at repeated ⊢
    omega
  · rw [parts, add_comm]
    rfl

theorem foldl_sub32 (dropped : List TxPdu) {size rest : Nat} (sum : rest + waiting dropped = size)
    (small : size < 2 ^ 32) :
    dropped.foldl (fun size p => sub32 size p.pdu.length) size = rest := by
  induction dropped generalizing size with
  | nil => exact sum.symm
  | cons p dropped ih =>
    rw [waiting_cons] at sum
    rw [foldl_cons, sub32_eq (show rest + waiting dropped + p.pdu.length = size by omega) small]
    exact ih rfl (by omega)

theorem Kept.deadline (kept : Kept t) (now : Time) (pdcpSequenceNumbers : Nat → Nat)
    (tags : List Nat) : Kept (t.packetDeadlineTimer a now pdcpSequenceNumbers tags).1 := by
  have parts := deadlineLoops_waiting a now pdcpSequenceNumbers tags t.txBuffer
  have small := kept.small
  constructor
  · unfold Counted packetDeadlineTimer
    exact foldl_sub32 _ (by rw [kept.counted, parts]) (by rw [kept.counted]; exact small)
  · unfold packetDeadlineTimer
    dsimp only
    omega

/-- The loop leaves no more than it found. -/
theorem buildDataField_waiting {Header : Type} (push : Pushes Header) (rlcHeader : Header)
    (dataField : List Segment) (txBufferSize nextSegmentSize nextSegmentId : Nat) (p : TxPdu)
    (txBuffer : List TxPdu) :
    waiting (buildDataField push rlcHeader dataField txBufferSize nextSegmentSize nextSegmentId p
      txBuffer).txBuffer ≤ waiting (p :: txBuffer) := by
  have cut := (segmentAt_sizes p (min p.pdu.length nextSegmentSize)).2
  induction txBuffer generalizing p rlcHeader dataField txBufferSize nextSegmentSize
    nextSegmentId with
  | nil =>
    unfold buildDataField
    split
    · split
      · dsimp only
        rw [waiting_append, waiting_cons]
        omega
      · exact Nat.zero_le _
    · exact Nat.zero_le _
  | cons second later ih =>
    rw [waiting_cons]
    unfold buildDataField
    split
    · split
      · dsimp only
        rw [waiting_append]
        omega
      · by_cases tight : nextSegmentSize - p.pdu.length ≤ 2
        · simp only [if_pos tight]
          omega
        · simp only [if_neg tight]
          exact le_trans (ih _ _ _ _ _ _ (segmentAt_sizes _ _).2) (Nat.le_add_left _ _)
    · exact Nat.le_add_left _ _

theorem Kept.sent (kept : Kept t) {firstSegment : TxPdu} {txBuffer : List TxPdu}
    (front : t.txBuffer = firstSegment :: txBuffer) (nextSegmentSize : Nat) :
    let built := buildDataField pushes LteRlcHeader.create []
      (sub32 t.txBufferSize firstSegment.pdu.length) nextSegmentSize 1 firstSegment txBuffer
    built.txBufferSize = waiting built.txBuffer ∧ waiting built.txBuffer < 2 ^ 32 := by
  have small := kept.small
  have counted : t.txBufferSize = waiting t.txBuffer := kept.counted
  rw [front] at small counted
  have rest : sub32 t.txBufferSize firstSegment.pdu.length = waiting txBuffer :=
    sub32_eq (by rw [counted, waiting_cons, add_comm]) (by rw [counted]; exact small)
  rw [rest]
  exact ⟨buildDataField_sized pushes _ _ _ _ small,
    lt_of_le_of_lt (buildDataField_waiting pushes _ _ _ _ _ _ _) small⟩

/-! ## The size of what is sent -/

/-- One extension bit and one length indicator for each segment but the last. If
the loop comes to an entry with no bytes, the last one has both too. -/
def HeaderOf (segments : Nat) (rlcHeader : LteRlcHeader) : Prop :=
  (∃ lis, rlcHeader = (pushed lis).pushExtensionBit 0 ∧ lis.length + 1 = segments) ∨
    ∃ lis, rlcHeader = pushed lis ∧ lis.length = segments

theorem buildDataField_header (lis : List Nat) (dataField : List Segment)
    (same : lis.length = dataField.length) (txBufferSize nextSegmentSize nextSegmentId : Nat)
    (p : TxPdu) (txBuffer : List TxPdu) :
    let built := buildDataField pushes (pushed lis) dataField txBufferSize nextSegmentSize
      nextSegmentId p txBuffer
    HeaderOf built.dataField.length built.rlcHeader := by
  induction txBuffer generalizing p lis dataField txBufferSize nextSegmentSize nextSegmentId with
  | nil =>
    unfold buildDataField
    split
    · split
      · exact Or.inl ⟨lis, rfl, by simp [same]⟩
      · exact Or.inl ⟨lis, rfl, by simp [same]⟩
    · exact Or.inr ⟨lis, rfl, same⟩
  | cons second later ih =>
    unfold buildDataField
    split
    · split
      · exact Or.inl ⟨lis, rfl, by simp [same]⟩
      · by_cases tight : nextSegmentSize - p.pdu.length ≤ 2
        · simp only [if_pos tight]
          exact Or.inl ⟨lis, rfl, by simp [same]⟩
        · simp only [if_neg tight]
          have next : pushes.lengthIndicator (pushes.extensionBit (pushed lis) 1) p.pdu.length =
              pushed (lis ++ [p.pdu.length]) := pushed_next lis _
          rw [next]
          exact ih _ _ (by simp [same]) _ _ _ _
    · exact Or.inr ⟨lis, rfl, same⟩

theorem built_header (txBufferSize nextSegmentSize : Nat) (p : TxPdu) (txBuffer : List TxPdu) :
    let built := buildDataField pushes LteRlcHeader.create [] txBufferSize nextSegmentSize 1 p
      txBuffer
    HeaderOf built.dataField.length built.rlcHeader :=
  buildDataField_header [] [] rfl txBufferSize nextSegmentSize 1 p txBuffer

theorem writeLis_length : ∀ es lis : List Nat, (writeLis es lis).length =
    3 * (min es.length lis.length / 2) + 2 * (min es.length lis.length % 2)
  | [], _ => by simp [writeLis]
  | _ :: _, [] => by simp [writeLis]
  | [_], _ :: _ => by simp [writeLis]
  | _ :: _ :: _, [_] => by simp [writeLis]
  | _ :: _ :: es, _ :: _ :: lis => by
    have later := writeLis_length es lis
    simp only [writeLis, length_cons]
    omega

/-- The header takes two bytes and those of the length indicators. -/
theorem HeaderOf.length {segments : Nat} {rlcHeader : LteRlcHeader}
    (header : HeaderOf segments rlcHeader) (sn : SequenceNumber10) (fi : Nat) :
    ((rlcHeader.setSequenceNumber sn).setFramingInfo fi).serialize.length =
      2 + liBytes 1 (segments - 1) := by
  rcases header with ⟨lis, rfl, rfl⟩ | ⟨lis, rfl, rfl⟩
  all_goals
    simp only [serialize, length_cons, writeLis_length, liBytes_eq,
      setFramingInfo, setSequenceNumber, pushExtensionBit,
      pushed, length_tail, length_append, length_replicate, length_nil]
    simp
    omega

/-- **The size.** What is sent fits the opportunity. -/
theorem opportunity_fits {bytes : Nat} {t' : UmTransmitter} {packet : Packet}
    (sent : t.doNotifyTxOpportunity bytes = some (t', some packet)) : packet.length ≤ bytes := by
  unfold doNotifyTxOpportunity at sent
  split at sent
  · simp at sent
  · rename_i large
    split at sent
    · simp at sent
    · rename_i firstSegment txBuffer _
      obtain ⟨segments, taken, fits⟩ := buildDataField_fits pushes LteRlcHeader.create []
        (sub32 t.txBufferSize firstSegment.pdu.length) (bytes - 2) 1 firstSegment txBuffer
      have header := built_header (sub32 t.txBufferSize firstSegment.pdu.length) (bytes - 2)
        firstSegment txBuffer
      generalize buildDataField pushes LteRlcHeader.create []
        (sub32 t.txBufferSize firstSegment.pdu.length) (bytes - 2) 1 firstSegment txBuffer = built
        at taken header sent
      dsimp only at sent
      split at sent
      · simp only [Option.some.injEq] at sent
        obtain ⟨-, rfl⟩ := sent
        rw [LteRlcHeader.addHeader, length_append, header.length, taken, nil_append,
          length_flatten, map_map]
        have bound : (segments.map (List.length ∘ Segment.bytes)).sum +
            liBytes 1 (segments.length - 1) ≤ bytes - 2 := fits
        omega
      · simp at sent

theorem Kept.opportunity (kept : Kept t) {bytes : Nat} {t' : UmTransmitter}
    {out : Option Packet} (sent : t.doNotifyTxOpportunity bytes = some (t', out)) : Kept t' := by
  unfold doNotifyTxOpportunity at sent
  split at sent
  · obtain ⟨rfl, -⟩ := by simpa using sent
    exact kept
  · split at sent
    · obtain ⟨rfl, -⟩ := by simpa using sent
      exact kept
    · rename_i front
      obtain ⟨counted, small⟩ := kept.sent front (bytes - 2)
      dsimp only at sent
      split at sent
      · simp only [Option.some.injEq] at sent
        obtain ⟨rfl, -⟩ := sent
        exact ⟨counted, small⟩
      · simp at sent

/-! ## Runs -/

theorem Kept.transmit (kept : Kept t) (now : Time) (p : Packet) (senderTimestamp : Time)
    (room : t.fits a p = true → t.txBufferSize + p.length < 2 ^ 32) :
    Kept (t.doTransmitPdcpPdu a now p senderTimestamp).1 := by
  have counted : t.txBufferSize = waiting t.txBuffer := kept.counted
  unfold doTransmitPdcpPdu
  split
  · rename_i fits
    have small := room fits
    have more : waiting (t.txBuffer ++ [⟨p, .fullSdu, senderTimestamp⟩]) =
        waiting t.txBuffer + p.length := by
      rw [waiting_append]
      simp [waiting]
    constructor
    · unfold Counted
      rw [more, add32_eq small, counted]
    · dsimp only
      omega
  · exact kept

theorem Kept.accounted_iff (kept : Kept t) (e : UmEvent) : Accounted a t e ↔ Exclusive a t e := by
  have counted : t.txBufferSize = waiting t.txBuffer := kept.counted
  cases e with
  | transmit now p senderTimestamp =>
    constructor
    · rintro ⟨once, sum⟩ fits
      have small := kept.small
      unfold OfferedOnce doTransmitPdcpPdu at once
      unfold Counted doTransmitPdcpPdu at sum
      rw [if_pos fits] at once sum
      dsimp only at once sum
      rw [waiting_append] at sum
      constructor
      · by_contra large
        have single : waiting [⟨p, .fullSdu, senderTimestamp⟩] = p.length := by simp [waiting]
        rw [single] at sum
        have wraps := by omega
        unfold add32 at sum
        omega
      · cases discards : t.pdcpDiscards a now with
        | false => rfl
        | true => simp [discards] at once
    · intro exclusive
      refine ⟨?_, (kept.transmit now p senderTimestamp fun fits => (exclusive fits).1).counted⟩
      unfold OfferedOnce doTransmitPdcpPdu
      by_cases fits : t.fits a p = true
      · rw [if_pos fits]
        exact Or.inl ⟨rfl, by simp [(exclusive fits).2]⟩
      · rw [if_neg fits]
        exact Or.inr ⟨rfl, rfl⟩
  | opportunity bytes =>
    refine iff_of_true (fun t' out sent => ⟨(kept.opportunity sent).counted, ?_⟩) trivial
    rintro packet rfl
    exact opportunity_fits sent
  | deadline now pdcpSequenceNumbers tags =>
    exact iff_of_true (kept.deadline now pdcpSequenceNumbers tags).counted trivial

theorem Kept.step (kept : Kept t) {e : UmEvent} (ok : Exclusive a t e) {t' : UmTransmitter}
    (here : t.step a e = some t') : Kept t' := by
  cases e with
  | transmit now p senderTimestamp =>
    cases here
    exact kept.transmit now p senderTimestamp fun fits => (ok fits).1
  | opportunity bytes =>
    obtain ⟨⟨_, out⟩, sent, rfl⟩ := Option.map_eq_some_iff.mp here
    exact kept.opportunity sent
  | deadline now pdcpSequenceNumbers tags =>
    cases here
    exact kept.deadline now pdcpSequenceNumbers tags

/-- **Accounts.** In a run of exclusive steps the counter is right everywhere, and the
next step accounts for everything if and only if it is exclusive too. -/
theorem um_accounts {a : UmAttributes} {t : UmTransmitter} (run : UmRun a (Exclusive a) t) :
    Counted t ∧ ∀ e, Accounted a t e ↔ Exclusive a t e := by
  have kept : Kept t := by
    induction run with
    | start => exact ⟨rfl, by decide⟩
    | step _ e ok here ih => exact ih.step ok here
  exact ⟨kept.counted, kept.accounted_iff⟩

/-- 100 bytes, PDCP discarding after 10 ms, and no deadline. -/
def discarding : UmAttributes := ⟨100, true, 10, 0, 0, false⟩

theorem um_accounts_first : Counted (create.doTransmitPdcpPdu discarding 0 [0x07, 0x08] 0).1 ∧
    ∀ e, Accounted discarding (create.doTransmitPdcpPdu discarding 0 [0x07, 0x08] 0).1 e ↔
      Exclusive discarding (create.doTransmitPdcpPdu discarding 0 [0x07, 0x08] 0).1 e :=
  um_accounts (UmRun.step UmRun.start (.transmit 0 [0x07, 0x08] 0) (by decide) rfl)

/-- The second PDU comes 11 ms after the first. It is reported and stored. -/
theorem discarded_and_stored :
    ¬ ∀ t, UmRun discarding (fun _ _ => True) t → ∀ e, Accounted discarding t e := by
  intro all
  obtain ⟨once, -⟩ := all _ (UmRun.step UmRun.start (.transmit 0 [0x07, 0x08] 0) trivial rfl)
    (.transmit 11000000 [0x09] 11000000)
  revert once
  unfold OfferedOnce
  decide

end UmTransmitter

end Ns3.Rlc
