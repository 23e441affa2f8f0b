import Ns3.Rlc.UmTransmitter

/-!
# The RLC PDUs of a run of `LteRlcUm`

A run of the transmitting side sends the frames of a stream: what the frames
end and what the transmission buffer still holds are the accepted SDUs, less
those that `PacketDeadlineTimer` has taken out before they were begun.
-/

namespace Ns3.Rlc

open Framing

namespace UmTransmitter

/-- A run of the transmitting side with the SDUs it accepted and the PDUs it
sent. PDCP puts a header in front of every SDU, so none is empty. `allowed` is
a condition on the entries that `PacketDeadlineTimer` takes out. -/
inductive Sends (a : UmAttributes) (allowed : List TxPdu → Prop) :
    UmTransmitter → List Packet → List Packet → Prop
  | start : Sends a allowed create [] []
  | transmit {t : UmTransmitter} {accepted sent : List Packet}
      (run : Sends a allowed t accepted sent) (now : Time) {p : Packet} (some : p ≠ [])
      (senderTimestamp : Time) :
      Sends a allowed (t.doTransmitPdcpPdu a now p senderTimestamp).1
        (accepted ++ if t.fits a p then [p] else []) sent
  | opportunity {t t' : UmTransmitter} {accepted sent : List Packet} {out : Option Packet}
      (run : Sends a allowed t accepted sent) (bytes : Nat)
      (here : t.doNotifyTxOpportunity bytes = some (t', out)) :
      Sends a allowed t' accepted (sent ++ out.toList)
  | deadline {t : UmTransmitter} {accepted sent : List Packet}
      (run : Sends a allowed t accepted sent) (now : Time) (pdcpSequenceNumbers : Nat → Nat)
      (tags : List Nat) (ok : allowed (deadlineLoops a now pdcpSequenceNumbers tags t.txBuffer).2) :
      Sends a allowed (t.packetDeadlineTimer a now pdcpSequenceNumbers tags).1 accepted sent

end UmTransmitter

/-- The PDUs of the frames of a stream. -/
def encodeAll (frames : List (Frame UInt8)) : List Packet :=
  frames.mapIdx fun n f => encode (numbered 0 n) f

theorem encodeAll_concat (frames : List (Frame UInt8)) (f : Frame UInt8) :
    encodeAll (frames ++ [f]) = encodeAll frames ++ [encode (numbered 0 frames.length) f] := by
  simp [encodeAll, List.mapIdx_concat]

/-- The frames of a stream, each with room for its length indicators. -/
structure IsStream (frames : List (Frame UInt8)) : Prop where
  order : InOrder none frames
  encodable : ∀ f ∈ frames, Encodable f

/-- The SDUs sent and those still to be sent, of a transmitting side that has
sent `frames`. -/
def sdusOf (frames : List (Frame UInt8)) (txBuffer : List TxPdu) : List Packet :=
  items none frames ++ joined (openAfter none frames) (txBuffer.map TxPdu.pdu)

theorem joined_append {opened : Option Packet} {queue : List Packet}
    (some : opened.isSome = true → queue ≠ []) (more : List Packet) :
    joined opened (queue ++ more) = joined opened queue ++ more := by
  cases queue with
  | nil =>
    cases opened with
    | none => simp
    | some pre => exact absurd rfl (some rfl)
  | cons p queue => rfl

theorem Ready.ne_nil {txBuffer : List TxPdu} (ready : Ready true txBuffer) : txBuffer ≠ [] := by
  cases ready with
  | begun => simp

theorem Ready.queue_ne_nil {opened : Option Packet} {txBuffer : List TxPdu}
    (ready : Ready opened.isSome txBuffer) (mid : opened.isSome = true) :
    txBuffer.map TxPdu.pdu ≠ [] := by
  have begun := Ready.ne_nil (mid ▸ ready)
  simpa using begun

theorem Ready.append {mid : Bool} {txBuffer : List TxPdu} (ready : Ready mid txBuffer) {p : TxPdu}
    (status : p.status = .fullSdu) (some : p.pdu ≠ []) : Ready mid (txBuffer ++ [p]) := by
  have more {l : List TxPdu} (full : FullSdus l) : FullSdus (l ++ [p]) := by
    intro q mem
    rcases List.mem_append.mp mem with mem | mem
    · exact full q mem
    · obtain rfl := List.mem_singleton.mp mem
      exact ⟨status, some⟩
  cases ready with
  | full full => exact Ready.full (more full)
  | begun last some full => exact Ready.begun last some (more full)

/-- The rest of an SDU that has been begun stays at the front. -/
theorem Ready.kept {mid : Bool} {txBuffer kept dropped : List TxPdu} (ready : Ready mid txBuffer)
    (sub : kept.Sublist txBuffer) (split : ∀ p ∈ txBuffer, p ∈ kept ∨ p ∈ dropped)
    (whole : ∀ p ∈ dropped, p.status ≠ .lastSegment) (opened : Option Packet)
    (begun : mid = opened.isSome) :
    Ready mid kept ∧
      (joined opened (kept.map TxPdu.pdu)).Sublist (joined opened (txBuffer.map TxPdu.pdu)) := by
  cases ready with
  | full full =>
    obtain rfl : opened = none := by simpa using begun.symm
    rw [joined_none, joined_none]
    exact ⟨Ready.full fun p mem => full p (sub.subset mem), sub.map _⟩
  | @begun p rest last some full =>
    have stays : p ∈ kept := (split p (List.mem_cons_self ..)).resolve_right fun mem =>
      whole p mem last
    cases sub with
    | cons _ sub =>
      have status := (full p (sub.subset stays)).1
      rw [last] at status
      exact absurd status (by decide)
    | cons_cons _ sub =>
      exact ⟨Ready.begun last some fun q mem => full q (sub.subset mem), (sub.map _).cons_cons _⟩

namespace UmTransmitter

structure Sending (t : UmTransmitter) (sent : List Packet) (frames : List (Frame UInt8)) :
    Prop where
  stream : IsStream frames
  sent : sent = encodeAll frames
  sequenceNumber : t.sequenceNumber = numbered 0 frames.length
  ready : Ready (openAfter none frames).isSome t.txBuffer

theorem create_sending : Sending create [] [] where
  stream := ⟨trivial, by simp⟩
  sent := rfl
  sequenceNumber := rfl
  ready := Ready.full (by simp [FullSdus, create])

variable {t : UmTransmitter} {sent : List Packet} {frames : List (Frame UInt8)}

/-- An accepted SDU comes after all the others. -/
theorem transmit_sending (sending : Sending t sent frames) (a : UmAttributes) (now : Time)
    {p : Packet} (some : p ≠ []) (senderTimestamp : Time) :
    Sending (t.doTransmitPdcpPdu a now p senderTimestamp).1 sent frames ∧
      sdusOf frames (t.doTransmitPdcpPdu a now p senderTimestamp).1.txBuffer =
        sdusOf frames t.txBuffer ++ if t.fits a p then [p] else [] := by
  unfold doTransmitPdcpPdu
  split
  · refine ⟨⟨sending.stream, sending.sent, sending.sequenceNumber,
      Ready.append sending.ready rfl some⟩, ?_⟩
    have begun := Ready.queue_ne_nil sending.ready
    simp only [sdusOf, List.map_append, List.map_cons, List.map_nil]
    simp [joined_append begun]
  · exact ⟨sending, (List.append_nil _).symm⟩

theorem opportunity_sending (sending : Sending t sent frames) {bytes : Nat} {t' : UmTransmitter}
    {out : Option Packet} (here : t.doNotifyTxOpportunity bytes = some (t', out)) :
    ∃ frames', Sending t' (sent ++ out.toList) frames' ∧
      sdusOf frames' t'.txBuffer = sdusOf frames t.txBuffer := by
  by_cases idle : bytes ≤ 2 ∨ t.txBuffer = []
  · rw [opportunity_idle t idle] at here
    obtain ⟨rfl, rfl⟩ := by simpa using here
    refine ⟨frames, ?_, rfl⟩
    rw [Option.toList_none, List.append_nil]
    exact sending
  · obtain ⟨large, some_⟩ := not_or.mp idle
    obtain ⟨t'', f, done, number, encodable, mid, cut, ready⟩ :=
      opportunity_sends sending.ready (Nat.lt_of_not_le large) some_
    obtain ⟨rfl, rfl⟩ := by simpa using here.symm.trans done
    have opened : openAfter none (frames ++ [f]) = f.left (openAfter none frames) :=
      openAfter_concat
    refine ⟨frames ++ [f], ⟨⟨?_, ?_⟩, ?_, ?_, ?_⟩, ?_⟩
    · exact inOrder_concat.mpr ⟨sending.stream.order, mid⟩
    · intro g mem
      rcases List.mem_append.mp mem with mem | mem
      · exact sending.stream.encodable g mem
      · obtain rfl := List.mem_singleton.mp mem
        exact encodable
    · rw [encodeAll_concat, sending.sent, sending.sequenceNumber]
      rfl
    · rw [number, sending.sequenceNumber, numbered_succ, List.length_append, List.length_singleton]
    · rwa [opened, Frame.left, cut.left_isSome]
    · rw [sdusOf, sdusOf, items_concat, opened, cut.joined_eq (openAfter none frames),
        List.append_assoc]
      rfl

/-! ## The deadline timer -/

theorem discardRepetitions_spec (pdcpSequenceNumbers : Nat → Nat) (tags : List Nat)
    (txBuffer : List TxPdu) :
    (discardRepetitions pdcpSequenceNumbers tags txBuffer).1.Sublist txBuffer ∧
      ∀ p ∈ txBuffer, p ∈ (discardRepetitions pdcpSequenceNumbers tags txBuffer).1 ∨
        p ∈ (discardRepetitions pdcpSequenceNumbers tags txBuffer).2 := by
  induction txBuffer generalizing pdcpSequenceNumbers tags with
  | nil => exact ⟨List.Sublist.refl _, by simp⟩
  | cons p txBuffer ih =>
    unfold discardRepetitions
    by_cases seen : pdcpSequenceNumbers (tags.headD 0 % 100) = 1
    · obtain ⟨sub, split⟩ := ih pdcpSequenceNumbers tags.tail
      simp only [seen]
      refine ⟨sub.cons p, fun q mem => ?_⟩
      rcases List.mem_cons.mp mem with rfl | mem
      · exact .inr (List.mem_cons_self ..)
      · exact (split q mem).imp_right (List.mem_cons_of_mem _)
    · obtain ⟨sub, split⟩ := ih (Function.update pdcpSequenceNumbers (tags.headD 0 % 100) 1)
        tags.tail
      simp only [seen]
      refine ⟨sub.cons_cons p, fun q mem => ?_⟩
      rcases List.mem_cons.mp mem with rfl | mem
      · exact .inl (List.mem_cons_self ..)
      · exact (split q mem).imp_left (List.mem_cons_of_mem _)

/-- The timer leaves the entries in their order, and takes what it does not leave. -/
theorem deadlineLoops_spec (a : UmAttributes) (now : Time) (pdcpSequenceNumbers : Nat → Nat)
    (tags : List Nat) (txBuffer : List TxPdu) :
    (deadlineLoops a now pdcpSequenceNumbers tags txBuffer).1.Sublist txBuffer ∧
      ∀ p ∈ txBuffer, p ∈ (deadlineLoops a now pdcpSequenceNumbers tags txBuffer).1 ∨
        p ∈ (deadlineLoops a now pdcpSequenceNumbers tags txBuffer).2 := by
  have parts (p : TxPdu) (mem : p ∈ txBuffer) :
      p ∈ txBuffer.filter (fun p => !late a now p) ∨ p ∈ txBuffer.filter (late a now) := by
    cases test : late a now p with
    | true => exact .inr (List.mem_filter.mpr ⟨mem, test⟩)
    | false => exact .inl (List.mem_filter.mpr ⟨mem, by simp [test]⟩)
  simp only [deadlineLoops, List.partition_eq_filter_filter]
  split
  · obtain ⟨sub, split⟩ := discardRepetitions_spec pdcpSequenceNumbers tags
      (txBuffer.filter (not ∘ late a now))
    refine ⟨sub.trans List.filter_sublist, fun p mem => ?_⟩
    rcases parts p mem with inTime | expired
    · exact (split p inTime).imp_right (List.mem_append_right _)
    · exact .inr (List.mem_append_left _ expired)
  · exact ⟨List.filter_sublist, parts⟩

/-- With both discard mechanisms off the timer takes nothing. -/
theorem deadlineLoops_off {a : UmAttributes} (noDeadline : a.schedulingDiscardTimerMs = 0)
    (noRepetition : a.discardingRepetitionPacketInTheSameQueue = false) (now : Time)
    (pdcpSequenceNumbers : Nat → Nat) (tags : List Nat) (txBuffer : List TxPdu) :
    (deadlineLoops a now pdcpSequenceNumbers tags txBuffer).1 = txBuffer := by
  simp [deadlineLoops, List.partition_eq_filter_filter, noRepetition, late, noDeadline]

/-- Every run sends a stream of SDUs that it has accepted, in their order, if
the timer takes no SDU that has been begun. -/
theorem sends_sublist {a : UmAttributes} {accepted : List Packet}
    (run : Sends a (fun dropped => ∀ p ∈ dropped, p.status ≠ .lastSegment) t accepted sent) :
    ∃ frames, Sending t sent frames ∧ (sdusOf frames t.txBuffer).Sublist accepted := by
  induction run with
  | start => exact ⟨[], create_sending, List.Sublist.refl _⟩
  | transmit _ now some senderTimestamp ih =>
    obtain ⟨frames, sending, sub⟩ := ih
    obtain ⟨sending', held⟩ := transmit_sending sending a now some senderTimestamp
    refine ⟨frames, sending', ?_⟩
    rw [held]
    exact sub.append_right _
  | opportunity _ bytes here ih =>
    obtain ⟨frames, sending, sub⟩ := ih
    obtain ⟨frames', sending', held⟩ := opportunity_sending sending here
    exact ⟨frames', sending', held ▸ sub⟩
  | @deadline t _ _ _ now pdcpSequenceNumbers tags ok ih =>
    obtain ⟨frames, sending, sub⟩ := ih
    obtain ⟨kept, split⟩ := deadlineLoops_spec a now pdcpSequenceNumbers tags t.txBuffer
    obtain ⟨ready, left⟩ := sending.ready.kept kept split ok _ rfl
    exact ⟨frames, ⟨sending.stream, sending.sent, sending.sequenceNumber, ready⟩,
      (left.append_left _).trans sub⟩

theorem sends_all {a : UmAttributes} (noDeadline : a.schedulingDiscardTimerMs = 0)
    (noRepetition : a.discardingRepetitionPacketInTheSameQueue = false) {accepted : List Packet}
    (run : Sends a (fun _ => True) t accepted sent) :
    ∃ frames, Sending t sent frames ∧ sdusOf frames t.txBuffer = accepted := by
  induction run with
  | start => exact ⟨[], create_sending, rfl⟩
  | transmit _ now some senderTimestamp ih =>
    obtain ⟨frames, sending, all⟩ := ih
    obtain ⟨sending', held⟩ := transmit_sending sending a now some senderTimestamp
    exact ⟨frames, sending', by rw [held, all]⟩
  | opportunity _ bytes here ih =>
    obtain ⟨frames, sending, all⟩ := ih
    obtain ⟨frames', sending', held⟩ := opportunity_sending sending here
    exact ⟨frames', sending', held.trans all⟩
  | @deadline t _ _ _ now pdcpSequenceNumbers tags _ ih =>
    obtain ⟨frames, sending, all⟩ := ih
    have same : (t.packetDeadlineTimer a now pdcpSequenceNumbers tags).1.txBuffer = t.txBuffer :=
      deadlineLoops_off noDeadline noRepetition now pdcpSequenceNumbers tags t.txBuffer
    refine ⟨frames, ⟨sending.stream, sending.sent, sending.sequenceNumber, ?_⟩, by rw [same, all]⟩
    rw [same]
    exact sending.ready

end UmTransmitter

end Ns3.Rlc
