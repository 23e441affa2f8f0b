import Ns3.Rlc.LteRlcTm

/-!
# When a buffer status report tells the truth

The packets are counted in eight bits, the size of `LteRlcTm` is always 100, and
the single packet of `LteRlcUm` is looked for in an empty buffer too.
-/

namespace Ns3.Rlc

/-- No access outside, the delay of every entry, and a size of zero for an empty buffer only. -/
def Faithful (now : Time) (txBuffer : List TxPdu) (report : Option ReportBufferStatusParameters) :
    Prop :=
  ∃ r, report = some r ∧
    (∀ i, (h : i < txBuffer.length) → r.txQueueDelays[i]? = some ((txBuffer[i]).delay now)) ∧
      (r.txQueueSize = 0 ↔ txBuffer = [])

theorem LteRlcTm.faithful_iff (a : TmAttributes) (now : Time) (m : Memory) (t : LteRlcTm) :
    Faithful now (discardLoops a now m t.txBuffer).1 (t.doReportBufferStatus a now m).2.2 ↔
      (discardLoops a now m t.txBuffer).1 ≠ [] ∧
        (discardLoops a now m t.txBuffer).1.length < 256 := by
  have made : (t.doReportBufferStatus a now m).2.2 = (t.discard a now m).1.bufferStatus now := rfl
  have kept : (t.discard a now m).1.txBuffer = (discardLoops a now m t.txBuffer).1 := rfl
  rw [made]
  unfold bufferStatus
  rw [kept, fillDelays_all]
  generalize (discardLoops a now m t.txBuffer).1 = txBuffer
  constructor
  · rintro ⟨r, eq, fills, size⟩
    cases eq
    exact ⟨fun empty => absurd (size.mpr empty) (Nat.succ_ne_zero 99),
      (fills_iff now txBuffer).mp fills⟩
  · rintro ⟨some_, short⟩
    exact ⟨_, rfl, (fills_iff now txBuffer).mpr short, iff_of_false (Nat.succ_ne_zero 99) some_⟩

/-- What the size of `LteRlcUm` has to be for its report to tell the truth. -/
def UmTransmitter.Sized (independentQueue : Bool) (t : UmTransmitter) : Prop :=
  if independentQueue then ∃ last, t.txBuffer.getLast? = some last ∧ add32 last.pdu.length 2 ≠ 0
  else t.txBuffer ≠ [] → add32 t.txBufferSize (2 * t.txBuffer.length) ≠ 0

theorem UmTransmitter.faithful_iff (independentQueue : Bool) (now : Time) (t : UmTransmitter) :
    Faithful now t.txBuffer (t.doReportBufferStatus independentQueue now) ↔
      t.txBuffer.length < 256 ∧ t.Sized independentQueue := by
  obtain ⟨txBuffer, txBufferSize, sequenceNumber⟩ := t
  unfold doReportBufferStatus Sized queueSize
  rw [fillDelays_all]
  have delays := fills_iff now txBuffer
  generalize (txBuffer.take (qlength txBuffer)).map (TxPdu.delay now) = txQueueDelays at delays
  cases independentQueue with
  | false =>
    constructor
    · rintro ⟨r, eq, fills, size⟩
      cases eq
      refine ⟨delays.mp fills, ?_⟩
      rw [if_neg Bool.false_ne_true]
      intro some_ zero
      refine some_ (size.mp ?_)
      simp [some_, zero]
    · rintro ⟨short, sized⟩
      rw [if_neg Bool.false_ne_true] at sized
      refine ⟨_, rfl, delays.mpr short, ?_⟩
      by_cases empty : txBuffer = []
      · simp [empty]
      · simp [empty, sized empty]
  | true =>
    constructor
    · rintro ⟨r, eq, fills, size⟩
      obtain ⟨txQueueSize, found, made⟩ := Option.bind_eq_some_iff.mp eq
      cases made
      have short := delays.mp fills
      have all : qlength txBuffer = txBuffer.length := Nat.mod_eq_of_lt short
      rw [all] at found
      refine ⟨short, ?_⟩
      by_cases empty : txBuffer = []
      · simp [empty] at found
      · have positive : ¬ txBuffer.length = 0 := by simpa using empty
        rw [if_neg positive, ← List.getLast?_eq_getElem?] at found
        obtain ⟨last, back, rfl⟩ := Option.map_eq_some_iff.mp found
        exact ⟨last, back, fun zero => empty (size.mp zero)⟩
    · rintro ⟨short, last, back, nonzero⟩
      have some_ : txBuffer ≠ [] := by
        rintro rfl
        simp at back
      have all : qlength txBuffer = txBuffer.length := Nat.mod_eq_of_lt short
      have positive : ¬ txBuffer.length = 0 := by simpa using some_
      rw [all, if_neg positive, ← List.getLast?_eq_getElem?, back]
      exact ⟨_, rfl, delays.mpr short, iff_of_false nonzero some_⟩

/-- **Reports.** When the reports tell the truth, for any contents of the buffers. -/
theorem reports_iff (now : Time) : (∀ (a : TmAttributes) (m : LteRlcTm.Memory) (t : LteRlcTm),
      Faithful now (t.discard a now m).1.txBuffer (t.doReportBufferStatus a now m).2.2 ↔
        (LteRlcTm.discardLoops a now m t.txBuffer).1 ≠ [] ∧
          (LteRlcTm.discardLoops a now m t.txBuffer).1.length < 256) ∧
    ∀ (independentQueue : Bool) (t : UmTransmitter),
      Faithful now t.txBuffer (t.doReportBufferStatus independentQueue now) ↔
        t.txBuffer.length < 256 ∧ t.Sized independentQueue :=
  ⟨fun a => LteRlcTm.faithful_iff a now, fun independentQueue =>
    UmTransmitter.faithful_iff independentQueue now⟩

/-- A buffer for one byte is given two. It stays empty, and the report has a size of 100. -/
theorem empty_reported : ¬ ∀ (a : TmAttributes) (now : Time) (m : LteRlcTm.Memory) (p : Packet),
    Faithful now (LteRlcTm.create.doTransmitPdcpPdu a now m p now).1.txBuffer
      (LteRlcTm.create.doTransmitPdcpPdu a now m p now).2.2 := by
  intro all
  obtain ⟨r, eq, -, size⟩ := all ⟨1, 0, false⟩ 0 ⟨fun _ => 0, []⟩ [0x01, 0x02]
  obtain rfl := Option.some.inj eq
  exact absurd (size.mpr rfl) (by decide)

end Ns3.Rlc
