import Ns3.Library.Loops

/-!
# The uplink grant of `NrUeMac`

What the UE does with a grant for new data. The RLC entities answer an opportunity with a PDU or
with none, as they like. `none` is a failed assertion; a transport block is far below 2^32 bytes.
The levels of the SHORT_BSR and the HARQ buffer of the process are left out.
-/

namespace Ns3.Nr

open List Option

/-- `ReportBufferStatusParameters` -/
structure BufferStatus where
  lcid : Nat
  txQueueSize : Nat
  retxQueueSize : Nat
  statusPduSize : Nat

/-- `m_ulBsrReceived`, in the order of its iteration. -/
structure BsrMap where
  entries : List BufferStatus
  distinct : (entries.map (·.lcid)).Nodup

structure TxOpportunity where
  lcid : Nat
  bytes : Nat
  deriving DecidableEq

/-- The answers to an opportunity after those before it: no PDU is larger than the opportunity. -/
structure RlcAnswers where
  answer : List TxOpportunity → TxOpportunity → Option Nat
  within : ∀ past o pdu, answer past o = some pdu → pdu ≤ o.bytes

/-- What was sent for the grant: `m_ulDciTotalUsed`, the sizes of the PDUs that went to the PHY,
and the opportunities. -/
structure UlTransmission where
  totalUsed : Nat := 0
  macPdus : List Nat := []
  opportunities : List TxOpportunity := []

/-- `NrMacHeaderVs::GetSerializedSize`, where the size of the PDU is a `uint16_t`. -/
def subheaderSize (pdu : Nat) : Nat := if 127 < pdu % 2 ^ 16 then 3 else 2

def subPduSize (pdu : Nat) : Nat := pdu + subheaderSize pdu

/-- `NrMacShortBsrCe::GetSerializedSize` -/
def shortBsrSize : Nat := 1 + 4

namespace NrUeMac

section

variable (rlc : RlcAnswers) (tbs : Nat)

def doTransmitPdu (ul : UlTransmission) (pdu : Nat) : Option UlTransmission :=
  if ul.totalUsed + subPduSize pdu ≤ tbs then
    some { ul with
      totalUsed := ul.totalUsed + subPduSize pdu
      macPdus := ul.macPdus ++ [subPduSize pdu] }
  else none

def notifyTxOpportunity (ul : UlTransmission) (o : TxOpportunity) : Option UlTransmission :=
  let given := { ul with opportunities := ul.opportunities ++ [o] }
  match rlc.answer ul.opportunities o with
  | none => some given
  | some pdu => doTransmitPdu tbs given pdu

/-- The loop of `SendNewStatusData`, with the entries it is past. -/
structure StatusPass where
  served : List BufferStatus
  sentOneStatusPdu : Bool
  ul : UlTransmission

def statusRound (x : StatusPass) (bsr : BufferStatus) : Option StatusPass :=
  if 0 < bsr.statusPduSize ∧ x.ul.totalUsed + bsr.statusPduSize ≤ tbs then do
    let ul ← notifyTxOpportunity rlc tbs x.ul ⟨bsr.lcid, bsr.statusPduSize⟩
    return ⟨x.served ++ [{ bsr with statusPduSize := 0 }], true, ul⟩
  else some { x with served := x.served ++ [bsr] }

def sendNewStatusData (bsrs : List BufferStatus) (ul : UlTransmission) :
    Option (List BufferStatus × UlTransmission) := do
  let x ← bsrs.foldlM (statusRound rlc tbs) ⟨[], false, ul⟩
  if bsrs.any (fun bsr => 0 < bsr.statusPduSize) && !x.sentOneStatusPdu then none
  else some (x.served, x.ul)

/-- A round of the loops of `SendRetxData` and `SendTxData`; `sent` updates the queue. -/
def dataRound (bytesPerLcId usefulTbs : Nat) (sent : BufferStatus → BufferStatus)
    (x : List BufferStatus × UlTransmission) (bsr : BufferStatus) :
    Option (List BufferStatus × UlTransmission) :=
  if x.2.totalUsed + bytesPerLcId ≤ usefulTbs then do
    let ul ← notifyTxOpportunity rlc tbs x.2 ⟨bsr.lcid, bytesPerLcId⟩
    return (x.1 ++ [sent bsr], ul)
  else some (x.1 ++ [bsr], x.2)

def sendRetxData (usefulTbs activeLcsRetx : Nat) (bsrs : List BufferStatus) (ul : UlTransmission) :
    Option (List BufferStatus × UlTransmission) :=
  if activeLcsRetx = 0 then some (bsrs, ul)
  else
    let bytesPerLcId := usefulTbs / activeLcsRetx
    bsrs.foldlM (dataRound rlc tbs bytesPerLcId usefulTbs fun bsr =>
      { bsr with retxQueueSize := bsr.retxQueueSize - min bytesPerLcId bsr.retxQueueSize })
      ([], ul)

def sendTxData (usefulTbs activeTx : Nat) (bsrs : List BufferStatus) (ul : UlTransmission) :
    Option (List BufferStatus × UlTransmission) :=
  if activeTx = 0 then some (bsrs, ul)
  else
    let bytesPerLcId := usefulTbs / activeTx
    bsrs.foldlM (dataRound rlc tbs bytesPerLcId usefulTbs fun bsr =>
      { bsr with txQueueSize := bsr.txQueueSize - min bytesPerLcId bsr.txQueueSize })
      ([], ul)

/-- What is left with the SHORT_BSR reserved. -/
def usefulTbs (ul : UlTransmission) : Option Nat :=
  if ul.totalUsed + 5 ≤ tbs then some (tbs - ul.totalUsed - 5) else none

def sendNewData (bsrs : List BufferStatus) (ul : UlTransmission) :
    Option (List BufferStatus × UlTransmission) := do
  let (bsrs, ul) ← sendNewStatusData rlc tbs bsrs ul
  let activeLcsRetx := bsrs.countP fun bsr => 0 < bsr.retxQueueSize
  let activeLcsTx := bsrs.countP fun bsr => 0 < bsr.txQueueSize
  let useful ← usefulTbs tbs ul
  let (bsrs, ul) ← (if 0 < activeLcsRetx ∧ 0 < useful ∧ activeLcsRetx * 10 ≤ useful then
      sendRetxData rlc tbs (useful - activeLcsRetx * 3) activeLcsRetx bsrs ul
    else some (bsrs, ul) : Option (List BufferStatus × UlTransmission))
  let useful ← usefulTbs tbs ul
  if 0 < activeLcsTx ∧ 0 < useful ∧ activeLcsTx * 10 ≤ useful then
    sendTxData rlc tbs (useful - activeLcsTx * 3) activeLcsTx bsrs ul
  else some (bsrs, ul)

def sendReportBufferStatus (rnti : Nat) (bsrs : List BufferStatus) (ul : UlTransmission) :
    Option UlTransmission :=
  if rnti = 0 || bsrs.isEmpty then some ul
  else if ul.totalUsed + shortBsrSize ≤ tbs then
    some { ul with
      totalUsed := ul.totalUsed + shortBsrSize
      macPdus := ul.macPdus ++ [shortBsrSize] }
  else none

/-- `ProcessUlDci` for new data. -/
def processUlDci (rnti : Nat) (bsrs : List BufferStatus) :
    Option (List BufferStatus × UlTransmission) := do
  let (bsrs, ul) ← sendNewData rlc tbs bsrs {}
  let ul ← sendReportBufferStatus tbs rnti bsrs ul
  return (bsrs, ul)

end

/-- The channels with new data. -/
def activeTx (bsrs : List BufferStatus) : Nat := bsrs.countP fun bsr => 0 < bsr.txQueueSize

/-- Neither status nor retransmission data is pending. -/
def OnlyNewData (bsrs : List BufferStatus) : Prop :=
  ∀ bsr ∈ bsrs, bsr.statusPduSize = 0 ∧ bsr.retxQueueSize = 0

/-- The share of each channel with new data. -/
def equalShare (tbs : Nat) (bsrs : List BufferStatus) : Nat :=
  (tbs - 5 - activeTx bsrs * 3) / activeTx bsrs

/-- The grant is respected, and shared where there is only new data. -/
structure Served (tbs : Nat) (m : BsrMap) (ul : UlTransmission) : Prop where
  within : ul.macPdus.sum ≤ tbs
  shared : OnlyNewData m.entries → activeTx m.entries * 10 ≤ tbs - 5 →
    (∀ bsr ∈ m.entries, 0 < bsr.txQueueSize →
      ⟨bsr.lcid, equalShare tbs m.entries⟩ ∈ ul.opportunities) ∧
    ∀ o ∈ ul.opportunities, ∃ bsr ∈ m.entries, bsr.lcid = o.lcid ∧ 0 < bsr.txQueueSize

/-- What a status PDU may take, if the block has room for it at all. -/
def statusLoad (tbs : Nat) (bsr : BufferStatus) : Nat :=
  if 0 < bsr.statusPduSize ∧ bsr.statusPduSize ≤ tbs then subPduSize bsr.statusPduSize else 0

/-- All status PDUs with their subheaders leave room for the SHORT_BSR. -/
def StatusFits (tbs : Nat) (bsrs : List BufferStatus) : Prop :=
  (bsrs.map (statusLoad tbs)).sum + 5 ≤ tbs

/-- Where the block is shared, no channel has new data or there is only one channel. -/
def Undivided (tbs : Nat) (bsrs : List BufferStatus) : Prop :=
  OnlyNewData bsrs → activeTx bsrs * 10 ≤ tbs - 5 → activeTx bsrs = 0 ∨ bsrs.length = 1

/-! ## One opportunity -/

theorem subheaderSize_bounds (pdu : Nat) : 2 ≤ subheaderSize pdu ∧ subheaderSize pdu ≤ 3 := by
  unfold subheaderSize
  split <;> omega

theorem subPduSize_succ (pdu : Nat) :
    subPduSize pdu ≤ subPduSize (pdu + 1) ∧ subPduSize (pdu + 1) ≤ subPduSize pdu + 2 := by
  have here := subheaderSize_bounds pdu
  have next := subheaderSize_bounds (pdu + 1)
  unfold subPduSize
  omega

theorem subPduSize_mono {pdu bytes : Nat} (le : pdu ≤ bytes) : subPduSize pdu ≤ subPduSize bytes :=
  monotone_nat_of_le_succ (fun n => (subPduSize_succ n).1) le

theorem subPduSize_le (pdu : Nat) : subPduSize pdu ≤ pdu + 3 :=
  Nat.add_le_add_left (subheaderSize_bounds pdu).2 pdu

section

variable {rlc : RlcAnswers} {tbs : Nat} {ul ul' : UlTransmission} {o : TxOpportunity}
  {bsrs : List BufferStatus}

/-- The counter has the bytes that went to the PHY. -/
def Accounted (ul : UlTransmission) : Prop := ul.macPdus.sum = ul.totalUsed

/-- What an answer takes. -/
def cost : Option Nat → Nat
  | none => 0
  | some pdu => subPduSize pdu

theorem notifyTxOpportunity_eq : notifyTxOpportunity rlc tbs ul o =
    if cost (rlc.answer ul.opportunities o) = 0 ∨
        ul.totalUsed + cost (rlc.answer ul.opportunities o) ≤ tbs then
      some {
        totalUsed := ul.totalUsed + cost (rlc.answer ul.opportunities o)
        macPdus := ul.macPdus ++ (rlc.answer ul.opportunities o).toList.map subPduSize
        opportunities := ul.opportunities ++ [o] }
    else none := by
  unfold notifyTxOpportunity doTransmitPdu
  cases rlc.answer ul.opportunities o with
  | none => simp [cost]
  | some pdu =>
    have pos : subPduSize pdu ≠ 0 := by
      have bounds := subheaderSize_bounds pdu
      unfold subPduSize
      omega
    simp [cost, pos]

theorem cost_le : cost (rlc.answer ul.opportunities o) ≤ subPduSize o.bytes := by
  cases is : rlc.answer ul.opportunities o with
  | none => exact Nat.zero_le _
  | some pdu => exact subPduSize_mono (rlc.within _ _ _ is)

theorem notifyTxOpportunity_spec (h : notifyTxOpportunity rlc tbs ul o = some ul') :
    ul'.totalUsed = ul.totalUsed + cost (rlc.answer ul.opportunities o) ∧
      ul'.opportunities = ul.opportunities ++ [o] ∧ (Accounted ul → Accounted ul') := by
  rw [notifyTxOpportunity_eq] at h
  obtain ⟨-, is⟩ := ite_none_right_eq_some.mp h
  cases is
  refine ⟨rfl, rfl, fun accounted => ?_⟩
  unfold Accounted at *
  rw [sum_append, accounted]
  cases rlc.answer ul.opportunities o <;> simp [cost]

theorem notifyTxOpportunity_total (room : ul.totalUsed + subPduSize o.bytes ≤ tbs) :
    ∃ ul', notifyTxOpportunity rlc tbs ul o = some ul' ∧
      ul'.totalUsed ≤ ul.totalUsed + subPduSize o.bytes ∧ (Accounted ul → Accounted ul') := by
  have le := @cost_le rlc ul o
  have here := @notifyTxOpportunity_eq rlc tbs ul o
  rw [if_pos (by omega)] at here
  obtain ⟨used, -, accounted⟩ := notifyTxOpportunity_spec here
  exact ⟨_, here, by omega, accounted⟩

/-! ## A grant that is respected -/

theorem sendNewStatusData_total (fits : ul.totalUsed + (bsrs.map (statusLoad tbs)).sum + 5 ≤ tbs)
    (accounted : Accounted ul) (passes : (∀ bsr ∈ bsrs, bsr.statusPduSize = 0) ∨
      ∃ bsr ∈ bsrs, 0 < bsr.statusPduSize ∧ bsr.statusPduSize ≤ tbs) :
    ∃ bsrs' ul', sendNewStatusData rlc tbs bsrs ul = some (bsrs', ul') ∧
      ul'.totalUsed + 5 ≤ tbs ∧ Accounted ul' := by
  obtain ⟨x, looped, used, accounted', sent⟩ := PartialFold.total
    (f := statusRound rlc tbs) (l := bsrs) (s := ⟨[], false, ul⟩)
    (fun rest x => x.ul.totalUsed + (rest.map (statusLoad tbs)).sum + 5 ≤ tbs ∧ Accounted x.ul ∧
      (x.sentOneStatusPdu = false →
        (∃ bsr ∈ bsrs, 0 < bsr.statusPduSize ∧ bsr.statusPduSize ≤ tbs) →
        ∃ bsr ∈ rest, 0 < bsr.statusPduSize ∧ bsr.statusPduSize ≤ tbs))
    (by
      rintro bsr rest x ⟨room, acc, left⟩
      rw [map_cons, sum_cons] at room
      have large : bsr.statusPduSize ≤ subPduSize bsr.statusPduSize := Nat.le_add_right _ _
      unfold statusRound
      by_cases fit : 0 < bsr.statusPduSize ∧ bsr.statusPduSize ≤ tbs
      · rw [statusLoad, if_pos fit] at room
        obtain ⟨ul', notified, used, kept⟩ := @notifyTxOpportunity_total rlc tbs x.ul
          ⟨bsr.lcid, bsr.statusPduSize⟩ (by dsimp only; omega)
        dsimp only at used
        rw [if_pos ⟨fit.1, by omega⟩, notified]
        exact ⟨_, rfl, by dsimp only; omega, kept acc, nofun⟩
      · rw [statusLoad, if_neg fit] at room
        rw [if_neg (by omega)]
        refine ⟨_, rfl, by dsimp only; omega, acc, ?_⟩
        intro none_sent pending
        obtain ⟨other, mem, holds⟩ := left none_sent pending
        cases mem with
        | head => exact absurd holds fit
        | tail _ mem => exact ⟨other, mem, holds⟩)
    ⟨fits, accounted, fun _ pending => pending⟩
  unfold sendNewStatusData
  have goes_on : (bsrs.any (fun bsr => 0 < bsr.statusPduSize) && !x.sentOneStatusPdu) = false := by
    rcases passes with zero | pending
    · simp +contextual [zero]
    · cases none_sent : x.sentOneStatusPdu with
      | true => simp
      | false =>
        obtain ⟨bsr, mem, -⟩ := sent none_sent pending
        cases mem
  simp only [looped, bind_eq_bind, bind_some, goes_on]
  exact ⟨_, _, rfl, by simpa using used, accounted'⟩

variable {share useful rnti : Nat} {sent : BufferStatus → BufferStatus} {bsrs' : List BufferStatus}

/-- Shares with their subheaders stay within what is useful. -/
theorem dataRounds_total (within : useful + 3 ≤ tbs - 5) (room : ul.totalUsed + 5 ≤ tbs)
    (accounted : Accounted ul) :
    ∃ bsrs' ul', bsrs.foldlM (dataRound rlc tbs share useful sent) ([], ul) = some (bsrs', ul') ∧
      ul'.totalUsed + 5 ≤ tbs ∧ Accounted ul' := by
  obtain ⟨⟨bsrs', ul'⟩, looped, kept⟩ := PartialFold.total
    (f := dataRound rlc tbs share useful sent) (l := bsrs) (s := ([], ul))
    (fun _ x => x.2.totalUsed + 5 ≤ tbs ∧ Accounted x.2)
    (by
      rintro bsr rest x ⟨room, acc⟩
      unfold dataRound
      by_cases fit : x.2.totalUsed + share ≤ useful
      · have size := subPduSize_le share
        obtain ⟨ul', notified, used, kept⟩ := @notifyTxOpportunity_total rlc tbs x.2
          ⟨bsr.lcid, share⟩ (by dsimp only; omega)
        dsimp only at used
        rw [if_pos fit, notified]
        exact ⟨_, rfl, by dsimp only; omega, kept acc⟩
      · rw [if_neg fit]
        exact ⟨_, rfl, room, acc⟩)
    ⟨room, accounted⟩
  exact ⟨bsrs', ul', looped, kept⟩

theorem sendRetxData_total {active : Nat} (within : useful + 3 ≤ tbs - 5)
    (room : ul.totalUsed + 5 ≤ tbs) (accounted : Accounted ul) :
    ∃ bsrs' ul', sendRetxData rlc tbs useful active bsrs ul = some (bsrs', ul') ∧
      ul'.totalUsed + 5 ≤ tbs ∧ Accounted ul' := by
  unfold sendRetxData
  split
  · exact ⟨_, _, rfl, room, accounted⟩
  · exact dataRounds_total within room accounted

theorem sendTxData_total {active : Nat} (within : useful + 3 ≤ tbs - 5)
    (room : ul.totalUsed + 5 ≤ tbs) (accounted : Accounted ul) :
    ∃ bsrs' ul', sendTxData rlc tbs useful active bsrs ul = some (bsrs', ul') ∧
      ul'.totalUsed + 5 ≤ tbs ∧ Accounted ul' := by
  unfold sendTxData
  split
  · exact ⟨_, _, rfl, room, accounted⟩
  · exact dataRounds_total within room accounted

theorem sendNewData_total (fits : StatusFits tbs bsrs)
    (passes : (∀ bsr ∈ bsrs, bsr.statusPduSize = 0) ∨
      ∃ bsr ∈ bsrs, 0 < bsr.statusPduSize ∧ bsr.statusPduSize ≤ tbs) :
    ∃ bsrs' ul', sendNewData rlc tbs bsrs {} = some (bsrs', ul') ∧
      ul'.totalUsed + 5 ≤ tbs ∧ Accounted ul' := by
  obtain ⟨bsrs₁, ul₁, status, room₁, accounted₁⟩ := @sendNewStatusData_total rlc tbs {} bsrs
    (by simpa [StatusFits] using fits) rfl passes
  have useful₁ : usefulTbs tbs ul₁ = some (tbs - ul₁.totalUsed - 5) := if_pos room₁
  obtain ⟨bsrs₂, ul₂, retx, room₂, accounted₂⟩ : ∃ bsrs₂ ul₂,
      (if 0 < bsrs₁.countP (fun bsr => 0 < bsr.retxQueueSize) ∧ 0 < tbs - ul₁.totalUsed - 5 ∧
          bsrs₁.countP (fun bsr => 0 < bsr.retxQueueSize) * 10 ≤ tbs - ul₁.totalUsed - 5 then
        sendRetxData rlc tbs (tbs - ul₁.totalUsed - 5 -
          bsrs₁.countP (fun bsr => 0 < bsr.retxQueueSize) * 3)
          (bsrs₁.countP fun bsr => 0 < bsr.retxQueueSize) bsrs₁ ul₁
      else some (bsrs₁, ul₁)) = some (bsrs₂, ul₂) ∧ ul₂.totalUsed + 5 ≤ tbs ∧ Accounted ul₂ := by
    split
    · exact sendRetxData_total (by omega) room₁ accounted₁
    · exact ⟨_, _, rfl, room₁, accounted₁⟩
  have useful₂ : usefulTbs tbs ul₂ = some (tbs - ul₂.totalUsed - 5) := if_pos room₂
  unfold sendNewData
  simp only [status, useful₁, bind_eq_bind, bind_some, retx, useful₂]
  split
  · exact sendTxData_total (by omega) room₂ accounted₂
  · exact ⟨_, _, rfl, room₂, accounted₂⟩

theorem sendReportBufferStatus_total (room : ul.totalUsed + 5 ≤ tbs) (accounted : Accounted ul) :
    ∃ ul', sendReportBufferStatus tbs rnti bsrs ul = some ul' ∧
      ul'.macPdus.sum ≤ tbs ∧ ul'.opportunities = ul.opportunities := by
  unfold sendReportBufferStatus
  have size : shortBsrSize = 5 := rfl
  have used : ul.macPdus.sum = ul.totalUsed := accounted
  split
  · exact ⟨ul, rfl, by omega, rfl⟩
  · rw [if_pos (by omega)]
    exact ⟨_, rfl, by simp [used]; omega, rfl⟩

/-! ## A grant with only new data -/

theorem sendNewStatusData_none (zero : ∀ bsr ∈ bsrs, bsr.statusPduSize = 0) :
    sendNewStatusData rlc tbs bsrs ul = some (bsrs, ul) := by
  have passed (done : List BufferStatus) :
      bsrs.foldlM (statusRound rlc tbs) ⟨done, false, ul⟩ = some ⟨done ++ bsrs, false, ul⟩ := by
    induction bsrs generalizing done with
    | nil => simp
    | cons bsr rest ih =>
      have here : statusRound rlc tbs ⟨done, false, ul⟩ bsr = some ⟨done ++ [bsr], false, ul⟩ := by
        simp [statusRound, zero bsr mem_cons_self]
      rw [foldlM_cons, here, bind_eq_bind, bind_some,
        ih fun other mem => zero other (mem_cons_of_mem _ mem)]
      simp
  have none_pending : bsrs.any (fun bsr => 0 < bsr.statusPduSize) = false := by
    simp +contextual [zero]
  simp [sendNewStatusData, passed, none_pending]

theorem countP_retx (only : OnlyNewData bsrs) :
    bsrs.countP (fun bsr => 0 < bsr.retxQueueSize) = 0 := by
  rw [countP_eq_zero]
  intro bsr mem
  simp [only bsr mem]

theorem sendNewData_onlyNew (only : OnlyNewData bsrs) (room : 5 ≤ tbs)
    (holds : activeTx bsrs * 10 ≤ tbs - 5) : sendNewData rlc tbs bsrs {} =
      sendTxData rlc tbs (tbs - 5 - activeTx bsrs * 3) (activeTx bsrs) bsrs {} := by
  have status := @sendNewStatusData_none rlc tbs {} bsrs fun bsr mem => (only bsr mem).1
  have useful : usefulTbs tbs {} = some (tbs - 5) := by
    unfold usefulTbs
    simpa using room
  unfold sendNewData
  simp only [status, bind_eq_bind, bind_some, useful, countP_retx only,
    Nat.lt_irrefl, false_and, if_false]
  change (if 0 < activeTx bsrs ∧ 0 < tbs - 5 ∧ activeTx bsrs * 10 ≤ tbs - 5 then
    sendTxData rlc tbs (tbs - 5 - activeTx bsrs * 3) (activeTx bsrs) bsrs {} else
    some (bsrs, {})) = _
  by_cases active : 0 < activeTx bsrs
  · rw [if_pos ⟨active, by omega, holds⟩]
  · rw [if_neg (fun both => active both.1), sendTxData, if_pos (by omega)]

theorem sendReportBufferStatus_opportunities
    (h : sendReportBufferStatus tbs rnti bsrs ul = some ul') :
    ul'.opportunities = ul.opportunities := by
  unfold sendReportBufferStatus at h
  split at h
  · rw [Option.some.inj h]
  · obtain ⟨-, is⟩ := ite_none_right_eq_some.mp h
    rw [← Option.some.inj is]

theorem processUlDci_onlyNew (only : OnlyNewData bsrs) (room : 5 ≤ tbs)
    (holds : activeTx bsrs * 10 ≤ tbs - 5)
    (h : processUlDci rlc tbs rnti bsrs = some (bsrs', ul')) : ∃ ul'',
      sendTxData rlc tbs (tbs - 5 - activeTx bsrs * 3) (activeTx bsrs) bsrs {} =
        some (bsrs', ul'') ∧ ul'.opportunities = ul''.opportunities := by
  simp only [processUlDci, bind_eq_bind, bind_eq_some_iff, Prod.exists,
    Option.pure_def, Option.some.injEq, Prod.mk.injEq] at h
  obtain ⟨served, sent, data, after, report, rfl, rfl⟩ := h
  rw [sendNewData_onlyNew only room holds] at data
  exact ⟨sent, data, sendReportBufferStatus_opportunities report⟩

theorem sendTxData_single {bsr : BufferStatus}
    (h : sendTxData rlc tbs useful 1 [bsr] {} = some (bsrs', ul')) :
    ul'.opportunities = [⟨bsr.lcid, useful⟩] := by
  have looped : (dataRound rlc tbs useful useful (fun bsr =>
      { bsr with txQueueSize := bsr.txQueueSize - min useful bsr.txQueueSize }) ([], {}) bsr) =
      some (bsrs', ul') := by simpa [sendTxData] using h
  simp only [dataRound, Nat.zero_add, Nat.le_refl, if_true, bind_eq_bind,
    bind_eq_some_iff, Option.pure_def, Option.some.injEq, Prod.mk.injEq] at looped
  obtain ⟨sent, notified, -, rfl⟩ := looped
  exact (notifyTxOpportunity_spec notified).2.1

theorem shared_of_undivided {m : BsrMap} (undivided : Undivided tbs m.entries) (room : 5 ≤ tbs)
    (h : processUlDci rlc tbs rnti m.entries = some (bsrs', ul')) (only : OnlyNewData m.entries)
    (holds : activeTx m.entries * 10 ≤ tbs - 5) :
    (∀ bsr ∈ m.entries, 0 < bsr.txQueueSize →
      ⟨bsr.lcid, equalShare tbs m.entries⟩ ∈ ul'.opportunities) ∧
    ∀ o ∈ ul'.opportunities, ∃ bsr ∈ m.entries, bsr.lcid = o.lcid ∧ 0 < bsr.txQueueSize := by
  obtain ⟨sent, data, same⟩ := processUlDci_onlyNew only room holds h
  rw [same]
  by_cases idle : activeTx m.entries = 0
  · rw [sendTxData, if_pos idle] at data
    cases data
    constructor
    · intro bsr mem pending
      have none_active := countP_eq_zero.mp idle bsr mem
      simp only [decide_eq_true_eq] at none_active
      exact absurd pending none_active
    · nofun
  · obtain ⟨bsr, alone⟩ := length_eq_one_iff.mp ((undivided only holds).resolve_left idle)
    have pending : 0 < bsr.txQueueSize := by
      unfold activeTx at idle
      rw [alone] at idle
      by_contra zero
      simp [zero] at idle
    have one : activeTx m.entries = 1 := by simp [activeTx, alone, pending]
    rw [one, alone] at data
    unfold equalShare
    rw [one, sendTxData_single data, alone, Nat.div_one]
    simp [pending]

/-! ## Answers that use up the block -/

/-- The answers of a plan, as far as it goes and they are small enough. -/
def script (plan : List (Option Nat)) : RlcAnswers where
  answer past o := (plan.getD past.length none).filter (· ≤ o.bytes)
  within past o pdu is := by simpa using (filter_eq_some_iff.mp is).2

theorem script_answer {before after : List (Option Nat)} {a : Option Nat}
    {past : List TxOpportunity} (reached : before.length = past.length)
    (small : ∀ pdu ∈ a, pdu ≤ o.bytes) : (script (before ++ a :: after)).answer past o = a := by
  have next : (before ++ a :: after).getD past.length none = a := by simp [← reached]
  unfold script
  dsimp only
  rw [next]
  cases a with
  | none => rfl
  | some pdu => simpa using small pdu rfl

/-- Answers to an opportunity reach all but two bytes of what it may take. -/
theorem exists_cost {bytes d : Nat} (le : d ≤ subPduSize bytes) :
    ∃ a : Option Nat, (∀ pdu ∈ a, pdu ≤ bytes) ∧ cost a ≤ d ∧ d ≤ cost a + 2 := by
  by_cases small : d < 2
  · exact ⟨none, nofun, Nat.zero_le d, by omega⟩
  induction bytes with
  | zero =>
    have empty : subPduSize 0 = 2 := rfl
    exact ⟨some 0, by simp, by simp only [cost]; omega, by simp only [cost]; omega⟩
  | succ bytes ih =>
    have step := subPduSize_succ bytes
    by_cases lower : d ≤ subPduSize bytes
    · obtain ⟨a, within, bounds⟩ := ih lower
      exact ⟨a, fun pdu is => Nat.le_succ_of_le (within pdu is), bounds⟩
    · by_cases full : d = subPduSize (bytes + 1)
      · exact ⟨some (bytes + 1), by simp, by simp only [cost]; omega, by simp only [cost]; omega⟩
      · exact ⟨some bytes, by simp, by simp only [cost]; omega, by simp only [cost]; omega⟩

/-- Status PDUs that fit can be answered so that they take any number of bytes up to all of
theirs, but for two. -/
theorem statusRounds_reach {x : StatusPass} {target : Nat}
    (room : x.ul.totalUsed + (bsrs.map (statusLoad tbs)).sum + 5 ≤ tbs)
    (above : x.ul.totalUsed ≤ target)
    (below : target ≤ x.ul.totalUsed + (bsrs.map (statusLoad tbs)).sum + 2) :
    ∃ plan : List (Option Nat), ∀ before after, before.length = x.ul.opportunities.length →
      ∃ y, bsrs.foldlM (statusRound (script (before ++ (plan ++ after))) tbs) x = some y ∧
        y.ul.totalUsed ≤ target ∧ target ≤ y.ul.totalUsed + 2 ∧
        y.ul.opportunities.length = before.length + plan.length := by
  induction bsrs generalizing x with
  | nil => exact ⟨[], fun before after reached => ⟨x, rfl, above, by simpa using below,
      by simpa using reached.symm⟩⟩
  | cons bsr rest ih =>
    rw [map_cons, sum_cons] at room below
    by_cases fit : 0 < bsr.statusPduSize ∧ bsr.statusPduSize ≤ tbs
    · rw [statusLoad, if_pos fit] at room below
      have large : bsr.statusPduSize ≤ subPduSize bsr.statusPduSize := Nat.le_add_right _ _
      obtain ⟨a, within, le, most, near⟩ : ∃ a : Option Nat, (∀ pdu ∈ a, pdu ≤ bsr.statusPduSize) ∧
          x.ul.totalUsed + cost a ≤ target ∧ cost a ≤ subPduSize bsr.statusPduSize ∧
          (target ≤ x.ul.totalUsed + cost a + 2 ∨ cost a = subPduSize bsr.statusPduSize) := by
        by_cases all : x.ul.totalUsed + subPduSize bsr.statusPduSize ≤ target
        · exact ⟨some bsr.statusPduSize, by simp, all, Nat.le_refl _, .inr rfl⟩
        · obtain ⟨a, within, le, near⟩ := @exists_cost bsr.statusPduSize
            (target - x.ul.totalUsed) (by omega)
          exact ⟨a, within, by omega, by omega, .inl (by omega)⟩
      let o : TxOpportunity := ⟨bsr.lcid, bsr.statusPduSize⟩
      let next : StatusPass := ⟨x.served ++ [{ bsr with statusPduSize := 0 }], true, {
        totalUsed := x.ul.totalUsed + cost a
        macPdus := x.ul.macPdus ++ a.toList.map subPduSize
        opportunities := x.ul.opportunities ++ [o] }⟩
      obtain ⟨plan, run⟩ := @ih next (by dsimp only [next]; omega) (by dsimp only [next]; omega)
        (by dsimp only [next]; omega)
      refine ⟨a :: plan, fun before after reached => ?_⟩
      obtain ⟨y, looped, low, high, length⟩ := run (before ++ [a]) after (by simp [next, reached])
      rw [← append_cons] at looped
      have answered : (script (before ++ a :: (plan ++ after))).answer x.ul.opportunities o = a :=
        script_answer reached within
      have here : statusRound (script (before ++ a :: (plan ++ after))) tbs x bsr = some next := by
        have small : x.ul.totalUsed + cost a ≤ tbs := by omega
        rw [statusRound, if_pos ⟨fit.1, by omega⟩, notifyTxOpportunity_eq, answered,
          if_pos (.inr small)]
        rfl
      refine ⟨y, ?_, low, high, ?_⟩
      · rw [cons_append, foldlM_cons, here]
        exact looped
      · rw [length, length_append, length_cons, length_cons, length_nil]
        omega
    · rw [statusLoad, if_neg fit] at room below
      obtain ⟨plan, run⟩ := @ih { x with served := x.served ++ [bsr] }
        (by dsimp only; omega) above (by dsimp only; omega)
      refine ⟨plan, fun before after reached => ?_⟩
      obtain ⟨y, looped, rest⟩ := run before after reached
      refine ⟨y, ?_, rest⟩
      have here : statusRound (script (before ++ (plan ++ after))) tbs x bsr =
          some { x with served := x.served ++ [bsr] } := by rw [statusRound, if_neg (by omega)]
      rw [foldlM_cons, here]
      exact looped

theorem statusRound_mono {bsr : BufferStatus} {x y : StatusPass}
    (h : statusRound rlc tbs x bsr = some y) : x.ul.totalUsed ≤ y.ul.totalUsed := by
  unfold statusRound at h
  split at h
  · obtain ⟨ul, notified, is⟩ := bind_eq_some_iff.mp h
    cases is
    have used := (notifyTxOpportunity_spec notified).1
    dsimp only
    omega
  · cases h
    exact Nat.le_refl _

/-- A grant goes on to the data only where the status PDUs leave room. -/
theorem processUlDci_status {r : List BufferStatus × UlTransmission}
    (h : processUlDci rlc tbs rnti bsrs = some r) : ∃ x,
      bsrs.foldlM (statusRound rlc tbs) ⟨[], false, {}⟩ = some x ∧ x.ul.totalUsed + 5 ≤ tbs := by
  obtain ⟨r₁, sent, -⟩ := bind_eq_some_iff.mp h
  obtain ⟨r₂, status, data⟩ := bind_eq_some_iff.mp sent
  obtain ⟨x, looped, is⟩ := bind_eq_some_iff.mp status
  obtain ⟨useful, left, -⟩ := bind_eq_some_iff.mp data
  obtain ⟨room, -⟩ := ite_none_right_eq_some.mp left
  obtain ⟨-, is⟩ := ite_none_left_eq_some.mp is
  cases is
  exact ⟨x, looped, room⟩

/-- **Status PDUs that do not fit** can be answered so that an assertion fails. -/
theorem statusFits_of_total (room : 5 ≤ tbs)
    (total : ∀ rlc, (processUlDci rlc tbs rnti bsrs).isSome) : StatusFits tbs bsrs := by
  unfold StatusFits
  by_contra exceeds
  obtain ⟨before, bsr, after, rfl, within, crosses⟩ :=
    @PartialFold.exists_crossing _ bsrs (statusLoad tbs) (tbs - 5) (by omega)
  have fit : 0 < bsr.statusPduSize ∧ bsr.statusPduSize ≤ tbs := by
    by_contra unfit
    rw [statusLoad, if_neg unfit] at crosses
    omega
  rw [show statusLoad tbs bsr = subPduSize bsr.statusPduSize from if_pos fit] at crosses
  have size : bsr.statusPduSize + 2 ≤ subPduSize bsr.statusPduSize :=
    Nat.add_le_add_left (subheaderSize_bounds _).1 _
  -- as much as possible before this PDU, with room for it to pass the check
  obtain ⟨plan, run⟩ := @statusRounds_reach tbs before ⟨[], false, {}⟩
    (min ((before.map (statusLoad tbs)).sum + 2) (tbs - bsr.statusPduSize))
    (by dsimp only; omega) (Nat.zero_le _) (by dsimp only; omega)
  obtain ⟨y, looped, low, high, length⟩ := run [] [some bsr.statusPduSize] rfl
  rw [nil_append] at looped
  obtain ⟨r, done⟩ := isSome_iff_exists.mp (total (script (plan ++ [some bsr.statusPduSize])))
  obtain ⟨x, status, left⟩ := processUlDci_status done
  rw [foldlM_append, looped, bind_eq_bind, bind_some, foldlM_cons,
    bind_eq_bind, bind_eq_some_iff] at status
  obtain ⟨z, here, later⟩ := status
  have grows : z.ul.totalUsed ≤ x.ul.totalUsed :=
    PartialFold.keeps (fun w : StatusPass => z.ul.totalUsed ≤ w.ul.totalUsed)
      (fun le round => Nat.le_trans le (statusRound_mono round)) (Nat.le_refl _) later
  have used : z.ul.totalUsed = y.ul.totalUsed + subPduSize bsr.statusPduSize := by
    rw [statusRound, if_pos ⟨fit.1, by omega⟩, bind_eq_bind, bind_eq_some_iff] at here
    obtain ⟨ul, notified, is⟩ := here
    cases is
    have spent := (notifyTxOpportunity_spec notified).1
    rw [script_answer (by simpa using length.symm) (by simp)] at spent
    exact spent
  omega

/-! ## Answers that divide the block wrongly -/

/-- No RLC entity has anything to send. -/
def silent : RlcAnswers := ⟨fun _ _ => none, nofun⟩

/-- Every RLC entity uses up its opportunities. -/
def greedy : RlcAnswers :=
  ⟨fun _ o => some o.bytes, fun _ _ _ is => Nat.le_of_eq (Option.some.inj is).symm⟩

/-- Where nothing is sent all channels get the share. -/
theorem dataRounds_silent {x : List BufferStatus × UlTransmission} (unused : x.2.totalUsed = 0)
    (le : share ≤ useful) :
    ∃ y, bsrs.foldlM (dataRound silent tbs share useful sent) x = some y ∧
      y.2.opportunities = x.2.opportunities ++ bsrs.map fun bsr => ⟨bsr.lcid, share⟩ := by
  induction bsrs generalizing x with
  | nil => exact ⟨x, rfl, by simp⟩
  | cons bsr rest ih =>
    let next : List BufferStatus × UlTransmission := (x.1 ++ [sent bsr],
      { x.2 with opportunities := x.2.opportunities ++ [⟨bsr.lcid, share⟩] })
    obtain ⟨y, looped, given⟩ := @ih next unused
    have here : dataRound silent tbs share useful sent x bsr = some next := by
      rw [dataRound, if_pos (by omega)]
      rfl
    refine ⟨y, ?_, ?_⟩
    · rw [foldlM_cons, here]
      exact looped
    · rw [given]
      simp [next]

/-- Where all is used the shares with their subheaders fit into what is useful. -/
theorem dataRounds_greedy {y : List BufferStatus × UlTransmission}
    (h : bsrs.foldlM (dataRound greedy tbs share useful sent) ([], {}) = some y) :
    (y.2.opportunities.length - 1) * subPduSize share + share ≤ useful ∨
      y.2.opportunities = [] := by
  have kept := PartialFold.keeps (fun x : List BufferStatus × UlTransmission =>
      x.2.totalUsed = x.2.opportunities.length * subPduSize share ∧
        ((x.2.opportunities.length - 1) * subPduSize share + share ≤ useful ∨
          x.2.opportunities = []))
    (by
      rintro bsr x z ⟨used, bound⟩ round
      unfold dataRound at round
      split at round
      case isTrue fit =>
        obtain ⟨ul, notified, is⟩ := bind_eq_some_iff.mp round
        cases is
        obtain ⟨spent, given, -⟩ := notifyTxOpportunity_spec notified
        have cost_is : cost (greedy.answer x.2.opportunities ⟨bsr.lcid, share⟩) =
            subPduSize share := rfl
        rw [given, length_append, length_singleton, spent, used, cost_is]
        refine ⟨(Nat.succ_mul _ _).symm, .inl ?_⟩
        rw [Nat.add_sub_cancel, ← used]
        exact fit
      case isFalse =>
        cases round
        exact ⟨used, bound⟩)
    ⟨(Nat.zero_mul _).symm, .inr rfl⟩ h
  exact kept.2

theorem activeTx_eq_length_iff :
    activeTx bsrs = bsrs.length ↔ ∀ bsr ∈ bsrs, 0 < bsr.txQueueSize := by
  unfold activeTx
  rw [countP_eq_length]
  simp

/-- **Idle channels** get a share too, and the last of several active ones does not. -/
theorem undivided_of_served {m : BsrMap} (room : 5 ≤ tbs)
    (served : ∀ rlc, ∃ bsrs ul, processUlDci rlc tbs rnti m.entries = some (bsrs, ul) ∧
      Served tbs m ul) : Undivided tbs m.entries := by
  intro only holds
  by_cases idle : activeTx m.entries = 0
  · exact .inl idle
  right
  let useful := tbs - 5 - activeTx m.entries * 3
  have loop_of (rlc : RlcAnswers) : ∃ y, m.entries.foldlM (dataRound rlc tbs
      (equalShare tbs m.entries) useful fun bsr => { bsr with
        txQueueSize := bsr.txQueueSize - min (equalShare tbs m.entries) bsr.txQueueSize })
      ([], {}) = some y ∧
      (∀ bsr ∈ m.entries, 0 < bsr.txQueueSize →
        ⟨bsr.lcid, equalShare tbs m.entries⟩ ∈ y.2.opportunities) ∧
      ∀ o ∈ y.2.opportunities, ∃ bsr ∈ m.entries, bsr.lcid = o.lcid ∧ 0 < bsr.txQueueSize := by
    obtain ⟨bsrs, ul, done, served⟩ := served rlc
    obtain ⟨sent, data, same⟩ := processUlDci_onlyNew only room holds done
    rw [sendTxData, if_neg idle] at data
    exact ⟨(bsrs, sent), data, same ▸ served.shared only holds⟩
  have all_active : ∀ bsr ∈ m.entries, 0 < bsr.txQueueSize := by
    intro bsr mem
    obtain ⟨y, looped, -, active⟩ := loop_of silent
    obtain ⟨z, looped', given⟩ := @dataRounds_silent tbs m.entries (equalShare tbs m.entries)
      useful (fun bsr => { bsr with
        txQueueSize := bsr.txQueueSize - min (equalShare tbs m.entries) bsr.txQueueSize })
      ([], {}) rfl (Nat.div_le_self _ _)
    cases looped.symm.trans looped'
    obtain ⟨other, other_mem, same, pending⟩ := active ⟨bsr.lcid, equalShare tbs m.entries⟩
      (by simpa [given] using ⟨bsr, mem, rfl⟩)
    obtain rfl := inj_on_of_nodup_map m.distinct other_mem mem same
    exact pending
  obtain ⟨y, looped, shared, -⟩ := loop_of greedy
  have many : m.entries.length ≤ y.2.opportunities.length := by
    have sub : m.entries.map (·.lcid) ⊆ y.2.opportunities.map (·.lcid) := by
      intro lcid mem
      obtain ⟨bsr, held, rfl⟩ := List.mem_map.mp mem
      exact List.mem_map.mpr ⟨_, shared bsr held (all_active bsr held), rfl⟩
    simpa using (List.Nodup.subperm m.distinct sub).length_le
  have length := activeTx_eq_length_iff.mpr all_active
  have fits := (dataRounds_greedy looped).resolve_right fun empty => by
    rw [empty, length_nil] at many
    omega
  have size : equalShare tbs m.entries + 2 ≤ subPduSize (equalShare tbs m.entries) :=
    Nat.add_le_add_left (subheaderSize_bounds _).1 _
  have share : useful < (equalShare tbs m.entries + 1) * m.entries.length := by
    rw [← length]
    exact Nat.lt_mul_of_div_lt (Nat.lt_succ_self _) (Nat.pos_of_ne_zero idle)
  obtain ⟨others, is⟩ : ∃ others, m.entries.length = others + 1 :=
    Nat.exists_eq_add_one.mpr (by omega)
  rw [is] at share many ⊢
  have least : others * (equalShare tbs m.entries + 2) ≤
      (y.2.opportunities.length - 1) * subPduSize (equalShare tbs m.entries) :=
    Nat.mul_le_mul (by omega) size
  rw [Nat.mul_add] at least
  rw [Nat.add_mul, Nat.mul_add, Nat.mul_comm _ others, Nat.one_mul, Nat.mul_one] at share
  omega

end

/-- One channel with a status PDU and new data. -/
def oneChannel : BsrMap := ⟨[⟨3, 500, 0, 10⟩], nodup_singleton _⟩

/-- One channel with a status PDU that leaves no room for the SHORT_BSR. -/
def tightStatus : BsrMap := ⟨[⟨3, 0, 0, 6⟩], nodup_singleton _⟩

end NrUeMac

end Ns3.Nr
