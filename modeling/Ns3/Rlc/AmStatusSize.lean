import Ns3.Rlc.AmHeaderRoundTrip
import Ns3.Rlc.AmStatus

/-!
# Whether a STATUS PDU of `LteRlcAm` fits

A NACK takes two bytes after an even number of NACKs and one after an odd
number. `OneMoreNackWouldFitIn` asks for one and two, so it lets a NACK in that
ends one byte too far.
-/

namespace Ns3.Rlc

open SequenceNumber10 AmHeader List Option

/-- The test of `OneMoreNackWouldFitIn` after `k` NACKs. -/
def LetsIn (bytes k : Nat) : Prop :=
  if k % 2 = 0 then statusLength k < bytes % 65536 else statusLength k < bytes % 65536 - 1

/-! ## Runs of an entity -/

/-- An entity with whatever it is given: any SDUs, opportunities and PDUs. -/
inductive LteRlcAm.Reachable (a : AmAttributes) : LteRlcAm → Prop
  | start : Reachable a create
  | transmit {e : LteRlcAm} (run : Reachable a e) (now : Time) (p : Packet) :
      Reachable a { e with tx := (e.tx.doTransmitPdcpPdu a now p).1 }
  | opportunity {e e' : LteRlcAm} (run : Reachable a e) (bytes : Nat) {out : Option AmPdu}
      (here : e.doNotifyTxOpportunity a bytes = some (e', out)) : Reachable a e'
  | data {e e' : LteRlcAm} (run : Reachable a e) (pdu : AmdPdu)
      (small : pdu.rlcAmHeader.sequenceNumber < 1024) {delivered : List Packet}
      (here : e.doReceivePdu (.data pdu) = some (e', delivered)) : Reachable a e'
  | status {e e' : LteRlcAm} (run : Reachable a e) (pdu : StatusPdu) {delivered : List Packet}
      (here : e.doReceivePdu (.status pdu) = some (e', delivered)) : Reachable a e'
  | reorderingTimer {e e' : LteRlcAm} (run : Reachable a e) (on : e.rx.reorderingTimer = true)
      (here : e.expireReorderingTimer = some e') : Reachable a e'
  | pollRetransmitTimer {e e' : LteRlcAm} (run : Reachable a e)
      (here : e.expirePollRetransmitTimer = some e') : Reachable a e'
  | statusProhibitTimer {e : LteRlcAm} (run : Reachable a e) :
      Reachable a e.expireStatusProhibitTimer

/-- The receiving side has counters, and a STATUS PDU is announced with its least size. -/
structure LteRlcAm.Receives (e : LteRlcAm) : Prop where
  counts : ∃ r ms h, AmReceiver.Counts e.rx r ms h
  announced : e.statusPduBufferSize ≤ 4

namespace AmReceiver

variable {Pdu : Type} {w w' : AmReceiver Pdu}

theorem receive_counts {r ms h sn : Nat} (counts : Counts w r ms h) (small : sn < 1024)
    (pdu : Pdu) {passed : List Pdu} (here : w.doReceivePdu sn pdu = some (w', passed)) :
    ∃ r ms h, Counts w' r ms h := by
  obtain ⟨n, low, near, rfl⟩ := Circular.exists_counter r small
  by_cases inside : n < r + 512
  · obtain ⟨w'', r', ms', -, done, -, -, counts'⟩ := receive_inside counts low inside pdu rfl
    cases here.symm.trans done
    exact ⟨r', ms', _, counts'⟩
  · rw [receive_outside counts (by omega) near] at here
    cases here
    exact ⟨r, ms, h, counts⟩

end AmReceiver

namespace LteRlcAm

variable {a : AmAttributes} {e e' : LteRlcAm}

theorem Receives.opportunity (receives : Receives e) {bytes : Nat} {out : Option AmPdu}
    (here : e.doNotifyTxOpportunity a bytes = some (e', out)) : Receives e' := by
  unfold doNotifyTxOpportunity at here
  split at here
  · cases here
  · split at here
    · split at here
      · cases here
      · obtain ⟨pdu, -, made⟩ := bind_eq_some_iff.mp here
        cases made
        exact ⟨receives.counts, Nat.zero_le 4⟩
    · obtain ⟨⟨tx, pdu⟩, -, made⟩ := bind_eq_some_iff.mp here
      cases made
      exact ⟨receives.counts, receives.announced⟩

theorem Receives.data (receives : Receives e) {pdu : AmdPdu}
    (small : pdu.rlcAmHeader.sequenceNumber < 1024) {delivered : List Packet}
    (here : e.doReceivePdu (.data pdu) = some (e', delivered)) : Receives e' := by
  obtain ⟨r, ms, h, counts⟩ := receives.counts
  obtain ⟨⟨rx, passed⟩, received, rest⟩ := bind_eq_some_iff.mp here
  obtain ⟨⟨reassembly, out⟩, -, made⟩ := bind_eq_some_iff.mp rest
  cases made
  unfold polled at received ⊢
  split at received
  · exact ⟨AmReceiver.receive_counts counts small pdu received, by simp [*]⟩
  · exact ⟨AmReceiver.receive_counts counts small pdu received, by simp [*, receives.announced]⟩

theorem Reachable.receives (run : Reachable a e) : Receives e := by
  induction run with
  | start => exact ⟨⟨0, 0, 0, AmReceiver.create_counts⟩, Nat.zero_le 4⟩
  | transmit _ now p ih => exact ⟨ih.counts, ih.announced⟩
  | opportunity _ bytes here ih => exact ih.opportunity here
  | data _ pdu small here ih => exact ih.data small here
  | status _ pdu here ih =>
    obtain ⟨tx, -, made⟩ := bind_eq_some_iff.mp here
    cases made
    exact ⟨ih.counts, ih.announced⟩
  | reorderingTimer _ on here ih =>
    obtain ⟨r, ms, h, counts⟩ := ih.counts
    obtain ⟨w', ms', done, -, counts'⟩ := AmReceiver.expire_spec counts on
    obtain ⟨rx, expired, made⟩ := bind_eq_some_iff.mp here
    cases made
    cases done.symm.trans expired
    exact ⟨⟨r, ms', h, counts'⟩, ih.announced⟩
  | pollRetransmitTimer _ here ih =>
    obtain ⟨tx, -, made⟩ := bind_eq_some_iff.mp here
    cases made
    exact ⟨ih.counts, ih.announced⟩
  | statusProhibitTimer _ ih => exact ⟨ih.counts, ih.announced⟩

end LteRlcAm

/-! ## The size -/

namespace StatusPdu

/-- Only NACKs that `OneMoreNackWouldFitIn` let in. -/
structure Packed (bytes : Nat) (h : StatusPdu) : Prop where
  headerLength : h.headerLength = statusLength h.nackSnList.length
  last : h.nackSnList = [] ∨ LetsIn bytes (h.nackSnList.length - 1)

theorem setControlPdu_packed (bytes : Nat) : Packed bytes setControlPdu := ⟨rfl, Or.inl rfl⟩

theorem Packed.oneMore {bytes : Nat} {h : StatusPdu} (packed : Packed bytes h) :
    h.oneMoreNackWouldFitIn bytes = true ↔ LetsIn bytes h.nackSnList.length := by
  unfold oneMoreNackWouldFitIn LetsIn
  rw [packed.headerLength]
  split <;> simp

theorem Packed.pushNack {bytes : Nat} {h : StatusPdu} (packed : Packed bytes h)
    (fits : h.oneMoreNackWouldFitIn bytes = true) (nack : Nat) : Packed bytes (h.pushNack nack) where
  headerLength := by
    have size := packed.headerLength
    simp only [StatusPdu.pushNack, length_append, length_singleton]
    unfold statusLength at size ⊢
    split <;> omega
  last := by
    have lets := packed.oneMore.mp fits
    refine Or.inr ?_
    simpa [StatusPdu.pushNack] using lets

/-- Whether the PDU has come to fit, when `total` NACKs were there to be let in. -/
theorem Packed.fits_iff {bytes total : Nat} {h : StatusPdu} (packed : Packed bytes h)
    (enough : 4 ≤ bytes) (few : total ≤ 512) (some_ : h.nackSnList.length ≤ total)
    (full : h.nackSnList.length = total ∨ ¬LetsIn bytes h.nackSnList.length) :
    h.headerLength ≤ bytes ↔ ¬(bytes % 3 = 0 ∧ 2 * (bytes / 3) ≤ total + 1) := by
  obtain ⟨size, last⟩ := packed
  rw [size]
  have last' : h.nackSnList.length = 0 ∨ LetsIn bytes (h.nackSnList.length - 1) :=
    last.imp_left (congrArg List.length)
  generalize h.nackSnList.length = n at *
  unfold LetsIn statusLength at *
  by_cases short : bytes < 65536
  · rw [Nat.mod_eq_of_lt short] at full last'
    split at full <;> split at last' <;> omega
  · constructor <;> omega

end StatusPdu

namespace AmReceiver

variable {Pdu : Type} {w : AmReceiver Pdu} {r ms h : Nat}

/-- How many of the PDUs from VR(R) up to VR(MS) have not been received. -/
def missingCount (w : AmReceiver Pdu) : Nat :=
  ((List.range (Circular.offset 1024 w.vrR.value w.vrMs.value)).filter fun i =>
    !w.count ((w.vrR.value + i) % 1024)).length

theorem Counts.offset (counts : Counts w r ms h) {k : Nat} (low : r ≤ k) (near : k < r + 1024) :
    Circular.offset 1024 w.vrR.value (k % 1024) = k - r := by
  have moved := Circular.offset_add (m := 1024) r (k := k - r) (by omega)
  rw [Nat.add_sub_cancel' low] at moved
  rw [counts.vrR]
  exact moved

theorem Counts.missingCount (counts : Counts w r ms h) :
    w.missingCount = (w.missing r ms).length := by
  have r_le_ms := counts.r_le_ms
  have ms_le_h := counts.ms_le_h
  have h_le_mr := counts.h_le_mr
  have ahead : Circular.offset 1024 w.vrR.value w.vrMs.value = ms - r := by
    rw [counts.vrMs]
    exact counts.offset r_le_ms (by omega)
  unfold AmReceiver.missingCount missing
  rw [ahead, range'_eq_map_range, List.filter_map, length_map]
  apply congrArg List.length
  apply filter_congr
  intro i _
  simp [counts.vrR]

theorem pushNacks_packed {bytes fuel : Nat} {sn sn' : SequenceNumber10}
    {rlcAmHeader rlcAmHeader' : StatusPdu} (packed : rlcAmHeader.Packed bytes)
    (done : w.pushNacks bytes fuel sn rlcAmHeader = some (sn', rlcAmHeader')) :
    rlcAmHeader'.Packed bytes ∧
      (sn'.lt? w.vrMs = some false ∨ rlcAmHeader'.oneMoreNackWouldFitIn bytes = false) := by
  induction fuel generalizing sn rlcAmHeader with
  | zero => cases done
  | succ fuel ih =>
    obtain ⟨inside, compared, rest⟩ := bind_eq_some_iff.mp done
    cases inside with
    | false =>
      cases rest
      exact ⟨packed, Or.inl compared⟩
    | true =>
      cases fits : rlcAmHeader.oneMoreNackWouldFitIn bytes with
      | false =>
        simp only [fits] at rest
        cases rest
        exact ⟨packed, Or.inr fits⟩
      | true =>
        simp only [fits] at rest
        refine ih ?_ rest
        split
        · exact packed
        · exact packed.pushNack fits _

theorem missing_length_mono {m : Nat} (low : r ≤ m) (high : m ≤ ms) :
    (w.missing r m).length ≤ (w.missing r ms).length := by
  unfold missing
  rw [CircularBuffer.range'_split low high, filter_append, length_append]
  omega

theorem buildStatus_size (counts : Counts w r ms h) {bytes : Nat} (enough : 4 ≤ bytes)
    {pdu : StatusPdu} (made : w.buildStatus bytes = some pdu) :
    pdu.headerLength ≤ bytes ↔ ¬(bytes % 3 = 0 ∧ 2 * (bytes / 3) ≤ w.missingCount + 1) := by
  have r_le_ms := counts.r_le_ms
  have ms_le_h := counts.ms_le_h
  have h_le_mr := counts.h_le_mr
  obtain ⟨m, rlcAmHeader, nacked, low, high, nacks⟩ := pushNacks_spec 1024
    bytes StatusPdu.setControlPdu counts.vrMs (le_refl r) r_le_ms
    (by omega) (by omega) (by simp [missing, StatusPdu.setControlPdu])
  rw [← counts.vrR] at nacked
  obtain ⟨packed, stopped⟩ := pushNacks_packed (StatusPdu.setControlPdu_packed bytes) nacked
  have same : pdu.headerLength = rlcAmHeader.headerLength := by
    obtain ⟨⟨sn, header⟩, pushed, rest⟩ := bind_eq_some_iff.mp made
    cases nacked.symm.trans pushed
    obtain ⟨last, -, rest⟩ := bind_eq_some_iff.mp rest
    obtain ⟨inside, -, rest⟩ := bind_eq_some_iff.mp rest
    split at rest
    · cases rest
      rfl
    · cases rest
  have length : rlcAmHeader.nackSnList.length = (w.missing r m).length := by simp [nacks]
  rw [same, counts.missingCount]
  apply packed.fits_iff enough
  · have := length_filter_le (fun k => !w.count (k % 1024)) (List.range' r (ms - r))
    rw [length_range'] at this
    unfold missing
    omega
  · rw [length]
    exact missing_length_mono low high
  · rcases stopped with passed | full
    · rw [counts.vrMs, lt?_numbered low (by omega) r_le_ms (by omega)] at passed
      have past : ¬m < ms := by simpa using passed
      rw [length, show m = ms by omega]
      exact Or.inl rfl
    · refine Or.inr fun lets => ?_
      rw [packed.oneMore.mpr lets] at full
      cases full

/-- ACK_SN is no further than VR(MS), and before it what is missing is NACKed. -/
structure Truthful (w : AmReceiver Pdu) (pdu : StatusPdu) : Prop where
  ackSn : pdu.ackSn < 1024
  within : Circular.offset 1024 w.vrR.value pdu.ackSn ≤
    Circular.offset 1024 w.vrR.value w.vrMs.value
  nacks : ∀ sn, sn < 1024 →
    Circular.offset 1024 w.vrR.value sn < Circular.offset 1024 w.vrR.value pdu.ackSn →
      (sn ∈ pdu.nackSnList ↔ w.rxonBuffer sn = none)

theorem Reports.truthful {k : Nat} {pdu : StatusPdu} (counts : Counts w r ms h)
    (reports : Reports w r ms k pdu) : Truthful w pdu := by
  have ms_le_h := counts.ms_le_h
  have h_le_mr := counts.h_le_mr
  have low := reports.low
  have high := reports.high
  have acked : Circular.offset 1024 w.vrR.value pdu.ackSn = k - r := by
    rw [reports.ackSn]
    exact counts.offset low (by omega)
  refine ⟨by have := reports.ackSn; omega, ?_, ?_⟩
  · rw [acked, counts.vrMs, numbered_value, counts.offset (by omega) (by omega)]
    omega
  · intro sn small before
    obtain ⟨n, low', near, rfl⟩ := Circular.exists_counter r small
    rw [acked, counts.offset low' near] at before
    have nacked := reports.nacked low' (show n < k by omega) (by omega)
    rw [← contains_iff_mem, nacked]
    simp [count]

end AmReceiver

namespace LteRlcAm

variable {a : AmAttributes} {e : LteRlcAm}

theorem Receives.reports (receives : Receives e) (requested : e.statusPduRequested = true)
    (stopped : e.statusProhibitTimer = false) {bytes : Nat} (enough : 4 ≤ bytes) :
    ∃ e' pdu, e.doNotifyTxOpportunity a bytes = some (e', some (.status pdu)) ∧ e.rx.Truthful pdu ∧
      (pdu.headerLength ≤ bytes ↔ ¬(bytes % 3 = 0 ∧ 2 * (bytes / 3) ≤ e.rx.missingCount + 1)) := by
  obtain ⟨⟨r, ms, h, counts⟩, announced⟩ := receives
  obtain ⟨k, pdu, made, reports⟩ := AmReceiver.buildStatus_spec counts bytes
  have sent : ∃ e', e.doNotifyTxOpportunity a bytes = some (e', some (.status pdu)) := by
    unfold doNotifyTxOpportunity
    rw [if_neg (by omega), requested, stopped, Bool.not_false, Bool.and_self, if_pos rfl,
      if_neg (by omega), made]
    exact ⟨_, rfl⟩
  obtain ⟨e', sent⟩ := sent
  exact ⟨e', pdu, sent, reports.truthful counts, AmReceiver.buildStatus_size counts enough made⟩

/-- **STATUS size.** Every STATUS PDU is truthful. It fits but for a size divisible
by three with PDUs enough missing to go beyond it. -/
theorem status_fits_iff (run : Reachable a e) (requested : e.statusPduRequested = true)
    (stopped : e.statusProhibitTimer = false) {bytes : Nat} (enough : 4 ≤ bytes) :
    ∃ e' pdu, e.doNotifyTxOpportunity a bytes = some (e', some (.status pdu)) ∧ e.rx.Truthful pdu ∧
      (pdu.headerLength ≤ bytes ↔ ¬(bytes % 3 = 0 ∧ 2 * (bytes / 3) ≤ e.rx.missingCount + 1)) :=
  run.receives.reports requested stopped enough

/-- PDU 3 has come with a poll, and the reordering timer has expired. -/
theorem three_missing (a : AmAttributes) : ∃ e, Reachable a e ∧
    e.statusPduRequested = true ∧ e.statusProhibitTimer = false ∧ e.rx.missingCount = 3 := by
  have first := (@Reachable.start a).data ⟨⟨4, true, 0, 3, [0], []⟩, [0x61]⟩ (by decide) rfl
  have second := first.reorderingTimer rfl rfl
  exact ⟨_, second, rfl, rfl, by decide⟩

/-- Three NACKs take seven bytes. -/
theorem seven_fit : ∃ e e' pdu, Reachable ⟨0, false⟩ e ∧
    e.doNotifyTxOpportunity ⟨0, false⟩ 7 = some (e', some (.status pdu)) ∧
      pdu.headerLength ≤ 7 := by
  obtain ⟨e, run, requested, stopped, three⟩ := three_missing ⟨0, false⟩
  obtain ⟨e', pdu, sent, -, fits⟩ := status_fits_iff run requested stopped (by decide : 4 ≤ 7)
  exact ⟨e, e', pdu, run, sent, fits.mpr (by omega)⟩

/-- With six bytes the third NACK is let in too. -/
theorem six_exceeded : ¬ ∀ (a : AmAttributes) (e : LteRlcAm), Reachable a e →
    e.statusPduRequested = true → e.statusProhibitTimer = false → ∀ bytes, 4 ≤ bytes →
      ∃ e' pdu, e.doNotifyTxOpportunity a bytes = some (e', some (.status pdu)) ∧
        e.rx.Truthful pdu ∧ pdu.headerLength ≤ bytes := by
  intro all
  obtain ⟨e, run, requested, stopped, three⟩ := three_missing ⟨0, false⟩
  obtain ⟨e₁, pdu₁, sent₁, -, fits₁⟩ := all _ e run requested stopped 6 (by decide)
  obtain ⟨e₂, pdu₂, sent₂, -, fits₂⟩ :=
    run.receives.reports (a := ⟨0, false⟩) requested stopped (by decide : 4 ≤ 6)
  obtain ⟨-, same⟩ := Prod.mk.inj (Option.some.inj (sent₁.symm.trans sent₂))
  obtain rfl := AmPdu.status.inj (Option.some.inj same)
  exact fits₂.mp fits₁ (by omega)

end LteRlcAm

end Ns3.Rlc
