import Ns3.Rlc.AmDelivery

/-!
# In-sequence delivery by `LteRlcAm`

Two entities over a MAC that drops, delays and reorders. `delivered_in_sequence`
says that what an entity delivers is a prefix of what its peer has accepted, as
long as each STATUS PDU arrives while its sender's window still expects it;
`unreceived_dropped` is what an old one does.
-/

namespace Ns3.Rlc

open SequenceNumber10 CircularBuffer Framing List Option Circular LteRlcAm

/-- ACK_SN lies in the window, and the PDUs NACKed before it are still there; or
nothing is outstanding. -/
def AmTransmitter.Expects (t : AmTransmitter) (pdu : StatusPdu) : Prop :=
  t.vtA.value = t.vtS.value ∨
    (offset 1024 t.vtA.value pdu.ackSn ≤ offset 1024 t.vtA.value t.vtS.value ∧
      ∀ nack ∈ pdu.nackSnList,
        offset 1024 t.vtA.value nack < offset 1024 t.vtA.value pdu.ackSn → t.stores nack = true)

/-- A STATUS PDU arrives only while it is expected. -/
def Fresh (x y : AmSide) : AmEvent → Prop
  | .status i => ∀ sent ∈ y.status[i]?, x.rlc.tx.Expects sent.pdu
  | _ => True

instance (t : AmTransmitter) (pdu : StatusPdu) : Decidable (t.Expects pdu) :=
  inferInstanceAs (Decidable (_ ∨ _))

instance (x y : AmSide) : (e : AmEvent) → Decidable (Fresh x y e)
  | .status i => inferInstanceAs (Decidable (∀ sent ∈ y.status[i]?, x.rlc.tx.Expects sent.pdu))
  | .transmit _ _ | .opportunity _ | .data _ | .reorderingTimer | .pollRetransmitTimer |
    .statusProhibitTimer => inferInstanceAs (Decidable True)

/-- What the peer reports is true, and the sender has dropped nothing else. -/
structure AmFeedback (t : AmTransmitter) (acked : Nat) (reports : List Nat)
    (status : List SentStatus) (heard : List Nat) (len : Nat) : Prop where
  released : ∀ n < len, n ∈ heard ∨ (acked ≤ n ∧ t.stores (n % 1024) = true)
  truthful : ∀ sent ∈ status, sent.number ≤ len ∧ sent.pdu.ackSn = sent.number % 1024 ∧
    ∀ n < sent.number, sent.number ≤ n + 1024 →
      sent.pdu.nackSnList.contains (n % 1024) = false → n ∈ heard
  moved : acked = 0 ∨ ∃ i ∈ reports, ∃ sent, status[i]? = some sent ∧ acked ≤ sent.number

/-- From `x` to `y`. -/
structure AmDirection (x y : AmSide) (frames : List (Frame UInt8)) (ms h : Nat) : Prop where
  sending : AmSending x.rlc.tx x.accepted x.acked x.data frames
  receiving : AmReceiving y.rlc.rx y.rlc.reassembly y.delivered y.passed y.heard frames ms h
  feedback : AmFeedback x.rlc.tx x.acked x.reports y.status y.heard frames.length

def AmDirected (x y : AmSide) : Prop := ∃ frames ms h, AmDirection x y frames ms h

theorem create_directed : AmDirected AmSide.create AmSide.create :=
  ⟨[], 0, 0, AmSending.create, AmReceiving.create, by simp, by simp [AmSide.create], .inl rfl⟩

namespace AmTransmitter

variable {t t' : AmTransmitter} {a s k : Nat} {pdu : StatusPdu}

theorem Counts.offset_eq (counts : Counts t a s) {n : Nat} (low : a ≤ n) (near : n < a + 1024) :
    offset 1024 t.vtA.value (n % 1024) = n - a := by
  have offset := offset_add a (show n - a < 1024 by omega)
  rw [show a + (n - a) = n by omega] at offset
  simpa only [counts.vtA, numbered_value] using offset

theorem Counts.expected_settles (counts : Counts t a s) (ackSn : pdu.ackSn = k % 1024)
    (k_le_s : k ≤ s)
    (late : a < k + 512) (expects : t.Expects pdu) :
    ∃ m t' a', t.doReceiveStatus pdu = some t' ∧
      Acknowledges pdu.nackSnList true s a a m a' t t' ∧ a ≤ m ∧ m ≤ s ∧ (a < s → m = k) := by
  have a_le_s := counts.a_le_s
  have s_le_ms := counts.s_le_ms
  rcases expects with idle | ⟨inside, stored⟩
  · -- nothing is outstanding, and any counter behind the ACK_SN will do
    have none_ : a = s := by
      rw [counts.vtA, counts.vtS, numbered_value, numbered_value] at idle
      exact eq_of_residue idle (by omega) (by omega)
    obtain ⟨j, low, near, residue⟩ := exists_counter a (Nat.mod_lt k (by decide : 0 < 1024))
    obtain ⟨t', a', done, acks⟩ := receiveStatus_spec counts (ackSn.trans residue.symm) low near
      fun i hi hi' => by omega
    exact ⟨min j s, t', a', done, acks, by omega, by omega, fun h => by omega⟩
  · have low : a ≤ k := by
      apply Nat.le_of_not_lt
      intro behind
      have ahead := counts.offset_eq (show a ≤ k + 1024 by omega) (by omega)
      have edge := counts.offset_eq a_le_s (by omega)
      rw [Nat.add_mod_right, ← ackSn] at ahead
      rw [counts.vtS, numbered_value, ahead, edge] at inside
      omega
    have edge := counts.offset_eq low (by omega)
    rw [← ackSn] at edge
    obtain ⟨t', a', done, acks⟩ := receiveStatus_spec counts ackSn low (by omega)
      fun j hj hj' nacked => by
        apply stored _ (contains_iff_mem.mp nacked)
        rw [counts.offset_eq hj (by omega), edge]
        omega
    exact ⟨min k s, t', a', done, acks, by omega, by omega, fun _ => by omega⟩

theorem Acknowledges.counts {nackSnList : List Nat} {m a' : Nat}
    (acks : Acknowledges nackSnList true s a a m a' t t') (counts : Counts t a s) (m_le_s : m ≤ s) :
    a ≤ a' ∧ Counts t' a' s := by
  obtain ⟨low, high, passed, -⟩ := acks.moves
  exact ⟨low, acks.settles.counts counts low high m_le_s passed acks.vtA acks.vtMs acks.vtS⟩

theorem Settles.stores {nacked : Nat → Bool} {n m : Nat} (settles : Settles nacked a m t t')
    (low : a ≤ n) (near : n < a + 1024) (width : m ≤ a + 1024) (stored : t.stores (n % 1024) = true)
    (kept : m ≤ n ∨ nacked (n % 1024) = true) : t'.stores (n % 1024) = true := by
  unfold AmTransmitter.stores at stored ⊢
  rw [settles.txed, settles.retx]
  unfold cleared reported
  by_cases mem : n % 1024 ∈ residues 1024 a m
  · obtain ⟨k, hk, hk', same⟩ := mem_residues.mp mem
    obtain rfl := eq_of_residue same (by omega) (by omega)
    rw [if_pos mem, if_pos mem, if_pos (kept.resolve_left (by omega))]
    simpa using stored
  · rw [if_neg mem, if_neg mem]
    exact stored

end AmTransmitter

namespace AmTransmitter

variable {t t' : AmTransmitter} {a s k bytes : Nat} {pdu : AmdPdu}

theorem Retransmits.stores {poll : Bool} (sends : Retransmits t t' a s k pdu poll) (n : Nat)
    (stored : t.stores (n % 1024) = true) : t'.stores (n % 1024) = true := by
  obtain ⟨txed, retx, -, -⟩ := sends.buffers
  unfold AmTransmitter.stores at stored ⊢
  rw [txed, retx]
  by_cases here : n % 1024 = k % 1024
  · rw [here, Function.update_self]
    rfl
  · rwa [Function.update_of_ne here, Function.update_of_ne here]

theorem SendsNew.stores {mid : Bool} {f : Frame UInt8} (sends : SendsNew t t' mid a s bytes f pdu)
    (n : Nat) (stored : t.stores (n % 1024) = true) : t'.stores (n % 1024) = true := by
  obtain ⟨txed, retx⟩ := sends.buffers
  unfold AmTransmitter.stores at stored ⊢
  rw [txed, retx]
  by_cases here : n % 1024 = s % 1024
  · rw [here, Function.update_self]
    rfl
  · rwa [Function.update_of_ne here]

theorem SendsNew.stores_new {mid : Bool} {f : Frame UInt8}
    (sends : SendsNew t t' mid a s bytes f pdu) : t'.stores (s % 1024) = true := by
  unfold AmTransmitter.stores
  rw [sends.buffers.1, Function.update_self]
  rfl

end AmTransmitter

namespace AmFeedback

variable {t t' : AmTransmitter} {acked len : Nat} {reports : List Nat} {status : List SentStatus}
  {heard : List Nat}

section

variable (feedback : AmFeedback t acked reports status heard len)
include feedback

theorem late {sent : SentStatus}
    (near : ∀ j ∈ reports, ∀ other, status[j]? = some other → other.number < sent.number + 512) :
    acked < sent.number + 512 := by
  rcases feedback.moved with zero | ⟨i, mem, other, at_, le⟩
  · omega
  · have := near i mem other at_
    omega

theorem settles {i m acked' : Nat}
    {sent : SentStatus} (at_ : status[i]? = some sent)
    (counts : AmTransmitter.Counts t acked len)
    (acks : AmTransmitter.Acknowledges sent.pdu.nackSnList true len acked acked m acked' t t')
    (m_le : m ≤ len) (m_eq : acked < len → m = sent.number) :
    AmFeedback t' acked' (reports ++ [i]) status heard len := by
  have s_le_ms := counts.s_le_ms
  obtain ⟨low, high, passed, stops⟩ := acks.moves
  refine ⟨fun n hn => ?_, feedback.truthful, ?_⟩
  · rcases feedback.released n hn with known | ⟨from_, stored⟩
    · exact .inl known
    · by_cases settled : n < m
      · cases nacked : sent.pdu.nackSnList.contains (n % 1024) with
        | true =>
          have later : acked' ≤ n := by
            apply Nat.le_of_not_lt
            intro before
            rw [passed n from_ before] at nacked
            exact absurd nacked (by simp)
          exact .inr ⟨later, acks.settles.stores from_ (by omega) (by omega) stored (.inr nacked)⟩
        | false =>
          have number := m_eq (by omega)
          obtain ⟨-, -, received⟩ := feedback.truthful sent (mem_of_getElem? at_)
          exact .inl (received n (by omega) (by omega) nacked)
      · exact .inr ⟨by omega,
          acks.settles.stores from_ (by omega) (by omega) stored (.inl (by omega))⟩
  · by_cases outstanding : acked < len
    · have number := m_eq outstanding
      exact .inr ⟨i, by simp, sent, at_, by omega⟩
    · have a_le_s := counts.a_le_s
      rcases feedback.moved with zero | ⟨j, mem, other, there, le⟩
      · exact .inl (by omega)
      · exact .inr ⟨j, mem_append_left _ mem, other, there, by omega⟩

/-- The sender moves PDUs between its buffers, or sends new ones. -/
theorem moves {len' : Nat} (more : len ≤ len')
    (stored : ∀ n, acked ≤ n → n < len → t.stores (n % 1024) = true → t'.stores (n % 1024) = true)
    (new : ∀ n, len ≤ n → n < len' → acked ≤ n ∧ t'.stores (n % 1024) = true) :
    AmFeedback t' acked reports status heard len' := by
  refine ⟨fun n hn => ?_, fun sent mem => ?_, feedback.moved⟩
  · by_cases old : n < len
    · exact (feedback.released n old).imp_right fun held =>
        ⟨held.1, stored n held.1 old held.2⟩
    · exact .inr (new n (by omega) hn)
  · obtain ⟨bound, rest⟩ := feedback.truthful sent mem
    exact ⟨by omega, rest⟩

theorem hears (n : Nat) : AmFeedback t acked reports status (heard ++ [n]) len := by
  refine ⟨fun k hk => (feedback.released k hk).imp_left (mem_append_left _),
    fun sent mem => ?_, feedback.moved⟩
  obtain ⟨bound, ackSn, received⟩ := feedback.truthful sent mem
  exact ⟨bound, ackSn, fun k hk hk' free => mem_append_left _ (received k hk hk' free)⟩

theorem tells {sent : SentStatus}
    (bound : sent.number ≤ len) (ackSn : sent.pdu.ackSn = sent.number % 1024)
    (truthful : ∀ n < sent.number, sent.number ≤ n + 1024 →
      sent.pdu.nackSnList.contains (n % 1024) = false → n ∈ heard) :
    AmFeedback t acked reports (status ++ [sent]) heard len := by
  refine ⟨feedback.released, fun other mem => ?_, ?_⟩
  · rcases mem_append.mp mem with mem | mem
    · exact feedback.truthful other mem
    · obtain rfl := mem_singleton.mp mem
      exact ⟨bound, ackSn, truthful⟩
  · refine feedback.moved.imp_right fun ⟨i, mem, other, at_, le⟩ => ⟨i, mem, other, ?_, le⟩
    rw [getElem?_append_left (List.getElem?_eq_some_iff.mp at_).1]
    exact at_

end

end AmFeedback

/-! ## Steps -/

namespace LteRlcAm

@[simp]
theorem polled_tx (e : LteRlcAm) (pollingBit : Bool) : (e.polled pollingBit).tx = e.tx := by
  cases pollingBit <;> rfl

@[simp]
theorem polled_rx (e : LteRlcAm) (pollingBit : Bool) : (e.polled pollingBit).rx = e.rx := by
  cases pollingBit <;> rfl

@[simp]
theorem polled_reassembly (e : LteRlcAm) (pollingBit : Bool) :
    (e.polled pollingBit).reassembly = e.reassembly := by cases pollingBit <;> rfl

end LteRlcAm

namespace AmSide

variable {a : AmAttributes} {x x' y : AmSide} {bytes : Nat}

theorem opportunity_cases (here : x.opportunity a bytes = some x') :
    (∃ pdu e, x.rlc.rx.buildStatus bytes = some pdu ∧ e.tx = x.rlc.tx ∧ e.rx = x.rlc.rx ∧
      e.reassembly = x.rlc.reassembly ∧ x' = { x with
        rlc := e
        status := x.status ++ [⟨x.passed + offset 1024 x.rlc.rx.vrR.value pdu.ackSn, pdu,
          x.heard.length⟩] }) ∨
    ∃ tx' out, x.rlc.tx.doNotifyTxOpportunity a bytes = some (tx', out) ∧
      x' = { x with rlc := { x.rlc with tx := tx' } }.sends (out.map .data) := by
  simp only [opportunity, bind_eq_bind, bind_eq_some_iff] at here
  obtain ⟨⟨rlc, out⟩, done, here⟩ := here
  cases here
  unfold doNotifyTxOpportunity at done
  split at done
  · exact absurd done (by simp)
  · split at done
    · split at done
      · exact absurd done (by simp)
      · simp only [bind_eq_bind, bind_eq_some_iff] at done
        obtain ⟨pdu, built, done⟩ := done
        cases done
        exact .inl ⟨pdu, ⟨x.rlc.tx, x.rlc.rx, x.rlc.reassembly, false, 0, true⟩, built, rfl, rfl,
          rfl, rfl⟩
    · simp only [bind_eq_bind, bind_eq_some_iff] at done
      obtain ⟨⟨tx', out'⟩, sent, done⟩ := done
      cases done
      exact .inr ⟨tx', out', sent, rfl⟩

theorem receiveData_eq {n : Nat} {pdu : AmdPdu} {rx' : AmReceiver AmdPdu} {passedOn : List AmdPdu}
    {reassembly' : Reassembly} {out : List Packet}
    (taken : x.rlc.rx.doReceivePdu pdu.rlcAmHeader.sequenceNumber pdu = some (rx', passedOn))
    (run : Machine.run Reassembly.reassembleAndDeliverAm x.rlc.reassembly passedOn =
      some (reassembly', out)) :
    x.receiveData n pdu = some { x with
      rlc := { x.rlc.polled pdu.rlcAmHeader.pollingBit with rx := rx', reassembly := reassembly' }
      delivered := x.delivered ++ out
      passed := x.passed + offset 1024 x.rlc.rx.vrR.value rx'.vrR.value
      heard := x.heard ++ [n] } := by simp [receiveData, doReceivePdu, taken, run]

theorem receiveStatus_eq {i : Nat} {pdu : StatusPdu} {tx' : AmTransmitter}
    (done : x.rlc.tx.doReceiveStatus pdu = some tx') :
    x.receiveStatus i pdu = some { x with
      rlc := { x.rlc with tx := tx' }
      acked := x.acked + offset 1024 x.rlc.tx.vtA.value tx'.vtA.value
      reports := x.reports ++ [i] } := by simp [receiveStatus, doReceivePdu, done]

variable {frames : List (Frame UInt8)} {ms h : Nat}

theorem tx_directed (directed : AmDirection x y frames ms h) {tx' : AmTransmitter}
    {out : Option AmdPdu} (sent : x.rlc.tx.doNotifyTxOpportunity a bytes = some (tx', out)) :
    AmDirected ({ x with rlc := { x.rlc with tx := tx' } }.sends (out.map .data)) y := by
  obtain ⟨sending, receiving, feedback⟩ := directed
  have s_le_ms := sending.counts.s_le_ms
  rcases AmTransmitter.opportunity_cases sending.counts sending.ready sent with
    ⟨rfl, rfl⟩ | ⟨k, pdu, poll, sends, rfl⟩ | ⟨f, pdu, -, sends, rfl⟩
  · exact ⟨frames, ms, h, sending, receiving, feedback⟩
  · have low := sends.low
    have high := sends.high
    obtain ⟨g, at_, carries⟩ := sending.stored k pdu low high (.inr sends.stored)
    have counts' := sends.counts sending.counts
    have number : x.acked + offset 1024 tx'.vtA.value
        (pdu.setPollingBit poll).rlcAmHeader.sequenceNumber = k := by
      rw [AmdPdu.setPollingBit_sequenceNumber, carries.sequenceNumber,
        counts'.offset_eq low (by omega)]
      omega
    refine ⟨frames, ms, h, ?_, receiving, ?_⟩
    · have sending' := sending.retransmits rfl sends
      rw [← number] at sending'
      exact sending'
    · exact feedback.moves le_rfl (fun n _ _ => sends.stores n) fun n hn hn' => by omega
  · have room := sends.room
    have a_le_s := sending.counts.a_le_s
    have counts' := sends.counts sending.counts
    have number : x.acked + offset 1024 tx'.vtA.value
        pdu.rlcAmHeader.sequenceNumber = frames.length := by
      rw [sends.carries.sequenceNumber, counts'.offset_eq a_le_s (by omega)]
      omega
    refine ⟨frames ++ [f], ms, h, ?_, receiving.extend f, ?_⟩
    · have sending' := sending.sendsNew rfl rfl sends
      rw [← number] at sending'
      exact sending'
    · rw [length_append, length_singleton]
      refine feedback.moves (Nat.le_succ _) (fun n _ _ => sends.stores n) fun n hn hn' => ?_
      obtain rfl : n = frames.length := by omega
      exact ⟨a_le_s, sends.stores_new⟩

theorem expires_sending {t t' : AmTransmitter} {accepted : List Packet} {acked : Nat}
    {data : List (Nat × AmdPdu)} (sending : AmSending t accepted acked data frames)
    (here : t.expirePollRetransmitTimer = some t') :
    AmSending t' accepted acked data frames ∧
      ∀ n, acked ≤ n → n < frames.length → t.stores (n % 1024) = true →
        t'.stores (n % 1024) = true := by
  have a_le_s := sending.counts.a_le_s
  have s_le_ms := sending.counts.s_le_ms
  have counts : AmTransmitter.Counts t.expired acked frames.length := { sending.counts with }
  rcases AmTransmitter.expirePoll_cases sending.counts here with ⟨rfl, -, -⟩ | ⟨settles, same⟩
  · exact ⟨{ sending with counts := counts }, fun n _ _ stored => stored⟩
  · have counts' := settles.counts counts (le_refl acked) a_le_s le_rfl
      (fun k hk hk' => by omega) (same.vtA.trans counts.vtA) (same.vtMs.trans counts.vtMs)
      (same.vtS.trans counts.vtS)
    have sending' : AmSending t.expired accepted acked data frames :=
      { sending with counts := counts }
    exact ⟨sending'.settles settles (le_refl acked) counts',
      fun n low high stored => settles.stores low (by omega) (by omega) stored (.inr rfl)⟩

/-- A step that the sender's window is up to. -/
def Manageable (x y : AmSide) : AmEvent → Prop
  | .transmit _ p => p ≠ []
  | .status i => ∀ sent ∈ y.status[i]?,
      x.acked < sent.number + 512 ∧ x.rlc.tx.Expects sent.pdu
  | _ => True

theorem manageable {e : AmEvent} (directed : AmDirected x y) (ok : Mac x y e ∧ Fresh x y e) :
    Manageable x y e := by
  obtain ⟨frames, ms, h, directed⟩ := directed
  cases e with
  | transmit now p => exact ok.1
  | status i =>
    intro sent at_
    exact ⟨directed.feedback.late (ok.1 sent at_), ok.2 sent at_⟩
  | opportunity | data | reorderingTimer | pollRetransmitTimer | statusProhibitTimer => trivial

theorem sender_step {e : AmEvent} (directed : AmDirected x y) (ok : Manageable x y e)
    (here : x.step a y e = some x') : AmDirected x' y := by
  obtain ⟨frames, ms, h, directed⟩ := directed
  have ⟨sending, receiving, feedback⟩ := directed
  cases e with
  | transmit now p =>
    cases here
    refine ⟨frames, ms, h, sending.transmit a now ok, receiving, ?_⟩
    have same : ∀ sn, (x.rlc.tx.doTransmitPdcpPdu a now p).1.stores sn = x.rlc.tx.stores sn := by
      intro sn
      unfold AmTransmitter.doTransmitPdcpPdu
      split <;> rfl
    exact feedback.moves le_rfl (fun n _ _ stored => (same _).trans stored)
      fun n hn hn' => by omega
  | opportunity bytes =>
    rcases opportunity_cases here with ⟨pdu, e, -, tx, -, -, rfl⟩ | ⟨tx', out, sent, rfl⟩
    · refine ⟨frames, ms, h, ?_, receiving, ?_⟩
      · rw [← tx] at sending
        exact sending
      · rw [← tx] at feedback
        exact feedback
    · exact tx_directed directed sent
  | data i =>
    simp only [step, bind_eq_bind, bind_eq_some_iff, receiveData, doReceivePdu] at here
    obtain ⟨⟨n, pdu⟩, -, ⟨rlc, out⟩, ⟨⟨rx', passedOn⟩, -, ⟨reassembly', out'⟩, -, done⟩, here⟩ :=
      here
    cases done
    cases here
    refine ⟨frames, ms, h, ?_, receiving, ?_⟩
    · simpa using sending
    · simpa using feedback
  | status i =>
    simp only [step, bind_eq_bind, bind_eq_some_iff] at here
    obtain ⟨sent, at_, here⟩ := here
    obtain ⟨bound, ackSn, -⟩ := feedback.truthful sent (mem_of_getElem? at_)
    obtain ⟨late, expects⟩ := ok sent at_
    obtain ⟨m, tx', a', done, acks, low, high, number⟩ :=
      sending.counts.expected_settles ackSn bound late expects
    rw [receiveStatus_eq done] at here
    cases here
    obtain ⟨moved, counts'⟩ := acks.counts sending.counts high
    have s_le_ms := sending.counts.s_le_ms
    have acked : x.acked + offset 1024 x.rlc.tx.vtA.value tx'.vtA.value = a' := by
      have := counts'.a_le_s
      rw [counts'.vtA, numbered_value, sending.counts.offset_eq moved (by omega)]
      omega
    refine ⟨frames, ms, h, ?_, receiving, ?_⟩
    · have sending' := sending.settles acks.settles moved counts'
      rw [← acked] at sending'
      exact sending'
    · have feedback' := feedback.settles at_ sending.counts acks high number
      rw [← acked] at feedback'
      exact feedback'
  | reorderingTimer =>
    simp only [step] at here
    split at here
    · simp only [expireReorderingTimer, bind_eq_bind, bind_eq_some_iff] at here
      obtain ⟨rlc, ⟨rx', -, done⟩, here⟩ := here
      cases done
      cases here
      exact ⟨frames, ms, h, sending, receiving, feedback⟩
    · exact absurd here (by simp)
  | pollRetransmitTimer =>
    simp only [step] at here
    split at here
    · simp only [expirePollRetransmitTimer, bind_eq_bind, bind_eq_some_iff] at here
      obtain ⟨rlc, ⟨tx', expired, done⟩, here⟩ := here
      cases done
      cases here
      obtain ⟨sending', stored⟩ := expires_sending sending expired
      exact ⟨frames, ms, h, sending', receiving,
        feedback.moves le_rfl stored fun n hn hn' => by omega⟩
    · exact absurd here (by simp)
  | statusProhibitTimer =>
    simp only [step] at here
    split at here
    · cases here
      exact ⟨frames, ms, h, sending, receiving, feedback⟩
    · exact absurd here (by simp)

/-- VT(A) is never ahead of VR(R): what the sender has released was received. -/
theorem acked_le_passed (sending : AmSending x.rlc.tx x.accepted x.acked x.data frames)
    (receiving : AmReceiving y.rlc.rx y.rlc.reassembly y.delivered y.passed y.heard frames ms h)
    (feedback : AmFeedback x.rlc.tx x.acked x.reports y.status y.heard frames.length) :
    x.acked ≤ y.passed := by
  have a_le_s := sending.counts.a_le_s
  apply Nat.le_of_not_lt
  intro behind
  rcases feedback.released y.passed (by omega) with known | ⟨ahead, -⟩
  · exact receiving.passed_missing known
  · omega

theorem receive_data (sending : AmSending y.rlc.tx y.accepted y.acked y.data frames)
    (receiving : AmReceiving x.rlc.rx x.rlc.reassembly x.delivered x.passed x.heard frames ms h)
    (feedback : AmFeedback y.rlc.tx y.acked y.reports x.status x.heard frames.length) {n : Nat}
    {pdu : AmdPdu} {f : Frame UInt8} (at_ : frames[n]? = some f) (carries : Carries n f pdu)
    (near : ∀ k ∈ x.heard, k < n + 512) :
    ∃ rx' passed' passedOn reassembly' out ms', x.passed ≤ passed' ∧ passed' ≤ x.passed + 512 ∧
      x.rlc.rx.doReceivePdu pdu.rlcAmHeader.sequenceNumber pdu = some (rx', passedOn) ∧
      Machine.run Reassembly.reassembleAndDeliverAm x.rlc.reassembly passedOn =
        some (reassembly', out) ∧
      AmReceiving rx' reassembly' (x.delivered ++ out) passed' (x.heard ++ [n]) frames ms'
        (max h (n + 1)) := by
  have ahead := acked_le_passed sending receiving feedback
  have s_le_ms := sending.counts.s_le_ms
  have sent : n < frames.length := (List.getElem?_eq_some_iff.mp at_).1
  apply receiving.receive sending.stream at_ carries _ (by omega)
  by_cases none_ : h = 0
  · omega
  · have := near (h - 1) (receiving.top (by omega))
    omega

theorem receiver_step {e : AmEvent} (directed : AmDirected y x)
    (ok : ∀ i, e = .data i → Mac x y (.data i)) (here : x.step a y e = some x') :
    AmDirected y x' := by
  obtain ⟨frames, ms, h, sending, receiving, feedback⟩ := directed
  have same (x' : AmSide) (rx : x'.rlc.rx = x.rlc.rx)
      (reassembly : x'.rlc.reassembly = x.rlc.reassembly) (delivered : x'.delivered = x.delivered)
      (passed : x'.passed = x.passed) (heard : x'.heard = x.heard)
      (status : x'.status = x.status) : AmDirected y x' := by
    refine ⟨frames, ms, h, sending, ?_, ?_⟩
    · rw [rx, reassembly, delivered, passed, heard]
      exact receiving
    · rw [heard, status]
      exact feedback
  cases e with
  | transmit now p =>
    cases here
    exact same _ rfl rfl rfl rfl rfl rfl
  | opportunity bytes =>
    rcases opportunity_cases here with ⟨pdu, e, built, -, rx, reassembly, rfl⟩ | ⟨tx', out, -, rfl⟩
    · obtain ⟨k, pdu', built', reports⟩ := AmReceiver.buildStatus_spec receiving.counts bytes
      obtain rfl : pdu' = pdu := Option.some.inj (built'.symm.trans built)
      have ms_le_h := receiving.counts.ms_le_h
      have h_le := receiving.h_le
      have h_le_mr := receiving.counts.h_le_mr
      have low := reports.low
      have high := reports.high
      have number : x.passed + offset 1024 x.rlc.rx.vrR.value pdu'.ackSn = k := by
        have offset := offset_add x.passed (show k - x.passed < 1024 by omega)
        rw [show x.passed + (k - x.passed) = k by omega] at offset
        rw [reports.ackSn, receiving.counts.vrR, numbered_value, offset]
        omega
      refine ⟨frames, ms, h, sending, ?_, ?_⟩
      · simpa [rx, reassembly] using receiving
      · refine feedback.tells (by simp only [number]; omega)
          (by rw [number]; exact reports.ackSn) ?_
        intro n hn hn' free
        simp only [number] at hn hn' free
        rw [receiving.mem_heard]
        by_cases before : n < x.passed
        · exact .inl before
        · have nacked := reports.nacked (show x.passed ≤ n by omega) hn (by omega)
          rw [free] at nacked
          exact .inr ⟨by omega, by omega, by simpa using nacked.symm⟩
    · cases out with
      | none => exact same _ rfl rfl rfl rfl rfl rfl
      | some pdu => exact same _ rfl rfl rfl rfl rfl rfl
  | data i =>
    simp only [step, bind_eq_bind, bind_eq_some_iff] at here
    obtain ⟨⟨n, pdu⟩, at_, here⟩ := here
    obtain ⟨f, frame, carries⟩ := sending.data n pdu (mem_of_getElem? at_)
    obtain ⟨rx', passed', passedOn, reassembly', out, ms', low, high, taken, run, receiving'⟩ :=
      receive_data sending receiving feedback frame carries (ok i rfl (n, pdu) at_)
    rw [receiveData_eq taken run] at here
    cases here
    have passed : x.passed + offset 1024 x.rlc.rx.vrR.value rx'.vrR.value = passed' := by
      have offset := offset_add x.passed (show passed' - x.passed < 1024 by omega)
      rw [show x.passed + (passed' - x.passed) = passed' by omega] at offset
      rw [receiving.counts.vrR, receiving'.counts.vrR, numbered_value, numbered_value, offset]
      omega
    refine ⟨frames, ms', max h (n + 1), sending, ?_, feedback.hears n⟩
    rw [← passed] at receiving'
    simpa using receiving'
  | status i =>
    simp only [step, bind_eq_bind, bind_eq_some_iff, receiveStatus, doReceivePdu] at here
    obtain ⟨sent, -, ⟨rlc, out⟩, ⟨tx', -, done⟩, here⟩ := here
    cases done
    cases here
    exact same _ rfl rfl rfl rfl rfl rfl
  | reorderingTimer =>
    simp only [step] at here
    split at here
    · rename_i on
      obtain ⟨rx', ms', expired, buffer, counts'⟩ := AmReceiver.expire_spec receiving.counts on
      simp only [expireReorderingTimer, expired, bind_eq_bind, bind_some] at here
      cases here
      refine ⟨frames, ms', h, sending, ?_, feedback⟩
      refine { receiving with
        counts := counts'
        mem_heard := fun n => ?_
        buffered := ?_ }
      · simpa only [AmReceiver.count, buffer] using receiving.mem_heard n
      · rw [buffer]
        exact receiving.buffered
    · exact absurd here (by simp)
  | pollRetransmitTimer =>
    simp only [step] at here
    split at here
    · simp only [expirePollRetransmitTimer, bind_eq_bind, bind_eq_some_iff] at here
      obtain ⟨rlc, ⟨tx', -, done⟩, here⟩ := here
      cases done
      cases here
      exact same _ rfl rfl rfl rfl rfl rfl
    · exact absurd here (by simp)
  | statusProhibitTimer =>
    simp only [step] at here
    split at here
    · cases here
      exact same _ rfl rfl rfl rfl rfl rfl
    · exact absurd here (by simp)

end AmSide

/-! ## Runs -/

variable {attributes : Bool → AmAttributes} {w : Bool → AmSide}

theorem update_directed {b : Bool} {x : AmSide} (sender : AmDirected x (w !b))
    (receiver : AmDirected (w !b) x) (c : Bool) :
    AmDirected (Function.update w b x c) (Function.update w b x !c) := by
  by_cases here : c = b
  · rw [here, Function.update_self, Function.update_of_ne (by simp)]
    exact sender
  · obtain rfl : c = !b := by
      revert here
      cases b <;> cases c <;> simp
    rw [Function.update_of_ne here, Bool.not_not, Function.update_self]
    exact receiver

theorem run_directed (run : AmRun attributes (fun x y e => Mac x y e ∧ Fresh x y e) w) :
    ∀ b, AmDirected (w b) (w !b) := by
  induction run with
  | start => exact fun _ => create_directed
  | @step w x _ b e ok here ih =>
    have peer := ih !b
    rw [Bool.not_not] at peer
    exact update_directed (AmSide.sender_step (ih b) (AmSide.manageable (ih b) ok) here)
      (AmSide.receiver_step peer (fun i data => data ▸ ok.1) here)

/-- The PDU with number `n` is still in one of the buffers, up to its polling bit. -/
def AmTransmitter.Holds (t : AmTransmitter) (n : Nat) (pdu : AmdPdu) : Prop :=
  ∃ stored, (t.txedBuffer (n % 1024) = some stored ∨ t.retxBuffer (n % 1024) = some stored) ∧
    pdu = stored.setPollingBit pdu.rlcAmHeader.pollingBit

theorem Carries.eq_polled {n : Nat} {f : Frame UInt8} {pdu stored : AmdPdu}
    (carries : Carries n f pdu) (carries' : Carries n f stored) :
    pdu = stored.setPollingBit pdu.rlcAmHeader.pollingBit := by
  obtain ⟨⟨headerLength, poll, framingInfo, sequenceNumber, es, lis⟩, dataField⟩ := pdu
  obtain ⟨⟨headerLength', poll', framingInfo', sequenceNumber', es', lis'⟩, dataField'⟩ := stored
  obtain ⟨rfl, rfl, rfl, rfl, rfl, rfl⟩ := carries
  obtain ⟨h₁, h₂, h₃, h₄, h₅, h₆⟩ := carries'
  subst h₁ h₂ h₃ h₄ h₅ h₆
  rfl

/-- Unlimited buffers. -/
def unlimited : Bool → AmAttributes := fun _ => ⟨0, false⟩

end Ns3.Rlc
