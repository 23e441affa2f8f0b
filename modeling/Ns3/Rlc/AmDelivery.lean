import Ns3.Rlc.AmOpportunity
import Ns3.Rlc.AmStatus

/-!
# Delivery by `LteRlcAm`

What one direction of a run keeps true: `AmSending` of the sender, `AmReceiving`
of its peer, and `AmFeedback` of what the peer reports to the sender.
-/

namespace Ns3.Rlc

open SequenceNumber10 CircularBuffer Framing List Function Reassembly

variable {frames : List (Frame UInt8)} {f : Frame UInt8} {n : Nat}

/-! ## The sender -/

/-- The sender has sent `frames` and holds PDUs of these, and the rest of what it
has accepted. -/
structure AmSending (t : AmTransmitter) (accepted : List Packet) (acked : Nat)
    (data : List (Nat × AmdPdu)) (frames : List (Frame UInt8)) : Prop where
  stream : IsStream frames
  counts : AmTransmitter.Counts t acked frames.length
  stored : ∀ n pdu, acked ≤ n → n < frames.length →
    (t.txedBuffer (n % 1024) = some pdu ∨ t.retxBuffer (n % 1024) = some pdu) →
      ∃ f, frames[n]? = some f ∧ Carries n f pdu
  ready : Ready (openAfter none frames).isSome t.txonBuffer
  sdus : sdusOf frames t.txonBuffer = accepted
  data : ∀ n pdu, (n, pdu) ∈ data → ∃ f, frames[n]? = some f ∧ Carries n f pdu

namespace AmSending

variable {t t' : AmTransmitter} {accepted : List Packet} {acked bytes : Nat}
  {data : List (Nat × AmdPdu)} {attributes : AmAttributes}

theorem create : AmSending AmTransmitter.create [] 0 [] [] where
  stream := ⟨trivial, by simp⟩
  counts := AmTransmitter.create_counts
  stored := fun n pdu _ high => by simp at high
  ready := Ready.full (by simp [FullSdus, AmTransmitter.create])
  sdus := rfl
  data := by simp

theorem transmit (sending : AmSending t accepted acked data frames) (a : AmAttributes) (now : Time)
    {p : Packet} (some : p ≠ []) :
    AmSending (t.doTransmitPdcpPdu a now p).1 (accepted ++ if t.fits a p then [p] else []) acked
      data frames := by
  unfold AmTransmitter.doTransmitPdcpPdu
  split
  · refine ⟨sending.stream, ?_, sending.stored, sending.ready.append rfl some, ?_, sending.data⟩
    · exact { sending.counts with }
    · have begun := Ready.queue_ne_nil sending.ready
      rw [← sending.sdus]
      simp only [sdusOf, map_append, map_cons, map_nil]
      simp [joined_append begun]
  · rw [append_nil]
    exact sending

theorem place_eq {a k : Nat} (low : a ≤ k) (high : k < a + 512) (low' : a ≤ n) (high' : n < a + 512)
    (same : n % 1024 = k % 1024) : n = k :=
  Circular.eq_of_residue same (by omega) (by omega)

section

variable (sending : AmSending t accepted acked data frames)
include sending

theorem retransmits {s k : Nat} {pdu : AmdPdu} {poll : Bool} (len : s = frames.length)
    (sends : AmTransmitter.Retransmits t t' acked s k pdu poll) :
    AmSending t' accepted acked (data ++ [(k, pdu.setPollingBit poll)]) frames := by
  subst len
  have s_le_ms := sending.counts.s_le_ms
  have high := sends.high
  obtain ⟨txed, retx, txon, -⟩ := sends.buffers
  obtain ⟨g, at_, carries⟩ := sending.stored k pdu sends.low high (.inr sends.stored)
  refine ⟨sending.stream, sends.counts sending.counts, ?_, ?_, ?_, ?_⟩
  · intro n pdu' low' high' here
    rw [txed, retx] at here
    by_cases same : n % 1024 = k % 1024
    · obtain rfl := place_eq sends.low (by omega) low' (by omega) same
      rw [update_self, update_self] at here
      obtain rfl : pdu = pdu' := by simpa using here
      exact ⟨g, at_, carries⟩
    · rw [update_of_ne same, update_of_ne same] at here
      exact sending.stored n pdu' low' high' here
  · rw [txon]
    exact sending.ready
  · rw [txon]
    exact sending.sdus
  · intro n pdu' mem
    rcases mem_append.mp mem with mem | mem
    · exact sending.data n pdu' mem
    · obtain ⟨rfl, rfl⟩ := by simpa using mem
      exact ⟨g, at_, carries.polled poll⟩

theorem sendsNew {mid : Bool} {s : Nat} {pdu : AmdPdu}
    (len : s = frames.length) (begun : mid = (openAfter none frames).isSome)
    (sends : AmTransmitter.SendsNew t t' mid acked s bytes f pdu) :
    AmSending t' accepted acked (data ++ [(s, pdu)]) (frames ++ [f]) := by
  subst len
  have room := sends.room
  obtain ⟨txed, retx⟩ := sends.buffers
  obtain ⟨-, free⟩ := sends.free sending.counts
  have opened : openAfter none (frames ++ [f]) = f.left (openAfter none frames) := openAfter_concat
  have before (n : Nat) {g : Frame UInt8} (at_ : frames[n]? = some g) :
      (frames ++ [f])[n]? = some g := by
    rw [getElem?_append_left (List.getElem?_eq_some_iff.mp at_).1]
    exact at_
  have last : (frames ++ [f])[frames.length]? = some f := by simp
  refine ⟨⟨?_, ?_⟩, ?_, ?_, ?_, ?_, ?_⟩
  · exact inOrder_concat.mpr ⟨sending.stream.order, sends.startsMid.trans begun⟩
  · intro g mem
    rcases mem_append.mp mem with mem | mem
    · exact sending.stream.encodable g mem
    · obtain rfl := mem_singleton.mp mem
      exact sends.encodable
  · rw [length_append, length_singleton]
    exact sends.counts sending.counts
  · intro n pdu' low' high' here
    rw [length_append, length_singleton] at high'
    rw [txed, retx] at here
    by_cases same : n = frames.length
    · subst same
      rw [update_self, free] at here
      obtain rfl : pdu = pdu' := by simpa using here
      exact ⟨f, last, sends.carries⟩
    · have off : n % 1024 ≠ frames.length % 1024 := by
        intro residue
        exact same (Circular.eq_of_residue residue (by omega) (by omega))
      rw [update_of_ne off] at here
      obtain ⟨g, at_, carries⟩ := sending.stored n pdu' low' (by omega) here
      exact ⟨g, before n at_, carries⟩
  · rw [opened, Frame.left, sends.cut.left_isSome]
    exact sends.ready
  · rw [← sending.sdus, sdusOf, sdusOf, items_concat, opened,
      sends.cut.joined_eq (openAfter none frames), append_assoc]
    rfl
  · intro n pdu' mem
    rcases mem_append.mp mem with mem | mem
    · obtain ⟨g, at_, carries⟩ := sending.data n pdu' mem
      exact ⟨g, before n at_, carries⟩
    · obtain ⟨rfl, rfl⟩ := by simpa using mem
      exact ⟨f, last, sends.carries⟩

theorem settles {nacked : Nat → Bool} {acked' m : Nat}
    (settles : AmTransmitter.Settles nacked acked m t t') (low : acked ≤ acked')
    (counts : AmTransmitter.Counts t' acked' frames.length) :
    AmSending t' accepted acked' data frames := by
  refine ⟨sending.stream, counts, ?_, ?_, ?_, sending.data⟩
  · intro n pdu low' high' here
    apply sending.stored n pdu (by omega) high'
    rw [settles.txed, settles.retx] at here
    unfold cleared AmTransmitter.reported at here
    by_cases mem : n % 1024 ∈ residues 1024 acked m
    · simp only [if_pos mem] at here
      rcases here with here | here
      · exact absurd here (by simp)
      · split at here
        · exact (Option.or_eq_some_iff.mp here).imp_right And.right
        · exact absurd here (by simp)
    · simpa only [if_neg mem] using here
  · rw [settles.txon.1]
    exact sending.ready
  · rw [settles.txon.1]
    exact sending.sdus

end

end AmSending

/-! ## The receiver -/

/-- The peer has received the frames `heard`, all those before `passed` among
them, and has delivered what ends in these. -/
structure AmReceiving (rx : AmReceiver AmdPdu) (reassembly : Reassembly) (delivered : List Packet)
    (passed : Nat) (heard : List Nat) (frames : List (Frame UInt8)) (ms h : Nat) : Prop where
  counts : AmReceiver.Counts rx passed ms h
  h_le : h ≤ frames.length
  mem_heard : ∀ n, n ∈ heard ↔ n < passed ∨ (passed ≤ n ∧ n < h ∧ rx.count (n % 1024) = true)
  top : 0 < h → h - 1 ∈ heard
  buffered : ∀ n pdu, passed ≤ n → n < h → rx.rxonBuffer (n % 1024) = some pdu →
    ∃ f, frames[n]? = some f ∧ Carries n f pdu
  inStep : InStep frames passed reassembly
  delivered : delivered = items none (frames.take passed)

namespace AmReceiving

variable {rx : AmReceiver AmdPdu} {reassembly : Reassembly} {delivered : List Packet}
  {passed : Nat} {heard : List Nat} {ms h : Nat} {pdu : AmdPdu}

theorem create : AmReceiving AmReceiver.create create [] 0 [] [] 0 0 where
  counts := AmReceiver.create_counts
  h_le := le_refl 0
  mem_heard := fun n => by simp
  top := fun pos => absurd pos (lt_irrefl 0)
  buffered := fun n pdu _ high => by simp at high
  inStep := create_inStep []
  delivered := rfl

section

variable (receiving : AmReceiving rx reassembly delivered passed heard frames ms h)
include receiving

theorem passed_le_h : passed ≤ h := receiving.counts.r_le_ms.trans receiving.counts.ms_le_h

theorem passed_missing : passed ∉ heard := by
  intro mem
  have free := receiving.counts.missingR
  rcases (receiving.mem_heard passed).mp mem with before | ⟨-, -, there⟩
  · exact lt_irrefl _ before
  · simp [AmReceiver.count, free] at there

theorem extend (f : Frame UInt8) :
    AmReceiving rx reassembly delivered passed heard (frames ++ [f]) ms h := by
  have order := receiving.passed_le_h
  have h_le := receiving.h_le
  have same : (frames ++ [f]).take passed = frames.take passed :=
    take_append_of_le_length (by omega)
  refine { receiving with
    h_le := ?_
    buffered := fun n pdu low high here => ?_
    inStep := ⟨?_, receiving.inStep.empty, receiving.inStep.expected⟩
    delivered := ?_ }
  · rw [length_append]
    omega
  · obtain ⟨g, at_, carries⟩ := receiving.buffered n pdu low high here
    refine ⟨g, ?_, carries⟩
    rw [getElem?_append_left (List.getElem?_eq_some_iff.mp at_).1]
    exact at_
  · rw [same]
    exact receiving.inStep.state
  · rw [same]
    exact receiving.delivered

end

/-- PDUs passed on in order are delivered as the SDUs that end in them. -/
theorem run_pending {buf : Nat → Option AmdPdu} {lo hi : Nat} {r : Reassembly}
    (stream : IsStream frames) (inStep : InStep frames lo r) (order : lo ≤ hi)
    (carried : ∀ k, lo ≤ k → k < hi → ∃ pdu f, buf (k % 1024) = some pdu ∧ frames[k]? = some f ∧
      Carries k f pdu) :
    ∃ r' out, Machine.run reassembleAndDeliverAm r (pending 1024 buf lo hi) =
        some (r', out) ∧ InStep frames hi r' ∧
      items none (frames.take hi) = items none (frames.take lo) ++ out := by
  obtain ⟨d, rfl⟩ := Nat.exists_eq_add_of_le order
  induction d generalizing lo r with
  | zero => exact ⟨r, [], by simp [Machine.run], inStep, by simp⟩
  | succ d ih =>
    obtain ⟨pdu, f, here, at_, carries⟩ := carried lo (le_refl lo) (by omega)
    obtain ⟨mid, first, inStep'⟩ := inStep.step stream.order at_
      (stream.encodable f (mem_of_getElem? at_)) carries
    obtain ⟨r', out, rest, inStep'', all⟩ := ih inStep' (by omega)
      fun k hk hk' => carried k (by omega) (by omega)
    rw [show lo + 1 + d = lo + (d + 1) by omega] at rest inStep'' all
    refine ⟨r', f.ended (openAfter none (frames.take lo)) ++ out, ?_, inStep'', ?_⟩
    · rw [pending_step (by omega), here]
      exact Machine.run_of_step first rest
    · simp [all, take_add_one, at_, items_concat]

theorem place_count (rx : AmReceiver AmdPdu) (k : Nat) (pdu : AmdPdu) {n : Nat}
    (near : n < k + 1024) (near' : k < n + 1024) :
    ((rx.place (k % 1024) pdu).rxonBuffer (n % 1024)).isSome =
      (decide (n = k) || rx.count (n % 1024)) := by
  by_cases same : n = k
  · rw [same, AmReceiver.place_stored]
    simp
  · have other : n % 1024 ≠ k % 1024 := fun residue =>
      same (Circular.eq_of_residue residue (by omega) (by omega))
    rw [AmReceiver.place_other rx other]
    simp [same, AmReceiver.count]

theorem place_carries (receiving : AmReceiving rx reassembly delivered passed heard frames ms h)
    {k : Nat} (at_ : frames[k]? = some f) (carries : Carries k f pdu) (low : passed ≤ k)
    (near : k < passed + 512) {other : AmdPdu} (low' : passed ≤ n) (near' : n < passed + 512)
    (here : (rx.place (k % 1024) pdu).rxonBuffer (n % 1024) = some other) :
    ∃ g, frames[n]? = some g ∧ Carries n g other := by
  have h_le_mr := receiving.counts.h_le_mr
  have old (stored : rx.rxonBuffer (n % 1024) = some other) :
      ∃ g, frames[n]? = some g ∧ Carries n g other := by
    have inside := receiving.counts.within.lt_of_isSome (by omega) low' (by omega)
      (show (rx.rxonBuffer (n % 1024)).isSome = true by simp [stored])
    exact receiving.buffered n other low' inside stored
  unfold AmReceiver.place at here
  split at here
  · exact old here
  · by_cases same : n % 1024 = k % 1024
    · obtain rfl := AmSending.place_eq low near low' near' same
      simp only [update_self, Option.some.injEq] at here
      exact ⟨f, at_, here ▸ carries⟩
    · simp only [update_of_ne same] at here
      exact old here

/-- **Reception.** A PDU of the stream that was overtaken by fewer than 512
others is taken, and what is delivered are the SDUs that end in order. -/
theorem receive (receiving : AmReceiving rx reassembly delivered passed heard frames ms h)
    (stream : IsStream frames) {k : Nat} (at_ : frames[k]? = some f) (carries : Carries k f pdu)
    (late : h ≤ k + 512) (near : k < passed + 512) :
    ∃ rx' passed' passedOn reassembly' out ms', passed ≤ passed' ∧ passed' ≤ passed + 512 ∧
      rx.doReceivePdu pdu.rlcAmHeader.sequenceNumber pdu = some (rx', passedOn) ∧
      Machine.run reassembleAndDeliverAm reassembly passedOn = some (reassembly', out) ∧
      AmReceiving rx' reassembly' (delivered ++ out) passed' (heard ++ [k]) frames ms'
        (max h (k + 1)) := by
  have order := receiving.passed_le_h
  have h_le := receiving.h_le
  have h_le_mr := receiving.counts.h_le_mr
  have sent : k < frames.length := (List.getElem?_eq_some_iff.mp at_).1
  have top : 0 < max h (k + 1) → max h (k + 1) - 1 ∈ heard ++ [k] := by
    intro _
    by_cases higher : h ≤ k
    · rw [show max h (k + 1) - 1 = k by omega]
      simp
    · rw [show max h (k + 1) = h by omega]
      exact mem_append_left _ (receiving.top (by omega))
  rw [carries.sequenceNumber]
  by_cases low : passed ≤ k
  · obtain ⟨rx', passed', ms', low', done, full, buffer, counts'⟩ := AmReceiver.receive_inside
      receiving.counts low near pdu rfl
    have high' : passed' ≤ max h (k + 1) := counts'.r_le_ms.trans counts'.ms_le_h
    obtain ⟨reassembly', out, run, inStep, all⟩ := run_pending stream receiving.inStep low'
      (fun n hn hn' => by
        obtain ⟨other, here⟩ := Option.isSome_iff_exists.mp (full n hn hn')
        obtain ⟨g, at_', carries'⟩ :=
          receiving.place_carries at_ carries low near hn (by omega) here
        exact ⟨other, g, here, at_', carries'⟩)
    have placed (n : Nat) (hn : passed ≤ n) (hn' : n < passed + 512) :
        ((rx.place (k % 1024) pdu).rxonBuffer (n % 1024)).isSome =
          (decide (n = k) || rx.count (n % 1024)) :=
      place_count rx k pdu (by omega) (by omega)
    have after (n : Nat) (hn : passed' ≤ n) (hn' : n < passed + 512) :
        rx'.rxonBuffer (n % 1024) = (rx.place (k % 1024) pdu).rxonBuffer (n % 1024) := by
      rw [buffer, cleared_after hn (by omega)]
    refine ⟨rx', passed', _, reassembly', out, ms', low', by omega, done, run, ?_⟩
    refine ⟨counts', by omega, ?_, top, ?_, inStep, ?_⟩
    · intro n
      have inside (hn : passed ≤ n) (hn' : n < passed + 512)
          (there : rx.count (n % 1024) = true) : n < h :=
        receiving.counts.within.lt_of_isSome (by omega) hn (by omega) there
      rw [mem_append, mem_singleton, receiving.mem_heard]
      constructor
      · intro known
        have from_ : n < passed' ∨ passed' ≤ n := lt_or_ge n passed'
        refine from_.imp_right fun hn => ⟨hn, by omega, ?_⟩
        have stored : rx'.count (n % 1024) = (decide (n = k) || rx.count (n % 1024)) := by
          rw [← placed n (by omega) (by omega), ← after n hn (by omega)]
          rfl
        rw [stored]
        rcases known with (before | ⟨-, -, there⟩) | rfl
        · omega
        · simp [there]
        · simp
      · rintro (before | ⟨hn, hn', there⟩)
        · by_cases old : n < passed
          · exact .inl (.inl old)
          · have stored := full n (by omega) before
            rw [placed n (by omega) (by omega), Bool.or_eq_true, decide_eq_true_eq] at stored
            rcases stored with rfl | there
            · exact .inr rfl
            · exact .inl (.inr ⟨by omega, inside (by omega) (by omega) there, there⟩)
        · have stored : ((rx.place (k % 1024) pdu).rxonBuffer (n % 1024)).isSome = true := by
            rw [← after n hn (by omega)]
            exact there
          rw [placed n (by omega) (by omega), Bool.or_eq_true, decide_eq_true_eq] at stored
          rcases stored with rfl | there
          · exact .inr rfl
          · exact .inl (.inr ⟨by omega, inside (by omega) (by omega) there, there⟩)
    · intro n other hn hn' here
      rw [after n hn (by omega)] at here
      exact receiving.place_carries at_ carries low near (by omega) (by omega) here
    · rw [all, receiving.delivered]
  · have outside :=
      AmReceiver.receive_outside receiving.counts (show passed + 512 ≤ k + 1024 by omega)
      (by omega) pdu
    rw [Nat.add_mod_right] at outside
    refine ⟨rx, passed, [], reassembly, [], ms, le_rfl, by omega, outside, rfl, ?_⟩
    have same : max h (k + 1) = h := by omega
    refine ⟨?_, ?_, ?_, top, ?_, receiving.inStep, ?_⟩
    · rw [same]
      exact receiving.counts
    · rw [same]
      exact h_le
    · intro n
      rw [mem_append, receiving.mem_heard, mem_singleton, same]
      constructor
      · rintro (known | rfl)
        · exact known
        · exact .inl (by omega)
      · exact .inl
    · rw [same]
      exact receiving.buffered
    · rw [append_nil]
      exact receiving.delivered

end AmReceiving

end Ns3.Rlc
