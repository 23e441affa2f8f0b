import Ns3.Rlc.LteRlcAm
import Ns3.Rlc.UmReceiver

/-!
# What a STATUS PDU of `LteRlcAm` says

`buildStatus_spec`: it NACKs exactly the missing PDUs before its ACK_SN, which
is the number of a missing PDU itself.
-/

namespace Ns3.Rlc

open SequenceNumber10 Framing

namespace AmReceiver

variable {Pdu : Type} {w : AmReceiver Pdu} {r ms h n : Nat}

/-- The numbers of the PDUs missing from `r` up to `n`. -/
def missing (w : AmReceiver Pdu) (r n : Nat) : List Nat :=
  (List.range' r (n - r)).filter fun k => !w.count (k % 1024)

theorem mem_missing {k : Nat} :
    k ∈ w.missing r n ↔ (r ≤ k ∧ k < n) ∧ w.count (k % 1024) = false := by
  simp only [missing, List.mem_filter, List.mem_range'_1, Bool.not_eq_true']
  constructor
  · rintro ⟨range, free⟩
    exact ⟨⟨range.1, by omega⟩, free⟩
  · rintro ⟨range, free⟩
    exact ⟨⟨range.1, by omega⟩, free⟩

theorem missing_succ (order : r ≤ n) : w.missing r (n + 1) =
    w.missing r n ++ if w.count (n % 1024) then [] else [n] := by
  have split : List.range' r (n + 1 - r) = List.range' r (n - r) ++ [n] := by
    rw [CircularBuffer.range'_split order (Nat.le_succ n), Nat.succ_sub (le_refl n), Nat.sub_self]
    rfl
  unfold missing
  rw [split, List.filter_append]
  cases there : w.count (n % 1024) <;> simp [there]

theorem pushNacks_spec (fuel bytes : Nat) (rlcAmHeader : StatusPdu)
    (vrMs : w.vrMs = numbered r ms) (r_le_n : r ≤ n) (n_le_ms : n ≤ ms) (ms_lt : ms < r + 1024)
    (enough : ms < n + fuel)
    (nacks : rlcAmHeader.nackSnList = (w.missing r n).map fun k => k % 1024) :
    ∃ m rlcAmHeader', w.pushNacks bytes fuel (numbered r n) rlcAmHeader =
        some (numbered r m, rlcAmHeader') ∧ n ≤ m ∧ m ≤ ms ∧
      rlcAmHeader'.nackSnList = (w.missing r m).map fun k => k % 1024 := by
  induction fuel generalizing n rlcAmHeader with
  | zero => omega
  | succ fuel ih =>
    unfold pushNacks
    rw [vrMs, lt?_numbered r_le_n (by omega) (show r ≤ ms by omega) ms_lt]
    by_cases inside : n < ms
    · simp only [Option.bind_eq_bind, Option.bind_some, inside, decide_true, Bool.not_true,
        Bool.false_eq_true, ↓reduceIte, numbered_value, numbered_succ]
      cases fits : rlcAmHeader.oneMoreNackWouldFitIn bytes with
      | false => exact ⟨n, rlcAmHeader, by simp, le_refl n, n_le_ms, nacks⟩
      | true =>
        have nacks' : (if w.count (n % 1024) = true then rlcAmHeader
            else rlcAmHeader.pushNack (n % 1024)).nackSnList =
              (w.missing r (n + 1)).map fun k => k % 1024 := by
          rw [missing_succ r_le_n]
          cases there : w.count (n % 1024) <;> simp [StatusPdu.pushNack, nacks]
        obtain ⟨m, rlcAmHeader', done, low, high, eq⟩ :=
          ih _ (show r ≤ n + 1 by omega) (by omega) (by omega) nacks'
        refine ⟨m, rlcAmHeader', ?_, by omega, high, eq⟩
        exact done
    · exact ⟨n, rlcAmHeader, by simp [inside], le_refl n, n_le_ms, nacks⟩

theorem firstUnreported_spec (fuel : Nat) (vrMs : w.vrMs = numbered r ms) (r_le_n : r ≤ n)
    (n_le_ms : n ≤ ms) (ms_lt : ms < r + 1024) (enough : ms < n + fuel)
    (free : w.count (ms % 1024) = false) :
    ∃ k, w.firstUnreported fuel (numbered r n) = some (numbered r k) ∧ n ≤ k ∧ k ≤ ms ∧
      w.count (k % 1024) = false ∧ ∀ j, n ≤ j → j < k → w.count (j % 1024) = true := by
  induction fuel generalizing n with
  | zero => omega
  | succ fuel ih =>
    unfold firstUnreported
    rw [vrMs, lt?_numbered r_le_n (by omega) (show r ≤ ms by omega) ms_lt]
    cases there : w.count (n % 1024) with
    | false =>
      exact ⟨n, by simp [there], le_refl n, n_le_ms, there, fun j hj hj' => by omega⟩
    | true =>
      have inside : n < ms := by
        apply Nat.lt_of_le_of_ne n_le_ms
        rintro rfl
        exact absurd (free.symm.trans there) (by simp)
      obtain ⟨k, done, low, high, stops, passed⟩ :=
        ih (show r ≤ n + 1 by omega) (by omega) (by omega)
      refine ⟨k, by simpa [inside, there] using done, by omega, high, stops, fun j hj hj' => ?_⟩
      by_cases first : j = n
      · rw [first, there]
      · exact passed j (by omega) hj'

/-- **STATUS.** What an entity with counters reports. -/
structure Reports (w : AmReceiver Pdu) (r ms k : Nat) (pdu : StatusPdu) : Prop where
  low : r ≤ k
  high : k ≤ ms
  ackSn : pdu.ackSn = k % 1024
  free : w.count (k % 1024) = false
  nacks : pdu.nackSnList = (w.missing r k).map fun j => j % 1024

theorem buildStatus_spec (counts : Counts w r ms h) (bytes : Nat) :
    ∃ k pdu, w.buildStatus bytes = some pdu ∧ Reports w r ms k pdu := by
  have r_le_ms := counts.r_le_ms
  have ms_le_h := counts.ms_le_h
  have h_le_mr := counts.h_le_mr
  have free : w.count (ms % 1024) = false := by simp [count, counts.missingMs]
  obtain ⟨m, rlcAmHeader, nacked, low, high, nacks⟩ := pushNacks_spec 1024
    bytes StatusPdu.setControlPdu counts.vrMs (le_refl r) r_le_ms
    (by omega) (by omega) (by simp [missing, StatusPdu.setControlPdu])
  obtain ⟨k, found, low', high', stops, passed⟩ := firstUnreported_spec 1024
    counts.vrMs low high (by omega) (by omega) free
  have inside := le?_numbered (show r ≤ k by omega) (show k < r + 1024 by omega) r_le_ms
    (show ms < r + 1024 by omega)
  refine ⟨k, rlcAmHeader.setAckSn (numbered r k), ?_, by omega, high', rfl, stops, ?_⟩
  · unfold buildStatus
    simp [counts.vrR, counts.vrMs, nacked, found, inside, high']
  · have same : w.missing r k = w.missing r m := by
      have none_ : (List.range' m (k - m)).filter (fun j => !w.count (j % 1024)) = [] := by
        rw [List.filter_eq_nil_iff]
        intro j mem
        rw [List.mem_range'_1] at mem
        simp [passed j mem.1 (by omega)]
      unfold missing
      simp [CircularBuffer.range'_split low low', none_]
    rw [same]
    exact nacks

/-- Before the ACK_SN what is not NACKed is there, and what is there not NACKed. -/
theorem Reports.nacked {k j : Nat} {pdu : StatusPdu} (reports : Reports w r ms k pdu)
    (low : r ≤ j) (high : j < k) (width : k ≤ r + 1024) :
    pdu.nackSnList.contains (j % 1024) = !w.count (j % 1024) := by
  apply Bool.eq_iff_iff.mpr
  rw [List.contains_iff_mem, reports.nacks, List.mem_map, Bool.not_eq_true']
  constructor
  · rintro ⟨i, mem, same⟩
    obtain ⟨range, free⟩ := mem_missing.mp mem
    rwa [← Circular.eq_of_residue same (by omega) (by omega)]
  · intro free
    exact ⟨j, mem_missing.mpr ⟨⟨low, high⟩, free⟩, rfl⟩

end AmReceiver

/-! ## Reassembly in order -/

theorem fromS0FullInOrder_eq {f : Frame UInt8} (some : f.pieces ≠ [])
    (starts : f.startsMid = false) :
    fromS0FullInOrder (framingOf f) f.pieces = (stateOf (f.keeps none), [], f.delivered none) := by
  rw [← fromS0Full_eq .waitingS0Full some]
  have framing := framingOf_eq f
  rw [starts] at framing
  cases ends : f.endsMid with
  | false =>
    rw [ends] at framing
    rw [framing]
    rfl
  | true =>
    rw [ends] at framing
    rw [framing]
    rfl

namespace Reassembly

variable {frames : List (Frame UInt8)} {n : Nat} {f : Frame UInt8} {pdu : AmdPdu}

/-- The reassembly has come to frame `n`, and keeps what is open there. -/
structure InStep (frames : List (Frame UInt8)) (n : Nat) (r : Reassembly) : Prop where
  state : r.reassemblingState = stateOf (openAfter none (frames.take n))
  empty : r.sdusBuffer = []
  expected : r.expectedSeqNumber.value = n % 1024

theorem create_inStep (frames : List (Frame UInt8)) : InStep frames 0 create := ⟨rfl, rfl, rfl⟩

/-- The next frame gives the SDUs that end in it. -/
theorem InStep.step {r : Reassembly} (inStep : InStep frames n r) (order : InOrder none frames)
    (at_ : frames[n]? = some f) (encodable : Encodable f) (carries : Carries n f pdu) :
    ∃ r', r.reassembleAndDeliverAm pdu = some (r', f.ended (openAfter none (frames.take n))) ∧
      InStep frames (n + 1) r' := by
  obtain ⟨state, sdusBuffer, expected⟩ := r
  obtain ⟨rfl, rfl, number⟩ := inStep
  have fits := order.startsMid at_
  have split := splitSdus_eq encodable.some
  have same : (ofNat pdu.rlcAmHeader.sequenceNumber).eq expected = true := by
    rw [carries.sequenceNumber]
    simp only [SequenceNumber10.eq, ofNat, beq_iff_eq, Nat.mod_mod]
    exact number.symm
  have following : (expected.add 1).value = (n + 1) % 1024 := by
    have remainder : Int.tmod ((expected.value : Int) + (1 : Nat)) 1024 =
        ((n + 1) % 1024 : Nat) := by
      rw [number, Int.tmod_eq_emod_of_nonneg (by omega)]
      omega
    simp only [SequenceNumber10.add, ofNat, toUInt16]
    omega
  refine ⟨⟨stateOf (f.left (openAfter none (frames.take n))), [], expected.add 1⟩, ?_, ?_, rfl,
    following⟩
  · unfold reassembleAndDeliverAm
    simp only [same, carries.extensionBits, carries.lengthIndicators, carries.dataField, lengthsOf,
      carries.framingInfo, split, Bool.not_true, Bool.false_eq_true, ↓reduceIte,
      Option.bind_eq_bind, Option.bind_some, List.nil_append]
    cases opened : openAfter none (frames.take n) with
    | none =>
      rw [opened] at fits
      simp only [fromS0FullInOrder_eq encodable.some fits]
      rw [Frame.keeps_kept fits, Frame.delivered_kept fits]
      rfl
    | some keepS0 =>
      rw [opened] at fits
      simp only [stateOf, fromSiSf_eq keepS0 encodable.some fits]
      rw [Frame.keeps_kept fits, Frame.delivered_kept fits]
      rfl
  · rw [openAfter_take_succ at_]

end Reassembly

end Ns3.Rlc
