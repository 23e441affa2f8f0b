import Ns3.Rlc.UmReceiver

/-!
# RLC UM from end to end

Without discard timers and over a MAC that keeps order and loses nothing, the
peer delivers the accepted SDUs as soon as all their bytes have been sent.
-/

namespace Ns3.Rlc

open Framing CircularBuffer List

/-- The SDUs all of whose bytes are among the first ones. -/
def completed : List Packet → (bytes : Nat) → List Packet
  | [], _ => []
  | p :: accepted, bytes =>
    if p.length ≤ bytes then p :: completed accepted (bytes - p.length) else []

/-- An RLC PDU without its header. -/
def dataField (pdu : Packet) : Packet :=
  ((LteRlcHeader.removeHeader pdu).map Prod.snd).getD []

theorem completed_append (ps qs : List Packet) (bytes : Nat) :
    completed (ps ++ qs) (ps.flatten.length + bytes) = ps ++ completed qs bytes := by
  induction ps with
  | nil => simp
  | cons p ps ih =>
    rw [cons_append, completed, flatten_cons, length_append, if_pos (by omega),
      show p.length + ps.flatten.length + bytes - p.length = ps.flatten.length + bytes by omega, ih,
      cons_append]

/-! ## The window without losses -/

/-- A PDU that comes in its turn leaves the window at once. -/
theorem UmWindow.receive_next {Pdu : Type} {w : UmWindow Pdu} {n : Nat} (counts : Counts w n n)
    (pdu : Pdu) : (w.doReceivePdu (n % 1024) pdu).2 = [pdu] ∧
      Counts (w.doReceivePdu (n % 1024) pdu).1 (n + 1) (n + 1) := by
  have accepted : w.accepts (n % 1024) = true := by
    rw [accepts_eq counts (Nat.mod_lt n (by decide)), position_counter (by omega) (by omega),
      decide_eq_true_eq]
    omega
  have empty (key : Nat) : w.rxBuffer key = none := by
    cases here : w.rxBuffer key with
    | none => rfl
    | some p =>
      obtain ⟨k, low, high, -⟩ := mem_residues.mp (counts.within key (by simp [here]))
      omega
  generalize placed : Function.update w.rxBuffer (n % 1024) (some pdu) = buf
  have only (key : Nat) (here : (buf key).isSome = true) : key = n % 1024 := by
    by_contra other
    rw [← placed, Function.update_of_ne other, empty key] at here
    exact absurd here (by simp)
  have stored : buf (n % 1024) = some pdu := by
    rw [← placed]
    exact Function.update_self ..
  have top : max n (n + 1) = n + 1 := by omega
  obtain ⟨lo, r', lo_eq, above, below, -, out, -, counts', gap⟩ :=
    receive_accepted counts (le_refl n) (by omega) accepted placed (by
      intro _ i j hi _ outside _
      rw [only i hi, position_counter (by omega) (by omega)] at outside
      omega)
  rw [if_neg (lt_irrefl n)] at lo_eq
  rw [top] at below counts'
  -- VR(UR) does not stay, for its place is taken
  have moved : r' = n + 1 := by
    by_contra stays
    obtain rfl : r' = n := by omega
    rcases gap with missing | ⟨-, -, further⟩
    · rw [cleared_self, stored] at missing
      exact absurd missing (by simp)
    · omega
  subst moved
  refine ⟨?_, counts'⟩
  rw [out, pending_step (Nat.lt_succ_self n), stored, pending_self]
  rfl

/-! ## The receiving side without losses -/

variable {frames : List (Frame UInt8)} {n : Nat}

namespace UmReceiver

/-- The receiving side has been given the first `n` frames. -/
structure InStep (frames : List (Frame UInt8)) (n : Nat) (r : UmReceiver) : Prop where
  counts : UmWindow.Counts r.window n n
  comes : Comes frames n (openAfter none (frames.take n)) r.reassembly

theorem receive_inStep (stream : IsStream frames) {r : UmReceiver} (inStep : InStep frames n r)
    {f : Frame UInt8} (at_ : frames[n]? = some f) :
    ∃ r', r.doReceivePdu (encode (numbered 0 n) f) =
        some (r', f.ended (openAfter none (frames.take n))) ∧ InStep frames (n + 1) r' := by
  obtain ⟨counts, comes⟩ := inStep
  obtain ⟨rlcHeader, parsed, number⟩ :=
    deserialize_pduAt stream (List.getElem?_eq_some_iff.mp at_).1
  rw [pduAt_eq at_] at parsed
  obtain ⟨out, counts'⟩ := UmWindow.receive_next counts (encode (numbered 0 n) f)
  obtain ⟨kept', reassembly, delivered, done, comes', -, exact_⟩ :=
    comes.step stream at_ (le_refl n) (by omega)
  obtain ⟨rfl, rfl⟩ := exact_ rfl rfl
  refine ⟨⟨_, reassembly⟩, ?_, counts', comes'⟩
  have ran := Machine.run_single done
  rw [doReceivePdu, parsed]
  simp only [Option.bind_eq_bind, Option.bind_some, number, reassemble, out, ran]
  rfl

/-- Every frame delivers the SDUs that end in it. -/
theorem run_inStep (stream : IsStream frames) (short : n ≤ frames.length) :
    ∃ r, Machine.run doReceivePdu create ((encodeAll frames).take n) =
      some (r, items none (frames.take n)) ∧ InStep frames n r := by
  induction n with
  | zero =>
    exact ⟨create, rfl, UmWindow.create_counts, create_comes frames⟩
  | succ n ih =>
    obtain ⟨r, before, inStep⟩ := ih (Nat.le_of_succ_le short)
    have at_ : frames[n]? = some frames[n] := getElem?_eq_getElem short
    obtain ⟨r', here, inStep'⟩ := receive_inStep stream inStep at_
    refine ⟨r', ?_, inStep'⟩
    have pdu : (encodeAll frames)[n]? = some (encode (numbered 0 n) frames[n]) := by
      rw [encodeAll, getElem?_mapIdx, at_]
      rfl
    rw [take_add_one, take_add_one, pdu, at_]
    simp only [Option.toList_some, items_concat]
    exact Machine.run_append before (Machine.run_single here)

end UmReceiver

/-! ## What has been sent -/

theorem dataField_encodeAll (encodable : ∀ f ∈ frames, Encodable f) :
    (encodeAll frames).flatMap dataField = (frames.map fun f => f.pieces.flatten).flatten := by
  induction frames using List.reverseRecOn with
  | nil => rfl
  | append_singleton frames f ih =>
    have before := ih fun g mem => encodable g (mem_append_left _ mem)
    have last : dataField (encode (numbered 0 frames.length) f) = f.pieces.flatten := by
      rw [dataField, removeHeader_encode (encodable f (by simp)) (encode_value _)]
      rfl
    rw [encodeAll_concat, flatMap_append, before, flatMap_singleton, last]
    simp

theorem completed_rest {opened : Option Packet} {txBuffer : List TxPdu}
    (ready : Ready opened.isSome txBuffer) :
    completed (joined opened (txBuffer.map TxPdu.pdu)) (opened.getD []).length = [] := by
  cases txBuffer with
  | nil => cases opened <;> rfl
  | cons p txBuffer =>
    have some_ := length_pos_of_ne_nil ready.head.1
    rw [map_cons, joined_cons, completed, if_neg]
    rw [length_append]
    omega

namespace UmTransmitter

variable {a : UmAttributes} {t : UmTransmitter} {accepted sent : List Packet}

/-- Neither discard mechanism is on. -/
def plain : UmAttributes := ⟨10240, true, 0, 100, 0, false⟩

end UmTransmitter

end Ns3.Rlc
