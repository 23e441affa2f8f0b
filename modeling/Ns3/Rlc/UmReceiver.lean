import Ns3.Library.Machine
import Ns3.Rlc.Reassembly
import Ns3.Rlc.UmStream
import Ns3.Rlc.UmWindowCounts

/-!
# The receive window stays valid

`ReassembleOutsideWindow` walks the map by raw sequence number, and the scan
for the first gap does not wrap at 1024. `Orderly` says that neither matters
for a PDU; `reachable_window_valid` is the window invariant of every run whose
PDUs are orderly, and `key_left_behind` a run without it.
-/

namespace Ns3.Rlc.UmWindow

open CircularBuffer

variable {Pdu : Type}

/-- Every run of the receive window whose PDUs are allowed. -/
inductive Reachable (allowed : UmWindow Pdu → Nat → Prop) : UmWindow Pdu → Prop
  | start : Reachable allowed create
  | receive {w : UmWindow Pdu} {sn : Nat} (run : Reachable allowed w) (small : sn < 1024)
      (ok : allowed w sn) (pdu : Pdu) : Reachable allowed (w.doReceivePdu sn pdu).1
  | expire {w : UmWindow Pdu} (run : Reachable allowed w) (on : w.reorderingTimer = true) :
      Reachable allowed w.expireReorderingTimer.1

/-- Every key lies from VR(UR) up to VR(UH) in the window, and VR(UR) is not
a key. VR(UH) has position 512. -/
structure WindowValid (w : UmWindow Pdu) : Prop where
  order : position w.vrUh.value w.vrUr.value ≤ 512
  keys : ∀ sn, w.count sn = true → sn < 1024 ∧
    position w.vrUh.value w.vrUr.value ≤ position w.vrUh.value sn ∧
    position w.vrUh.value sn < 512
  missing : w.count w.vrUr.value = false

/-! ## PDUs that the walk and the scan get right -/

/-- The upper edge of the window once the PDU is placed. -/
def movedUh (w : UmWindow Pdu) (sn : Nat) : Nat :=
  if position w.vrUh.value sn < 512 then w.vrUh.value else sn + 1

/-- VR(UR) once the window has moved for the PDU. -/
def movedUr (w : UmWindow Pdu) (sn : Nat) : Nat :=
  if position w.vrUh.value sn < 512 ∨ position (w.movedUh sn) w.vrUr.value < 512 then
    w.vrUr.value
  else
    (w.movedUh sn + 512) % 1024

/-- A key of the buffer once the PDU is placed. -/
def placed (w : UmWindow Pdu) (sn key : Nat) : Bool := w.count key || key == sn

/-- A key that is placed and lies inside the moved window. -/
def stays (w : UmWindow Pdu) (sn key : Nat) : Bool :=
  w.placed sn key && decide (position (w.movedUh sn) key < 512)

/-- Every key outside the moved window is smaller than every key inside. -/
def Drains (w : UmWindow Pdu) (sn : Nat) : Prop :=
  ∀ k j, w.placed sn k = true → w.placed sn j = true →
    512 ≤ position (w.movedUh sn) k → position (w.movedUh sn) j < 512 → k < j

structure Orderly (w : UmWindow Pdu) (sn : Nat) : Prop where
  drains : w.Drains sn
  /-- the keys from VR(UR) on do not go through 1023 to 0 -/
  scans : ¬((∀ key, w.movedUr sn ≤ key → key < 1024 → w.stays sn key = true) ∧ w.stays sn 0 = true)

/-! ## The invariant -/

/-- What is proved of every state: counters behind the state variables, and a
gap at VR(UR). -/
def Settled (w : UmWindow Pdu) : Prop :=
  ∃ r h, Counts w r h ∧ w.count (r % 1024) = false

variable {w : UmWindow Pdu}

theorem settled_valid (settled : Settled w) : WindowValid w := by
  obtain ⟨r, h, counts, missing⟩ := settled
  have order := counts.order
  have width := counts.width
  have edge (sn : Nat) : position w.vrUh.value sn = position h sn := by simp [position, counts.uh]
  have ur : position w.vrUh.value w.vrUr.value = r + 512 - h := by
    rw [edge, counts.ur]
    exact position_counter width (by omega)
  refine ⟨by omega, fun sn key => ⟨counts.key_lt key, ?_⟩, by rw [counts.ur]; exact missing⟩
  obtain ⟨k, hk, hk', rfl⟩ := mem_residues.mp (counts.within sn key)
  have at_ : position h (k % 1024) = k + 512 - h := position_counter (by omega) (by omega)
  rw [ur, edge, at_]
  omega

theorem create_settled : Settled (create : UmWindow Pdu) := ⟨0, 0, create_counts, rfl⟩

theorem expire_settled (settled : Settled w) (on : w.reorderingTimer = true) :
    Settled w.expireReorderingTimer.1 := by
  obtain ⟨r, h, counts, -⟩ := settled
  obtain ⟨r', -, -, -, -, counts', missing⟩ := expire_spec counts on
  exact ⟨r', h, counts', missing⟩

theorem movedUh_position {r h n : Nat} (counts : Counts w r h) (low : r ≤ n) (near : n < h + 512)
    (key : Nat) :
    position (w.movedUh (n % 1024)) key = position (max h (n + 1)) key := by
  have width := counts.width
  have there : position w.vrUh.value (n % 1024) = n + 512 - h := by
    rw [← position_counter (show h ≤ n + 512 by omega) near]
    simp [position, counts.uh]
  unfold movedUh
  rw [there]
  by_cases below : n < h
  · rw [if_pos (by omega), show max h (n + 1) = h by omega]
    simp [position, counts.uh]
  · have same : (n % 1024 + 1 + 512) % 1024 = (n + 1 + 512) % 1024 := by omega
    rw [if_neg (by omega), show max h (n + 1) = n + 1 by omega]
    simp [position, same]

theorem movedUr_eq {r h n : Nat} (counts : Counts w r h) (low : r ≤ n) (near : n < h + 512) :
    w.movedUr (n % 1024) = (if n < h then r else max r (n + 1 - 512)) % 1024 := by
  have order := counts.order
  have width := counts.width
  have there : position w.vrUh.value (n % 1024) = n + 512 - h := by
    rw [← position_counter (show h ≤ n + 512 by omega) near]
    simp [position, counts.uh]
  unfold movedUr
  rw [there, movedUh_position counts low near, counts.ur]
  by_cases below : n < h
  · rw [if_pos (.inl (by omega)), if_pos below]
  · rw [if_neg below, show max h (n + 1) = n + 1 by omega]
    by_cases fell : r + 512 < n + 1
    · have behind : position (n + 1) (r % 1024) = r + 1536 - (n + 1) :=
        position_below (by omega) fell
      have edge : w.movedUh (n % 1024) = n % 1024 + 1 := by
        unfold movedUh
        rw [there, if_neg (by omega)]
      rw [behind, if_neg (by omega), edge]
      omega
    · have ahead : position (n + 1) (r % 1024) = r + 512 - (n + 1) :=
        position_counter (by omega) (by omega)
      rw [ahead, if_pos (.inr (by omega)), show max r (n + 1 - 512) = r by omega]

theorem placed_eq (w : UmWindow Pdu) (sn key : Nat) (pdu : Pdu) :
    w.placed sn key = (Function.update w.rxBuffer sn (some pdu) key).isSome := by
  unfold placed count
  by_cases here : key = sn
  · simp [here]
  · rw [Function.update_of_ne here]
    simp [here]

theorem receive_settled (settled : Settled w) {sn : Nat} (small : sn < 1024)
    (orderly : w.accepts sn = true → Orderly w sn) (pdu : Pdu) :
    Settled (w.doReceivePdu sn pdu).1 := by
  obtain ⟨r, h, counts, missing⟩ := settled
  cases accepted : w.accepts sn with
  | false =>
    have rejected : w.doReceivePdu sn pdu = (w.rebaseForReceive, []) := by
      simp [doReceivePdu, accepted]
    rw [rejected]
    refine ⟨r, h, counts.rebased_counts, ?_⟩
    rw [counts.rebased]
    exact missing
  | true =>
    obtain ⟨drains, scans⟩ := orderly accepted
    obtain ⟨n, rfl, low, near⟩ := accepted_counter counts small accepted
    have order := counts.order
    have width := counts.width
    obtain ⟨lo, r', lo_eq, hr, hr', received, -, buffer, counts', gap⟩ :=
      receive_accepted counts low near accepted rfl (by
        intro above k j hk hj out inside
        rw [← placed_eq w _ _ pdu] at hk hj
        rw [show n + 1 = max h (n + 1) by omega, ← movedUh_position counts low near] at out inside
        exact drains k j hk hj out inside)
    have lo_bounds : r ≤ lo ∧ max h (n + 1) ≤ lo + 512 := by
      subst lo_eq
      split <;> omega
    refine ⟨r', max h (n + 1), counts', ?_⟩
    rw [count, buffer]
    rcases gap with empty | ⟨zero, key, more⟩
    · rw [empty]
      rfl
    · have stays_of (k : Nat) (hk : lo ≤ k) (hk' : k < max h (n + 1))
          (there : (Function.update w.rxBuffer (n % 1024) (some pdu) (k % 1024)).isSome = true) :
          w.stays (n % 1024) (k % 1024) = true := by
        have inside : position (max h (n + 1)) (k % 1024) = k + 512 - max h (n + 1) :=
          position_counter (by omega) (by omega)
        simp only [stays, placed_eq w _ _ pdu, there, movedUh_position counts low near, inside,
          Bool.true_and, decide_eq_true_eq]
        omega
      -- the scan went through 1023 and left 0 behind
      refine absurd ⟨fun v hv hv' => ?_, ?_⟩ scans
      · rw [movedUr_eq counts low near, ← lo_eq] at hv
        have counter : (lo - lo % 1024 + v) % 1024 = v := by omega
        rw [← counter]
        exact stays_of _ (by omega) (by omega) (received _ (by omega) (by omega))
      · have last : r' < max h (n + 1) := counts'.within.lt_of_isSome (by omega) (le_refl r')
          (by omega) (by rw [zero, buffer]; exact key)
        have stored :
            (Function.update w.rxBuffer (n % 1024) (some pdu) (r' % 1024)).isSome = true := by
          rwa [← zero, cleared_after (le_refl r') (show r' < r + 1024 by omega)] at key
        rw [← zero]
        exact stays_of r' hr last stored

/-- **Receive window.** After every step of a run whose accepted PDUs are
orderly the window is valid. -/
theorem reachable_window_valid {w : UmWindow Pdu}
    (run : Reachable (fun w sn => w.accepts sn = true → Orderly w sn) w) : WindowValid w := by
  apply settled_valid
  induction run with
  | start => exact create_settled
  | receive _ small ok pdu ih => exact receive_settled ih small ok pdu
  | expire _ on ih => exact expire_settled ih on

theorem first_orderly : Orderly (create : UmWindow Nat) 0 where
  drains k j hk _ out _ := by
    obtain rfl : k = 0 := by simpa [placed, count, create] using hk
    exact absurd out (by decide)
  scans run := absurd (run.1 1 (by decide) (by decide)) (by decide)

/-- The first PDU leaves a valid window behind. -/
theorem first_window_valid : ((create : UmWindow Nat).doReceivePdu 0 7).1.vrUr.value = 1 ∧
      WindowValid ((create : UmWindow Nat).doReceivePdu 0 7).1 :=
  ⟨by decide +kernel,
    reachable_window_valid (.receive .start (by decide) (fun _ => first_orderly) 7)⟩

/-- Number 1022 falls out of the window as 0 is inside, and the walk stops at 0. -/
theorem key_left_behind : ¬ ∀ w : UmWindow Nat, Reachable (fun _ _ => True) w → WindowValid w := by
  intro valid
  have first := (@Reachable.start Nat fun _ _ => True).receive (show 511 < 1024 by decide) trivial 7
  have second := first.receive (show 1022 < 1024 by decide) trivial 8
  have third := second.receive (show 0 < 1024 by decide) trivial 9
  have run := third.receive (show 511 < 1024 by decide) trivial 10
  have inside := (valid _ run).keys 1022 (by decide +kernel)
  exact absurd inside (by decide +kernel)

end Ns3.Rlc.UmWindow

/-!
## The receiving side of `LteRlcUm`

The receive window with `ReassembleAndDeliver` behind it. `none` is a failed
read or fragment, which no PDU of a transmitting side leads to.
-/

namespace Ns3.Rlc

open Framing CircularBuffer List

structure UmReceiver where
  window : UmWindow Packet
  reassembly : Reassembly

namespace UmReceiver

def create : UmReceiver := ⟨UmWindow.create, Reassembly.create⟩

/-- `ReassembleAndDeliver` for each PDU that leaves the window. -/
def reassemble (r : UmReceiver) (w : UmWindow Packet × List Packet) :
    Option (UmReceiver × List Packet) := do
  let (reassembly, delivered) ← Machine.run Reassembly.reassembleAndDeliver r.reassembly w.2
  return (⟨w.1, reassembly⟩, delivered)

/-- With the packets handed to `ReceivePdcpPdu`. -/
def doReceivePdu (r : UmReceiver) (p : Packet) : Option (UmReceiver × List Packet) := do
  let rlcHeader ← LteRlcHeader.deserialize p
  r.reassemble (r.window.doReceivePdu rlcHeader.sequenceNumber.value p)

def expireReorderingTimer (r : UmReceiver) : Option (UmReceiver × List Packet) :=
  r.reassemble r.window.expireReorderingTimer

end UmReceiver

/-! ## Reassembly of a stream -/

variable {frames : List (Frame UInt8)} {e e' n : Nat}

/-- The reassembly has come to frame `e`, and keeps nothing but what is open
there. -/
structure Comes (frames : List (Frame UInt8)) (e : Nat) (kept : Option Packet) (r : Reassembly) :
    Prop where
  state : r.reassemblingState = stateOf kept
  empty : r.sdusBuffer = []
  expected : r.expectedSeqNumber.value = e % 1024
  keeps : kept = none ∨ kept = openAfter none (frames.take e)

theorem create_comes (frames : List (Frame UInt8)) : Comes frames 0 none Reassembly.create :=
  ⟨rfl, rfl, rfl, .inl rfl⟩

theorem encode_value (n : Nat) : (numbered 0 n).value < 1024 := Nat.mod_lt n (by decide)

/-- A frame of the stream, the next one or one after fewer than 512 lost. What
is delivered are SDUs that end in it, and all of these if none was lost. -/
theorem Comes.step {kept : Option Packet} {r : Reassembly} (comes : Comes frames e kept r)
    (stream : IsStream frames) {k : Nat} {f : Frame UInt8} (at_ : frames[k]? = some f)
    (from_ : e ≤ k) (near : k < e + 512) :
    ∃ kept' r' out, r.reassembleAndDeliver (encode (numbered 0 k) f) = some (r', out) ∧
      Comes frames (k + 1) kept' r' ∧ out ⊆ f.ended (openAfter none (frames.take k)) ∧
      (k = e → kept = openAfter none (frames.take e) →
        out = f.ended (openAfter none (frames.take k)) ∧
          kept' = openAfter none (frames.take (k + 1))) := by
  obtain ⟨state, sdusBuffer, expected⟩ := r
  obtain ⟨state_eq, empty, number, keeps⟩ := comes
  subst state_eq empty
  have fits := stream.order.startsMid at_
  have next : openAfter none (frames.take (k + 1)) = f.left (openAfter none (frames.take k)) :=
    openAfter_take_succ at_
  have same : (numbered 0 k).value = expected.value ↔ k = e := by
    rw [numbered_value, number]
    exact ⟨fun same => Circular.eq_of_residue same (by omega) (by omega), fun same => by rw [same]⟩
  have goesOn : (numbered 0 k).value = expected.value → kept.isSome = true →
      f.startsMid = true := by
    intro here some_
    obtain rfl := same.mp here
    rcases keeps with rfl | rfl
    · exact absurd some_ (by simp)
    · rw [fits, some_]
  obtain ⟨expected', value, done⟩ := Reassembly.reassemble_encode
    (stream.encodable f (mem_of_getElem? at_)) (encode_value k) goesOn
  generalize seen_eq : (if (numbered 0 k).value = expected.value then kept else none) = seen at done
  have seen_keeps : seen = none ∨ seen = openAfter none (frames.take k) := by
    subst seen_eq
    split
    · rename_i here
      rw [same.mp here]
      exact keeps
    · exact .inl rfl
  obtain ⟨sound, keeps'⟩ := Frame.sound fits seen_keeps
  refine ⟨_, _, _, done, ⟨rfl, rfl, ?_, ?_⟩, sound, ?_⟩
  · rw [value, numbered_value]
    omega
  · rwa [next]
  · rintro here rfl
    rw [if_pos (same.mpr here), ← here] at seen_eq
    subst seen_eq
    rw [next]
    exact ⟨Frame.delivered_kept fits, Frame.keeps_kept fits⟩

/-- The frames `ks` lie from `e` up to `e'`, with fewer than 512 between two. -/
def Spaced : Nat → List Nat → Nat → Prop
  | e, [], e' => e = e'
  | e, k :: ks, e' => e ≤ k ∧ k < e + 512 ∧ Spaced (k + 1) ks e'

theorem Spaced.append {ks ls : List Nat} {mid : Nat} (first : Spaced e ks mid)
    (second : Spaced mid ls e') : Spaced e (ks ++ ls) e' := by
  induction ks generalizing e with
  | nil =>
    obtain rfl : e = mid := first
    exact second
  | cons k ks ih => exact ⟨first.1, first.2.1, ih first.2.2⟩

theorem Spaced.split {ks ls : List Nat} (spaced : Spaced e (ks ++ ls) e') :
    ∃ mid, Spaced e ks mid ∧ Spaced mid ls e' := by
  induction ks generalizing e with
  | nil => exact ⟨e, rfl, spaced⟩
  | cons k ks ih =>
    obtain ⟨mid, first, second⟩ := ih spaced.2.2
    exact ⟨mid, ⟨spaced.1, spaced.2.1, first⟩, second⟩

/-- The PDU of frame `k`. -/
def pduAt (frames : List (Frame UInt8)) (k : Nat) : Packet :=
  ((frames[k]?).map fun f => encode (numbered 0 k) f).getD []

theorem pduAt_eq {k : Nat} {f : Frame UInt8} (at_ : frames[k]? = some f) :
    pduAt frames k = encode (numbered 0 k) f := by simp [pduAt, at_]

/-- Frames of the stream, with losses: nothing but SDUs that end in it. -/
theorem Comes.run {kept : Option Packet} {r : Reassembly} (comes : Comes frames e kept r)
    (stream : IsStream frames) {ks : List Nat} (spaced : Spaced e ks e')
    (sent : ∀ k ∈ ks, k < frames.length) :
    ∃ kept' r' out, Machine.run Reassembly.reassembleAndDeliver r (ks.map (pduAt frames)) =
        some (r', out) ∧ Comes frames e' kept' r' ∧ out ⊆ items none frames := by
  induction ks generalizing e kept r with
  | nil =>
    obtain rfl : e = e' := spaced
    exact ⟨kept, r, [], rfl, comes, nil_subset _⟩
  | cons k ks ih =>
    obtain ⟨from_, near, later⟩ := spaced
    have here := sent k (mem_cons_self ..)
    have at_ : frames[k]? = some frames[k] := getElem?_eq_getElem here
    obtain ⟨kept₁, r₁, first, head, comes₁, sub, -⟩ := comes.step stream at_ from_ near
    obtain ⟨kept', r', rest, done, comes', sub'⟩ :=
      ih comes₁ later fun l mem => sent l (mem_cons_of_mem _ mem)
    rw [← pduAt_eq at_] at head
    exact ⟨kept', r', first ++ rest, Machine.run_of_step head done, comes',
      append_subset.mpr ⟨Subset.trans sub (ended_subset_items at_), sub'⟩⟩

/-! ## The window over a stream -/

namespace UmReceiver

/-- The receiving side has been given frames up to `next`, some of which are
still in the reception buffer. -/
structure Follows (frames : List (Frame UInt8)) (next : Nat) (r : UmReceiver) : Prop where
  held : ∃ lo ks e kept, UmWindow.Counts r.window lo next ∧
    pending 1024 r.window.rxBuffer lo next = ks.map (pduAt frames) ∧ Spaced e ks next ∧
    (∀ k ∈ ks, k < frames.length) ∧ Comes frames e kept r.reassembly

variable {next : Nat} {r : UmReceiver}

theorem create_follows (frames : List (Frame UInt8)) : Follows frames 0 create :=
  ⟨0, [], 0, none, UmWindow.create_counts, rfl, rfl, by simp, create_comes frames⟩

section

variable (stream : IsStream frames)
include stream

theorem reassemble_follows {w : UmWindow Packet} {out : List Packet}
    {lo e : Nat} {ks : List Nat} {kept : Option Packet} (counts : UmWindow.Counts w lo next)
    (order : out ++ pending 1024 w.rxBuffer lo next = ks.map (pduAt frames))
    (spaced : Spaced e ks next) (sent : ∀ k ∈ ks, k < frames.length)
    (comes : Comes frames e kept r.reassembly) :
    ∃ r' delivered, r.reassemble (w, out) = some (r', delivered) ∧ Follows frames next r' ∧
      delivered ⊆ items none frames := by
  obtain ⟨first, second, rfl, out_eq, rest_eq⟩ := map_eq_append_iff.mp order.symm
  obtain ⟨mid, spaced₁, spaced₂⟩ := spaced.split
  obtain ⟨kept', reassembly, delivered, done, comes', sub⟩ :=
    comes.run stream spaced₁ fun k mem => sent k (mem_append_left _ mem)
  refine ⟨⟨w, reassembly⟩, delivered, ?_, ⟨lo, second, mid, kept', counts, rest_eq.symm, spaced₂,
    fun k mem => sent k (mem_append_right _ mem), comes'⟩, sub⟩
  rw [out_eq] at done
  simp only [reassemble, done]
  rfl

theorem deserialize_pduAt {k : Nat} (sent : k < frames.length) :
    ∃ rlcHeader, LteRlcHeader.deserialize (pduAt frames k) = some rlcHeader ∧
      rlcHeader.sequenceNumber.value = k % 1024 := by
  have at_ : frames[k]? = some frames[k] := getElem?_eq_getElem sent
  have encodable := stream.encodable _ (mem_of_getElem? at_)
  rw [pduAt_eq at_]
  refine ⟨_, LteRlcHeader.deserialize_serialize (framingOf_lt _) (encode_value k) encodable.small _,
    ?_⟩
  simp [LteRlcHeader.built, SequenceNumber10.ofNat]

/-- **Reception.** Of a stream with fewer than 512 PDUs lost in a row the
receiving side delivers nothing but SDUs that end in it, if each PDU leaves no
key behind. -/
theorem receive_follows (follows : Follows frames next r) {k : Nat}
    (from_ : next ≤ k) (near : k < next + 512) (sent : k < frames.length)
    (drains : r.window.Drains (k % 1024)) :
    ∃ r' delivered, r.doReceivePdu (pduAt frames k) = some (r', delivered) ∧
      Follows frames (k + 1) r' ∧ delivered ⊆ items none frames := by
  obtain ⟨lo, ks, e, kept, counts, held, spaced, sent', comes⟩ := follows
  have order := counts.order
  have width := counts.width
  obtain ⟨rlcHeader, parsed, number⟩ := deserialize_pduAt stream sent
  have accepted : r.window.accepts (k % 1024) = true := by
    rw [UmWindow.accepts_eq counts (Nat.mod_lt k (by decide)),
      position_counter (show next ≤ k + 512 by omega) near, decide_eq_true_eq]
    omega
  obtain ⟨lo', r', lo'_eq, above, below, -, out, buffer, counts', -⟩ :=
    UmWindow.receive_accepted counts (by omega) near accepted
      (rfl : Function.update r.window.rxBuffer (k % 1024) (some (pduAt frames k)) = _) (by
      intro above i j hi hj outside inside
      rw [← UmWindow.placed_eq r.window _ _ (pduAt frames k)] at hi hj
      rw [show k + 1 = max next (k + 1) by omega,
        ← UmWindow.movedUh_position counts (by omega) near] at outside inside
      exact drains i j hi hj outside inside)
  have top : max next (k + 1) = k + 1 := by omega
  rw [top] at below counts'
  rw [if_neg (not_lt.mpr from_)] at lo'_eq
  have order' : (r.window.doReceivePdu (k % 1024) (pduAt frames k)).2 ++
      pending 1024 (r.window.doReceivePdu (k % 1024) (pduAt frames k)).1.rxBuffer r' (k + 1) =
        (ks ++ [k]).map (pduAt frames) := by
    rw [out, buffer, pending_cleared (show lo ≤ r' by omega) below (by omega),
      counts.within.pending_append _ order from_ (by omega), held, map_append]
    rfl
  have spaced' : Spaced e (ks ++ [k]) (k + 1) := spaced.append ⟨from_, near, rfl⟩
  have all : ∀ l ∈ ks ++ [k], l < frames.length := by
    intro l mem
    rcases mem_append.mp mem with mem | mem
    · exact sent' l mem
    · rwa [mem_singleton.mp mem]
  obtain ⟨r'', delivered, done, follows', sub⟩ :=
    reassemble_follows stream counts' order' spaced' all comes
  refine ⟨r'', delivered, ?_, follows', sub⟩
  rw [doReceivePdu, parsed]
  simp only [Option.bind_eq_bind, Option.bind_some, number]
  exact done

theorem expire_follows (follows : Follows frames next r) (on : r.window.reorderingTimer = true) :
    ∃ r' delivered, r.expireReorderingTimer = some (r', delivered) ∧ Follows frames next r' ∧
      delivered ⊆ items none frames := by
  obtain ⟨lo, ks, e, kept, counts, held, spaced, sent, comes⟩ := follows
  have width := counts.width
  obtain ⟨r', ahead, below, out, buffer, counts', -⟩ := UmWindow.expire_spec counts on
  have order' : r.window.expireReorderingTimer.2 ++
      pending 1024 r.window.expireReorderingTimer.1.rxBuffer r' next = ks.map (pduAt frames) := by
    rw [out, buffer, pending_cleared ahead.le below (by omega), held]
  exact reassemble_follows stream counts' order' spaced sent comes

end

end UmReceiver

end Ns3.Rlc
