import Mathlib
import Ns3.Library.CircularBuffer
import Ns3.Rlc.AmTransmitter

/-!
# The counters behind the transmitting side of `LteRlcAm`

`Counts t a s`: VT(A) and VT(S) stand for counters `a` and `s`, and the two
buffers hold PDUs from `a` up to `s`, none of them both. Each operation has one
lemma that says all it can do.
-/

namespace Ns3.Rlc.AmTransmitter

open SequenceNumber10 CircularBuffer Framing

variable {t t' : AmTransmitter} {a s n m : Nat}

structure Counts (t : AmTransmitter) (a s : Nat) : Prop where
  vtA : t.vtA = numbered a a
  vtMs : t.vtMs = numbered a (a + 512)
  vtS : t.vtS = numbered a s
  a_le_s : a ≤ s
  s_le_ms : s ≤ a + 512
  txed : Within 1024 t.txedBuffer a s
  retx : Within 1024 t.retxBuffer a s
  apart : ∀ key, t.txedBuffer key = none ∨ t.retxBuffer key = none
  noPdu : t.pduWithoutPoll = 0

theorem create_counts : Counts create 0 0 where
  vtA := rfl
  vtMs := rfl
  vtS := rfl
  a_le_s := le_refl 0
  s_le_ms := Nat.zero_le _
  txed := fun key some => by simp [create] at some
  retx := fun key some => by simp [create] at some
  apart := fun key => .inl rfl
  noPdu := rfl

/-- The PDU with this sequence number is in one of the two buffers. -/
def stores (t : AmTransmitter) (sn : Nat) : Bool :=
  (t.txedBuffer sn).isSome || (t.retxBuffer sn).isSome

/-! ## Byte counters -/

/-- The byte counters of the two buffers are right, with no overflow. -/
structure Sized (t : AmTransmitter) : Prop where
  txed : t.txedBufferSize = weight AmdPdu.size 1024 t.txedBuffer
  retx : t.retxBufferSize = weight AmdPdu.size 1024 t.retxBuffer
  small : t.txedBufferSize + t.retxBufferSize < 2 ^ 32

variable {sn : Nat} {pdu : AmdPdu}

theorem Sized.dropTxed (sized : Sized t) (here : sn < 1024) (stored : t.txedBuffer sn = some pdu) :
    Sized (t.dropTxed sn pdu) := by
  obtain ⟨txed, retx, small⟩ := sized
  have left := weight_erase AmdPdu.size here stored
  rw [← txed] at left
  have less := sub32_eq left (by omega)
  refine ⟨less, retx, ?_⟩
  simp only [AmTransmitter.dropTxed]
  omega

theorem Sized.dropRetx (sized : Sized t) (here : sn < 1024) (stored : t.retxBuffer sn = some pdu) :
    Sized (t.dropRetx sn pdu) := by
  obtain ⟨txed, retx, small⟩ := sized
  have left := weight_erase AmdPdu.size here stored
  rw [← retx] at left
  have less := sub32_eq left (by omega)
  refine ⟨txed, less, ?_⟩
  simp only [AmTransmitter.dropRetx]
  omega

theorem Sized.moveToRetx (sized : Sized t) (here : sn < 1024)
    (stored : t.txedBuffer sn = some pdu) (free : t.retxBuffer sn = none) :
    Sized (t.moveToRetx sn pdu) := by
  obtain ⟨txed, retx, small⟩ := sized
  have left := weight_erase AmdPdu.size here stored
  have more := weight_insert AmdPdu.size here free pdu
  rw [← txed] at left
  rw [← retx] at more
  have less := sub32_eq left (by omega)
  have sum : add32 t.retxBufferSize pdu.size = t.retxBufferSize + pdu.size := add32_eq (by omega)
  refine ⟨less, sum.trans more.symm, ?_⟩
  simp only [AmTransmitter.moveToRetx]
  omega

/-! ## Settling the PDUs from `n` up to `m` -/

/-- The retransmission buffer once the PDUs from `n` up to `m` are reported on. -/
def reported (nacked : Nat → Bool) (t : AmTransmitter) (n m : Nat) : Nat → Option AmdPdu :=
  fun key =>
    if key ∈ residues 1024 n m then
      if nacked key then (t.txedBuffer key).or (t.retxBuffer key) else none
    else
      t.retxBuffer key

/-- The PDUs from `n` up to `m` go to the retransmission buffer if they are
NACKed, and nowhere else. -/
structure Settles (nacked : Nat → Bool) (n m : Nat) (t t' : AmTransmitter) : Prop where
  txed : t'.txedBuffer = cleared 1024 t.txedBuffer n m
  retx : t'.retxBuffer = reported nacked t n m
  txon : t'.txonBuffer = t.txonBuffer ∧ t'.txonBufferSize = t.txonBufferSize
  poll : t'.pollSn = t.pollSn ∧ t'.pduWithoutPoll = t.pduWithoutPoll ∧
    t'.pollRetransmitTimerJustExpired = t.pollRetransmitTimerJustExpired
  sized : Sized t → Sized t'

/-- The same of one PDU. -/
structure SettlesOne (nacked : Bool) (sn : Nat) (t t' : AmTransmitter) : Prop where
  txed : t'.txedBuffer = Function.update t.txedBuffer sn none
  retx : t'.retxBuffer = Function.update t.retxBuffer sn
    (if nacked then (t.txedBuffer sn).or (t.retxBuffer sn) else none)
  txon : t'.txonBuffer = t.txonBuffer ∧ t'.txonBufferSize = t.txonBufferSize
  poll : t'.pollSn = t.pollSn ∧ t'.pduWithoutPoll = t.pduWithoutPoll ∧
    t'.pollRetransmitTimerJustExpired = t.pollRetransmitTimerJustExpired
  sized : Sized t → Sized t'

/-- The window and the timer are the same. -/
structure SameWindow (t t' : AmTransmitter) : Prop where
  vtA : t'.vtA = t.vtA
  vtMs : t'.vtMs = t.vtMs
  vtS : t'.vtS = t.vtS
  timer : t'.pollRetransmitTimer = t.pollRetransmitTimer

theorem update_none {α : Type} {buf : Nat → Option α} (free : buf sn = none) :
    Function.update buf sn none = buf := by simp [← free]

theorem nack_settles (here : sn < 1024) (apart : t.txedBuffer sn = none ∨ t.retxBuffer sn = none)
    (stored : t.stores sn = true) : 
    ∃ t', t.nack sn = some t' ∧ SettlesOne true sn t t' ∧ SameWindow t t' := by
  unfold nack
  cases sent : t.txedBuffer sn with
  | some pdu =>
    have free : t.retxBuffer sn = none := apart.resolve_left (by simp [sent])
    refine ⟨t.moveToRetx sn pdu, by simp [moveToRetx], ?_⟩
    exact ⟨⟨rfl, by simp [moveToRetx, sent], ⟨rfl, rfl⟩, ⟨rfl, rfl, rfl⟩,
      fun sized => sized.moveToRetx here sent free⟩, rfl, rfl, rfl, rfl⟩
  | none =>
    have waits : (t.retxBuffer sn).isSome = true := by simpa [stores, sent] using stored
    refine ⟨t, by simp [waits], ?_⟩
    exact ⟨⟨(update_none sent).symm, by simp [sent], ⟨rfl, rfl⟩, ⟨rfl, rfl, rfl⟩, id⟩,
      rfl, rfl, rfl, rfl⟩

theorem ack_settles (here : sn < 1024) (apart : t.txedBuffer sn = none ∨ t.retxBuffer sn = none) :
    ∃ t', t.ack sn = some t' ∧ SettlesOne false sn t t' ∧ SameWindow t t' := by
  unfold ack
  cases sent : t.txedBuffer sn with
  | some pdu =>
    have free : t.retxBuffer sn = none := apart.resolve_left (by simp [sent])
    refine ⟨t.dropTxed sn pdu, by simp [dropTxed, free], ?_⟩
    exact ⟨⟨rfl, (update_none free).symm, ⟨rfl, rfl⟩, ⟨rfl, rfl, rfl⟩,
      fun sized => sized.dropTxed here sent⟩, rfl, rfl, rfl, rfl⟩
  | none =>
    cases waits : t.retxBuffer sn with
    | some pdu =>
      refine ⟨t.dropRetx sn pdu, by simp [waits], ?_⟩
      exact ⟨⟨(update_none sent).symm, rfl, ⟨rfl, rfl⟩, ⟨rfl, rfl, rfl⟩,
        fun sized => sized.dropRetx here waits⟩, rfl, rfl, rfl, rfl⟩
    | none =>
      refine ⟨t, by simp [waits], ?_⟩
      exact ⟨⟨(update_none sent).symm, (update_none waits).symm, ⟨rfl, rfl⟩, ⟨rfl, rfl, rfl⟩, id⟩,
        rfl, rfl, rfl, rfl⟩

theorem Settles.refl (nacked : Nat → Bool) (n : Nat) (t : AmTransmitter) : Settles nacked n n t t :=
  ⟨cleared_self.symm, funext fun key => by simp [reported, residues], ⟨rfl, rfl⟩,
    ⟨rfl, rfl, rfl⟩, id⟩

theorem Settles.step {nacked : Nat → Bool} {mid : AmTransmitter} (order : n < m)
    (width : m ≤ n + 1024) (first : SettlesOne (nacked (n % 1024)) (n % 1024) t mid)
    (rest : Settles nacked (n + 1) m mid t') : Settles nacked n m t t' := by
  refine ⟨?_, ?_, ⟨rest.txon.1.trans first.txon.1, rest.txon.2.trans first.txon.2⟩,
    ⟨rest.poll.1.trans first.poll.1, rest.poll.2.1.trans first.poll.2.1,
      rest.poll.2.2.trans first.poll.2.2⟩, fun sized => rest.sized (first.sized sized)⟩
  · rw [rest.txed, first.txed, cleared_step order]
  · have split (key : Nat) : key ∈ residues 1024 n m ↔
        key = n % 1024 ∨ key ∈ residues 1024 (n + 1) m := by simp [residues, range'_step order]
    have apart : n % 1024 ∉ residues 1024 (n + 1) m := by
      intro mem
      obtain ⟨k, hk, hk', same⟩ := mem_residues.mp mem
      have := Circular.eq_of_residue same (by omega) (by omega)
      omega
    rw [rest.retx]
    funext key
    unfold reported
    by_cases head : key = n % 1024
    · rw [head, if_neg apart, if_pos ((split _).mpr (.inl rfl)), first.retx, Function.update_self]
    · rw [first.txed, first.retx, Function.update_of_ne head, Function.update_of_ne head]
      by_cases later : key ∈ residues 1024 (n + 1) m
      · rw [if_pos later, if_pos ((split _).mpr (.inr later))]
      · rw [if_neg later, if_neg fun mem => ((split _).mp mem).elim head later]

/-! ## `DoReceivePdu` of a STATUS PDU -/

theorem stopPoll_eq (t : AmTransmitter) (sn : Nat) : t.stopPoll sn =
    { t with pollRetransmitTimer := t.pollRetransmitTimer && !(sn == t.pollSn.value) } := by
  unfold stopPoll
  cases on : t.pollRetransmitTimer with
  | false =>
    simp only [Bool.false_and, Bool.false_eq_true, ↓reduceIte]
    rw [← on]
  | true =>
    cases here : sn == t.pollSn.value with
    | true => simp
    | false =>
      simp only [Bool.and_false, Bool.false_eq_true, ↓reduceIte, Bool.not_false, Bool.and_true]
      rw [← on]

/-- Where the loop leaves VT(A): at the first NACKed PDU, if it is still going
on. -/
def Moves (nackSnList : List Nat) (incrementVtA : Bool) (a n m a' : Nat) : Prop :=
  if incrementVtA then
    n ≤ a' ∧ a' ≤ m ∧ (∀ k, n ≤ k → k < a' → nackSnList.contains (k % 1024) = false) ∧
      (a' < m → nackSnList.contains (a' % 1024) = true)
  else
    a' = a

/-- What the loop does from PDU `n` up to PDU `m`. -/
structure Acknowledges (nackSnList : List Nat) (incrementVtA : Bool) (s a n m a' : Nat)
    (t t' : AmTransmitter) : Prop where
  settles : Settles nackSnList.contains n m t t'
  moves : Moves nackSnList incrementVtA a n m a'
  vtA : t'.vtA = numbered a' a'
  vtMs : t'.vtMs = numbered a' (a' + 512)
  vtS : t'.vtS = numbered a' s
  timer : t'.pollRetransmitTimer =
    (t.pollRetransmitTimer && !decide (t.pollSn.value ∈ residues 1024 n m))

theorem timer_step (on : Bool) (sn : Nat) (order : n < m) :
    (on && !(n % 1024 == sn) && !decide (sn ∈ residues 1024 (n + 1) m)) =
      (on && !decide (sn ∈ residues 1024 n m)) := by
  have split : sn ∈ residues 1024 n m ↔ n % 1024 = sn ∨ sn ∈ residues 1024 (n + 1) m := by
    simp [residues, range'_step order, eq_comm]
  rw [Bool.and_assoc]
  congr 1
  by_cases here : n % 1024 = sn <;> by_cases later : sn ∈ residues 1024 (n + 1) m <;>
    simp [split, here, later]

theorem SettlesOne.rewindow {nacked on : Bool} {mid : AmTransmitter}
    (one : SettlesOne nacked sn { t with pollRetransmitTimer := on } mid)
    (vtA vtMs vtS : SequenceNumber10) :
    SettlesOne nacked sn t { mid with vtA := vtA, vtMs := vtMs, vtS := vtS } := by
  refine ⟨one.txed, one.retx, one.txon, one.poll, fun sized => ?_⟩
  have after := one.sized ⟨sized.txed, sized.retx, sized.small⟩
  exact ⟨after.txed, after.retx, after.small⟩

theorem incrementVtA_eq (vtA : t.vtA = numbered n n) (vtS : t.vtS = numbered n s) :
    t.incrementVtA = { t with
      vtA := numbered (n + 1) (n + 1)
      vtMs := numbered (n + 1) (n + 1 + 512)
      vtS := numbered (n + 1) s } := by
  have edge : (numbered n (n + 1)).add windowSize = numbered n (n + 1 + 512) :=
    numbered_add n (n + 1) windowSize (by decide)
  unfold incrementVtA
  simp [vtA, vtS, edge]

/-- One round of the loop and then the others. -/
theorem Acknowledges.step {nackSnList : List Nat} {on incrementVtA going : Bool} {b a' : Nat}
    {mid after : AmTransmitter} (order : n < m) (width : m ≤ n + 1024)
    (one : SettlesOne (nackSnList.contains (n % 1024)) (n % 1024)
      { t with pollRetransmitTimer := on } mid)
    (on_eq : on = (t.pollRetransmitTimer && !(n % 1024 == t.pollSn.value)))
    (timer : mid.pollRetransmitTimer = on)
    (after_eq : after = { mid with vtA := after.vtA, vtMs := after.vtMs, vtS := after.vtS })
    (rest : Acknowledges nackSnList going s b (n + 1) m a' after t')
    (moves : Moves nackSnList incrementVtA a n m a') :
    Acknowledges nackSnList incrementVtA s a n m a' t t' := by
  have first := one.rewindow after.vtA after.vtMs after.vtS
  rw [← after_eq] at first
  have poll : after.pollSn = t.pollSn := first.poll.1
  have kept : after.pollRetransmitTimer = on := by
    rw [after_eq]
    exact timer
  refine ⟨rest.settles.step order width first, moves, rest.vtA, rest.vtMs, rest.vtS, ?_⟩
  rw [rest.timer, poll, kept, on_eq, timer_step _ _ order]

theorem acknowledge_spec {nackSnList : List Nat} {fuel k : Nat} {incrementVtA : Bool}
    (vtA : t.vtA = numbered a a) (vtMs : t.vtMs = numbered a (a + 512))
    (vtS : t.vtS = numbered a s) (a_le_n : a ≤ n) (going : incrementVtA = true → a = n)
    (m_eq : m = min k s) (n_le_m : n ≤ m) (k_lt : k < a + 1024) (s_lt : s < a + 1024)
    (enough : m < n + fuel)
    (apart : ∀ key, t.txedBuffer key = none ∨ t.retxBuffer key = none)
    (stored : ∀ j, n ≤ j → j < m → nackSnList.contains (j % 1024) = true →
      t.stores (j % 1024) = true) :
    ∃ t' a', acknowledge nackSnList fuel t (numbered a k) (numbered a n) incrementVtA = some t' ∧
      Acknowledges nackSnList incrementVtA s a n m a' t t' := by
  induction fuel generalizing t a n incrementVtA with
  | zero => omega
  | succ fuel ih =>
    unfold acknowledge
    rw [lt?_numbered a_le_n (by omega) (show a ≤ k by omega) k_lt, vtS,
      lt?_numbered a_le_n (by omega) (show a ≤ s by omega) s_lt]
    by_cases done : n = m
    · subst done
      refine ⟨t, a, ?_, Settles.refl _ n t, ?_, vtA, vtMs, vtS, ?_⟩
      · by_cases acked : n < k
        · have sent : ¬n < s := by omega
          simp [acked, sent]
        · simp [acked]
      · cases incrementVtA with
        | false => rfl
        | true =>
          obtain rfl := going rfl
          exact ⟨le_refl a, le_refl a, fun k hk hk' => by omega, fun h => by omega⟩
      · simp [residues]
    · have order : n < m := by omega
      have ahead : n < k := by omega
      have inside : n < s := by omega
      have here : n % 1024 < 1024 := Nat.mod_lt n (by decide)
      simp only [ahead, inside, numbered_value, stopPoll_eq]
      generalize on_eq : (t.pollRetransmitTimer && !(n % 1024 == t.pollSn.value)) = on
      have off (j : Nat) (hj : n + 1 ≤ j) (hj' : j < m) : j % 1024 ≠ n % 1024 := by
        intro same
        have := Circular.eq_of_residue same (by omega) (by omega)
        omega
      have apart' {mid : AmTransmitter} {nacked : Bool}
          (one : SettlesOne nacked (n % 1024) { t with pollRetransmitTimer := on } mid) :
          ∀ key, mid.txedBuffer key = none ∨ mid.retxBuffer key = none := by
        intro key
        rw [one.txed, one.retx]
        by_cases head : key = n % 1024
        · rw [head, Function.update_self]
          exact .inl rfl
        · rw [Function.update_of_ne head, Function.update_of_ne head]
          exact apart key
      have stored' {mid : AmTransmitter} {nacked : Bool}
          (one : SettlesOne nacked (n % 1024) { t with pollRetransmitTimer := on } mid) :
          ∀ j, n + 1 ≤ j → j < m → nackSnList.contains (j % 1024) = true →
            mid.stores (j % 1024) = true := by
        intro j hj hj' missing
        unfold stores
        rw [one.txed, one.retx, Function.update_of_ne (off j hj hj'),
          Function.update_of_ne (off j hj hj')]
        exact stored j (by omega) hj' missing
      cases missing : nackSnList.contains (n % 1024) with
      | true =>
        obtain ⟨mid, done, one, same⟩ := nack_settles (t := { t with pollRetransmitTimer := on })
          here (apart _) (stored n (le_refl n) order missing)
        obtain ⟨t', a', rest, acks⟩ := ih (t := mid) (a := a) (n := n + 1)
          (same.vtA.trans vtA) (same.vtMs.trans vtMs) (same.vtS.trans vtS) (by omega)
          (fun stopped => absurd stopped Bool.false_ne_true) (by omega) k_lt s_lt (by omega)
          (apart' one) (stored' one)
        rw [← missing] at one
        refine ⟨t', a', ?_,
          Acknowledges.step order (by omega) one on_eq.symm same.timer rfl acks ?_⟩
        · simpa [done] using rest
        · obtain rfl : a' = a := acks.moves
          cases incrementVtA with
          | false => rfl
          | true =>
            obtain rfl := going rfl
            exact ⟨le_rfl, n_le_m, fun k hk hk' => by omega, fun _ => missing⟩
      | false =>
        obtain ⟨mid, done, one, same⟩ := ack_settles (t := { t with pollRetransmitTimer := on })
          here (apart _)
        have vtA' : mid.vtA = numbered a a := same.vtA.trans vtA
        have vtS' : mid.vtS = numbered a s := same.vtS.trans vtS
        cases incrementVtA with
        | false =>
          obtain ⟨t', a', rest, acks⟩ := ih (t := mid) (a := a) (n := n + 1)
            vtA' (same.vtMs.trans vtMs) vtS' (by omega)
            (fun stopped => absurd stopped Bool.false_ne_true) (by omega) k_lt s_lt (by omega)
            (apart' one) (stored' one)
          rw [← missing] at one
          refine ⟨t', a', ?_, Acknowledges.step order (by omega) one on_eq.symm same.timer rfl acks
            acks.moves⟩
          simpa [done] using rest
        | true =>
          obtain rfl := going rfl
          have moved := incrementVtA_eq vtA' vtS'
          have apartMid := apart' one
          have storedMid := stored' one
          obtain ⟨t', a', rest, acks⟩ := ih (t := mid.incrementVtA) (a := a + 1) (n := a + 1)
            (by rw [moved]) (by rw [moved]) (by rw [moved])
            le_rfl (fun _ : true = true => rfl) (by omega) (by omega) (by omega) (by omega)
            (by rw [moved]; exact apartMid) (by rw [moved]; exact storedMid)
          rw [← missing] at one
          refine ⟨t', a', ?_, Acknowledges.step order (by omega) one on_eq.symm same.timer
            (by rw [moved]) acks ?_⟩
          · simpa [done, moved] using rest
          · obtain ⟨low, high, passed, stops⟩ := acks.moves
            refine ⟨by omega, high, fun k hk hk' => ?_, stops⟩
            by_cases first : k = a
            · rw [first, missing]
            · exact passed k (by omega) hk'

/-- **STATUS.** The PDUs before ACK_SN are settled if those NACKed are stored.
An ACK_SN behind VT(A) counts as one after VT(S). -/
theorem receiveStatus_spec (counts : Counts t a s) {pdu : StatusPdu} {k : Nat}
    (ackSn : pdu.ackSn = k % 1024) (a_le_k : a ≤ k) (k_lt : k < a + 1024)
    (stored : ∀ j, a ≤ j → j < min k s → pdu.nackSnList.contains (j % 1024) = true →
      t.stores (j % 1024) = true) :
    ∃ t' a', t.doReceiveStatus pdu = some t' ∧
      Acknowledges pdu.nackSnList true s a a (min k s) a' t t' := by
  have a_le_s := counts.a_le_s
  have s_le_ms := counts.s_le_ms
  have rebased : { t with
      vtA := t.vtA.setModulusBase t.vtA
      vtS := t.vtS.setModulusBase t.vtA
      vtMs := t.vtMs.setModulusBase t.vtA } = t := by
    rw [counts.vtA, counts.vtS, counts.vtMs]
    simp only [numbered_setModulusBase]
    rw [← counts.vtA, ← counts.vtS, ← counts.vtMs]
  have number : (ofNat pdu.ackSn).setModulusBase (numbered a a) = numbered a k := by
    rw [ackSn]
    simp [ofNat, setModulusBase, numbered]
  have loop : t.doReceiveStatus pdu =
      acknowledge pdu.nackSnList 1024 t (numbered a k) (numbered a a) true := by
    unfold doReceiveStatus
    rw [rebased]
    simp [counts.vtA, number]
  rw [loop]
  exact acknowledge_spec counts.vtA counts.vtMs counts.vtS (le_refl a) (fun _ => rfl) rfl
    (by omega) k_lt (by omega) (by omega) counts.apart stored

theorem Settles.counts {nacked : Nat → Bool} {a' : Nat} (settles : Settles nacked a m t t')
    (counts : Counts t a s) (a_le_a' : a ≤ a') (a'_le_m : a' ≤ m) (m_le_s : m ≤ s)
    (passed : ∀ k, a ≤ k → k < a' → nacked (k % 1024) = false) (vtA : t'.vtA = numbered a' a')
    (vtMs : t'.vtMs = numbered a' (a' + 512)) (vtS : t'.vtS = numbered a' s) :
    Counts t' a' s := by
  have s_le_ms := counts.s_le_ms
  refine ⟨vtA, vtMs, vtS, by omega, by omega, ?_, ?_, ?_, settles.poll.2.1.trans counts.noPdu⟩
  · rw [settles.txed]
    exact counts.txed.cleared.mono a'_le_m (le_refl s)
  · intro key some
    rw [settles.retx] at some
    unfold reported at some
    split at some
    · rename_i mem
      obtain ⟨k, hk, hk', rfl⟩ := mem_residues.mp mem
      split at some
      · rename_i missing
        refine mem_residues.mpr ⟨k, ?_, by omega, rfl⟩
        apply Nat.le_of_not_lt
        intro early
        rw [passed k hk early] at missing
        exact absurd missing (by simp)
      · exact absurd some (by simp)
    · rename_i outside
      obtain ⟨k, hk, hk', rfl⟩ := mem_residues.mp (counts.retx key some)
      refine mem_residues.mpr ⟨k, ?_, hk', rfl⟩
      apply Nat.le_of_not_lt
      intro early
      exact outside (mem_residues.mpr ⟨k, hk, by omega, rfl⟩)
  · intro key
    rw [settles.txed, settles.retx]
    unfold cleared reported
    by_cases mem : key ∈ residues 1024 a m
    · rw [if_pos mem]
      exact .inl rfl
    · rw [if_neg mem, if_neg mem]
      exact counts.apart key

/-! ## `ExpirePollRetransmitTimer` -/

theorem moveAllToRetx_spec {fuel : Nat} (vtS : t.vtS = numbered a s) (a_le_n : a ≤ n)
    (n_le_s : n ≤ s) (s_lt : s < a + 1024) (enough : s < n + fuel)
    (apart : ∀ key, t.txedBuffer key = none ∨ t.retxBuffer key = none) :
    ∃ t', moveAllToRetx fuel t (numbered a n) = some t' ∧ Settles (fun _ => true) n s t t' ∧
      SameWindow t t' := by
  induction fuel generalizing t n with
  | zero => omega
  | succ fuel ih =>
    unfold moveAllToRetx
    rw [vtS, lt?_numbered a_le_n (by omega) (show a ≤ s by omega) s_lt]
    by_cases done : n = s
    · subst done
      exact ⟨t, by simp, Settles.refl _ n t, rfl, rfl, rfl, rfl⟩
    · have inside : n < s := by omega
      have here : n % 1024 < 1024 := Nat.mod_lt n (by decide)
      simp only [inside, numbered_value, numbered_succ]
      cases sent : t.txedBuffer (n % 1024) with
      | none =>
        obtain ⟨t', rest, settles, same⟩ := ih vtS (show a ≤ n + 1 by omega) (by omega) (by omega)
          apart
        have one : SettlesOne true (n % 1024) t t :=
          ⟨(update_none sent).symm, by simp [sent], ⟨rfl, rfl⟩, ⟨rfl, rfl, rfl⟩, id⟩
        exact ⟨t', rest, settles.step inside (by omega) one, same⟩
      | some pdu =>
        have free : t.retxBuffer (n % 1024) = none := (apart _).resolve_left (by simp [sent])
        have one : SettlesOne true (n % 1024) t (t.moveToRetx (n % 1024) pdu) :=
          ⟨rfl, by simp [moveToRetx, sent], ⟨rfl, rfl⟩, ⟨rfl, rfl, rfl⟩,
            fun sized => sized.moveToRetx here sent free⟩
        have apart' (key : Nat) : (t.moveToRetx (n % 1024) pdu).txedBuffer key = none ∨
            (t.moveToRetx (n % 1024) pdu).retxBuffer key = none := by
          by_cases head : key = n % 1024
          · exact .inl (by simp [moveToRetx, head])
          · simpa [moveToRetx, Function.update_of_ne head] using apart key
        obtain ⟨t', rest, settles, same⟩ := ih (t := t.moveToRetx (n % 1024) pdu) vtS
          (show a ≤ n + 1 by omega) (by omega) (by omega) apart'
        exact ⟨t', rest, settles.step inside (by omega) one, same.vtA, same.vtMs, same.vtS,
          same.timer⟩

end Ns3.Rlc.AmTransmitter
