import Ns3.Wifi.RecipientBlockAckAgreement
import Mathlib.Data.Finset.Card

/-!
# `OriginatorBlockAckAgreement`

The transmit window of an originator. Beside the window stand the numbers behind
the sequence numbers, which the source does not keep: they do not wrap.
-/

namespace Ns3.Wifi

/-- What ends a run: a loop that does not end, a distance that the assertion of
`At` rejects, and an iterator to an erased MPDU. -/
inductive Failure where
  | endless
  | outside
  | erased
  deriving DecidableEq

structure OriginatorBlockAckAgreement where
  txWindow : BlockAckWindow
  /-- The number at the start of the window. -/
  start : Nat
  /-- The numbers that were acknowledged. -/
  acked : List Nat
  /-- The numbers that were discarded. -/
  discarded : List Nat

namespace OriginatorBlockAckAgreement

/-- `InitTxWindow` -/
def create (startingSeq bufferSize : Nat) : OriginatorBlockAckAgreement :=
  ⟨.init startingSeq bufferSize, startingSeq, [], []⟩

variable (a : OriginatorBlockAckAgreement)

/-- `GetDistance` as a `uint16_t`. -/
def distance (seqNumber : Fin 4096) : Nat := getDistance seqNumber a.txWindow.winStart % 2 ^ 16

/-- An MPDU is old from SEQNO_SPACE_HALF_SIZE on. -/
def isOld (seqNumber : Fin 4096) : Bool := 2048 ≤ a.distance seqNumber

/-- `m_txWindow.Advance` -/
def advance (count : Nat) : OriginatorBlockAckAgreement :=
  { a with txWindow := a.txWindow.advance count, start := a.start + count }

/-- The loop of `AdvanceTxWindow`, with a bound on its rounds. -/
def advanceRounds : Nat → OriginatorBlockAckAgreement → Except Failure OriginatorBlockAckAgreement
  | 0, _ => .error .endless
  | rounds + 1, a => if a.txWindow.bitAt 0 then advanceRounds rounds (a.advance 1) else .ok a

def advanceTxWindow : Except Failure OriginatorBlockAckAgreement :=
  advanceRounds (a.txWindow.winSize + 1) a

def notifyTransmittedMpdu (seqNumber : Fin 4096) : Except Failure OriginatorBlockAckAgreement :=
  if a.isOld seqNumber then .ok a
  else if a.txWindow.winSize ≤ a.distance seqNumber then
    (a.advance (a.distance seqNumber - a.txWindow.winSize + 1)).advanceTxWindow
  else .ok a

/-- `m_txWindow.At(distance) = true` -/
def acknowledge (distance : Nat) : OriginatorBlockAckAgreement :=
  { a with txWindow := a.txWindow.setAt distance, acked := (a.start + distance) :: a.acked }

def notifyAckedMpdu (seqNumber : Fin 4096) : Except Failure OriginatorBlockAckAgreement :=
  if a.isOld seqNumber then .ok a
  else if a.distance seqNumber < a.txWindow.winSize then
    (a.acknowledge (a.distance seqNumber)).advanceTxWindow
  else .error .outside

def notifyDiscardedMpdu (seqNumber : Fin 4096) : Except Failure OriginatorBlockAckAgreement :=
  if a.isOld seqNumber then .ok a
  else
    let past := a.advance (a.distance seqNumber + 1)
    let noted := { past with discarded := (a.start + a.distance seqNumber) :: a.discarded }
    noted.advanceTxWindow

/-! ## Moving forward -/

variable {a}

/-- The window of `b` is the one of `a`, further on by `count`. -/
structure Moved (a b : OriginatorBlockAckAgreement) (count : Nat) : Prop where
  valid : b.txWindow.Valid
  winSize : b.txWindow.winSize = a.txWindow.winSize
  winStart : b.txWindow.winStart = (a.txWindow.winStart + count) % 4096
  bits : ∀ j, b.txWindow.bits j = a.txWindow.bits (j + count)
  start : b.start = a.start + count
  acked : b.acked = a.acked

theorem Moved.refl (valid : a.txWindow.Valid) : Moved a a 0 :=
  ⟨valid, rfl, (Nat.mod_eq_of_lt valid.winStart).symm, fun _ => rfl, rfl, rfl⟩

theorem Moved.trans {b c : OriginatorBlockAckAgreement} {i j : Nat} (first : Moved a b i)
    (second : Moved b c j) : Moved a c (i + j) := by
  refine ⟨second.valid, second.winSize.trans first.winSize, ?_, ?_, ?_,
    second.acked.trans first.acked⟩
  · rw [second.winStart, first.winStart, Nat.mod_add_mod, add_assoc]
  · intro n
    rw [second.bits, first.bits, add_assoc, add_comm j i]
  · rw [second.start, first.start, add_assoc]

section

variable (valid : a.txWindow.Valid)
include valid

theorem advance_moved (count : Nat) : Moved a (a.advance count) count := by
  obtain ⟨valid', size, start, bits⟩ := BlockAckWindow.advance_spec valid count
  exact ⟨valid', size, start, bits, rfl, rfl⟩

theorem bitAt_zero : a.txWindow.bitAt 0 = a.txWindow.bits 0 :=
  (BlockAckWindow.bits_of_lt valid.winSize).symm

theorem advanceRounds_spec {rounds unset : Nat}
    (enough : unset < rounds) (stop : a.txWindow.bits unset = false) :
    ∃ b count, advanceRounds rounds a = .ok b ∧ Moved a b count ∧ b.discarded = a.discarded ∧
      ∀ i < count, a.txWindow.bits i = true := by
  induction rounds generalizing a unset with
  | zero => omega
  | succ rounds ih =>
    unfold advanceRounds
    rw [bitAt_zero valid]
    cases head : a.txWindow.bits 0 with
    | false => exact ⟨a, 0, rfl, .refl valid, rfl, fun i less => by omega⟩
    | true =>
      rw [if_pos rfl]
      have once := advance_moved valid 1
      have later : unset ≠ 0 := fun zero => by simp [zero, head] at stop
      have stop' : (a.advance 1).txWindow.bits (unset - 1) = false := by
        rw [once.bits, Nat.sub_add_cancel (by omega)]
        exact stop
      obtain ⟨b, count, ends, moved, same, set⟩ := ih once.valid (by omega) stop'
      refine ⟨b, 1 + count, ends, once.trans moved, same, ?_⟩
      intro i less
      cases i with
      | zero => exact head
      | succ i =>
        rw [← once.bits i]
        exact set i (by omega)

/-- **`AdvanceTxWindow` ends**, after the bits that are set. -/
theorem advanceTxWindow_spec :
    ∃ b count, a.advanceTxWindow = .ok b ∧ Moved a b count ∧ b.discarded = a.discarded ∧
      ∀ i < count, a.txWindow.bits i = true :=
  advanceRounds_spec valid (Nat.lt_succ_self _) (BlockAckWindow.bits_of_le le_rfl)

/-! ## Distances -/

theorem distance_eq (seqNumber : Fin 4096) :
    a.distance seqNumber = (seqNumber + 4096 - a.txWindow.winStart) % 4096 := by
  unfold distance
  rw [getDistance_eq _ valid.winStart]
  omega

theorem distance_inj {m n : Fin 4096} (same : a.distance m = a.distance n) : m = n := by
  rw [distance_eq valid, distance_eq valid] at same
  have := valid.winStart
  exact Fin.ext (by omega)

end

/-- A move brings an MPDU that it does not pass nearer. -/
theorem Moved.distance_sub {b : OriginatorBlockAckAgreement} {count : Nat} (moved : Moved a b count)
    (valid : a.txWindow.Valid) {m : Fin 4096} (ahead : count ≤ a.distance m) :
    b.distance m = a.distance m - count := by
  have inSpace := valid.winStart
  rw [distance_eq moved.valid, moved.winStart]
  rw [distance_eq valid] at *
  omega

theorem Moved.isOld_of_lt {b : OriginatorBlockAckAgreement} {count : Nat} (moved : Moved a b count)
    (valid : a.txWindow.Valid) (short : count ≤ 2048) {m : Fin 4096}
    (behind : a.distance m < count) : b.isOld m = true := by
  have inSpace := valid.winStart
  unfold isOld
  rw [distance_eq moved.valid, moved.winStart]
  rw [distance_eq valid] at behind
  exact decide_eq_true (by omega)

end OriginatorBlockAckAgreement

end Ns3.Wifi

/-!
## `BlockAckManager`: the originator

An established agreement with the queue of the MPDUs that are in flight. The
EDCA queue, the lifetimes and the links on which an MPDU is in flight are those
of the moment of each event. An iterator is a place between two parts of the
queue, and an MPDU stands for the object that `Ptr<WifiMpdu>` points to.
-/

namespace Ns3.Wifi

open OriginatorBlockAckAgreement

structure TxMpdu (Body : Type) where
  sequenceNumber : Fin 4096
  fragmentNumber : Fin 16
  body : Body
  deriving DecidableEq

/-- `GetSequenceControl` -/
def TxMpdu.sequenceControl {Body : Type} (m : TxMpdu Body) : Nat :=
  16 * m.sequenceNumber + m.fragmentNumber

variable {Body : Type} [DecidableEq Body]

/-- What holds of the MPDUs at the moment of an event. -/
structure Surroundings (Body : Type) where
  isQueued : TxMpdu Body → Bool
  /-- `now > expiryTime` -/
  ttlExceeded : TxMpdu Body → Bool
  isRetry : TxMpdu Body → Bool
  /-- The links of the record in the EDCA queue. -/
  inflights : TxMpdu Body → Finset Nat

namespace Surroundings

variable (env : Surroundings Body)

def getInFlightLinkIds (m : TxMpdu Body) : Finset Nat :=
  if env.isQueued m then env.inflights m else ∅

def isInFlight (m : TxMpdu Body) : Bool := env.isQueued m && decide (env.inflights m ≠ ∅)

/-- The MPDU leaves the EDCA queue. -/
def remove (m : TxMpdu Body) : Surroundings Body :=
  { env with isQueued := fun x => env.isQueued x && decide (x ≠ m) }

end Surroundings

/-- An agreement with its `PacketQueue`. -/
structure Originator (Body : Type) where
  agreement : OriginatorBlockAckAgreement
  inFlight : List (TxMpdu Body)

inductive MpduStatus where
  | stayInflight
  | toRetransmit
  | acknowledged
  deriving DecidableEq

/-- The in-flight queue with an iterator, at the head of `rest`. -/
structure Cursor (Body : Type) where
  env : Surroundings Body
  agreement : OriginatorBlockAckAgreement
  before : List (TxMpdu Body)
  rest : List (TxMpdu Body)

def Cursor.originator (c : Cursor Body) : Originator Body := ⟨c.agreement, c.before ++ c.rest⟩

namespace Originator

def create (startingSeq bufferSize : Nat) : Originator Body := ⟨.create startingSeq bufferSize, []⟩

/-- The search of `StorePacket` for a place, from the back. `none` when the MPDU is there. -/
def storeBack (a : OriginatorBlockAckAgreement) (mpdu : TxMpdu Body) :
    List (TxMpdu Body) → Option (List (TxMpdu Body))
  | [] => some [mpdu]
  | m :: earlier =>
    let mpduDist := a.distance mpdu.sequenceNumber
    let dist := a.distance m.sequenceNumber
    if mpdu.sequenceControl = m.sequenceControl then none
    else if dist < mpduDist ∨ (mpduDist = dist ∧ m.fragmentNumber < mpdu.fragmentNumber) then
      some (mpdu :: m :: earlier)
    else (storeBack a mpdu earlier).map (m :: ·)

variable (o : Originator Body)

def storePacket (mpdu : TxMpdu Body) : Except Failure (Originator Body) :=
  if o.agreement.isOld mpdu.sequenceNumber then .ok o
  else
    match storeBack o.agreement mpdu o.inFlight.reverse with
    | none => .ok o
    | some reversed => do
      let a ← o.agreement.notifyTransmittedMpdu mpdu.sequenceNumber
      return ⟨a, reversed.reverse⟩

def notifyDiscardedMpdu (env : Surroundings Body) (mpdu : TxMpdu Body) :
    Except Failure (Originator Body) :=
  if !env.isRetry mpdu && !env.isInFlight mpdu then .ok o
  else if o.agreement.isOld mpdu.sequenceNumber then .ok o
  else do
    let a ← o.agreement.notifyDiscardedMpdu mpdu.sequenceNumber
    return ⟨a, o.inFlight.dropWhile fun m => a.isOld m.sequenceNumber⟩

/-- `HandleInFlightMpdu` at `mpdu`, between `before` and `after`. The iterator that it returns after
`TtlExceeded` follows the last MPDU of `before`, which the discard may have erased. -/
def handleInFlightMpdu (env : Surroundings Body) (status : MpduStatus)
    (a : OriginatorBlockAckAgreement) (before : List (TxMpdu Body)) (mpdu : TxMpdu Body)
    (after : List (TxMpdu Body)) : Except Failure (Cursor Body) :=
  if !env.isQueued mpdu then .ok ⟨env, a, before, after⟩
  else if status = .acknowledged then .ok ⟨env, a, before, after⟩
  else if a.isOld mpdu.sequenceNumber then .ok ⟨env, a, before, after⟩
  else if env.ttlExceeded mpdu then do
    let o ← notifyDiscardedMpdu ⟨a, before ++ mpdu :: after⟩ env mpdu
    if before = [] then return ⟨env.remove mpdu, o.agreement, [], o.inFlight⟩
    else if o.inFlight.length ≤ after.length + 1 then .error .erased
    else
      let place := o.inFlight.length - (after.length + 1)
      return ⟨env.remove mpdu, o.agreement, o.inFlight.take place, o.inFlight.drop place⟩
  else if status = .stayInflight then .ok ⟨env, a, before ++ [mpdu], after⟩
  else .ok ⟨env, a, before, after⟩

/-- The handling of the rest of the queue, with a bound on the rounds. -/
def handleRounds (status : Finset Nat → MpduStatus) :
    Nat → Cursor Body → Except Failure (Originator Body)
  | 0, _ => .error .endless
  | rounds + 1, c =>
    match c.rest with
    | [] => .ok c.originator
    | mpdu :: after => do
      let linkIds := c.env.getInFlightLinkIds mpdu
      let c ← handleInFlightMpdu c.env (status linkIds) c.agreement c.before mpdu after
      handleRounds status rounds c

/-- The handling of all MPDUs in flight. An MPDU is handled twice at most. -/
def handleAll (env : Surroundings Body) (status : Finset Nat → MpduStatus) :
    Except Failure (Originator Body) :=
  handleRounds status (2 * o.inFlight.length + 1) ⟨env, o.agreement, [], o.inFlight⟩

/-- The first loop of `NotifyGotBlockAck`, over the MPDUs from the iterator on. The handling of an
acknowledged MPDU erases it. -/
def acknowledgeReceived (received : Fin 4096 → Bool) :
    OriginatorBlockAckAgreement → List (TxMpdu Body) → Except Failure (Originator Body)
  | a, [] => .ok ⟨a, []⟩
  | a, m :: after =>
    if received m.sequenceNumber then do
      let a ← a.notifyAckedMpdu m.sequenceNumber
      acknowledgeReceived received a after
    else do
      let o ← acknowledgeReceived received a after
      return ⟨o.agreement, m :: o.inFlight⟩

def notifyGotAck (mpdu : TxMpdu Body) : Except Failure (Originator Body) := do
  let a ← o.agreement.notifyAckedMpdu mpdu.sequenceNumber
  return ⟨a, o.inFlight.eraseP fun m => m.sequenceNumber = mpdu.sequenceNumber⟩

def notifyMissedAck (env : Surroundings Body) (mpdu : TxMpdu Body) :
    Except Failure (Originator Body) :=
  let other := fun m : TxMpdu Body => decide (m.sequenceNumber ≠ mpdu.sequenceNumber)
  match o.inFlight.dropWhile other with
  | [] => .ok o
  | m :: after => do
    let c ← handleInFlightMpdu env .toRetransmit o.agreement (o.inFlight.takeWhile other) m after
    return c.originator

/-- The status of an MPDU that a Block Ack leaves unacknowledged. -/
def unacknowledgedStatus (linkId : Nat) (linkIds : Finset Nat) : MpduStatus :=
  if linkIds = {linkId} then .toRetransmit else .stayInflight

/-- The status of an MPDU when a Block Ack is missed. -/
def missedStatus (linkId : Nat) (linkIds : Finset Nat) : MpduStatus :=
  if linkId ∈ linkIds then .toRetransmit else .stayInflight

/-- `received` is `IsPacketReceived` of the Block Ack. -/
def notifyGotBlockAck (env : Surroundings Body) (linkId : Nat) (received : Fin 4096 → Bool) :
    Except Failure (Originator Body) := do
  let o ← acknowledgeReceived received o.agreement o.inFlight
  o.handleAll env (unacknowledgedStatus linkId)

def notifyMissedBlockAck (env : Surroundings Body) (linkId : Nat) :
    Except Failure (Originator Body) := o.handleAll env (missedStatus linkId)

end Originator

/-- What the manager of an originator is told. -/
inductive OriginatorEvent (Body : Type) where
  | store (mpdu : TxMpdu Body)
  | gotAck (mpdu : TxMpdu Body)
  | missedAck (env : Surroundings Body) (mpdu : TxMpdu Body)
  | gotBlockAck (env : Surroundings Body) (linkId : Nat) (received : Fin 4096 → Bool)
  | missedBlockAck (env : Surroundings Body) (linkId : Nat)
  | discarded (env : Surroundings Body) (mpdu : TxMpdu Body)

def Originator.step (o : Originator Body) : OriginatorEvent Body → Except Failure (Originator Body)
  | .store mpdu => o.storePacket mpdu
  | .gotAck mpdu => o.notifyGotAck mpdu
  | .missedAck env mpdu => o.notifyMissedAck env mpdu
  | .gotBlockAck env linkId received => o.notifyGotBlockAck env linkId received
  | .missedBlockAck env linkId => o.notifyMissedBlockAck env linkId
  | .discarded env mpdu => o.notifyDiscardedMpdu env mpdu

/-- The machine, without outputs. -/
def Originator.machine (o : Originator Body) (event : OriginatorEvent Body) :
    Option (Originator Body × List Empty) :=
  (o.step event).toOption.map fun o => (o, [])

end Ns3.Wifi
