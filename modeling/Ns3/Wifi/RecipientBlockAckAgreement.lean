import Mathlib.Data.Nat.ModEq

/-!
# `BlockAckWindow`

The bits are stored round a circle from the head. A bit beyond the window
reads as unset, so that an advance moves every bit down alike.
-/

namespace Ns3.Wifi

open List

structure BlockAckWindow where
  winStart : Nat
  window : List Bool
  head : Nat

namespace BlockAckWindow

def init (winStart winSize : Nat) : BlockAckWindow := ⟨winStart, List.replicate winSize false, 0⟩

variable (w : BlockAckWindow)

def winSize : Nat := w.window.length

def winEnd : Nat := (w.winStart + w.winSize - 1) % 4096

def reset (winStart : Nat) : BlockAckWindow := init winStart w.winSize

/-- `At` -/
def bitAt (distance : Nat) : Bool := w.window.getD ((w.head + distance) % w.winSize) false

/-- An assignment of `true` to `At`. -/
def setAt (distance : Nat) : BlockAckWindow :=
  { w with window := w.window.set ((w.head + distance) % w.winSize) true }

/-- The body of the loop of `Advance`. -/
def clearHead : BlockAckWindow :=
  { w with window := w.window.set w.head false, head := (w.head + 1) % w.winSize }

def advance (count : Nat) : BlockAckWindow :=
  if w.winSize ≤ count then w.reset ((w.winStart + count) % 4096)
  else { clearHead^[count] w with winStart := (w.winStart + count) % 4096 }

/-! ## The bits -/

structure Valid : Prop where
  winStart : w.winStart < 4096
  head : w.head < w.winSize

/-- The bit at a distance, unset beyond the window. -/
def bits (distance : Nat) : Bool := decide (distance < w.winSize) && w.bitAt distance

variable {w}

theorem Valid.winSize (valid : Valid w) : 0 < w.winSize := Nat.zero_lt_of_lt valid.head

theorem bits_of_lt {distance : Nat} (inside : distance < w.winSize) :
    w.bits distance = w.bitAt distance := by
  unfold bits
  simp [decide_eq_true inside]

theorem bits_of_le {distance : Nat} (beyond : w.winSize ≤ distance) : w.bits distance = false := by
  unfold bits
  simp [decide_eq_false (not_lt.mpr beyond)]

/-- Two distances inside the window have different places. -/
theorem place_inj {head size i j : Nat} (hi : i < size) (hj : j < size)
    (same : (head + i) % size = (head + j) % size) : i = j := by
  have modEq : i ≡ j [MOD size] := Nat.ModEq.add_left_cancel' head same
  exact modEq.eq_of_lt_of_lt hi hj

theorem init_valid {winStart winSize : Nat} (inSpace : winStart < 4096) (pos : 0 < winSize) :
    Valid (init winStart winSize) := by
  refine ⟨inSpace, ?_⟩
  unfold init BlockAckWindow.winSize
  rwa [length_replicate]

@[simp]
theorem winSize_init (winStart winSize : Nat) : (init winStart winSize).winSize = winSize :=
  length_replicate

@[simp]
theorem bits_init (winStart winSize distance : Nat) :
    (init winStart winSize).bits distance = false := by
  unfold bits bitAt init
  simp [getD_eq_getElem?_getD, getElem?_replicate]
  split <;> simp

@[simp]
theorem winSize_setAt (distance : Nat) : (w.setAt distance).winSize = w.winSize := length_set

theorem setAt_valid (valid : Valid w) (distance : Nat) : Valid (w.setAt distance) := by
  refine ⟨valid.winStart, ?_⟩
  rw [winSize_setAt]
  exact valid.head

theorem bits_setAt {i : Nat} (inside : i < w.winSize) (j : Nat) :
    (w.setAt i).bits j = (decide (j = i) || w.bits j) := by
  by_cases hj : j < w.winSize
  · have place : (w.head + i) % w.winSize < w.window.length := Nat.mod_lt _ (Nat.zero_lt_of_lt hj)
    rw [bits_of_lt (by rwa [winSize_setAt]), bits_of_lt hj]
    unfold bitAt
    rw [winSize_setAt]
    unfold setAt
    rw [getD_eq_getElem?_getD, getElem?_set]
    by_cases same : j = i
    · rw [same, if_pos rfl, if_pos place, decide_eq_true rfl, Bool.true_or]
      rfl
    · simp [if_neg fun eq => same (place_inj inside hj eq).symm, decide_eq_false same]
  · have beyond := not_lt.mp hj
    rw [bits_of_le (by rwa [winSize_setAt]), bits_of_le beyond, Bool.or_false,
      decide_eq_false (by omega)]

theorem winSize_clearHead : w.clearHead.winSize = w.winSize := length_set

theorem clearHead_valid (valid : Valid w) : Valid w.clearHead := by
  refine ⟨valid.winStart, ?_⟩
  rw [winSize_clearHead]
  exact Nat.mod_lt _ valid.winSize

theorem bits_clearHead (valid : Valid w) (j : Nat) : w.clearHead.bits j = w.bits (j + 1) := by
  by_cases hj : j < w.winSize
  · rw [bits_of_lt (by rwa [winSize_clearHead])]
    unfold bitAt
    rw [winSize_clearHead]
    unfold clearHead
    rw [Nat.mod_add_mod, add_assoc, add_comm 1 j, getD_eq_getElem?_getD, getElem?_set]
    by_cases last : j + 1 < w.winSize
    · have moved : ¬ w.head = (w.head + (j + 1)) % w.winSize := by
        intro same
        have back : (w.head + 0) % w.winSize = (w.head + (j + 1)) % w.winSize := by
          rw [add_zero, Nat.mod_eq_of_lt valid.head]
          exact same
        have := place_inj valid.winSize last back
        omega
      simp [if_neg moved, bits_of_lt last, bitAt]
    · have round : j + 1 = w.winSize := by omega
      have inside : w.head < w.window.length := valid.head
      rw [round, Nat.add_mod_right, Nat.mod_eq_of_lt valid.head, if_pos rfl, if_pos inside,
        bits_of_le le_rfl]
      rfl
  · have beyond := not_lt.mp hj
    rw [bits_of_le (by rwa [winSize_clearHead]), bits_of_le (by omega)]

theorem iterate_clearHead (valid : Valid w) (count : Nat) :
    Valid (clearHead^[count] w) ∧ (clearHead^[count] w).winSize = w.winSize ∧
      ∀ j, (clearHead^[count] w).bits j = w.bits (j + count) := by
  induction count with
  | zero => exact ⟨valid, rfl, fun _ => rfl⟩
  | succ count ih =>
    obtain ⟨valid', size, bits⟩ := ih
    rw [Function.iterate_succ_apply']
    refine ⟨clearHead_valid valid', winSize_clearHead.trans size, ?_⟩
    intro j
    rw [bits_clearHead valid', bits, add_assoc, add_comm 1 count]

/-- **Advancing** moves every bit down. -/
theorem advance_spec (valid : Valid w) (count : Nat) :
    Valid (w.advance count) ∧ (w.advance count).winSize = w.winSize ∧
      (w.advance count).winStart = (w.winStart + count) % 4096 ∧
      ∀ j, (w.advance count).bits j = w.bits (j + count) := by
  have inSpace : (w.winStart + count) % 4096 < 4096 := Nat.mod_lt _ (by decide)
  unfold advance
  split
  case isTrue beyond =>
    refine ⟨init_valid inSpace valid.winSize, winSize_init _ _, rfl, ?_⟩
    intro j
    rw [reset, bits_init, bits_of_le (by omega)]
  case isFalse =>
    obtain ⟨valid', size, bits⟩ := iterate_clearHead valid count
    exact ⟨⟨inSpace, valid'.head⟩, size, rfl, bits⟩

end BlockAckWindow

end Ns3.Wifi

/-!
## `RecipientBlockAckAgreement`

The scoreboard and the reorder buffer of a recipient. Sequence numbers are
`uint16_t`, differences of them are `int`, and sizes are `size_t`. The buffer is
a list in the order of its comparator. A failed `NS_ASSERT` goes on.
-/

namespace Ns3.Wifi

/-- An MPDU has a sequence number of 12 bits. -/
structure WifiMpdu (Body : Type) where
  sequenceNumber : Fin 4096
  body : Body
  deriving DecidableEq

/-- `(a - start + SEQNO_SPACE_SIZE) % SEQNO_SPACE_SIZE` -/
def relative (seqNumber start : Nat) : Int := ((seqNumber : Int) - start + 4096).tmod 4096

/-- `BlockAckAgreement::GetDistance` -/
def getDistance (seqNumber start : Nat) : Nat := (relative seqNumber start % 2 ^ 64).toNat

variable {Body : Type}

structure RecipientBlockAckAgreement (Body : Type) where
  scoreboard : BlockAckWindow
  winStartB : Nat
  winSizeB : Nat
  bufferedMpdus : List (WifiMpdu Body)

namespace RecipientBlockAckAgreement

def create (startingSeq bufferSize : Nat) : RecipientBlockAckAgreement Body :=
  ⟨.init startingSeq bufferSize, startingSeq, bufferSize, []⟩

/-- `Compare` of the sequence numbers of two keys. -/
def compareKeys (winStartB a b : Nat) : Bool := relative a winStartB < relative b winStartB

/-- `insert` of the map: an MPDU with an equal key stays. -/
def insertMpdu (winStartB : Nat) (mpdu : WifiMpdu Body) :
    List (WifiMpdu Body) → List (WifiMpdu Body)
  | [] => [mpdu]
  | m :: rest =>
    if compareKeys winStartB mpdu.sequenceNumber m.sequenceNumber then mpdu :: m :: rest
    else if compareKeys winStartB m.sequenceNumber mpdu.sequenceNumber then
      m :: insertMpdu winStartB mpdu rest
    else m :: rest

/-- The loop of `PassBufferedMpdusUntilFirstLost`: what is passed up, what stays, and the start. -/
def untilFirstLost (winStartB : Nat) :
    List (WifiMpdu Body) → List (WifiMpdu Body) × List (WifiMpdu Body) × Nat
  | [] => ([], [], winStartB)
  | m :: rest =>
    if m.sequenceNumber = winStartB then
      let (passed, kept, start) := untilFirstLost ((winStartB + 1) % 4096) rest
      (m :: passed, kept, start)
    else ([], m :: rest, winStartB)

variable (s : RecipientBlockAckAgreement Body)

def passBufferedMpdusUntilFirstLost : RecipientBlockAckAgreement Body × List (WifiMpdu Body) :=
  let (passed, kept, start) := untilFirstLost s.winStartB s.bufferedMpdus
  ({ s with winStartB := start, bufferedMpdus := kept }, passed)

def isLessThan (newWinStartB : Nat) (m : WifiMpdu Body) : Bool :=
  getDistance m.sequenceNumber s.winStartB < getDistance newWinStartB s.winStartB

def passBufferedMpdusWithSeqNumberLessThan (newWinStartB : Nat) :
    RecipientBlockAckAgreement Body × List (WifiMpdu Body) :=
  ({ s with
    winStartB := newWinStartB
    bufferedMpdus := s.bufferedMpdus.dropWhile (s.isLessThan newWinStartB) },
    s.bufferedMpdus.takeWhile (s.isLessThan newWinStartB))

/-- Both passes, one after the other. -/
def passBufferedMpdus (newWinStartB : Nat) :
    RecipientBlockAckAgreement Body × List (WifiMpdu Body) :=
  let (s, below) := s.passBufferedMpdusWithSeqNumberLessThan newWinStartB
  let (s, next) := s.passBufferedMpdusUntilFirstLost
  (s, below ++ next)

/-- `mpdu->GetHeader().GetSequenceNumber() - m_winSizeB + 1` as a `uint16_t`. -/
def startForEnd (seqNumber winSizeB : Nat) : Nat :=
  (seqNumber + 2 ^ 64 - winSizeB + 1) % 2 ^ 64 % 2 ^ 16

/-- The scoreboard after an MPDU. -/
def scoreMpdu (w : BlockAckWindow) (seqNumber : Nat) : BlockAckWindow :=
  let distance := getDistance seqNumber w.winStart % 2 ^ 16
  if distance < w.winSize then w.setAt distance
  else if distance < 2048 then
    let w := w.advance (distance - w.winSize + 1)
    w.setAt (w.winSize - 1)
  else w

/-- The scoreboard after a BAR. -/
def scoreBar (w : BlockAckWindow) (startingSequenceNumber : Nat) : BlockAckWindow :=
  let distance := getDistance startingSequenceNumber w.winStart % 2 ^ 16
  if 0 < distance ∧ distance < w.winSize then w.advance distance
  else if 0 < distance ∧ distance < 2048 then w.reset startingSequenceNumber
  else w

def notifyReceivedMpdu (mpdu : WifiMpdu Body) :
    RecipientBlockAckAgreement Body × List (WifiMpdu Body) :=
  let s := { s with scoreboard := scoreMpdu s.scoreboard mpdu.sequenceNumber }
  let distance := getDistance mpdu.sequenceNumber s.winStartB % 2 ^ 16
  if distance < s.winSizeB then
    let s := { s with bufferedMpdus := insertMpdu s.winStartB mpdu s.bufferedMpdus }
    s.passBufferedMpdusUntilFirstLost
  else if distance < 2048 then
    let s := { s with bufferedMpdus := insertMpdu s.winStartB mpdu s.bufferedMpdus }
    s.passBufferedMpdus (startForEnd mpdu.sequenceNumber s.winSizeB)
  else (s, [])

def notifyReceivedBar (startingSequenceNumber : Nat) :
    RecipientBlockAckAgreement Body × List (WifiMpdu Body) :=
  let s := { s with scoreboard := scoreBar s.scoreboard startingSequenceNumber }
  let distance := getDistance startingSequenceNumber s.winStartB % 2 ^ 16
  if 0 < distance ∧ distance < 2048 then s.passBufferedMpdus startingSequenceNumber else (s, [])

end RecipientBlockAckAgreement

open RecipientBlockAckAgreement

/-- What a recipient is notified of. -/
inductive RecipientEvent (Body : Type) where
  | receivedMpdu (mpdu : WifiMpdu Body)
  | receivedBar (startingSequenceNumber : Fin 4096)

/-- The agreement after an event, and the MPDUs that are passed up. -/
def RecipientBlockAckAgreement.step (s : RecipientBlockAckAgreement Body) :
    RecipientEvent Body → RecipientBlockAckAgreement Body × List (WifiMpdu Body)
  | .receivedMpdu mpdu => s.notifyReceivedMpdu mpdu
  | .receivedBar startingSequenceNumber => s.notifyReceivedBar startingSequenceNumber

/-! ## Distances -/

theorem relative_eq (seqNumber : Nat) {start : Nat} (inSpace : start < 4096) :
    relative seqNumber start = (((seqNumber + 4096 - start) % 4096 : Nat) : Int) := by
  unfold relative
  rw [Int.tmod_eq_emod_of_nonneg (by omega)]
  omega

theorem getDistance_eq (seqNumber : Nat) {start : Nat} (inSpace : start < 4096) :
    getDistance seqNumber start = (seqNumber + 4096 - start) % 4096 := by
  unfold getDistance
  rw [relative_eq seqNumber inSpace]
  omega

end Ns3.Wifi
