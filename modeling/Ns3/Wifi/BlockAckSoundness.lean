import Ns3.Wifi.BlockAckBitmap

/-!
# Block Ack soundness

A bit of the scoreboard is set for the sequence numbers that were received
since the window last covered them, however the window moves. A response has
the bits that it has room for.
-/

namespace Ns3.Wifi

open List BlockAckWindow

variable {Body : Type}

open RecipientBlockAckAgreement CtrlBAckResponseHeader

/-- Whether the window has a place for a sequence number. -/
def covers (w : BlockAckWindow) (seq : Nat) : Bool := getDistance seq w.winStart < w.winSize

def RecipientEvent.received : RecipientEvent Body → List Nat
  | .receivedMpdu mpdu => [mpdu.sequenceNumber]
  | .receivedBar _ => []

/-- The sequence numbers that were received since the window last covered them. What the window
leaves is forgotten. -/
def heardAfter (heard : List Nat) (event : RecipientEvent Body) (w : BlockAckWindow) : List Nat :=
  (heard ++ event.received).filter (covers w)

/-- The agreement after some events, and what was heard. -/
def heardRun : RecipientBlockAckAgreement Body → List Nat → List (RecipientEvent Body) →
    RecipientBlockAckAgreement Body × List Nat
  | s, heard, [] => (s, heard)
  | s, heard, event :: events =>
    heardRun (s.step event).1 (heardAfter heard event (s.step event).1.scoreboard) events

/-! ## The scoreboard -/

/-- The bits are those of what was heard. -/
structure Marks (w : BlockAckWindow) (heard : List Nat) : Prop where
  valid : w.Valid
  inSpace : ∀ seq ∈ heard, seq < 4096
  marked : ∀ seq < 4096, seq ∈ heard ↔ w.bits (getDistance seq w.winStart) = true

theorem lt_of_bits {w : BlockAckWindow} {j : Nat} (set : w.bits j = true) : j < w.winSize :=
  of_decide_eq_true (Bool.and_eq_true_iff.mp set).1

section Score

variable {w w' : BlockAckWindow} {heard : List Nat} (marks : Marks w heard)
  (fits : w.winSize ≤ 2048)
include marks fits

theorem Marks.advance {count : Nat} (valid : w'.Valid) (size : w'.winSize = w.winSize)
    (winStart : w'.winStart = (w.winStart + count) % 4096) (short : count < 2048)
    (bits : ∀ j, w'.bits j = w.bits (j + count)) : Marks w' (heard.filter (covers w')) := by
  refine ⟨valid, fun seq mem => marks.inSpace seq (mem_of_mem_filter mem), ?_⟩
  intro seq inSpace
  have start := marks.valid.winStart
  have old := getDistance_eq seq start
  have new := getDistance_eq seq valid.winStart
  rw [mem_filter, marks.marked seq inSpace, bits]
  unfold covers
  rw [decide_eq_true_iff, size]
  by_cases passed : getDistance seq w.winStart < count
  · -- The window left the number: it is now most of a circle away.
    have far : 2048 ≤ getDistance seq w'.winStart := by omega
    constructor
    · intro both
      omega
    · intro set
      have := lt_of_bits set
      omega
  · have moved : getDistance seq w'.winStart + count = getDistance seq w.winStart := by omega
    rw [moved]
    constructor
    · exact And.left
    · intro set
      have := lt_of_bits set
      exact ⟨set, by omega⟩

omit fits in
theorem Marks.set {seq : Nat} (inSpace : seq < 4096)
    (inside : getDistance seq w.winStart < w.winSize) :
    Marks (w.setAt (getDistance seq w.winStart)) (heard ++ [seq]) := by
  refine ⟨setAt_valid marks.valid _, ?_, ?_⟩
  · intro other mem
    cases mem_append.mp mem with
    | inl old => exact marks.inSpace other old
    | inr new => rwa [mem_singleton.mp new]
  · intro other inSpace'
    have start := marks.valid.winStart
    have winStart : (w.setAt (getDistance seq w.winStart)).winStart = w.winStart := rfl
    have first := getDistance_eq seq start
    have second := getDistance_eq other start
    have inj : getDistance other w.winStart = getDistance seq w.winStart ↔ other = seq := by
      constructor
      · intro same
        omega
      · intro same
        rw [same]
    simp [winStart, bits_setAt inside, inj, marks.marked other inSpace', or_comm]

omit fits marks in
theorem covers_setAt (distance : Nat) : covers (w.setAt distance) = covers w := by
  funext seq
  unfold covers
  rw [winSize_setAt]
  rfl

omit fits in
theorem Marks.filter_self : heard.filter (covers w) = heard := by
  apply filter_eq_self.mpr
  intro seq mem
  have set := (marks.marked seq (marks.inSpace seq mem)).mp mem
  exact decide_eq_true (lt_of_bits set)

theorem Marks.scoreMpdu {seq : Nat} (inSpace : seq < 4096) :
    Marks (scoreMpdu w seq) ((heard ++ [seq]).filter (covers (scoreMpdu w seq))) ∧
      (scoreMpdu w seq).winSize = w.winSize := by
  have start := marks.valid.winStart
  have pos := marks.valid.winSize
  have distance := getDistance_eq seq start
  have short : getDistance seq w.winStart % 2 ^ 16 = getDistance seq w.winStart := by omega
  unfold RecipientBlockAckAgreement.scoreMpdu
  dsimp only
  rw [short]
  by_cases inside : getDistance seq w.winStart < w.winSize
  · rw [if_pos inside]
    have set := marks.set inSpace inside
    rw [set.filter_self]
    exact ⟨set, winSize_setAt _⟩
  · rw [if_neg inside]
    by_cases ahead : getDistance seq w.winStart < 2048
    · rw [if_pos ahead]
      obtain ⟨valid, size, winStart, bits⟩ :=
        advance_spec marks.valid (getDistance seq w.winStart - w.winSize + 1)
      have moved := marks.advance fits valid size winStart (by omega) bits
      generalize w.advance (getDistance seq w.winStart - w.winSize + 1) = w' at *
      have last : getDistance seq w'.winStart = w.winSize - 1 := by
        have := getDistance_eq seq valid.winStart
        omega
      have set := moved.set inSpace (by omega)
      have place : getDistance seq w'.winStart < w'.winSize := by omega
      rw [last] at set
      rw [size, winSize_setAt, covers_setAt, filter_append,
        filter_singleton, covers, decide_eq_true place]
      exact ⟨set, size⟩
    · rw [if_neg ahead]
      have behind : covers w seq = false := decide_eq_false inside
      rw [filter_append, marks.filter_self, filter_singleton, behind]
      exact ⟨(append_nil heard).symm ▸ marks, rfl⟩

theorem Marks.scoreBar {ssn : Nat} (inSpace : ssn < 4096) :
    Marks (scoreBar w ssn) (heard.filter (covers (scoreBar w ssn))) ∧
      (scoreBar w ssn).winSize = w.winSize := by
  have start := marks.valid.winStart
  have pos := marks.valid.winSize
  have distance := getDistance_eq ssn start
  have short : getDistance ssn w.winStart % 2 ^ 16 = getDistance ssn w.winStart := by omega
  have at_ssn : ssn = (w.winStart + getDistance ssn w.winStart) % 4096 := by omega
  unfold RecipientBlockAckAgreement.scoreBar
  rw [short]
  by_cases inside : 0 < getDistance ssn w.winStart ∧ getDistance ssn w.winStart < w.winSize
  · rw [if_pos inside]
    obtain ⟨valid, size, winStart, bits⟩ := advance_spec marks.valid (getDistance ssn w.winStart)
    exact ⟨marks.advance fits valid size winStart (by omega) bits, size⟩
  · rw [if_neg inside]
    by_cases ahead : 0 < getDistance ssn w.winStart ∧ getDistance ssn w.winStart < 2048
    · rw [if_pos ahead]
      have size : (w.reset ssn).winSize = w.winSize := winSize_init _ _
      refine ⟨marks.advance fits (init_valid inSpace pos) size at_ssn ahead.2 ?_, size⟩
      intro j
      rw [BlockAckWindow.reset, bits_init, bits_of_le (by omega)]
    · rw [if_neg ahead, marks.filter_self]
      exact ⟨marks, rfl⟩

end Score

theorem scoreboard_step (s : RecipientBlockAckAgreement Body) (event : RecipientEvent Body) :
    (s.step event).1.scoreboard = match event with
      | .receivedMpdu mpdu => scoreMpdu s.scoreboard mpdu.sequenceNumber
      | .receivedBar ssn => scoreBar s.scoreboard ssn := by
  cases event with
  | receivedMpdu mpdu =>
    unfold step notifyReceivedMpdu
    dsimp only
    split
    · rfl
    · split <;> rfl
  | receivedBar ssn =>
    unfold step notifyReceivedBar
    dsimp only
    split <;> rfl

variable {s : RecipientBlockAckAgreement Body} {heard : List Nat}

theorem Marks.step (marks : Marks s.scoreboard heard) (fits : s.scoreboard.winSize ≤ 2048)
    (event : RecipientEvent Body) :
    Marks (s.step event).1.scoreboard (heardAfter heard event (s.step event).1.scoreboard) ∧
      (s.step event).1.scoreboard.winSize = s.scoreboard.winSize := by
  rw [scoreboard_step]
  cases event with
  | receivedMpdu mpdu => exact marks.scoreMpdu fits mpdu.sequenceNumber.isLt
  | receivedBar ssn =>
    have scored := marks.scoreBar fits ssn.isLt
    unfold heardAfter RecipientEvent.received
    rwa [append_nil]

theorem Marks.run (marks : Marks s.scoreboard heard) (fits : s.scoreboard.winSize ≤ 2048)
    (events : List (RecipientEvent Body)) :
    Marks (heardRun s heard events).1.scoreboard (heardRun s heard events).2 ∧
      (heardRun s heard events).1.scoreboard.winSize ≤ 2048 := by
  induction events generalizing s heard with
  | nil => exact ⟨marks, fits⟩
  | cons event events ih =>
    obtain ⟨marks', size⟩ := marks.step fits event
    exact ih marks' (size ▸ fits)

theorem marks_create {startingSeq size : Nat} (inSpace : startingSeq < 4096) (pos : 0 < size) :
    Marks (create startingSeq size : RecipientBlockAckAgreement Body).scoreboard [] := by
  refine ⟨init_valid inSpace pos, nofun, ?_⟩
  intro seq _
  unfold RecipientBlockAckAgreement.create
  rw [bits_init]
  simp

theorem Marks.filled (marks : Marks s.scoreboard heard) (fits : s.scoreboard.winSize ≤ 2048)
    {h : CtrlBAckResponseHeader} {index : Nat} (response : Response h index) :
    ∃ info, s.fillBlockAckBitmap h index = some (h.setInfo index info) ∧
      info.startingSeq = s.scoreboard.winStart ∧ info.bitmap.length = h.lenOf index ∧
      info.aidTidInfo = (h.info index).aidTidInfo ∧
      ∀ seq < 4096, (h.setInfo index info).isPacketReceived seq index = some true ↔
        seq ∈ heard ∧ getDistance seq s.scoreboard.winStart < 8 * h.lenOf index := by
  obtain ⟨bitmap, is, length, bits⟩ :=
    fillBlockAckBitmap_spec response.fillable marks.valid (by omega)
  refine ⟨_, is, rfl, length, rfl, ?_⟩
  intro seq inSpace
  have info_is := info_setInfo response.fillable.lt
    { h.info index with startingSeq := s.scoreboard.winStart, bitmap }
  have lenOf : ∀ info, (h.setInfo index info).lenOf index = h.lenOf index := fun _ => rfl
  rw [isPacketReceived_eq (response.fillable.setInfo _) (by rw [info_is]; exact response.not_all)
    (by rw [info_is]; exact marks.valid.winStart) inSpace, info_is, lenOf,
    marks.marked seq inSpace, Option.some_inj, Bool.and_eq_true, decide_eq_true_iff]
  dsimp only
  constructor
  · rintro ⟨room, set⟩
    rw [bits _ room] at set
    exact ⟨set, by omega⟩
  · rintro ⟨set, room⟩
    rw [bits _ (by omega)]
    exact ⟨by omega, set⟩

/-- **Block Ack soundness.** A filled response, and what is read back of it, says that a packet was
received exactly for the sequence numbers that were received since the window last covered them
and that the bitmap has room for. -/
theorem block_ack_sound {startingSeq size : Nat} (inSpace : startingSeq < 4096) (pos : 0 < size)
    (fits : size ≤ 2048) (events : List (RecipientEvent Body)) {s : RecipientBlockAckAgreement Body}
    {heard : List Nat} (run : heardRun (create startingSeq size) [] events = (s, heard))
    {h : CtrlBAckResponseHeader} {index : Nat} (response : Response h index) :
    ∃ filled bytes, s.fillBlockAckBitmap h index = some filled ∧ filled.serialize = some bytes ∧
      ∀ blank : CtrlBAckResponseHeader, ∃ received, blank.deserialize bytes = some received ∧
        ∀ seq < 4096, (filled.isPacketReceived seq index = some true ↔
            seq ∈ heard ∧ getDistance seq s.scoreboard.winStart < 8 * h.lenOf index) ∧
          received.isPacketReceived seq index = filled.isPacketReceived seq index := by
  have created : Marks (create startingSeq size : RecipientBlockAckAgreement Body).scoreboard [] :=
    marks_create inSpace pos
  have created_fits : (create startingSeq size :
      RecipientBlockAckAgreement Body).scoreboard.winSize ≤ 2048 := by
    unfold RecipientBlockAckAgreement.create
    rwa [winSize_init]
  obtain ⟨marks, window_fits⟩ := created.run created_fits events
  rw [run] at marks window_fits
  obtain ⟨info, is, start, length, same, tells⟩ := marks.filled window_fits response
  have start_small : info.startingSeq < 4096 := by
    rw [start]
    exact marks.valid.winStart
  have info_is := info_setInfo response.fillable.lt info
  have not_all : ¬ ((h.setInfo index info).variant = .multiSta ∧
      ((h.setInfo index info).info index).ackType = true) := by
    rw [info_is]
    unfold BaInfoInstance.ackType
    rw [same]
    exact response.not_all
  obtain ⟨bytes, -, sent, -, -⟩ := deserialize_serialize response start_small length same h
  refine ⟨_, bytes, is, sent, ?_⟩
  intro blank
  obtain ⟨bytes', received, sent', read, alike⟩ :=
    deserialize_serialize response start_small length same blank
  cases sent.symm.trans sent'
  refine ⟨received, read, ?_⟩
  intro seq inSpace'
  refine ⟨tells seq inSpace', ?_⟩
  apply isPacketReceived_alike (response.fillable.setInfo info) alike not_all _ inSpace'
  rw [info_is]
  exact start_small

/-- The type of a response with a bitmap of 8 bytes. -/
def compressedResponse : CtrlBAckResponseHeader :=
  setType ⟨true, .basic, [], 0, []⟩ .compressed [8]

/-- The window of 4 moves past 4095, so that only 3 is heard. -/
theorem heard_after_wrap : ∃ filled bytes, (heardRun (create 4094 4) []
        [.receivedMpdu (⟨4095, ()⟩ : WifiMpdu Unit), .receivedMpdu ⟨3, ()⟩]).1.fillBlockAckBitmap
          compressedResponse 0 = some filled ∧ filled.serialize = some bytes ∧
      ∀ blank : CtrlBAckResponseHeader, ∃ received, blank.deserialize bytes = some received ∧
        ∀ seq < 4096, (filled.isPacketReceived seq 0 = some true ↔
            seq ∈ [3] ∧ getDistance seq 0 < 8 * compressedResponse.lenOf 0) ∧
          received.isPacketReceived seq 0 = filled.isPacketReceived seq 0 :=
  block_ack_sound (by decide) (by decide) (by decide) _ (Prod.ext rfl (by decide))
    (.compressed rfl (.inl rfl) rfl rfl)

end Ns3.Wifi
