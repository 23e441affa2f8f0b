import Ns3.Rlc.AmHeaderCodec

/-!
# What comes back of an `LteRlcAmHeader`

A STATUS PDU comes back as it was. Of a data PDU the high byte of the segment
offset is not shifted into its place, and the extension bits end at the first
zero.
-/

namespace Ns3.Rlc

open List Option Nat LteRlcHeader LteRlcAmHeader

namespace AmHeader

open LteRlcHeader (writeLis readLis bitsFor lisLength shift_or_eq lowByte_eq)

/-- A data PDU, made with the functions of the class. -/
def ofData (chance resegFlag pollingBit framingInfo lsf segmentOffset : Nat)
    (sequenceNumber : SequenceNumber10) (bits lis : List Nat) : AmHeader :=
  let h := ((create chance).setDataPdu.setResegmentationFlag resegFlag).setPollingBit pollingBit
  let h := ((h.setFramingInfo framingInfo).setLastSegmentFlag lsf).setSegmentOffset segmentOffset
  lis.foldl pushLengthIndicator (bits.foldl pushExtensionBit (h.setSequenceNumber sequenceNumber))

/-- A STATUS PDU, made with the functions of the class. -/
def ofStatus (chance : Nat) (ackSn : SequenceNumber10) (nacks : List Nat) : AmHeader :=
  nacks.foldl pushNack (((create chance).setControlPdu statusPdu).setAckSn ackSn)

/-- The bytes of a STATUS PDU with so many NACKs. -/
def statusLength (nacks : Nat) : Nat := 2 + 3 * (nacks / 2) + 2 * (nacks % 2)

theorem statusLength_succ (nacks : Nat) :
    statusLength (nacks + 1) = 4 + (3 * (nacks / 2) + nacks % 2) := by
  unfold statusLength
  omega

/-! ## The pushes -/

theorem pushNack_eq (h : AmHeader) (nack : Nat)
    (length : h.headerLength = statusLength h.nackSnList.length % 65536) :
    h.pushNack nack = { h with
      nackSnList := h.nackSnList ++ [nack]
      headerLength := statusLength (h.nackSnList.length + 1) % 65536 } := by
  unfold pushNack statusLength at *
  simp only [length_append, length_singleton]
  split
  · rename_i even
    have grown : (h.headerLength + 1) % 65536 =
        (2 + 3 * ((h.nackSnList.length + 1) / 2) + 2 * ((h.nackSnList.length + 1) % 2)) % 65536 := by
      omega
    unfold grow
    rw [← grown]
  · rename_i odd
    have grown : (h.headerLength + 2) % 65536 =
        (2 + 3 * ((h.nackSnList.length + 1) / 2) + 2 * ((h.nackSnList.length + 1) % 2)) % 65536 := by
      omega
    unfold grow
    rw [← grown]

theorem foldl_pushNack (nacks : List Nat) (h : AmHeader)
    (length : h.headerLength = statusLength h.nackSnList.length % 65536) :
    nacks.foldl pushNack h = { h with
      nackSnList := h.nackSnList ++ nacks
      headerLength := statusLength (h.nackSnList.length + nacks.length) % 65536 } := by
  induction nacks generalizing h with
  | nil => simp [← length]
  | cons nack nacks ih =>
    rw [foldl_cons, pushNack_eq h nack length, ih]
    · simp [add_assoc, add_comm 1]
    · simp

theorem pushExtensionBit_eq (h : AmHeader) (bit : Nat)
    (length : h.headerLength = lengthFor h.extensionBits.length % 65536) :
    h.pushExtensionBit bit = { h with
      extensionBits := h.extensionBits ++ [bit]
      headerLength := lengthFor (h.extensionBits.length + 1) % 65536 } := by
  unfold pushExtensionBit grow
  simp only [length_append, length_singleton, lengthFor_succ, length]
  split
  · split <;> simp only [mod_add_mod]
  · rfl

theorem foldl_pushExtensionBit (bits : List Nat) (h : AmHeader)
    (length : h.headerLength = lengthFor h.extensionBits.length % 65536) :
    bits.foldl pushExtensionBit h = { h with
      extensionBits := h.extensionBits ++ bits
      headerLength := lengthFor (h.extensionBits.length + bits.length) % 65536 } := by
  induction bits generalizing h with
  | nil => simp [← length]
  | cons bit bits ih =>
    rw [foldl_cons, pushExtensionBit_eq h bit length, ih]
    · simp [add_assoc, add_comm 1]
    · simp

theorem foldl_pushLengthIndicator (lis : List Nat) (h : AmHeader) :
    lis.foldl pushLengthIndicator h =
      { h with lengthIndicators := h.lengthIndicators ++ lis } := by
  induction lis generalizing h with
  | nil => simp
  | cons li lis ih => simp [ih, pushLengthIndicator]

theorem ofData_eq (chance resegFlag pollingBit framingInfo lsf segmentOffset : Nat)
    (sequenceNumber : SequenceNumber10) (bits lis : List Nat) :
    ofData chance resegFlag pollingBit framingInfo lsf segmentOffset sequenceNumber bits lis =
      { create chance with
        headerLength := lengthFor bits.length % 65536
        dataControlBit := dataPdu
        resegmentationFlag := resegFlag % 2
        pollingBit := pollingBit % 2
        framingInfo := framingInfo % 4
        lastSegmentFlag := lsf % 2
        segmentOffset := segmentOffset % 2 ^ 15
        sequenceNumber := sequenceNumber.value
        extensionBits := bits
        lengthIndicators := lis } := by
  have bit : ∀ n : Nat, n &&& 0x01 = n % 2 := fun n => and_two_pow_sub_one_eq_mod n 1
  have two : ∀ n : Nat, n &&& 0x03 = n % 4 := fun n => and_two_pow_sub_one_eq_mod n 2
  have fifteen : ∀ n : Nat, n &&& 0x7FFF = n % 2 ^ 15 :=
    fun n => and_two_pow_sub_one_eq_mod n 15
  unfold ofData
  have start : 4 = lengthFor 0 % 65536 := by decide
  rw [foldl_pushLengthIndicator, foldl_pushExtensionBit _ _ start]
  simp only [setResegmentationFlag, setPollingBit, setFramingInfo, setLastSegmentFlag,
    setSegmentOffset, setSequenceNumber, setDataPdu, bit, two, fifteen, create, nil_append,
    length_nil, zero_add]

theorem ofStatus_eq (chance : Nat) (ackSn : SequenceNumber10) (nacks : List Nat) :
    ofStatus chance ackSn nacks =
      { create chance with
        headerLength := statusLength nacks.length % 65536
        dataControlBit := controlPdu
        controlPduType := statusPdu
        ackSn := ackSn.value
        nackSnList := nacks } := by
  have start : 2 = statusLength 0 % 65536 := by decide
  unfold ofStatus
  rw [foldl_pushNack _ _ start]
  simp [setAckSn, setControlPdu, create]

/-! ## NACKs -/

variable {m t : Nat} {lis bits : List Nat}

/-- The bytes around a NACK that begins at the end of one byte and ends in the next but one. -/
theorem oddNack_fields {nack : Nat} (small : nack < 1024) (hm : m < 2) (ht : t < 32) :
    let byte := ((nack <<< 7) &&& 0x80) ||| (m * 0x40) ||| (t &&& 0x1F)
    byte < 256 ∧ (byte &&& 0x40) >>> 6 = m ∧ byte &&& 0x1F = t ∧
      ((nack >>> 9) <<< 9) ||| (((nack >>> 1) &&& 0xFF) <<< 1) ||| ((byte &&& 0x80) >>> 7) =
        nack := by
  have top : (nack <<< 7) &&& 0x80 = nack % 2 * 0x80 := by
    have all : ∀ nack < 1024, (nack <<< 7) &&& 0x80 = nack % 2 * 0x80 := by decide +kernel
    exact all nack small
  have parts : ((nack >>> 9) <<< 9) ||| (((nack >>> 1) &&& 0xFF) <<< 1) ||| nack % 2 = nack := by
    have all : ∀ nack < 1024,
        ((nack >>> 9) <<< 9) ||| (((nack >>> 1) &&& 0xFF) <<< 1) ||| nack % 2 = nack := by
      decide +kernel
    exact all nack small
  have fields : ∀ b < 2, ∀ m < 2, ∀ t < 32,
      let byte := (b * 0x80) ||| (m * 0x40) ||| (t &&& 0x1F)
      byte < 256 ∧ (byte &&& 0x40) >>> 6 = m ∧ byte &&& 0x1F = t ∧ (byte &&& 0x80) >>> 7 = b := by
    decide +kernel
  obtain ⟨low, more, high, last⟩ := fields (nack % 2) (by omega) m hm t ht
  rw [top]
  refine ⟨low, more, high, ?_⟩
  rw [last, parts]

/-- The byte with the end of an even NACK and the first bit of the one after it. -/
theorem evenNack_fields {nack : Nat} (small : nack < 1024) (hm : m < 2) (ht : t < 2) :
    let byte := ((nack <<< 3) &&& 0xF8) ||| (m * 0x04) ||| (t &&& 0x01)
    byte < 256 ∧ (byte &&& 0x04) >>> 2 = m ∧ byte &&& 0x01 = t ∧
      ((nack >>> 5) <<< 5) ||| ((byte &&& 0xF8) >>> 3) = nack := by
  have low : (nack <<< 3) &&& 0xF8 = nack % 2 ^ 5 * 8 := by
    have all : ∀ nack < 1024, (nack <<< 3) &&& 0xF8 = nack % 2 ^ 5 * 8 := by decide +kernel
    exact all nack small
  have fields : ∀ b < 32, ∀ m < 2, ∀ t < 2,
      let byte := (b * 8) ||| (m * 0x04) ||| (t &&& 0x01)
      byte < 256 ∧ (byte &&& 0x04) >>> 2 = m ∧ byte &&& 0x01 = t ∧ (byte &&& 0xF8) >>> 3 = b := by
    decide +kernel
  obtain ⟨lt, more, first, five⟩ := fields (nack % 2 ^ 5) (by omega) m hm t ht
  rw [low]
  refine ⟨lt, more, first, ?_⟩
  rw [five, shift_or_eq]

theorem middleByte_lt (nack : Nat) : (nack >>> 1) &&& 0xFF < 256 := lt_succ_of_le and_le_right

theorem readNacks_done {byte : UInt8} (done : (readU8 byte &&& 0x40) >>> 6 = 0)
    (bytes : List UInt8) : readNacks byte bytes = some ([], 0) := by
  cases bytes <;> simp [readNacks, done]

/-- **NACKs.** What the loop of `Serialize` writes, that of `Deserialize` reads back. -/
theorem readNacks_writeNacks : ∀ (nack : Nat) (nacks : List Nat), (∀ n ∈ nack :: nacks, n < 1024) →
    ∃ byte3 byte4 bytes, writeNacks (nack :: nacks) = byte3 :: byte4 :: bytes ∧
      ((nack >>> 9) <<< 9) ||| (readU8 byte3 <<< 1) ||| ((readU8 byte4 &&& 0x80) >>> 7) = nack ∧
      (∀ rest, readNacks byte4 (bytes ++ rest) =
        some (nacks, 3 * (nacks.length / 2) + nacks.length % 2)) ∧
      bytes.length = 3 * (nacks.length / 2) + nacks.length % 2
  | nack, [], small => by
    obtain ⟨low, more, -, value⟩ := oddNack_fields (small nack (by simp)) (show 0 < 2 by decide)
      (show 0 < 32 by decide)
    simp only [Nat.zero_mul, zero_and, or_zero] at low more value
    refine ⟨_, _, [], rfl, ?_, fun rest => readNacks_done ?_ rest, rfl⟩
    · rw [readU8_writeU8 (middleByte_lt nack), readU8_writeU8 low, value]
    · rw [readU8_writeU8 low, more]
  | nack, [even], small => by
    have even_lt := small even (by simp)
    have high : even >>> 5 < 32 := by
      rw [shiftRight_eq_div_pow]
      omega
    obtain ⟨low, more, five, value⟩ := oddNack_fields (small nack (by simp))
      (show 1 < 2 by decide) high
    obtain ⟨low', more', -, value'⟩ := evenNack_fields even_lt (show 0 < 2 by decide)
      (show 0 < 2 by decide)
    simp only [Nat.zero_mul, zero_and, or_zero] at low' more' value'
    refine ⟨_, _, _, rfl, ?_, fun rest => ?_, by simp⟩
    · rw [readU8_writeU8 (middleByte_lt nack), readU8_writeU8 low, value]
    · rw [cons_append, readNacks]
      simp only [readU8_writeU8 low, readU8_writeU8 low', more, more', five, value']
      simp
  | nack, even :: next :: nacks, small => by
    have even_lt := small even (by simp)
    have next_lt := small next (by simp)
    have high : even >>> 5 < 32 := by
      rw [shiftRight_eq_div_pow]
      omega
    have top : next >>> 9 < 2 := by
      rw [shiftRight_eq_div_pow]
      omega
    obtain ⟨low, more, five, value⟩ := oddNack_fields (small nack (by simp))
      (show 1 < 2 by decide) high
    obtain ⟨low', more', first, value'⟩ := evenNack_fields even_lt (show 1 < 2 by decide) top
    obtain ⟨byte3, byte4, bytes, written, value'', reads, length⟩ :=
      readNacks_writeNacks next nacks fun n mem => small n (by simp_all)
    refine ⟨_, _, _, rfl, ?_, fun rest => ?_, ?_⟩
    · rw [readU8_writeU8 (middleByte_lt nack), readU8_writeU8 low, value]
    · rw [written, cons_append, cons_append, cons_append, readNacks]
      simp only [readU8_writeU8 low, readU8_writeU8 low', more, more', five, value', first, value'',
        reads, if_true, bind_eq_bind, bind_some, length_cons]
      have count : 3 * (nacks.length / 2) + nacks.length % 2 + 3 =
          3 * ((nacks.length + 1 + 1) / 2) + (nacks.length + 1 + 1) % 2 := by omega
      rw [count]
      rfl
    · rw [written]
      simp only [length_cons]
      omega

/-! ## STATUS PDUs -/

/-- The fields of a STATUS PDU, and the length. -/
structure SameStatus (h h' : AmHeader) : Prop where
  headerLength : h'.headerLength = h.headerLength
  dataControlBit : h'.dataControlBit = h.dataControlBit
  controlPduType : h'.controlPduType = h.controlPduType
  ackSn : h'.ackSn = h.ackSn
  nackSnList : h'.nackSnList = h.nackSnList

/-- As many bytes are written as the size says, and a fresh header reads the fields back,
whatever comes after them. -/
def RoundTrips (same : AmHeader → AmHeader → Prop) (h : AmHeader) : Prop :=
  h.serialize.length = h.getSerializedSize ∧ ∀ chance rest, ∃ h',
    (create chance).deserialize (h.serialize ++ rest) = some h' ∧ same h h'

theorem ackBytes {ackSn : Nat} (small : ackSn < 1024) (hm : m < 2) (ht : t < 2) :
    let byte1 := ((controlPdu <<< 7) &&& 0x80) ||| ((statusPdu <<< 4) &&& 0x70) |||
      ((ackSn >>> 6) &&& 0x0F)
    let byte2 := ((ackSn <<< 2) &&& 0xFC) ||| (m * 0x02) ||| (t &&& 0x01)
    byte1 < 256 ∧ byte2 < 256 ∧ (byte1 &&& 0x80) >>> 7 = controlPdu ∧
      (byte1 &&& 0x70) >>> 4 = statusPdu ∧
      ((byte1 &&& 0x0F) <<< 6) ||| ((byte2 &&& 0xFC) >>> 2) = ackSn ∧
      (byte2 &&& 0x02) >>> 1 = m ∧ byte2 &&& 0x01 = t := by
  have low : (ackSn <<< 2) &&& 0xFC = ackSn % 2 ^ 6 * 4 := by
    have all : ∀ ackSn < 1024, (ackSn <<< 2) &&& 0xFC = ackSn % 2 ^ 6 * 4 := by decide +kernel
    exact all ackSn small
  have high : ∀ a < 16, let byte1 := ((controlPdu <<< 7) &&& 0x80) |||
      ((statusPdu <<< 4) &&& 0x70) ||| (a &&& 0x0F)
      byte1 < 256 ∧ (byte1 &&& 0x80) >>> 7 = controlPdu ∧ (byte1 &&& 0x70) >>> 4 = statusPdu ∧
        byte1 &&& 0x0F = a := by
    decide
  have fields : ∀ b < 64, ∀ m < 2, ∀ t < 2, let byte2 := (b * 4) ||| (m * 0x02) ||| (t &&& 0x01)
      byte2 < 256 ∧ (byte2 &&& 0xFC) >>> 2 = b ∧ (byte2 &&& 0x02) >>> 1 = m ∧
        byte2 &&& 0x01 = t := by decide +kernel
  obtain ⟨lt, kind, type, four⟩ := high (ackSn >>> 6) (by
    rw [shiftRight_eq_div_pow]
    omega)
  obtain ⟨lt', six, more, last⟩ := fields (ackSn % 2 ^ 6) (by omega) m hm t ht
  rw [low]
  exact ⟨lt, lt', kind, type, by rw [four, six, shift_or_eq], more, last⟩

theorem serialize_ofStatus (chance : Nat) (ackSn : SequenceNumber10) (nacks : List Nat) :
    (ofStatus chance ackSn nacks).serialize =
      writeU8 (((controlPdu <<< 7) &&& 0x80) ||| ((statusPdu <<< 4) &&& 0x70) |||
        ((ackSn.value >>> 6) &&& 0x0F)) ::
      match nacks with
      | [] => [writeU8 ((ackSn.value <<< 2) &&& 0xFC)]
      | nack :: nacks =>
        writeU8 (((ackSn.value <<< 2) &&& 0xFC) ||| 0x02 ||| ((nack >>> 9) &&& 0x01)) ::
        writeNacks (nack :: nacks) := by
  rw [ofStatus_eq]
  rfl

/-- What is written of a STATUS PDU and what is read of it, up to the wrap of the length. -/
theorem status_spec (chance : Nat) {ackSn : SequenceNumber10} (ackSn_lt : ackSn.value < 1024)
    {nacks : List Nat} (small : ∀ n ∈ nacks, n < 1024) :
    (ofStatus chance ackSn nacks).serialize.length = statusLength nacks.length ∧
      ∀ chance' rest, ∃ h', (create chance').deserialize
        ((ofStatus chance ackSn nacks).serialize ++ rest) = some h' ∧
          SameStatus (ofStatus chance ackSn nacks) h' := by
  rw [serialize_ofStatus, ofStatus_eq]
  cases nacks with
  | nil =>
    refine ⟨rfl, fun chance' rest => ?_⟩
    obtain ⟨lt, lt', kind, type, ack, more, -⟩ := ackBytes ackSn_lt (show 0 < 2 by decide)
      (show 0 < 2 by decide)
    simp only [Nat.zero_mul, zero_and, or_zero] at lt' ack more
    simp only [cons_append, nil_append, deserialize, deserializeStatus,
      readU8_writeU8 lt, readU8_writeU8 lt', kind, type, ack, more]
    exact ⟨_, rfl, rfl, rfl, rfl, rfl, rfl⟩
  | cons nack nacks =>
    have top : nack >>> 9 < 2 := by
      have := small nack (by simp)
      rw [shiftRight_eq_div_pow]
      omega
    obtain ⟨lt, lt', kind, type, ack, more, first⟩ := ackBytes ackSn_lt (show 1 < 2 by decide) top
    obtain ⟨byte3, byte4, bytes, written, value, reads, length⟩ :=
      readNacks_writeNacks nack nacks small
    dsimp only
    rw [written]
    constructor
    · simp only [length_cons, statusLength_succ]
      omega
    · intro chance' rest
      have total : (4 + (3 * (nacks.length / 2) + nacks.length % 2)) % 65536 =
          statusLength (nacks.length + 1) % 65536 := by rw [statusLength_succ]
      simp only [cons_append, deserialize, deserializeStatus, readU8_writeU8 lt,
        readU8_writeU8 lt', kind, type, ack, more, first, value, reads, bind_eq_bind,
        bind_some, if_true]
      exact ⟨_, rfl, total, rfl, rfl, rfl, rfl⟩

/-! ## Data PDUs -/

/-- The fields of a data PDU, and the length. -/
structure SameData (h h' : AmHeader) : Prop where
  headerLength : h'.headerLength = h.headerLength
  dataControlBit : h'.dataControlBit = h.dataControlBit
  resegmentationFlag : h'.resegmentationFlag = h.resegmentationFlag
  pollingBit : h'.pollingBit = h.pollingBit
  framingInfo : h'.framingInfo = h.framingInfo
  sequenceNumber : h'.sequenceNumber = h.sequenceNumber
  lastSegmentFlag : h'.lastSegmentFlag = h.lastSegmentFlag
  segmentOffset : h'.segmentOffset = h.segmentOffset
  extensionBits : h'.extensionBits = h.extensionBits
  lengthIndicators : h'.lengthIndicators = h.lengthIndicators

theorem dataByte_fields {rf p fi e s : Nat} (hr : rf < 2) (hp : p < 2) (hf : fi < 4) (he : e < 2)
    (hs : s < 4) :
    let byte1 := ((dataPdu <<< 7) &&& 0x80) ||| ((rf <<< 6) &&& 0x40) ||| ((p <<< 5) &&& 0x20) |||
      ((fi <<< 3) &&& 0x18) ||| ((e <<< 2) &&& 0x04) ||| (s &&& 0x0003)
    byte1 < 256 ∧ (byte1 &&& 0x80) >>> 7 = dataPdu ∧ (byte1 &&& 0x40) >>> 6 = rf ∧
      (byte1 &&& 0x20) >>> 5 = p ∧ (byte1 &&& 0x18) >>> 3 = fi ∧ (byte1 &&& 0x04) >>> 2 = e ∧
      byte1 &&& 0x03 = s := by
  have all : ∀ rf p e : Fin 2, ∀ fi s : Fin 4,
      let byte1 := ((dataPdu <<< 7) &&& 0x80) ||| ((rf.val <<< 6) &&& 0x40) |||
        ((p.val <<< 5) &&& 0x20) ||| ((fi.val <<< 3) &&& 0x18) ||| ((e.val <<< 2) &&& 0x04) |||
        (s.val &&& 0x0003)
      byte1 < 256 ∧ (byte1 &&& 0x80) >>> 7 = dataPdu ∧ (byte1 &&& 0x40) >>> 6 = rf ∧
        (byte1 &&& 0x20) >>> 5 = p ∧ (byte1 &&& 0x18) >>> 3 = fi ∧ (byte1 &&& 0x04) >>> 2 = e ∧
        byte1 &&& 0x03 = s := by decide +kernel
  exact all ⟨rf, hr⟩ ⟨p, hp⟩ ⟨e, he⟩ ⟨fi, hf⟩ ⟨s, hs⟩

/-- Ones and a zero at the end. -/
def Closed (es : List Nat) : Prop := ∃ k, es = List.replicate k 1 ++ [0]

theorem Closed.cons {es : List Nat} (closed : Closed es) : Closed (1 :: es) := by
  obtain ⟨k, rfl⟩ := closed
  exact ⟨k + 1, rfl⟩

theorem bit_of_ne {n : Nat} (bit : n < 2) (other : n ≠ 1) : n = 0 := by omega

theorem highBit_lt (byte : UInt8) : (readU8 byte &&& 0x80) >>> 7 < 2 := by
  have : readU8 byte &&& 0x80 ≤ 0x80 := and_le_right
  rw [shiftRight_eq_div_pow]
  omega

theorem eighthBit_lt (byte : UInt8) : (readU8 byte &&& 0x08) >>> 3 < 2 := by
  have : readU8 byte &&& 0x08 ≤ 0x08 := and_le_right
  rw [shiftRight_eq_div_pow]
  omega

theorem readLis_closed : ∀ (bytes : List UInt8) {es lis : List Nat} {n : Nat},
    readLis bytes = some (es, lis, n) → Closed es
  | [], _, _, _, done => by simp [readLis] at done
  | [_], _, _, _, done => by simp [readLis] at done
  | byte1 :: byte2 :: bytes, es, lis, n, done => by
    unfold readLis at done
    dsimp only at done
    by_cases odd : (readU8 byte1 &&& 0x80) >>> 7 = 1
    · simp only [odd, eLiFieldsFollows, if_true] at done
      cases bytes with
      | nil => simp at done
      | cons byte3 bytes =>
        dsimp only at done
        by_cases even : (readU8 byte2 &&& 0x08) >>> 3 = 1
        · simp only [even, if_true] at done
          obtain ⟨⟨es', lis', n'⟩, later, same⟩ := bind_eq_some_iff.mp done
          cases same
          exact (readLis_closed bytes later).cons.cons
        · have zero := bit_of_ne (eighthBit_lt byte2) even
          simp only [zero, Nat.zero_ne_one, if_false, Option.some.injEq, Prod.mk.injEq] at done
          obtain ⟨rfl, -, -⟩ := done
          exact ⟨1, rfl⟩
    · have zero := bit_of_ne (highBit_lt byte1) odd
      simp only [zero, eLiFieldsFollows, Nat.zero_ne_one, if_false, Option.some.injEq,
        Prod.mk.injEq] at done
      obtain ⟨rfl, -, -⟩ := done
      exact ⟨0, rfl⟩

theorem deserializeData_closed {h h' : AmHeader} (fresh : h.extensionBits = []) {size : Nat}
    {byte1 : UInt8} {bytes : List UInt8}
    (done : h.deserializeData size byte1 bytes = some h') : Closed h'.extensionBits := by
  unfold deserializeData at done
  split at done
  · rename_i byte2 byte3 byte4 bytes
    dsimp only at done
    by_cases last : (readU8 byte1 &&& 0x04) >>> 2 = dataFieldFollows
    · rw [if_pos last] at done
      cases done
      exact ⟨0, by simp [fresh, last, dataFieldFollows]⟩
    · rw [if_neg last] at done
      obtain ⟨⟨es, lis, n⟩, reads, same⟩ := bind_eq_some_iff.mp done
      have bit : (readU8 byte1 &&& 0x04) >>> 2 = 1 := by
        have : readU8 byte1 &&& 0x04 ≤ 0x04 := and_le_right
        unfold dataFieldFollows at last
        rw [shiftRight_eq_div_pow] at last ⊢
        omega
      have closed := (readLis_closed bytes reads).cons
      rw [bit, fresh] at same
      cases same
      split <;> exact closed
  · simp at done

theorem serialize_ofData (chance resegFlag pollingBit framingInfo lsf segmentOffset : Nat)
    (sequenceNumber : SequenceNumber10) (bits lis : List Nat) :
    (ofData chance resegFlag pollingBit framingInfo lsf segmentOffset sequenceNumber bits
      lis).serialize =
      writeU8 (((dataPdu <<< 7) &&& 0x80) ||| (((resegFlag % 2) <<< 6) &&& 0x40) |||
        (((pollingBit % 2) <<< 5) &&& 0x20) ||| (((framingInfo % 4) <<< 3) &&& 0x18) |||
        ((bits.headD 0 <<< 2) &&& 0x04) ||| ((sequenceNumber.value >>> 8) &&& 0x0003)) ::
      writeU8 (sequenceNumber.value &&& 0x00FF) ::
      writeU8 ((((lsf % 2) <<< 7) &&& 0x80) ||| (((segmentOffset % 2 ^ 15) >>> 8) &&& 0x007F)) ::
      writeU8 (segmentOffset % 2 ^ 15 &&& 0x00FF) :: writeLis bits.tail lis := by
  rw [ofData_eq]
  unfold serialize
  rw [if_pos rfl]

theorem deserialize_data (chance : Nat) {byte1 : UInt8}
    (kind : (readU8 byte1 &&& 0x80) >>> 7 = dataPdu) (bytes : List UInt8) :
    (create chance).deserialize (byte1 :: bytes) =
      { create chance with dataControlBit := dataPdu }.deserializeData (1 + bytes.length) byte1
        bytes := by
  unfold deserialize
  dsimp only
  simp [kind]

theorem lengthFor_bitsFor (lis : List Nat) :
    lengthFor (bitsFor lis).length = 4 + lisLength lis := by
  rw [UmTransmitter.bitsFor_eq, UmTransmitter.lisLength_eq, length_append,
    length_replicate, length_singleton]
  unfold lengthFor
  simp [add_assoc]

variable (chance resegFlag pollingBit framingInfo lsf segmentOffset : Nat)
  {sequenceNumber : SequenceNumber10}

/-- What is written of a data PDU whose ones stand for its length indicators, and what is
read of it. Of the segment offset the two bytes are put over one another. -/
theorem data_spec (small_sn : sequenceNumber.value < 1024) (small : ∀ li ∈ lis, li < 2048) :
    let h := ofData chance resegFlag pollingBit framingInfo lsf segmentOffset sequenceNumber
      (bitsFor lis) lis
    h.serialize.length = 4 + lisLength lis ∧ ∀ chance' rest, ∃ h',
      (create chance').deserialize (h.serialize ++ rest) = some h' ∧
        h'.segmentOffset = (segmentOffset % 2 ^ 15) >>> 8 ||| segmentOffset % 2 ^ 8 ∧
        SameData { h with segmentOffset := h'.segmentOffset } h' := by
  have high : sequenceNumber.value >>> 8 < 4 := by
    rw [shiftRight_eq_div_pow]
    omega
  have high' : (segmentOffset % 2 ^ 15) >>> 8 < 128 := by
    rw [shiftRight_eq_div_pow]
    omega
  have low : readU8 (writeU8 (sequenceNumber.value &&& 0x00FF)) = sequenceNumber.value % 2 ^ 8 := by
    rw [lowByte_eq, readU8_writeU8 (by omega)]
    rfl
  have low' : readU8 (writeU8 (segmentOffset % 2 ^ 15 &&& 0x00FF)) = segmentOffset % 2 ^ 8 := by
    rw [lowByte_eq, readU8_writeU8 (by omega)]
    omega
  obtain ⟨lt, last, offset⟩ := oddByte_fields (mod_lt lsf Nat.two_pos) high'
  dsimp only
  rw [serialize_ofData]
  cases lis with
  | nil =>
    obtain ⟨lt', kind, reseg, poll, framing, bit, top⟩ := dataByte_fields
      (mod_lt resegFlag Nat.two_pos) (mod_lt pollingBit Nat.two_pos)
      (mod_lt framingInfo (show 0 < 4 by decide)) (show 0 < 2 by decide) high
    rw [← readU8_writeU8 lt'] at kind reseg poll framing bit top
    refine ⟨rfl, fun chance' rest => ?_⟩
    simp only [bitsFor, dataFieldFollows, headD_cons, cons_append]
    rw [deserialize_data chance' kind]
    unfold deserializeData
    simp only [readU8_writeU8 lt, last, offset, reseg, poll, framing, bit, top, low, low',
      shift_or_eq, dataFieldFollows, if_true]
    refine ⟨_, rfl, rfl, ?_⟩
    rw [ofData_eq]
    exact ⟨rfl, rfl, rfl, rfl, rfl, rfl, rfl, rfl, rfl, rfl⟩
  | cons li lis =>
    obtain ⟨lt', kind, reseg, poll, framing, bit, top⟩ := dataByte_fields
      (mod_lt resegFlag Nat.two_pos) (mod_lt pollingBit Nat.two_pos)
      (mod_lt framingInfo (show 0 < 4 by decide)) (show 1 < 2 by decide) high
    rw [← readU8_writeU8 lt'] at kind reseg poll framing bit top
    have length := writeLis_length (li :: lis)
    simp only [bitsFor_cons, headD_cons, tail_cons, cons_append] at length ⊢
    refine ⟨?_, fun chance' rest => ?_⟩
    · simp only [length_cons]
      omega
    rw [deserialize_data chance' kind]
    unfold deserializeData
    simp only [readU8_writeU8 lt, last, offset, reseg, poll, framing, bit, top, low, low',
      shift_or_eq, dataFieldFollows, readLis_writeLis rest li lis small,
      succ_ne_zero, if_false, bind_eq_bind, bind_some]
    have total : (1 + 3 + lisLength (li :: lis)) % 65536 =
        lengthFor (1 :: bitsFor lis).length % 65536 :=
      congrArg (· % 65536) (lengthFor_bitsFor (li :: lis)).symm
    rw [ofData_eq]
    by_cases segmented : resegFlag % 2 = segment
    · rw [if_pos segmented]
      exact ⟨_, rfl, rfl, total, rfl, rfl, rfl, rfl, rfl, rfl, rfl, rfl, rfl⟩
    · rw [if_neg segmented]
      exact ⟨_, rfl, rfl, total, rfl, rfl, rfl, rfl, rfl, rfl, rfl, rfl, rfl⟩

/-! ## Round trips -/

/-- Two bytes over one another make the number when the high one is zero. -/
theorem shift_or_mod_eq_iff {n : Nat} (offset : n < 2 ^ 15) :
    n >>> 8 ||| n % 2 ^ 8 = n ↔ n < 256 := by
  constructor
  · intro same
    have high : n >>> 8 < 2 ^ 8 := by
      rw [shiftRight_eq_div_pow]
      omega
    have both := or_lt_two_pow high (mod_lt n (Nat.two_pow_pos 8))
    rwa [same] at both
  · intro small
    have low : n % 2 ^ 8 = n := mod_eq_of_lt small
    rw [low, shiftRight_eq_div_pow, div_eq_of_lt small, zero_or]

/-- **STATUS PDUs** come back up to the length that 16 bits can hold. -/
theorem status_roundTrips_iff {ackSn : SequenceNumber10} (ackSn_lt : ackSn.value < 1024)
    {nacks : List Nat} (small : ∀ n ∈ nacks, n < 1024) :
    RoundTrips SameStatus (ofStatus chance ackSn nacks) ↔ statusLength nacks.length < 65536 := by
  obtain ⟨length, reads⟩ := status_spec chance ackSn_lt small
  have size : (ofStatus chance ackSn nacks).getSerializedSize =
      statusLength nacks.length % 65536 := by
    rw [ofStatus_eq]
    rfl
  unfold RoundTrips
  rw [length, size, and_iff_left reads]
  constructor
  · intro same
    rw [same]
    exact mod_lt _ (by decide)
  · intro short
    exact (mod_eq_of_lt short).symm

/-- A run of ones with a zero at the end is the extension bits of its length indicators. -/
theorem Closed.eq_bitsFor (closed : Closed bits) (ones : lis.length = bits.count 1) :
    bits = bitsFor lis := by
  obtain ⟨k, rfl⟩ := closed
  have count : (List.replicate k 1 ++ [0]).count 1 = k := by simp
  rw [UmTransmitter.bitsFor_eq, ones, count]
  rfl

theorem closed_iff (last : bits.getLast? = some 0) : Closed bits ↔ ∀ b ∈ bits.dropLast, b = 1 := by
  have split := dropLast_append_getLast? 0 last
  constructor
  · rintro ⟨k, rfl⟩ b mem
    rw [dropLast_concat] at mem
    exact eq_of_mem_replicate mem
  · intro ones
    refine ⟨bits.dropLast.length, ?_⟩
    rw [← eq_replicate_of_mem ones, split]

/-- Data PDUs whose ones stand for their length indicators. -/
theorem data_roundTrips_iff (small_sn : sequenceNumber.value < 1024)
    (small : ∀ li ∈ lis, li < 2048) :
    RoundTrips SameData (ofData chance resegFlag pollingBit framingInfo lsf segmentOffset
      sequenceNumber (bitsFor lis) lis) ↔
        segmentOffset % 2 ^ 15 < 256 ∧ 4 + lisLength lis < 65536 := by
  obtain ⟨length, reads⟩ := data_spec chance resegFlag pollingBit framingInfo lsf segmentOffset
    small_sn small
  have size : (ofData chance resegFlag pollingBit framingInfo lsf segmentOffset sequenceNumber
      (bitsFor lis) lis).getSerializedSize = (4 + lisLength lis) % 65536 := by
    rw [ofData_eq, ← lengthFor_bitsFor]
    rfl
  have offset : (ofData chance resegFlag pollingBit framingInfo lsf segmentOffset sequenceNumber
      (bitsFor lis) lis).segmentOffset = segmentOffset % 2 ^ 15 := by rw [ofData_eq]
  have parts : segmentOffset % 2 ^ 8 = segmentOffset % 2 ^ 15 % 2 ^ 8 :=
    (mod_mod_of_dvd segmentOffset (Nat.pow_dvd_pow 2 (by decide))).symm
  have bound : segmentOffset % 2 ^ 15 < 2 ^ 15 := mod_lt _ (Nat.two_pow_pos 15)
  unfold RoundTrips
  rw [length, size]
  constructor
  · rintro ⟨exact_, trips⟩
    constructor
    · obtain ⟨h', done, same⟩ := trips 0 []
      obtain ⟨h'', done', lost, -⟩ := reads 0 []
      cases done.symm.trans done'
      rw [same.segmentOffset, offset, parts] at lost
      exact (shift_or_mod_eq_iff bound).mp lost.symm
    · rw [exact_]
      exact mod_lt _ (by decide)
  · rintro ⟨low, short⟩
    refine ⟨(mod_eq_of_lt short).symm, fun chance' rest => ?_⟩
    obtain ⟨h', done, kept, same⟩ := reads chance' rest
    rw [parts, (shift_or_mod_eq_iff bound).mpr low] at kept
    refine ⟨h', done, same.1, same.2, same.3, same.4, same.5, same.6, same.7, ?_, same.9, same.10⟩
    rw [kept, offset]

/-- Extension bits with a zero before the last one do not come back. -/
theorem closed_of_roundTrips (small_sn : sequenceNumber.value < 1024)
    (binary : ∀ b ∈ bits, b < 2) (trips : RoundTrips SameData (ofData chance resegFlag pollingBit
      framingInfo lsf segmentOffset sequenceNumber bits lis)) : Closed bits := by
  have high : sequenceNumber.value >>> 8 < 4 := by
    rw [shiftRight_eq_div_pow]
    omega
  have first : bits.headD 0 < 2 := by
    cases bits with
    | nil => decide
    | cons b bits => exact binary b (by simp)
  obtain ⟨lt, kind, -⟩ := dataByte_fields (mod_lt resegFlag Nat.two_pos)
    (mod_lt pollingBit Nat.two_pos) (mod_lt framingInfo (show 0 < 4 by decide)) first high
  rw [← readU8_writeU8 lt] at kind
  obtain ⟨-, reads⟩ := trips
  obtain ⟨h', done, same⟩ := reads 0 []
  rw [serialize_ofData, cons_append, deserialize_data 0 kind] at done
  have closed := deserializeData_closed rfl done
  rw [same.extensionBits, ofData_eq] at closed
  exact closed

end AmHeader

open AmHeader

/-- **The codec.** A data PDU comes back if and only if the segment offset has no high byte,
the extension bits no zero but the last, and the length fits 16 bits. A STATUS PDU comes
back if and only if the length does. -/
theorem amHeader_roundTrips_iff (chance : Nat) :
    (∀ (resegFlag pollingBit framingInfo lsf segmentOffset : Nat)
      (sequenceNumber : SequenceNumber10) (bits lis : List Nat),
      sequenceNumber.value < 1024 → (∀ b ∈ bits, b < 2) → bits.getLast? = some 0 →
      lis.length = bits.count 1 → (∀ li ∈ lis, li < 2048) →
        (RoundTrips SameData (ofData chance resegFlag pollingBit framingInfo lsf segmentOffset
          sequenceNumber bits lis) ↔ segmentOffset % 2 ^ 15 < 256 ∧ (∀ b ∈ bits.dropLast, b = 1) ∧
              4 + lisLength lis < 65536)) ∧
    ∀ (ackSn : SequenceNumber10) (nacks : List Nat), ackSn.value < 1024 → (∀ n ∈ nacks, n < 1024) →
        (RoundTrips SameStatus (ofStatus chance ackSn nacks) ↔
          statusLength nacks.length < 65536) := by
  constructor
  · intro resegFlag pollingBit framingInfo lsf segmentOffset sequenceNumber bits lis small_sn
      binary last ones small
    have spec := fun closed : Closed bits => closed.eq_bitsFor ones ▸
      data_roundTrips_iff chance resegFlag pollingBit framingInfo lsf segmentOffset small_sn small
    rw [← closed_iff last]
    constructor
    · intro trips
      have closed := closed_of_roundTrips chance resegFlag pollingBit framingInfo lsf
        segmentOffset small_sn binary trips
      obtain ⟨low, short⟩ := (spec closed).mp trips
      exact ⟨low, closed, short⟩
    · rintro ⟨low, closed, short⟩
      exact (spec closed).mpr ⟨low, short⟩
  · intro ackSn nacks ackSn_lt small
    exact status_roundTrips_iff chance ackSn_lt small

/-- A segment at offset 255 with two length indicators. -/
theorem segment_round_trip : RoundTrips SameData
    (ofData 0 1 0 3 1 255 (SequenceNumber10.ofNat 1023) [1, 1, 0] [2047, 16]) :=
  ((amHeader_roundTrips_iff 0).1 1 0 3 1 255 (SequenceNumber10.ofNat 1023) [1, 1, 0] [2047, 16]
    (by decide) (by decide) rfl rfl (by decide)).mpr (by decide)

/-- A segment at offset 256 comes back with offset 1. -/
theorem offset_lost : ¬ RoundTrips SameData
    (ofData 0 1 0 3 1 256 (SequenceNumber10.ofNat 7) [0] []) := by
  rintro ⟨-, trips⟩
  obtain ⟨h', done, same⟩ := trips 0 []
  have offset := same.segmentOffset
  have one : ((create 0).deserialize ((ofData 0 1 0 3 1 256 (SequenceNumber10.ofNat 7) [0]
      []).serialize ++ [])).map AmHeader.segmentOffset = some 1 := by decide
  rw [done, map_some, offset] at one
  revert one
  decide

end Ns3.Rlc
