import Ns3.Rlc.SequenceNumber

/-!
# `LteRlcHeader`

The header of an UMD PDU: framing info, the first extension bit and the
sequence number in two bytes, then one extension bit and one 11-bit length
indicator for each SDU but the last, two of them in three bytes.
-/

namespace Ns3.Rlc

open List Nat SequenceNumber10

abbrev Packet := List UInt8

/-- `Buffer::Iterator::WriteU8`. -/
def writeU8 (n : Nat) : UInt8 := UInt8.ofNat n

def readU8 (b : UInt8) : Nat := b.toNat

@[simp]
theorem readU8_writeU8 {n : Nat} (h : n < 256) : readU8 (writeU8 n) = n := by
  simp only [readU8, writeU8, UInt8.toNat_ofNat']
  omega

structure LteRlcHeader where
  headerLength : Nat
  framingInfo : Nat
  sequenceNumber : SequenceNumber10
  extensionBits : List Nat
  lengthIndicators : List Nat
  deriving DecidableEq

namespace LteRlcHeader

def firstByte : Nat := 0x00
def noFirstByte : Nat := 0x02
def lastByte : Nat := 0x00
def noLastByte : Nat := 0x01

def dataFieldFollows : Nat := 0
def eLiFieldsFollows : Nat := 1

def create : LteRlcHeader := ⟨0, 0xff, ofNat 0xfffa, [], []⟩

def setFramingInfo (h : LteRlcHeader) (framingInfo : Nat) : LteRlcHeader :=
  { h with framingInfo := framingInfo &&& 0x03 }

def setSequenceNumber (h : LteRlcHeader) (sequenceNumber : SequenceNumber10) : LteRlcHeader :=
  { h with sequenceNumber := sequenceNumber }

def pushExtensionBit (h : LteRlcHeader) (extensionBit : Nat) : LteRlcHeader :=
  let extensionBits := h.extensionBits ++ [extensionBit]
  { h with
    extensionBits := extensionBits
    headerLength :=
      if extensionBits.length = 1 then 2
      else if extensionBits.length % 2 = 1 then h.headerLength + 1
      else h.headerLength + 2 }

def pushLengthIndicator (h : LteRlcHeader) (lengthIndicator : Nat) : LteRlcHeader :=
  { h with lengthIndicators := h.lengthIndicators ++ [lengthIndicator] }

/-- The loop of `Serialize`: an odd and an even length indicator a round. -/
def writeLis : List Nat → List Nat → List UInt8
  | oddE :: evenE :: es, oddLi :: evenLi :: lis =>
    writeU8 (((oddE <<< 7) &&& 0x80) ||| ((oddLi >>> 4) &&& 0x007F)) ::
    writeU8 (((oddLi <<< 4) &&& 0x00F0) ||| ((evenE <<< 3) &&& 0x08) |||
      ((evenLi >>> 8) &&& 0x0007)) ::
    writeU8 (evenLi &&& 0x00FF) :: writeLis es lis
  | oddE :: _, oddLi :: _ =>
    [writeU8 (((oddE <<< 7) &&& 0x80) ||| ((oddLi >>> 4) &&& 0x007F)),
      writeU8 ((oddLi <<< 4) &&& 0x00F0)]
  | _, _ => []

def serialize (h : LteRlcHeader) : List UInt8 :=
  writeU8 (((h.framingInfo <<< 3) &&& 0x18) ||| ((h.extensionBits.headD 0 <<< 2) &&& 0x04) |||
    ((h.sequenceNumber.value >>> 8) &&& 0x0003)) ::
  writeU8 (h.sequenceNumber.value &&& 0x00FF) ::
  writeLis h.extensionBits.tail h.lengthIndicators

/-- The loop of `Deserialize`, with the bytes it reads counted. `none` is a
read past the end of the packet. -/
def readLis : List UInt8 → Option (List Nat × List Nat × Nat)
  | byte1 :: byte2 :: rest =>
    let oddE := (readU8 byte1 &&& 0x80) >>> 7
    let oddLi := ((readU8 byte1 &&& 0x7F) <<< 4) ||| ((readU8 byte2 &&& 0xF0) >>> 4)
    if oddE = eLiFieldsFollows then
      match rest with
      | [] => none
      | byte3 :: rest =>
        let evenE := (readU8 byte2 &&& 0x08) >>> 3
        let evenLi := ((readU8 byte2 &&& 0x07) <<< 8) ||| (readU8 byte3 &&& 0xFF)
        if evenE = eLiFieldsFollows then do
          let (es, lis, n) ← readLis rest
          return (oddE :: evenE :: es, oddLi :: evenLi :: lis, n + 3)
        else
          some ([oddE, evenE], [oddLi, evenLi], 3)
    else
      some ([oddE], [oddLi], 2)
  | _ => none

def deserialize : List UInt8 → Option LteRlcHeader
  | byte1 :: byte2 :: rest =>
    let framingInfo := (readU8 byte1 &&& 0x18) >>> 3
    let sequenceNumber :=
      ofNat (((readU8 byte1 &&& 0x03) <<< 8) ||| readU8 byte2)
    let extensionBit := (readU8 byte1 &&& 0x04) >>> 2
    if extensionBit = dataFieldFollows then
      some ⟨2, framingInfo, sequenceNumber, [extensionBit], []⟩
    else do
      let (es, lis, n) ← readLis rest
      return ⟨2 + n, framingInfo, sequenceNumber, extensionBit :: es, lis⟩
  | _ => none

/-- `Packet::AddHeader`. -/
def addHeader (h : LteRlcHeader) (packet : Packet) : Packet := h.serialize ++ packet

/-- `Packet::RemoveHeader`. -/
def removeHeader (packet : Packet) : Option (LteRlcHeader × Packet) := do
  let h ← deserialize packet
  return (h, packet.drop h.headerLength)

/-! ## Round trip -/

/-- The extension bits that go with the length indicators. -/
def bitsFor : List Nat → List Nat
  | [] => [dataFieldFollows]
  | _ :: lis => eLiFieldsFollows :: bitsFor lis

/-- The bytes the length indicators take. -/
def lisLength : List Nat → Nat
  | [] => 0
  | [_] => 2
  | _ :: _ :: lis => 3 + lisLength lis

theorem firstByte_fields {fi e s : Nat} (hf : fi < 4) (he : e < 2) (hs : s < 4) :
    let b := ((fi <<< 3) &&& 0x18) ||| ((e <<< 2) &&& 0x04) ||| (s &&& 0x0003)
    b < 256 ∧ (b &&& 0x18) >>> 3 = fi ∧ (b &&& 0x04) >>> 2 = e ∧ b &&& 0x03 = s := by
  have all : ∀ fi < 4, ∀ e < 2, ∀ s < 4,
      let b := ((fi <<< 3) &&& 0x18) ||| ((e <<< 2) &&& 0x04) ||| (s &&& 0x0003)
      b < 256 ∧ (b &&& 0x18) >>> 3 = fi ∧ (b &&& 0x04) >>> 2 = e ∧ b &&& 0x03 = s := by
    decide
  exact all fi hf e he s hs

theorem oddByte_fields {e s : Nat} (he : e < 2) (hs : s < 128) :
    let b := ((e <<< 7) &&& 0x80) ||| (s &&& 0x007F)
    b < 256 ∧ (b &&& 0x80) >>> 7 = e ∧ b &&& 0x7F = s := by
  have all : ∀ e < 2, ∀ s < 128,
      let b := ((e <<< 7) &&& 0x80) ||| (s &&& 0x007F)
      b < 256 ∧ (b &&& 0x80) >>> 7 = e ∧ b &&& 0x7F = s := by decide +kernel
  exact all e he s hs

theorem lowNibble_eq {li : Nat} (h : li < 2048) : (li <<< 4) &&& 0x00F0 = li % 16 * 16 := by
  have all : ∀ li < 2048, (li <<< 4) &&& 0x00F0 = li % 16 * 16 := by decide +kernel
  exact all li h

theorem middleByte_fields {t e s : Nat} (ht : t < 16) (he : e < 2) (hs : s < 8) :
    let b := (t * 16) ||| ((e <<< 3) &&& 0x08) ||| (s &&& 0x0007)
    b < 256 ∧ (b &&& 0xF0) >>> 4 = t ∧ (b &&& 0x08) >>> 3 = e ∧ b &&& 0x07 = s := by
  have all : ∀ t < 16, ∀ e < 2, ∀ s < 8,
      let b := (t * 16) ||| ((e <<< 3) &&& 0x08) ||| (s &&& 0x0007)
      b < 256 ∧ (b &&& 0xF0) >>> 4 = t ∧ (b &&& 0x08) >>> 3 = e ∧ b &&& 0x07 = s := by
    decide +kernel
  exact all t ht e he s hs

theorem lowByte_eq (n : Nat) : n &&& 0x00FF = n % 256 := and_two_pow_sub_one_eq_mod n 8

/-- A high part and the low part below it make up the number. -/
theorem shift_or_eq (n k : Nat) : ((n >>> k) <<< k) ||| (n % 2 ^ k) = n := by
  rw [← shiftLeft_add_eq_or_of_lt (mod_lt n (Nat.two_pow_pos k)), shiftLeft_eq,
    shiftRight_eq_div_pow, div_add_mod']

@[simp]
theorem bitsFor_cons (li : Nat) (lis : List Nat) : bitsFor (li :: lis) = 1 :: bitsFor lis := rfl

/-- The two bytes that an odd length indicator takes, with what follows in them. -/
theorem oddLi_fields {e li f g : Nat} (he : e < 2) (h : li < 2048) (hf : f < 2) (hg : g < 8) :
    let byte1 := writeU8 (((e <<< 7) &&& 0x80) ||| ((li >>> 4) &&& 0x007F))
    let byte2 := writeU8 (((li <<< 4) &&& 0x00F0) ||| ((f <<< 3) &&& 0x08) ||| (g &&& 0x0007))
    (readU8 byte1 &&& 0x80) >>> 7 = e ∧
      ((readU8 byte1 &&& 0x7F) <<< 4) ||| ((readU8 byte2 &&& 0xF0) >>> 4) = li ∧
      (readU8 byte2 &&& 0x08) >>> 3 = f ∧ readU8 byte2 &&& 0x07 = g := by
  obtain ⟨small, odd, high⟩ := oddByte_fields he
    (show li >>> 4 < 128 by rw [shiftRight_eq_div_pow]; omega)
  obtain ⟨small', low, even, top⟩ := middleByte_fields (show li % 16 < 16 by omega) hf hg
  rw [← lowNibble_eq h] at small' low even top
  simp only [readU8_writeU8 small, readU8_writeU8 small', odd, high, low, even, top, true_and,
    and_true]
  exact shift_or_eq li 4

theorem readLis_odd {li : Nat} (h : li < 2048) (rest : List UInt8) :
    readLis (writeLis [0] [li] ++ rest) = some ([0], [li], 2) := by
  obtain ⟨odd, value, -, -⟩ := oddLi_fields (show 0 < 2 by decide) h (show 0 < 2 by decide)
    (show 0 < 8 by decide)
  simp only [zero_shiftLeft, zero_and, or_zero, zero_or] at odd value
  simp only [writeLis, cons_append, zero_shiftLeft, zero_and, zero_or]
  unfold readLis
  simp [odd, value, eLiFieldsFollows]

/-- The bytes of an odd and an even length indicator, the last ones or not. -/
theorem readLis_even {e li li' : Nat} (he : e < 2) (h : li < 2048) (h' : li' < 2048)
    (es lis : List Nat) (rest : List UInt8) :
    readLis (writeLis (1 :: e :: es) (li :: li' :: lis) ++ rest) =
      if e = 1 then do
        let (es, lis, n) ← readLis (writeLis es lis ++ rest)
        return (1 :: e :: es, li :: li' :: lis, n + 3)
      else some ([1, e], [li, li'], 3) := by
  obtain ⟨odd, value, even, high⟩ := oddLi_fields (show 1 < 2 by decide) h he
    (show li' >>> 8 < 8 by rw [shiftRight_eq_div_pow]; omega)
  have low : readU8 (writeU8 (li' &&& 0x00FF)) &&& 0xFF = li' % 2 ^ 8 := by
    rw [lowByte_eq, lowByte_eq, readU8_writeU8 (by omega), mod_mod]
    rfl
  simp only [writeLis, cons_append]
  rw [readLis]
  simp only [odd, value, even, high, low, shift_or_eq, eLiFieldsFollows, ↓reduceIte]

/-- **Length indicators.** What `Serialize` writes of them `Deserialize` reads back. -/
theorem readLis_writeLis (rest : List UInt8) : ∀ (li : Nat) (lis : List Nat),
    (∀ l ∈ li :: lis, l < 2048) →
    readLis (writeLis (bitsFor lis) (li :: lis) ++ rest) =
      some (bitsFor lis, li :: lis, lisLength (li :: lis))
  | li, [], small => readLis_odd (small li (by simp)) rest
  | li, [li'], small =>
    readLis_even (show 0 < 2 by decide) (small li (by simp)) (small li' (by simp)) [] [] rest
  | li, li' :: li'' :: lis, small => by
    have later := readLis_writeLis rest li'' lis fun l mem => small l (by simp_all)
    simp only [bitsFor_cons]
    rw [readLis_even (by decide) (small li (by simp)) (small li' (by simp)), later]
    simp [lisLength, add_comm]

/-- The header as `DoNotifyTxOpportunity` makes it. -/
def built (framingInfo : Nat) (sequenceNumber : SequenceNumber10) (lis : List Nat) : LteRlcHeader :=
  ⟨2 + lisLength lis, framingInfo, sequenceNumber, bitsFor lis, lis⟩

theorem deserialize_serialize {fi : Nat} (hf : fi < 4) {sn : SequenceNumber10}
    (hs : sn.value < 1024) {lis : List Nat} (small : ∀ l ∈ lis, l < 2048) (rest : List UInt8) :
    deserialize ((built fi sn lis).serialize ++ rest) = some (built fi (ofNat sn.value) lis) := by
  have high : sn.value >>> 8 < 4 := by
    rw [shiftRight_eq_div_pow]
    omega
  have low : readU8 (writeU8 (sn.value &&& 0x00FF)) = sn.value % 2 ^ 8 := by
    rw [lowByte_eq, readU8_writeU8 (by omega)]
    rfl
  cases lis with
  | nil =>
    obtain ⟨byte, framing, bit, top⟩ := firstByte_fields hf (show 0 < 2 by decide) high
    simp only [serialize, built, bitsFor, dataFieldFollows, headD_cons, tail_cons,
      cons_append, deserialize, readU8_writeU8 byte, framing, bit, top, low, shift_or_eq]
    rfl
  | cons li lis =>
    obtain ⟨byte, framing, bit, top⟩ := firstByte_fields hf (show 1 < 2 by decide) high
    simp only [serialize, built, bitsFor_cons, headD_cons, tail_cons,
      cons_append, deserialize, readU8_writeU8 byte, framing, bit, top, low, shift_or_eq,
      readLis_writeLis rest li lis small, dataFieldFollows]
    rfl

theorem writeLis_length : ∀ (lis : List Nat),
    (writeLis (bitsFor lis).tail lis).length = lisLength lis
  | [] => rfl
  | [_] => rfl
  | [_, _] => rfl
  | _ :: _ :: li :: lis => by
    have later := writeLis_length (li :: lis)
    simp only [bitsFor_cons, tail_cons] at later
    simp only [bitsFor_cons, tail_cons, writeLis, length_cons, lisLength]
    omega

/-- `Serialize` writes as many bytes as `GetSerializedSize` says. -/
theorem serialize_length (fi : Nat) (sn : SequenceNumber10) (lis : List Nat) :
    (built fi sn lis).serialize.length = (built fi sn lis).headerLength := by
  simp only [serialize, built, length_cons, writeLis_length]
  omega

/-- **Header.** The receiver takes off the header that the sender put on. -/
theorem removeHeader_addHeader {fi : Nat} (hf : fi < 4) {sn : SequenceNumber10}
    (hs : sn.value < 1024) {lis : List Nat} (small : ∀ l ∈ lis, l < 2048) (packet : Packet) :
    removeHeader ((built fi sn lis).addHeader packet) =
      some (built fi (ofNat sn.value) lis, packet) := by
  have taken : ((built fi sn lis).serialize ++ packet).drop
      (built fi (ofNat sn.value) lis).headerLength = packet :=
    drop_left' (serialize_length fi sn lis)
  simp only [removeHeader, addHeader, deserialize_serialize hf hs small, Option.bind_eq_bind,
    Option.bind_some, taken]
  rfl

end LteRlcHeader

end Ns3.Rlc
