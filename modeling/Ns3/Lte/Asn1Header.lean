import Ns3.Library.MsbBits
import Mathlib.Data.Nat.Log

/-!
# `Asn1Header`

The packed encoding of LTE RRC messages. A bitset is a list of its bits from the
highest index down, and what is left of it are the bits at the indices below
`pendingBits` or `bitsToRead`. The bit count of a range is the exact ceiling of
its logarithm. `none` is an exit of the program or a read past the buffer.
-/

namespace Ns3.Lte

open MsbBits

structure Asn1Header where
  serializationPendingBits : BitVec 8
  numSerializationPendingBits : Nat
  serializationResult : List (BitVec 8)
  deriving DecidableEq

namespace Asn1Header

def create : Asn1Header := ⟨0, 0, []⟩

variable (h : Asn1Header)

def writeOctet (octet : BitVec 8) : Asn1Header :=
  { h with serializationResult := h.serializationResult ++ [octet] }

/-! ## Serialization -/

/-- The bit under the mask is added to the pending bits. -/
def addPending (bit : Bool) (mask : BitVec 8) : Asn1Header :=
  { h with serializationPendingBits := h.serializationPendingBits ||| if bit then mask else 0 }

/-- The loop that appends first bits to complete an octet. -/
def fillOctet : List Bool → BitVec 8 → Asn1Header → List Bool × Asn1Header
  | [], _, h => ([], h)
  | b :: bits, mask, h =>
    if h.numSerializationPendingBits < 8 then
      fillOctet bits ((mask >>> 1) &&& ~~~mask)
        { h.addPending b mask with
          numSerializationPendingBits := h.numSerializationPendingBits + 1 }
    else (b :: bits, h)

/-- What comes before the whole octets. -/
def completeOctet (bits : List Bool) : List Bool × Asn1Header :=
  if 0 < h.numSerializationPendingBits then
    let (bits, h) := fillOctet bits (0x80#8 >>> h.numSerializationPendingBits) h
    if 8 ≤ h.numSerializationPendingBits then
      (bits, { h.writeOctet h.serializationPendingBits with
        numSerializationPendingBits := 0
        serializationPendingBits := 0 })
    else (bits, h)
  else (bits, h)

/-- The loop that stores less than 8 remaining bits. -/
def storePending : List Bool → BitVec 8 → Asn1Header → Asn1Header
  | [], _, h => h
  | b :: bits, mask, h => storePending bits ((mask >>> 1) &&& ~~~mask) (h.addPending b mask)

/-- The loop that makes an octet, from the lowest of its bits. -/
def octetToWrite : List Bool → BitVec 8 → BitVec 8 → BitVec 8
  | [], _, octet => octet
  | b :: bits, mask, octet =>
    octetToWrite bits ((mask <<< 1) &&& ~~~mask) (octet ||| if b then mask else 0)

/-- The loop over the remaining bits. -/
def writeRemaining (bits : List Bool) (h : Asn1Header) : Asn1Header :=
  if bits = [] then h
  else if bits.length < 8 then
    storePending bits 0x80 { h with numSerializationPendingBits := bits.length }
  else writeRemaining (bits.drop 8) (h.writeOctet (octetToWrite (bits.take 8).reverse 1 0))
termination_by bits.length
decreasing_by
  rw [List.length_drop]
  omega

/-- `SerializeBitset` of the bits of a number. The count of its bits is a `uint8_t`. -/
def serializeBitset (size value : Nat) : Asn1Header :=
  if size = 0 then h
  else if size ≤ 65536 then
    let (bits, h) := h.completeOctet (ofNat value (size % 2 ^ 8))
    writeRemaining bits h
  else h

def serializeBoolean (value : Bool) : Asn1Header := h.serializeBitset 1 value.toNat

def requiredBits (range : Int) : Nat := Nat.clog 2 range.toNat

def serializeInteger (n nmin nmax : Int) : Option Asn1Header :=
  let range := nmax - nmin + 1
  if range ≤ 1 then some h
  else if 1 ≤ requiredBits range ∧ requiredBits range ≤ 20 then
    some (h.serializeBitset (requiredBits range) (n - nmin).toNat)
  else none

def serializeMarker (isExtensionMarkerPresent : Bool) : Asn1Header :=
  if isExtensionMarkerPresent then h.serializeBoolean false else h

def serializeSequence {size : Nat} (optionalOrDefaultMask : BitVec size)
    (isExtensionMarkerPresent : Bool) : Asn1Header :=
  (h.serializeMarker isExtensionMarkerPresent).serializeBitset size optionalOrDefaultMask.toNat

def serializeSequenceOf (numElems nMax nMin : Int) : Option Asn1Header :=
  h.serializeInteger numElems nMin nMax

def serializeEnum (numElems selectedElem : Int) : Option Asn1Header :=
  h.serializeInteger selectedElem 0 (numElems - 1)

def serializeChoice (numOptions selectedOption : Int) (isExtensionMarkerPresent : Bool) :
    Option Asn1Header :=
  let h := h.serializeMarker isExtensionMarkerPresent
  if numOptions < 2 then some h else h.serializeInteger selectedOption 0 (numOptions - 1)

def finalizeSerialization : Asn1Header :=
  if 0 < h.numSerializationPendingBits then
    ({ h with numSerializationPendingBits := 0 }).serializeBitset 8 h.serializationPendingBits.toNat
  else h

/-! ## Deserialization -/

/-- A header that reads, and the octets from its iterator on. -/
abbrev Source := Asn1Header × List (BitVec 8)

/-- The loop that reads bits from the pending bits: the bits, and how many are still to read. -/
def readPending : Nat → Asn1Header → List Bool × Nat × Asn1Header
  | 0, h => ([], 0, h)
  | bitsToRead + 1, h =>
    if 0 < h.numSerializationPendingBits then
      let bit := h.serializationPendingBits &&& 0x80 ≠ 0
      let (bits, left, h) := readPending bitsToRead
        { h with
          numSerializationPendingBits := h.numSerializationPendingBits - 1
          serializationPendingBits := h.serializationPendingBits <<< 1 }
      (decide bit :: bits, left, h)
    else ([], bitsToRead + 1, h)

/-- The loop that reads the first bits of an octet. -/
def readOctet (octet : BitVec 8) : Nat → BitVec 8 → List Bool
  | 0, _ => []
  | count + 1, mask => decide (octet &&& mask ≠ 0) :: readOctet octet count (mask >>> 1)

/-- The loop that reads bits from the buffer. -/
def readRemaining : Nat → Asn1Header → List (BitVec 8) → Option (List Bool × Source)
  | 0, h, octets => some ([], h, octets)
  | _ + 1, _, [] => none
  | bitsToRead + 1, h, octet :: octets =>
    if 8 ≤ bitsToRead + 1 then do
      let (bits, source) ← readRemaining (bitsToRead + 1 - 8) h octets
      return (readOctet octet 8 0x80 ++ bits, source)
    else
      some (readOctet octet (bitsToRead + 1) 0x80,
        { h with
          numSerializationPendingBits := 8 - (bitsToRead + 1)
          serializationPendingBits := octet <<< (bitsToRead + 1) }, octets)

/-- `DeserializeBitset`, with the bits as a number. -/
def deserializeBitset (size : Nat) (source : Source) : Option (Nat × Source) := do
  let (front, left, h) := readPending size source.1
  let (back, source) ← readRemaining left h source.2
  return (toNat (front ++ back), source)

def deserializeBoolean (source : Source) : Option (Bool × Source) := do
  let (readBit, source) ← deserializeBitset 1 source
  return (decide (readBit = 1), source)

/-- `n` is what `*n` holds before. -/
def deserializeInteger (n nmin nmax : Int) (source : Source) : Option (Int × Source) :=
  let (nmin, nmax) := if nmax < nmin then (nmax, nmin) else (nmin, nmax)
  let range := nmax - nmin + 1
  if range = 1 then some (n, source)
  else if 1 ≤ requiredBits range ∧ requiredBits range ≤ 20 then do
    let (bitsRead, source) ← deserializeBitset (requiredBits range) source
    return (bitsRead + nmin, source)
  else none

def deserializeMarker (isExtensionMarkerPresent : Bool) (source : Source) : Option Source :=
  if isExtensionMarkerPresent then (deserializeBoolean source).map Prod.snd else some source

def deserializeChoice (numOptions : Int) (isExtensionMarkerPresent : Bool) (selectedOption : Int)
    (source : Source) : Option (Int × Source) := do
  let source ← deserializeMarker isExtensionMarkerPresent source
  deserializeInteger selectedOption 0 (numOptions - 1) source

def deserializeEnum (numElems selectedElem : Int) (source : Source) : Option (Int × Source) :=
  deserializeInteger selectedElem 0 (numElems - 1) source

def deserializeBitstring (size : Nat) (source : Source) : Option (BitVec size × Source) := do
  let (data, source) ← deserializeBitset size source
  return (BitVec.ofNat size data, source)

def deserializeSequence (size : Nat) (isExtensionMarkerPresent : Bool) (source : Source) :
    Option (BitVec size × Source) := do
  let source ← deserializeMarker isExtensionMarkerPresent source
  deserializeBitstring size source

def deserializeSequenceOf (numElems nMax nMin : Int) (source : Source) : Option (Int × Source) :=
  deserializeInteger numElems nMin nMax source

end Asn1Header

/-! ## Messages -/

/-- A call with its parameters. -/
inductive Field where
  | boolean
  | integer (nmin nmax : Int)
  | enum (numElems : Int)
  | choice (numOptions : Int) (isExtensionMarkerPresent : Bool)
  | sequence (size : Nat) (isExtensionMarkerPresent : Bool)
  | sequenceOf (nMax nMin : Int)
  | bitstring (size : Nat)

/-- What a call writes or reads. -/
def Field.Value : Field → Type
  | .boolean => Bool
  | .sequence size _ | .bitstring size => BitVec size
  | .integer _ _ | .enum _ | .choice _ _ | .sequenceOf _ _ => Int

def Field.serialize : (f : Field) → f.Value → Asn1Header → Option Asn1Header
  | .boolean, value, h => some (h.serializeBoolean value)
  | .integer nmin nmax, n, h => h.serializeInteger n nmin nmax
  | .enum numElems, selectedElem, h => h.serializeEnum numElems selectedElem
  | .choice numOptions marker, selectedOption, h =>
    h.serializeChoice numOptions selectedOption marker
  | .sequence _ marker, mask, h => some (h.serializeSequence mask marker)
  | .sequenceOf nMax nMin, numElems, h => h.serializeSequenceOf numElems nMax nMin
  | .bitstring size, data, h => some (h.serializeBitset size (BitVec.toNat data))

/-- The mirrored call; `old` is what its output holds before. -/
def Field.deserialize :
    (f : Field) → (old : f.Value) → Asn1Header.Source → Option (f.Value × Asn1Header.Source)
  | .boolean, _, source => Asn1Header.deserializeBoolean source
  | .integer nmin nmax, n, source => Asn1Header.deserializeInteger n nmin nmax source
  | .enum numElems, selectedElem, source =>
    Asn1Header.deserializeEnum numElems selectedElem source
  | .choice numOptions marker, selectedOption, source =>
    Asn1Header.deserializeChoice numOptions marker selectedOption source
  | .sequence size marker, _, source => Asn1Header.deserializeSequence size marker source
  | .sequenceOf nMax nMin, numElems, source =>
    Asn1Header.deserializeSequenceOf numElems nMax nMin source
  | .bitstring size, _, source => Asn1Header.deserializeBitstring size source

/-- A call with the value that it writes, and with what the output of the mirrored call holds
before. -/
structure Call where
  field : Field
  value : field.Value
  old : field.Value

def serializeCalls : List Call → Asn1Header → Option Asn1Header
  | [], h => some h
  | c :: calls, h => do
    let h ← c.field.serialize c.value h
    serializeCalls calls h

/-- The outputs of the mirrored calls. -/
def deserializeCalls : List Call → Asn1Header.Source → Option (List ((f : Field) × f.Value))
  | [], _ => some []
  | c :: calls, source => do
    let (value, source) ← c.field.deserialize c.old source
    let values ← deserializeCalls calls source
    return ⟨c.field, value⟩ :: values

end Ns3.Lte
