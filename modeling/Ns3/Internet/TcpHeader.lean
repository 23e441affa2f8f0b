import Ns3.Internet.TcpOption

/-!
# `TcpHeader`

The header with its options. The checksum is written over the bytes at 16 and 17
and is not read back.
-/

namespace Ns3.Internet

open ByteReader ByteReader

structure TcpHeader where
  sourcePort : UInt16
  destinationPort : UInt16
  sequenceNumber : UInt32
  ackNumber : UInt32
  length : Nat
  flags : UInt8
  windowSize : UInt16
  urgentPointer : UInt16
  options : List TcpOption
  optionsLen : Nat
  deriving DecidableEq

namespace TcpHeader

def maxOptionsLen : Nat := 40

/-- A header before any option is appended. -/
def create (sourcePort destinationPort : UInt16) (sequenceNumber ackNumber : UInt32)
    (flags : UInt8) (windowSize urgentPointer : UInt16) : TcpHeader :=
  ⟨sourcePort, destinationPort, sequenceNumber, ackNumber, 5, flags, windowSize, urgentPointer, [],
    0⟩

variable (h : TcpHeader)

def optionsSize (options : List TcpOption) : Nat :=
  (options.map TcpOption.getSerializedSize).sum

/-- In words, as a `uint8_t`. -/
def calculateHeaderLength : Nat :=
  let len := 20 + optionsSize h.options
  let len := if len % 4 ≠ 0 then len + (4 - len % 4) else len
  len / 4 % 2 ^ 8

def getSerializedSize : Nat := 4 * h.calculateHeaderLength

def appendOption (option : TcpOption) : TcpHeader × Bool :=
  if h.optionsLen + option.getSerializedSize ≤ maxOptionsLen then
    if !TcpOption.isKindKnown option.getKind then (h, false)
    else if option.getKind ≠ 0 then
      let optionsLen := h.optionsLen + option.getSerializedSize
      ({ h with
        options := h.options ++ [option]
        optionsLen := optionsLen
        length := (20 + 3 + optionsLen) / 4 }, true)
    else (h, true)
  else (h, false)

/-! ## `Serialize` -/

/-- The fields before the options. -/
def serializeFields (checksum : UInt16) : List UInt8 :=
  writeHtonU16 h.sourcePort ++ (writeHtonU16 h.destinationPort ++
    (writeHtonU32 h.sequenceNumber ++ (writeHtonU32 h.ackNumber ++
      (writeHtonU16 (.ofNat (h.length <<< 12 ||| h.flags.toNat)) ++
        (writeHtonU16 h.windowSize ++ (writeHtonU16 checksum ++ writeHtonU16 h.urgentPointer))))))

/-- The loop that pads with ENDs. -/
def padding (optionLen : Nat) : List UInt8 := List.replicate ((4 - optionLen % 4) % 4) 0

def serialize (checksum : UInt16) : List UInt8 :=
  h.serializeFields checksum ++
    (h.options.flatMap TcpOption.serialize ++ padding (optionsSize h.options))

/-! ## `Deserialize` -/

/-- The loop over the options: the option space that is left, the bytes from the iterator on, and
the options so far with the space that they take. -/
structure OptionLoop where
  optionLen : Nat
  rest : List UInt8
  options : List TcpOption
  optionsLen : Nat

/-- The loop over the options, with a bound on its rounds. -/
def optionRounds : Nat → OptionLoop → Except Stop OptionLoop
  | 0, l => if l.optionLen = 0 then .ok l else .error .endless
  | rounds + 1, l =>
    if l.optionLen = 0 then .ok l
    else do
      let (optionSize, op) ← TcpOption.deserialize l.rest
      if optionSize ≠ op.getSerializedSize then return l
      else if optionSize ≤ l.optionLen then
        let l : OptionLoop :=
          ⟨l.optionLen - optionSize, l.rest.drop optionSize, l.options ++ [op],
            l.optionsLen + optionSize⟩
        if op.getKind = 0 then
          return ⟨0, l.rest.drop l.optionLen, l.options, l.optionsLen + l.optionLen⟩
        else optionRounds rounds l
      else return l

/-- The fields before the options, with the length in words. -/
def deserializeFields : Reader Stop TcpHeader := do
  let sourcePort ← readNtohU16 Stop.pastEnd
  let destinationPort ← readNtohU16 Stop.pastEnd
  let sequenceNumber ← readNtohU32 Stop.pastEnd
  let ackNumber ← readNtohU32 Stop.pastEnd
  let field ← readNtohU16 Stop.pastEnd
  let windowSize ← readNtohU16 Stop.pastEnd
  let _ ← readNtohU16 Stop.pastEnd
  let urgentPointer ← readNtohU16 Stop.pastEnd
  return ⟨sourcePort, destinationPort, sequenceNumber, ackNumber, field.toNat >>> 12,
    .ofNat (field.toNat &&& 0xFF), windowSize, urgentPointer, [], 0⟩

/-- `(m_length - 5) * 4` as a `uint32_t`. -/
def optionSpace (length : Nat) : Nat := ((4 * ((length : Int) - 5)) % 2 ^ 32).toNat

/-- The header, what `Deserialize` returns, and the bytes from the iterator on. -/
def deserialize (rounds : Nat) (bytes : List UInt8) :
    Except Stop (TcpHeader × Nat × List UInt8) := do
  let (h, i) ← deserializeFields bytes
  if maxOptionsLen < optionSpace h.length then return (h, 20, i)
  else
    let l ← optionRounds rounds ⟨optionSpace h.length, i, [], 0⟩
    let h := { h with options := l.options, optionsLen := l.optionsLen }
    return (h, h.getSerializedSize, l.rest)

end TcpHeader

end Ns3.Internet
