import Ns3.Library.ByteReader

/-!
# `PbbTlv` and its block

A TLV with an optional type extension, index or index range, and value, and the
block that puts the size of its TLVs in front of them.
-/

namespace Ns3.Network

open ByteReader List

/-- Why the reading of a message part stops. -/
inductive PbbStop where
  /-- A read past the end of the bytes. -/
  | pastEnd
  /-- A loop that takes no bytes. -/
  | endless
  /-- A write outside the buffer of the address. -/
  | overrun
  deriving DecidableEq, Repr

/-- `Iterator::GetDistanceFrom`, with the positions as `uint32_t`. -/
def getDistanceFrom (here there : Nat) : Nat := (((here : Int) - there).bmod (2 ^ 32)).natAbs

/-- `Serialize` writes `GetSerializedSize` bytes, and `Deserialize` takes them, and only them, to
restore what was written and what is written again. -/
structure RoundTrips {α : Type} (getSerializedSize : α → Nat) (serialize : α → List UInt8)
    (deserialize : Reader PbbStop α) (a : α) : Prop where
  size : (serialize a).length = getSerializedSize a
  restored : ∀ rest, ∃ b, deserialize (serialize a ++ rest) = .ok (b, rest) ∧ b = a ∧
    serialize b = serialize a

theorem RoundTrips.of_reads {α : Type} {getSerializedSize : α → Nat}
    {serialize : α → List UInt8} {deserialize : Reader PbbStop α} {a : α}
    (size : (serialize a).length = getSerializedSize a)
    (reads : Reads deserialize (serialize a) a) :
    RoundTrips getSerializedSize serialize deserialize a :=
  ⟨size, fun rest => ⟨a, reads rest, rfl, rfl⟩⟩

theorem RoundTrips.reads {α : Type} {getSerializedSize : α → Nat}
    {serialize : α → List UInt8} {deserialize : Reader PbbStop α} {a : α}
    (trip : RoundTrips getSerializedSize serialize deserialize a) :
    Reads deserialize (serialize a) a := by
  intro rest
  obtain ⟨b, read, rfl, _⟩ := trip.restored rest
  exact read

structure PbbTlv where
  type : UInt8
  typeExt : Option UInt8
  indexStart : Option UInt8
  indexStop : Option UInt8
  isMultivalue : Bool
  value : Option (List UInt8)
  deriving DecidableEq

namespace PbbTlv

variable (tlv : PbbTlv)

/-- More bytes than one length byte counts. -/
def isLong : Bool := (tlv.value.map fun value => decide (255 < value.length)).getD false

def getSerializedSize : Nat :=
  2 + tlv.typeExt.isSome.toNat + tlv.indexStart.isSome.toNat + tlv.indexStop.isSome.toNat +
    tlv.value.elim 0 fun value => (if 255 < value.length then 2 else 1) + value.length

/-- The flags from what is there and what is set. -/
def flagsOf (ext start stop value long multi : Bool) : UInt8 :=
  (if ext then 0x80 else 0) ||| (if start then if stop then 0x20 else 0x40 else 0) |||
    (if value then 0x10 ||| (if long then 0x08 else 0) ||| (if multi then 0x04 else 0) else 0)

def flags : UInt8 :=
  flagsOf tlv.typeExt.isSome tlv.indexStart.isSome tlv.indexStop.isSome tlv.value.isSome tlv.isLong
    tlv.isMultivalue

def serializeIndex : List UInt8 :=
  match tlv.indexStart with
  | none => []
  | some start =>
    match tlv.indexStop with
    | some stop => [start, stop]
    | none => [start]

def serializeValue (value : List UInt8) : List UInt8 :=
  (if 255 < value.length then writeHtonU16 (.ofNat value.length) else [.ofNat value.length]) ++
    value

def serialize : List UInt8 :=
  [tlv.type, tlv.flags] ++ (tlv.typeExt.elim [] ([·]) ++
    (tlv.serializeIndex ++ tlv.value.elim [] serializeValue))

def deserializeIndex (flags : UInt8) : Reader PbbStop (Option UInt8 × Option UInt8) :=
  if flags &&& 0x20 ≠ 0 then do
    let start ← readU8 PbbStop.pastEnd
    let stop ← readU8 PbbStop.pastEnd
    return (some start, some stop)
  else if flags &&& 0x40 ≠ 0 then do
    let start ← readU8 PbbStop.pastEnd
    return (some start, none)
  else return (none, none)

def deserializeValue (flags : UInt8) : Reader PbbStop (List UInt8) :=
  if flags &&& 0x08 ≠ 0 then do
    let len ← readNtohU16 PbbStop.pastEnd
    readBytes PbbStop.pastEnd len.toNat
  else do
    let len ← readU8 PbbStop.pastEnd
    readBytes PbbStop.pastEnd len.toNat

/-- Nothing reads `TIS_MULTIVALUE`, so a new TLV keeps its `false`. -/
def deserialize : Reader PbbStop PbbTlv := do
  let type ← readU8 PbbStop.pastEnd
  let flags ← readU8 PbbStop.pastEnd
  let typeExt ← readWhen (flags &&& 0x80 ≠ 0) (readU8 PbbStop.pastEnd)
  let (indexStart, indexStop) ← deserializeIndex flags
  let value ← readWhen (flags &&& 0x10 ≠ 0) (deserializeValue flags)
  return ⟨type, typeExt, indexStart, indexStop, false, value⟩

/-! ## The round trip -/

/-- A value that two length bytes can count. -/
def Countable : Prop := ∀ value ∈ tlv.value, value.length ≤ 65535

/-- What is left of a TLV that was written and read: the multivalue flag is lost, and so is an
index stop without a start. -/
def kept : PbbTlv :=
  { tlv with
    indexStop := tlv.indexStart.bind fun _ => tlv.indexStop
    isMultivalue := false }

/-- The multivalue flag is not set and an index stop has a start. -/
structure Plain : Prop where
  single : tlv.isMultivalue = false
  range : tlv.indexStop.isSome → tlv.indexStart.isSome

theorem kept_eq_iff : tlv.kept = tlv ↔ tlv.Plain := by
  obtain ⟨type, typeExt, start, stop, multi, value⟩ := tlv
  constructor
  · intro same
    simp only [kept, mk.injEq, true_and, and_true] at same
    refine ⟨same.2.symm, ?_⟩
    cases start with
    | none => simp_all
    | some _ => simp
  · rintro ⟨single, range⟩
    subst single
    cases start with
    | none =>
      cases stop with
      | none => rfl
      | some _ => exact absurd (range rfl) nofun
    | some _ => rfl

variable {tlv}

theorem flagsOf_ext (ext start stop value long multi : Bool) :
    decide (flagsOf ext start stop value long multi &&& 0x80 ≠ 0) = ext := by
  revert ext start stop value long multi
  decide

theorem flagsOf_range (ext start stop value long multi : Bool) :
    flagsOf ext start stop value long multi &&& 0x20 ≠ 0 ↔ start = true ∧ stop = true := by
  revert ext start stop value long multi
  decide

theorem flagsOf_single (ext start stop value long multi : Bool) :
    flagsOf ext start stop value long multi &&& 0x40 ≠ 0 ↔ start = true ∧ stop = false := by
  revert ext start stop value long multi
  decide

theorem flagsOf_value (ext start stop value long multi : Bool) :
    decide (flagsOf ext start stop value long multi &&& 0x10 ≠ 0) = value := by
  revert ext start stop value long multi
  decide

theorem flagsOf_long (ext start stop long multi : Bool) :
    flagsOf ext start stop true long multi &&& 0x08 ≠ 0 ↔ long = true := by
  revert ext start stop long multi
  decide

theorem deserializeIndex_reads : Reads (deserializeIndex tlv.flags) tlv.serializeIndex
      (tlv.indexStart, tlv.indexStart.bind fun _ => tlv.indexStop) := by
  unfold deserializeIndex
  simp only [flags, flagsOf_range, flagsOf_single]
  unfold serializeIndex
  cases tlv.indexStart with
  | none => exact .pure (none, none)
  | some start =>
    cases tlv.indexStop with
    | none => exact (readU8_reads _ start).map fun start => (some start, none)
    | some stop =>
      exact (readU8_reads _ start).bind ((readU8_reads _ stop).map fun stop =>
        (some start, some stop))

theorem deserializeValue_reads (countable : tlv.Countable) (value : List UInt8)
    (there : tlv.value = some value) :
    Reads (deserializeValue tlv.flags) (serializeValue value) value := by
  have bound := countable value there
  have long : tlv.flags &&& 0x08 ≠ 0 ↔ 255 < value.length := by
    have flagged : tlv.isLong = decide (255 < value.length) := by
      rw [isLong, there]
      rfl
    unfold flags
    simp [there, flagsOf_long, flagged]
  unfold deserializeValue serializeValue
  simp only [long]
  split
  · have length : (UInt16.ofNat value.length).toNat = value.length := by
      rw [UInt16.toNat_ofNat']
      omega
    have body := readBytes_reads PbbStop.pastEnd value
    rw [← length] at body
    exact (readNtohU16_reads _ _).bind body
  · have length : (UInt8.ofNat value.length).toNat = value.length := by
      rw [UInt8.toNat_ofNat']
      omega
    have body := readBytes_reads PbbStop.pastEnd value
    rw [← length] at body
    exact (readU8_reads _ _).bind body

/-- **A TLV that was written** is read as what is kept of it. -/
theorem deserialize_reads (countable : tlv.Countable) :
    Reads deserialize tlv.serialize tlv.kept := by
  have ext : Reads (readWhen (tlv.flags &&& 0x80 ≠ 0) (readU8 PbbStop.pastEnd))
      (tlv.typeExt.elim [] ([·])) tlv.typeExt :=
    readWhen_reads (flagsOf_ext _ _ _ _ _ _) fun b _ => readU8_reads _ b
  have value : Reads (readWhen (tlv.flags &&& 0x10 ≠ 0) (deserializeValue tlv.flags))
      (tlv.value.elim [] serializeValue) tlv.value :=
    readWhen_reads (flagsOf_value _ _ _ _ _ _) fun value there =>
      deserializeValue_reads countable value there
  have all := value.map fun value => ({ tlv.kept with value := value } : PbbTlv)
  exact (readU8_reads _ tlv.type).bind ((readU8_reads _ tlv.flags).bind
    (ext.bind (deserializeIndex_reads.bind all)))

theorem length_serializeValue (value : List UInt8) :
    (serializeValue value).length = (if 255 < value.length then 2 else 1) + value.length := by
  unfold serializeValue
  rw [length_append]
  split <;> rfl

theorem length_serialize :
    tlv.serialize.length = 2 + tlv.typeExt.isSome.toNat + tlv.serializeIndex.length +
      tlv.value.elim 0 fun value => (if 255 < value.length then 2 else 1) + value.length := by
  unfold serialize
  simp only [length_append]
  cases tlv.typeExt <;> cases tlv.value <;>
    simp only [Option.elim, length_serializeValue, length_cons, length_nil,
      Option.isSome_some, Option.isSome_none, Bool.toNat_true, Bool.toNat_false] <;> omega

theorem length_serializeIndex_le : tlv.serializeIndex.length ≤ 2 := by
  unfold serializeIndex
  split
  · exact Nat.zero_le 2
  · split <;> simp

/-- Every TLV takes a byte or more, and few more than its value. -/
theorem length_serialize_bounds (countable : tlv.Countable) :
    2 ≤ tlv.serialize.length ∧ tlv.serialize.length ≤ 65542 := by
  have index : tlv.serializeIndex.length ≤ 2 := length_serializeIndex_le
  have ext := Bool.toNat_le tlv.typeExt.isSome
  rw [length_serialize]
  cases there : tlv.value with
  | none =>
    dsimp only [Option.elim]
    omega
  | some value =>
    have bound := countable value there
    dsimp only [Option.elim]
    split <;> omega

theorem length_serialize_of_plain (plain : tlv.Plain) :
    tlv.serialize.length = tlv.getSerializedSize := by
  have index : tlv.serializeIndex.length =
      tlv.indexStart.isSome.toNat + tlv.indexStop.isSome.toNat := by
    have range := plain.range
    unfold serializeIndex
    cases start : tlv.indexStart with
    | some _ => cases tlv.indexStop <;> rfl
    | none =>
      cases stop : tlv.indexStop with
      | none => rfl
      | some _ =>
        rw [start, stop] at range
        exact absurd (range rfl) nofun
  rw [length_serialize, index, getSerializedSize]
  omega

/-- **A TLV comes back** when its multivalue flag is not set and an index stop has a start. -/
theorem roundTrips_iff (countable : tlv.Countable) :
    RoundTrips getSerializedSize serialize deserialize tlv ↔ tlv.Plain := by
  have reads := deserialize_reads countable
  constructor
  · intro trip
    have same := (reads []).symm.trans (trip.reads [])
    rw [← kept_eq_iff]
    exact (Prod.mk.inj (Except.ok.inj same)).1
  · intro plain
    rw [(kept_eq_iff tlv).mpr plain] at reads
    exact .of_reads (length_serialize_of_plain plain) reads

end PbbTlv

/-! ## The block -/

namespace PbbTlvBlock

def getSerializedSize (tlvs : List PbbTlv) : Nat :=
  2 + (tlvs.map PbbTlv.getSerializedSize).sum

/-- The distance less the size field, as a `uint16_t`. -/
def sizeField (length : Nat) : UInt16 :=
  .ofNat (((getDistanceFrom (2 + length) 0 : Int) - 2) % 2 ^ 16).toNat

def serialize (tlvs : List PbbTlv) : List UInt8 :=
  if tlvs.isEmpty then writeHtonU16 0
  else
    let bytes := tlvs.flatMap PbbTlv.serialize
    writeHtonU16 (sizeField bytes.length) ++ bytes

def deserialize : Reader PbbStop (List PbbTlv) := do
  let size ← readNtohU16 PbbStop.pastEnd
  readWithin PbbStop.endless PbbTlv.deserialize size.toNat size.toNat 0

/-- The TLVs take at most 65535 bytes, or the last one takes more than 65536 of at most 131071. -/
def Fits (tlvs : List PbbTlv) : Prop :=
  let size := (tlvs.map PbbTlv.getSerializedSize).sum
  size ≤ 65535 ∨ size ≤ 131071 ∧ ∃ last ∈ tlvs.getLast?, 65536 < last.getSerializedSize

theorem sizeField_lt (length : Nat) : (sizeField length).toNat < 65536 :=
  (sizeField length).toNat_lt

theorem sizeField_of_lt {length : Nat} (below : length + 2 < 2 ^ 31) :
    (sizeField length).toNat = length % 65536 := by
  have distance : getDistanceFrom (2 + length) 0 = 2 + length := by
    unfold getDistanceFrom
    rw [Int.bmod_eq_of_le (by omega) (by omega)]
    omega
  unfold sizeField
  rw [distance, UInt16.toNat_ofNat']
  omega

theorem sizeField_le (length : Nat) : (sizeField length).toNat ≤ length := by
  by_cases below : length + 2 < 2 ^ 31
  · rw [sizeField_of_lt below]
    exact Nat.mod_le length 65536
  · have := sizeField_lt length
    omega

variable {tlvs : List PbbTlv}

theorem serialize_eq (tlvs : List PbbTlv) :
    serialize tlvs = writeHtonU16 (sizeField (tlvs.flatMap PbbTlv.serialize).length) ++
      tlvs.flatMap PbbTlv.serialize := by cases tlvs <;> rfl

/-- The bytes of a TLV. -/
def width (tlv : PbbTlv) : Nat := tlv.serialize.length

section

variable (countable : ∀ tlv ∈ tlvs, tlv.Countable)
include countable

/-- The TLVs that are read before the size is reached, and those that are left. -/
theorem deserialize_written (rest : List UInt8) :
    let size := (sizeField (tlvs.flatMap PbbTlv.serialize).length).toNat
    deserialize (serialize tlvs ++ rest) = .ok ((startedBefore width size 0 tlvs).map PbbTlv.kept,
        (notStarted width size 0 tlvs).flatMap PbbTlv.serialize ++ rest) := by
  intro size
  have loop : readWithin PbbStop.endless PbbTlv.deserialize size size 0
      (tlvs.flatMap PbbTlv.serialize ++ rest) = _ :=
    readWithin_written PbbStop.endless rest
      (fun tlv mem => PbbTlv.deserialize_reads (countable tlv mem))
      (fun tlv => by rw [PbbTlv.length_serialize]; omega) size 0 (Nat.le_add_left size 0)
      (Nat.le_trans (sizeField_le _) (Nat.le_add_left _ 0))
  rw [serialize_eq, append_assoc]
  exact ((readNtohU16_reads PbbStop.pastEnd _).next _ _).trans loop

theorem startedBefore_iff (plain : ∀ tlv ∈ tlvs, tlv.Plain) :
    startedBefore width (sizeField (tlvs.flatMap PbbTlv.serialize).length).toNat 0 tlvs = tlvs ↔
      Fits tlvs := by
  have widths : tlvs.map width = tlvs.map PbbTlv.getSerializedSize :=
    map_congr_left fun tlv mem => PbbTlv.length_serialize_of_plain (plain tlv mem)
  have total : (tlvs.flatMap PbbTlv.serialize).length =
      (tlvs.map PbbTlv.getSerializedSize).sum := by
    rw [length_flatMap, ← widths]
    rfl
  rw [startedBefore_eq_iff, Nat.zero_add, total]
  unfold Fits
  rcases eq_nil_or_concat tlvs with rfl | ⟨front, last, rfl⟩
  · simp
  · rw [concat_eq_append] at *
    have mem : last ∈ front ++ [last] := by simp
    have bounds := PbbTlv.length_serialize_bounds (countable last mem)
    rw [PbbTlv.length_serialize_of_plain (plain last mem)] at bounds
    have front_widths : front.map width = front.map PbbTlv.getSerializedSize := by
      simpa using congrArg List.dropLast widths
    rw [dropLast_concat, front_widths, getLast?_concat]
    simp only [map_append, map_cons, map_nil, sum_append, sum_cons,
      sum_nil, Nat.add_zero, Option.mem_some_iff, exists_eq_left', append_eq_nil_iff,
      cons_ne_nil, and_false, false_or]
    generalize (front.map PbbTlv.getSerializedSize).sum = before at *
    generalize last.getSerializedSize = size at *
    have field := sizeField_lt (before + size)
    by_cases below : before + size + 2 < 2 ^ 31
    · rw [sizeField_of_lt below]
      omega
    · omega

/-- **The TLVs come back** when each one is plain and they fit the size field. -/
theorem block_restored_iff :
    (startedBefore width (sizeField (tlvs.flatMap PbbTlv.serialize).length).toNat 0 tlvs).map
        PbbTlv.kept = tlvs ↔ (∀ tlv ∈ tlvs, tlv.Plain) ∧ Fits tlvs := by
  generalize started : startedBefore width
    (sizeField (tlvs.flatMap PbbTlv.serialize).length).toNat 0 tlvs = items
  constructor
  · intro same
    have both := started_append width
      (sizeField (tlvs.flatMap PbbTlv.serialize).length).toNat 0 tlvs
    rw [started] at both
    have lengths := congrArg List.length both
    have lengths' := congrArg List.length same
    rw [length_append] at lengths
    rw [length_map] at lengths'
    have all : items = tlvs := by
      have none := length_eq_zero_iff.mp (by omega :
        (notStarted width (sizeField (tlvs.flatMap PbbTlv.serialize).length).toNat 0
          tlvs).length = 0)
      rwa [none, append_nil] at both
    rw [all] at started same
    have plain : ∀ tlv ∈ tlvs, tlv.Plain := by
      intro tlv mem
      rw [← PbbTlv.kept_eq_iff]
      have each : tlvs.map PbbTlv.kept = tlvs.map id := by simp [same]
      exact map_inj_left.mp each tlv mem
    exact ⟨plain, (startedBefore_iff countable plain).mp started⟩
  · rintro ⟨plain, fits⟩
    rw [(startedBefore_iff countable plain).mpr fits] at started
    rw [← started]
    exact (map_congr_left fun tlv mem =>
      (PbbTlv.kept_eq_iff tlv).mpr (plain tlv mem)).trans (map_id tlvs)

end

theorem length_serialize_of_plain (plain : ∀ tlv ∈ tlvs, tlv.Plain) :
    (serialize tlvs).length = getSerializedSize tlvs := by
  rw [serialize_eq, length_append, length_writeHtonU16, length_flatMap, getSerializedSize]
  congr 2
  exact map_congr_left fun tlv mem => PbbTlv.length_serialize_of_plain (plain tlv mem)

end PbbTlvBlock

end Ns3.Network
