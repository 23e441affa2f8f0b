import Ns3.Library.MsbBits

/-!
# `BitSerializer` and `BitDeserializer`

Bits are collected one by one, padded to whole bytes and read back. `none` is an abort.
-/

namespace Ns3.Network

open List Nat MsbBits

/-- One more bit in an accumulator of 8 bits. -/
def shiftIn (tmp : UInt8) (bit : Bool) : UInt8 := tmp <<< 1 ||| if bit then 1 else 0

/-- The loops that shift bits in. -/
def collect (bits : List Bool) : UInt8 := bits.foldl shiftIn 0

structure BitSerializer where
  blob : List Bool := []
  padAtEnd : Bool := true

namespace BitSerializer

def insertPaddingAtEnd (s : BitSerializer) (padAtEnd : Bool) : BitSerializer :=
  { s with padAtEnd }

/-- The bits that both paddings add: eight for a blob of whole bytes. -/
def padding (s : BitSerializer) : Nat := 8 - s.blob.length % 8

/-- The blob after `PadAtEnd` or `PadAtStart`. -/
def padded (s : BitSerializer) : List Bool :=
  if s.padAtEnd then s.blob ++ List.replicate s.padding false
  else List.replicate s.padding false ++ s.blob

/-- The loop of `PushBits`: the bits under the mask, which goes down. -/
def bitsUnder (value mask : UInt64) : Nat → List Bool
  | 0 => []
  | n + 1 => (value &&& mask != 0) :: bitsUnder value (mask >>> 1) n

def pushBits (s : BitSerializer) (value : UInt64) (significantBits : UInt8) : BitSerializer :=
  { s with
    blob := s.blob ++ bitsUnder value (1 <<< (significantBits.toUInt64 - 1)) significantBits.toNat }

def bytesOf : List Bool → List UInt8
  | b0 :: b1 :: b2 :: b3 :: b4 :: b5 :: b6 :: b7 :: rest =>
    collect [b0, b1, b2, b3, b4, b5, b6, b7] :: bytesOf rest
  | _ => []

/-- `GetBytes`, which also clears the blob. -/
def getBytes (s : BitSerializer) : List UInt8 × BitSerializer :=
  (bytesOf s.padded, { s with blob := [] })

/-- The stores `buffer[resultLen] = tmp; resultLen++` with an index of 8 bits, and the index
behind them. -/
def stores : UInt8 → List UInt8 → List (UInt8 × UInt8) × UInt8
  | resultLen, [] => ([], resultLen)
  | resultLen, tmp :: rest =>
    let (later, final) := stores (resultLen + 1) rest
    ((resultLen, tmp) :: later, final)

/-- `GetBytes` into an array: the stores it does, and what it returns. -/
def getBytesInto (s : BitSerializer) (size : UInt32) :
    Option (List (UInt8 × UInt8) × UInt8 × BitSerializer) :=
  if s.padded.length ≤ (8 * size).toNat then none
  else
    let (writes, resultLen) := stores 0 (bytesOf s.padded)
    some (writes, resultLen, { s with blob := [] })

end BitSerializer

structure BitDeserializer where
  bytesBlob : List UInt8 := []
  blob : List Bool := []
  deserializing : Bool := false

namespace BitDeserializer

def pushBytes (d : BitDeserializer) (bytes : List UInt8) : Option BitDeserializer :=
  if d.deserializing then none else some { d with bytesBlob := d.bytesBlob ++ bytes }

def bitsOf (byte : UInt8) : List Bool :=
  [byte &&& 0x80 != 0, byte &&& 0x40 != 0, byte &&& 0x20 != 0, byte &&& 0x10 != 0,
    byte &&& 0x8 != 0, byte &&& 0x4 != 0, byte &&& 0x2 != 0, byte &&& 0x1 != 0]

def prepareDeserialization (d : BitDeserializer) : BitDeserializer :=
  if d.deserializing then d
  else { d with deserializing := true, blob := d.blob ++ d.bytesBlob.flatMap bitsOf }

/-- The result is collected in 8 bits, whatever the size. -/
def getBits (d : BitDeserializer) (size : UInt8) : Option (UInt64 × BitDeserializer) :=
  let d := d.prepareDeserialization
  if 64 < size then none
  else if d.blob.length < size.toNat then none
  else
    some ((collect (d.blob.take size.toNat)).toUInt64,
      { d with blob := d.blob.drop size.toNat })

def getAll (d : BitDeserializer) : List UInt8 → Option (List UInt64)
  | [] => some []
  | size :: sizes => do
    let (value, d) ← d.getBits size
    let values ← d.getAll sizes
    return value :: values

end BitDeserializer

/-! ## The claim about the two -/

/-- A value and its width. -/
abbrev BitField : Type := UInt64 × UInt8

def BitField.Fits (f : BitField) : Prop := 1 ≤ f.2.toNat ∧ f.2.toNat ≤ 64 ∧ f.1.toNat < 2 ^ f.2.toNat

/-- A fresh serializer, padding at the end, after the pushes. -/
def pushAll (fields : List BitField) : BitSerializer :=
  fields.foldl (fun s f => s.pushBits f.1 f.2) {}

def totalBits (fields : List BitField) : Nat := (fields.map fun f => f.2.toNat).sum

/-- `ceil (total bits / 8)` -/
def neededBytes (fields : List BitField) : Nat := (totalBits fields + 7) / 8

def readBack (fields : List BitField) : Option (List UInt64) := do
  let d ← ({} : BitDeserializer).pushBytes (pushAll fields).getBytes.1
  d.getAll (fields.map Prod.snd)

/-- The stores into an array, one after the other. -/
def written (buffer : List UInt8) (writes : List (UInt8 × UInt8)) : List UInt8 :=
  writes.foldl (fun buffer write => buffer.set write.1.toNat write.2) buffer

/-- An array that is large enough gets the packed bytes, and their number is returned. -/
def FillsArray (fields : List BitField) (size : UInt32) : Prop :=
  neededBytes fields ≤ size.toNat → ∃ writes resultLen s,
    (pushAll fields).getBytesInto size = some (writes, resultLen, s) ∧
      resultLen.toNat = neededBytes fields ∧
      ∀ buffer : List UInt8, buffer.length = size.toNat →
        (written buffer writes).take (neededBytes fields) =
          (pushAll fields).getBytes.1.take (neededBytes fields)

/-- No store is outside of the array. -/
def StaysInside (fields : List BitField) (size : UInt32) : Prop :=
  ∀ writes resultLen s, (pushAll fields).getBytesInto size = some (writes, resultLen, s) →
    ∀ write ∈ writes, write.1.toNat < size.toNat

/-! ## Bits and bytes -/

theorem toNat_shiftIn (tmp : UInt8) (bit : Bool) :
    (shiftIn tmp bit).toNat = (tmp.toNat * 2 + bit.toNat) % 256 := by
  have shifted : (tmp <<< 1).toNat = 2 ^ 1 * (tmp.toNat % 128) := by
    rw [UInt8.toNat_shiftLeft, shiftLeft_eq]
    change tmp.toNat * 2 % 256 = _
    omega
  have small : bit.toNat < 2 ^ 1 := bit.toNat_lt
  have one : (if bit then 1 else 0 : UInt8).toNat = bit.toNat := by cases bit <;> rfl
  unfold shiftIn
  rw [UInt8.toNat_or, shifted, one, ← two_pow_add_eq_or_of_lt small]
  omega

theorem toNat_foldl_shiftIn (bits : List Bool) (tmp : UInt8) :
    (bits.foldl shiftIn tmp).toNat = (tmp.toNat * 2 ^ bits.length + toNat bits) % 256 := by
  induction bits generalizing tmp with
  | nil =>
    have tmp_lt := tmp.toNat_lt
    change tmp.toNat = (tmp.toNat * 1 + 0) % 256
    omega
  | cons bit bits ih =>
    have first : toNat (bit :: bits) = bit.toNat * 2 ^ bits.length + toNat bits :=
      rfl
    rw [foldl_cons, ih, toNat_shiftIn, length_cons, Nat.pow_succ, first, add_mod,
      mod_mul_mod, ← add_mod]
    congr 1
    rw [Nat.add_mul, mul_assoc, mul_comm 2, add_assoc]

/-- **Collected bits** are the lowest eight of their number. -/
theorem toNat_collect (bits : List Bool) : (collect bits).toNat = toNat bits % 256 := by
  simp [collect, toNat_foldl_shiftIn]

namespace BitSerializer

theorem toNat_mask {n : Nat} (inside : n < 64) :
    ((1 : UInt64) <<< UInt64.ofNat n).toNat = 2 ^ n := by
  have index : (UInt64.ofNat n).toNat = n := UInt64.toNat_ofNat_of_lt' (lt_trans inside (by decide))
  rw [UInt64.toNat_shiftLeft, index, mod_eq_of_lt inside, UInt64.toNat_one, one_shiftLeft]
  exact mod_eq_of_lt (Nat.pow_lt_pow_right (by decide) inside)

theorem and_mask (value : UInt64) {n : Nat} (inside : n < 64) :
    (value &&& (1 <<< UInt64.ofNat n) != 0) = value.toNat.testBit n := by
  have masked : (value &&& (1 <<< UInt64.ofNat n)).toNat =
      (value.toNat.testBit n).toNat * 2 ^ n := by simp [toNat_mask inside, and_two_pow]
  have positive := Nat.two_pow_pos n
  cases bit : value.toNat.testBit n with
  | false =>
    rw [bit, Bool.toNat_false, Nat.zero_mul] at masked
    rw [bne_eq_false_iff_eq]
    exact UInt64.toNat_inj.mp masked
  | true =>
    rw [bit, Bool.toNat_true, one_mul] at masked
    rw [bne_iff_ne]
    intro zero
    rw [zero, UInt64.toNat_zero] at masked
    omega

theorem bitsUnder_eq (value : UInt64) {n : Nat} (inside : n < 64) :
    bitsUnder value (1 <<< UInt64.ofNat n) (n + 1) = ofNat value.toNat (n + 1) := by
  induction n with
  | zero =>
    unfold bitsUnder ofNat
    rw [and_mask value inside]
    rfl
  | succ n ih =>
    have next : ((1 : UInt64) <<< UInt64.ofNat (n + 1)) >>> 1 = 1 <<< UInt64.ofNat n := by
      apply UInt64.toNat_inj.mp
      rw [UInt64.toNat_shiftRight, toNat_mask inside, toNat_mask (lt_of_succ_lt inside),
        shiftRight_eq_div_pow, Nat.pow_succ]
      exact Nat.mul_div_cancel _ (by decide)
    rw [bitsUnder, ofNat, and_mask value inside, next, ih (lt_of_succ_lt inside)]

theorem blob_pushBits (s : BitSerializer) {f : BitField} (fits : f.Fits) :
    (s.pushBits f.1 f.2).blob = s.blob ++ ofNat f.1.toNat f.2.toNat := by
  obtain ⟨positive, most, _⟩ := fits
  have index : f.2.toUInt64 - 1 = UInt64.ofNat (f.2.toNat - 1) := by
    apply UInt64.toNat_inj.mp
    rw [UInt64.toNat_sub_of_le _ _ (UInt64.le_iff_toNat_le.mpr (by
      rw [UInt8.toNat_toUInt64]; exact positive)), UInt8.toNat_toUInt64, UInt64.toNat_one]
    exact (UInt64.toNat_ofNat_of_lt' (lt_of_le_of_lt (by omega : _ ≤ 63) (by decide))).symm
  have bits := bitsUnder_eq f.1 (by omega : f.2.toNat - 1 < 64)
  rw [Nat.sub_add_cancel positive] at bits
  unfold pushBits
  rw [index, bits]

end BitSerializer

variable {fields : List BitField}

open BitSerializer in
theorem pushAll_eq (fit : ∀ f ∈ fields, f.Fits) :
    (pushAll fields).blob = fields.flatMap (fun f => ofNat f.1.toNat f.2.toNat) ∧
      (pushAll fields).padAtEnd = true := by
  have from_ : ∀ s : BitSerializer, (fields.foldl (fun s f => s.pushBits f.1 f.2) s).blob =
      s.blob ++ fields.flatMap (fun f => ofNat f.1.toNat f.2.toNat) ∧
      (fields.foldl (fun s f => s.pushBits f.1 f.2) s).padAtEnd = s.padAtEnd := by
    induction fields with
    | nil => exact fun s => ⟨(append_nil _).symm, rfl⟩
    | cons f fields ih =>
      intro s
      obtain ⟨blob, pad⟩ := ih (fun g mem => fit g (mem_cons_of_mem _ mem)) (s.pushBits f.1 f.2)
      rw [blob_pushBits s (fit f mem_cons_self), append_assoc] at blob
      exact ⟨blob, pad⟩
  exact from_ {}

theorem length_blob (fit : ∀ f ∈ fields, f.Fits) :
    (pushAll fields).blob.length = totalBits fields := by
  rw [(pushAll_eq fit).1, length_flatMap]
  congr 1
  exact map_congr_left fun f _ => length_ofNat _ _

theorem padded_eq (fit : ∀ f ∈ fields, f.Fits) :
    (pushAll fields).padded = fields.flatMap (fun f => ofNat f.1.toNat f.2.toNat) ++
        List.replicate (8 - totalBits fields % 8) false ∧
      (pushAll fields).padded.length = 8 * (totalBits fields / 8 + 1) := by
  have length := length_blob fit
  obtain ⟨blob, atEnd⟩ := pushAll_eq fit
  have padded : (pushAll fields).padded = fields.flatMap (fun f => ofNat f.1.toNat f.2.toNat) ++
        List.replicate (8 - totalBits fields % 8) false := by
    unfold BitSerializer.padded BitSerializer.padding
    rw [if_pos atEnd, length, blob]
  refine ⟨padded, ?_⟩
  rw [padded, length_append, length_replicate, ← blob, length]
  omega

theorem bitsOf_collect : ∀ b0 b1 b2 b3 b4 b5 b6 b7 : Bool,
    BitDeserializer.bitsOf (collect [b0, b1, b2, b3, b4, b5, b6, b7]) =
      [b0, b1, b2, b3, b4, b5, b6, b7] := by
  decide

/-- **Bytes** give back the bits they were made of. -/
theorem flatMap_bytesOf {bits : List Bool} {bytes : Nat} (whole : bits.length = 8 * bytes) :
    (BitSerializer.bytesOf bits).flatMap BitDeserializer.bitsOf = bits ∧
      (BitSerializer.bytesOf bits).length = bytes := by
  induction bytes generalizing bits with
  | zero =>
    obtain rfl := length_eq_zero_iff.mp whole
    exact ⟨rfl, rfl⟩
  | succ bytes ih =>
    match bits, whole with
    | b0 :: b1 :: b2 :: b3 :: b4 :: b5 :: b6 :: b7 :: rest, whole =>
      simp only [length_cons] at whole
      obtain ⟨same, length⟩ := ih (by omega : rest.length = 8 * bytes)
      rw [BitSerializer.bytesOf, flatMap_cons, bitsOf_collect, same, length_cons, length]
      exact ⟨rfl, rfl⟩

/-! ## Reading back -/

theorem getBits_eq {d : BitDeserializer} {f : BitField} {rest : List Bool} (fits : f.Fits)
    (ahead : d.prepareDeserialization.blob = ofNat f.1.toNat f.2.toNat ++ rest) :
    d.getBits f.2 = some ((UInt8.ofNat f.1.toNat).toUInt64,
      { d.prepareDeserialization with blob := rest }) := by
  obtain ⟨_, most, below⟩ := fits
  have long : ¬ (64 : UInt8) < f.2 := by
    rw [UInt8.lt_iff_toNat_lt]
    exact not_lt.mpr most
  have length := length_ofNat f.1.toNat f.2.toNat
  unfold BitDeserializer.getBits
  rw [if_neg long, ahead, if_neg (by rw [length_append, length]; omega),
    take_left' length, drop_left' length]
  have value : collect (ofNat f.1.toNat f.2.toNat) = UInt8.ofNat f.1.toNat := by
    apply UInt8.toNat_inj.mp
    simp [toNat_collect, toNat_ofNat, mod_eq_of_lt below]
  rw [value]

section

variable (fit : ∀ f ∈ fields, f.Fits)
include fit

theorem getAll_eq {d : BitDeserializer}
    {rest : List Bool} (ahead : d.prepareDeserialization.blob =
      fields.flatMap (fun f => ofNat f.1.toNat f.2.toNat) ++ rest) :
    d.getAll (fields.map Prod.snd) =
      some (fields.map fun f => (UInt8.ofNat f.1.toNat).toUInt64) := by
  induction fields generalizing d with
  | nil => rfl
  | cons f fields ih =>
    rw [flatMap_cons, append_assoc] at ahead
    have prepared : ∀ rest, ({ d.prepareDeserialization with blob := rest } :
        BitDeserializer).prepareDeserialization.blob = rest := by
      intro rest
      unfold BitDeserializer.prepareDeserialization
      split <;> simp_all
    rw [map_cons, BitDeserializer.getAll, getBits_eq (fit f mem_cons_self) ahead]
    have later := ih (fun g mem => fit g (mem_cons_of_mem _ mem)) (prepared _)
    simp only [Option.bind_eq_bind, Option.bind_some, later]
    rfl

/-- **Reading back** gives every value in eight bits. -/
theorem readBack_eq :
    readBack fields = some (fields.map fun f => (UInt8.ofNat f.1.toNat).toUInt64) := by
  obtain ⟨padded, length⟩ := padded_eq fit
  have bits := (flatMap_bytesOf length).1
  apply getAll_eq fit
  exact bits.trans padded

theorem readBack_iff :
    readBack fields = some (fields.map Prod.fst) ↔ ∀ f ∈ fields, f.1.toNat < 256 := by
  rw [readBack_eq fit, Option.some_inj, map_inj_left]
  refine forall₂_congr fun f _ => ?_
  rw [← UInt64.toNat_inj, UInt8.toNat_toUInt64, UInt8.toNat_ofNat']
  have bound := f.1.toNat_lt
  omega

theorem getBytes_length : (pushAll fields).getBytes.1.length = totalBits fields / 8 + 1 :=
  (flatMap_bytesOf (padded_eq fit).2).2

end

/-! ## Into an array -/

namespace BitSerializer

/-- The stores go on from an index, which is returned behind the last one. -/
theorem stores_eq (resultLen : UInt8) (bytes : List UInt8) :
    (stores resultLen bytes).2.toNat = (resultLen.toNat + bytes.length) % 256 ∧
      ∀ index, (∃ byte, (index, byte) ∈ (stores resultLen bytes).1) ↔
        ∃ i < bytes.length, index.toNat = (resultLen.toNat + i) % 256 := by
  induction bytes generalizing resultLen with
  | nil =>
    have bound := resultLen.toNat_lt
    refine ⟨by change _ = (_ + 0) % 256; rw [add_zero, mod_eq_of_lt bound]; rfl,
      fun index => ?_⟩
    exact iff_of_false (fun ⟨_, mem⟩ => absurd mem not_mem_nil)
      (fun ⟨_, lt, _⟩ => absurd lt (Nat.not_lt_zero _))
  | cons byte bytes ih =>
    obtain ⟨final, members⟩ := ih (resultLen + 1)
    have next : (resultLen + 1).toNat = (resultLen.toNat + 1) % 256 := UInt8.toNat_add _ _
    have bound := resultLen.toNat_lt
    rw [next] at final
    refine ⟨?_, fun index => ?_⟩
    · change (stores (resultLen + 1) bytes).2.toNat = _
      rw [final, length_cons]
      omega
    · have cons : (stores resultLen (byte :: bytes)).1 =
          (resultLen, byte) :: (stores (resultLen + 1) bytes).1 := rfl
      simp only [cons, mem_cons, Prod.mk.injEq]
      constructor
      · rintro ⟨stored, ⟨rfl, rfl⟩ | mem⟩
        · exact ⟨0, succ_pos _, by omega⟩
        · obtain ⟨i, lt, same⟩ := (members index).mp ⟨stored, mem⟩
          rw [next] at same
          exact ⟨i + 1, succ_lt_succ lt, by omega⟩
      · rintro ⟨i, lt, same⟩
        cases i with
        | zero => exact ⟨byte, .inl ⟨UInt8.toNat_inj.mp (by omega), rfl⟩⟩
        | succ i =>
          obtain ⟨stored, mem⟩ := (members index).mpr
            ⟨i, lt_of_succ_lt_succ lt, by rw [next]; omega⟩
          exact ⟨stored, .inr mem⟩

/-- Stores whose index does not wrap leave the bytes in the array. -/
theorem written_stores {resultLen : UInt8} {bytes buffer : List UInt8}
    (short : resultLen.toNat + bytes.length ≤ 255)
    (room : resultLen.toNat + bytes.length ≤ buffer.length) :
    written buffer (stores resultLen bytes).1 =
      buffer.take resultLen.toNat ++ bytes ++ buffer.drop (resultLen.toNat + bytes.length) := by
  induction bytes generalizing resultLen buffer with
  | nil => simp [written, stores]
  | cons byte bytes ih =>
    rw [length_cons] at short room
    have next : (resultLen + 1).toNat = resultLen.toNat + 1 := by
      rw [UInt8.toNat_add]
      exact mod_eq_of_lt (by change _ + 1 < 256; omega)
    have later := @ih (resultLen + 1) (buffer.set resultLen.toNat byte)
      (by omega) (by rw [length_set]; omega)
    rw [next] at later
    change written (buffer.set resultLen.toNat byte) (stores (resultLen + 1) bytes).1 = _
    rw [later, length_cons, drop_set_of_lt (by omega), take_set]
    have grown : (buffer.take (resultLen.toNat + 1)).set resultLen.toNat byte =
        buffer.take resultLen.toNat ++ [byte] := by
      rw [take_succ_eq_append_getElem (by omega), set_append_right _ _ (by rw [length_take]; omega)]
      simp [min_eq_left (by omega : resultLen.toNat ≤ buffer.length)]
    rw [grown, Nat.add_right_comm, ← add_assoc, append_assoc _ [byte]]
    rfl

end BitSerializer

/-- The call aborts unless eight times the size, in 32 bits, is *less* than the padded bits. -/
theorem getBytesInto_eq (fit : ∀ f ∈ fields, f.Fits) (size : UInt32) :
    (pushAll fields).getBytesInto size =
      if 8 * (totalBits fields / 8 + 1) ≤ 8 * size.toNat % 2 ^ 32 then none
      else
        some ((BitSerializer.stores 0 (pushAll fields).getBytes.1).1,
          (BitSerializer.stores 0 (pushAll fields).getBytes.1).2,
          { pushAll fields with blob := [] }) := by
  have bits : (8 * size).toNat = 8 * size.toNat % 2 ^ 32 := UInt32.toNat_mul _ _
  unfold BitSerializer.getBytesInto
  rw [(padded_eq fit).2, bits]
  rfl

theorem staysInside_iff (fit : ∀ f ∈ fields, f.Fits) (size : UInt32) :
    StaysInside fields size ↔ 8 * (totalBits fields / 8 + 1) ≤ 8 * size.toNat % 2 ^ 32 ∨
      min (totalBits fields / 8 + 1) 256 ≤ size.toNat := by
  have length := getBytes_length fit
  have members := (BitSerializer.stores_eq 0 (pushAll fields).getBytes.1).2
  unfold StaysInside
  rw [getBytesInto_eq fit]
  split
  case isTrue short => exact iff_of_true (fun _ _ _ done => nomatch done) (.inl short)
  case isFalse long =>
    constructor
    · intro inside
      apply Or.inr
      apply Nat.le_of_not_lt
      intro beyond
      have index : (UInt8.ofNat size.toNat).toNat = size.toNat := by
        rw [UInt8.toNat_ofNat']
        omega
      obtain ⟨byte, mem⟩ := (members (.ofNat size.toNat)).mpr
        ⟨size.toNat, by omega, by rw [index, UInt8.toNat_zero]; omega⟩
      have lt := inside _ _ _ rfl _ mem
      rw [index] at lt
      exact lt_irrefl _ lt
    · rintro (short | room) writes resultLen s done write mem
      · exact absurd short long
      · cases done
        obtain ⟨i, lt, same⟩ := (members write.1).mp ⟨write.2, mem⟩
        rw [UInt8.toNat_zero] at same
        omega

theorem fillsArray_iff (fit : ∀ f ∈ fields, f.Fits) (size : UInt32) :
    FillsArray fields size ↔ (neededBytes fields ≤ size.toNat → totalBits fields % 8 ≠ 0 ∧
      totalBits fields / 8 + 1 ≤ 255 ∧
      8 * size.toNat % 2 ^ 32 < 8 * (totalBits fields / 8 + 1)) := by
  have length := getBytes_length fit
  obtain ⟨final, _⟩ := BitSerializer.stores_eq 0 (pushAll fields).getBytes.1
  rw [UInt8.toNat_zero, length] at final
  unfold FillsArray
  rw [getBytesInto_eq fit]
  have needed : neededBytes fields = (totalBits fields + 7) / 8 := rfl
  refine forall_congr' fun enough => ?_
  split
  case isTrue short =>
    refine iff_of_false (fun ⟨_, _, _, done, _⟩ => nomatch done) fun ⟨_, _, long⟩ => ?_
    omega
  case isFalse long =>
    constructor
    · rintro ⟨writes, resultLen, s, done, returned, _⟩
      cases done
      rw [final, needed] at returned
      omega
    · rintro ⟨odd, few, _⟩
      refine ⟨_, _, _, rfl, by rw [final, needed]; omega, fun buffer room => ?_⟩
      rw [BitSerializer.written_stores (by rw [UInt8.toNat_zero, length]; omega)
        (by rw [UInt8.toNat_zero, length]; omega)]
      rw [UInt8.toNat_zero, take_zero, nil_append, take_append_of_le_length (by rw [length]; omega)]

/-- **Bit serializer.** Values come back exactly when they fit in a byte, the bytes are as
many as needed exactly when the bits are not a whole number of bytes, and an array is filled
only where eight times its size wraps. -/
theorem bitSerializer_iff {fields : List BitField} (fit : ∀ f ∈ fields, f.Fits) (size : UInt32) :
    (readBack fields = some (fields.map Prod.fst) ↔ ∀ f ∈ fields, f.1.toNat < 256) ∧
      ((pushAll fields).getBytes.1.length = neededBytes fields ↔ totalBits fields % 8 ≠ 0) ∧
      (FillsArray fields size ∧ StaysInside fields size ↔
        totalBits fields % 8 ≠ 0 ∧ neededBytes fields ≤ size.toNat ∧ neededBytes fields ≤ 255 ∧
            8 * size.toNat % 2 ^ 32 < 8 * neededBytes fields ∨
          256 ≤ size.toNat ∧ size.toNat < neededBytes fields) := by
  have needed : neededBytes fields = (totalBits fields + 7) / 8 := rfl
  refine ⟨readBack_iff fit, ?_, ?_⟩
  · rw [getBytes_length fit, needed]
    omega
  · rw [fillsArray_iff fit, staysInside_iff fit, needed]
    omega

/-- A value of three bits in an array of one byte. -/
theorem bitSerializer_three :
    (readBack [(5, 3)] = some [5] ↔ ∀ f ∈ [((5, 3) : BitField)], f.1.toNat < 256) ∧
      ((pushAll [(5, 3)]).getBytes.1.length = neededBytes [(5, 3)] ↔ totalBits [(5, 3)] % 8 ≠ 0) ∧
      (FillsArray [(5, 3)] 1 ∧ StaysInside [(5, 3)] 1 ↔
        totalBits [(5, 3)] % 8 ≠ 0 ∧ neededBytes [(5, 3)] ≤ (1 : UInt32).toNat ∧
            neededBytes [(5, 3)] ≤ 255 ∧
            8 * (1 : UInt32).toNat % 2 ^ 32 < 8 * neededBytes [(5, 3)] ∨
          256 ≤ (1 : UInt32).toNat ∧ (1 : UInt32).toNat < neededBytes [(5, 3)]) :=
  bitSerializer_iff (by
    intro f mem
    rw [mem_singleton.mp mem]
    exact ⟨by decide, by decide, by decide⟩) 1

/-- A value of ten bits, a byte of eight bits, and arrays of one byte. -/
theorem bitSerializer_fails : readBack [(1000, 10)] = some [232] ∧
      (pushAll [(255, 8)]).getBytes.1 = [255, 0] ∧ neededBytes [(255, 8)] = 1 ∧
      ((pushAll [(5, 3)]).getBytesInto 1).isNone ∧ neededBytes [(5, 3)] = 1 ∧
      ((pushAll [(255, 8)]).getBytesInto 1).map (fun done => (done.1, done.2.1)) =
        some ([(0, 255), (1, 0)], 2) := by
  decide

end Ns3.Network
