import Ns3.Network.BufferOperations

/-!
# Buffers as arrays of bytes

A buffer is written as the size of its zero area and its head and tail, each with its size and
padded to words. The array is what the memory holds from the pointer on.
-/

namespace Ns3.Network.Buffer

open Regions List

/-- `(n + 3) & (~3)`. -/
def padded (n : Nat) : Nat := u32 (n + 3) / 4 * 4

/-- A `uint32_t` in memory, with the low byte first. -/
def wordBytes (n : Nat) : List UInt8 :=
  [UInt8.ofNat n, UInt8.ofNat (n / 256), UInt8.ofNat (n / 65536), UInt8.ofNat (n / 16777216)]

def wordOf (bytes : List UInt8) : Nat := bytes.foldr (fun byte high => byte.toNat + 256 * high) 0

def getSerializedSize (b : Buffer) : Nat :=
  let dataStart := padded (sub32 b.zeroAreaStart b.start)
  let dataEnd := padded (sub32 b.end_ b.zeroAreaEnd)
  u32 (4 + 4 + dataStart + 4 + dataEnd)

def serialize (h : Heap) (b : Buffer) (buffer : Nat → UInt8) (maxSize : Nat) :
    Option (Nat × (Nat → UInt8)) := do
  let size := 0
  if u32 (size + 4) ≤ maxSize then
    let size := u32 (size + 4)
    let buffer := patch buffer 0 (wordBytes (sub32 b.zeroAreaEnd b.zeroAreaStart))
    let dataStartLength := sub32 b.zeroAreaStart b.start
    if u32 (size + 4) ≤ maxSize then
      let size := u32 (size + 4)
      let buffer := patch buffer 4 (wordBytes dataStartLength)
      if u32 (size + padded dataStartLength) ≤ maxSize then
        let size := u32 (size + padded dataStartLength)
        let buffer := patch buffer 8 (← h.read b.data b.start dataStartLength)
        let p := 8 + padded dataStartLength / 4 * 4
        let dataEndLength := sub32 b.end_ b.zeroAreaEnd
        if u32 (size + 4) ≤ maxSize then
          let size := u32 (size + 4)
          let buffer := patch buffer p (wordBytes dataEndLength)
          if u32 (size + padded dataEndLength) ≤ maxSize then
            return (1, patch buffer (p + 4) (← h.read b.data b.zeroAreaStart dataEndLength))
          else return (0, buffer)
        else return (0, buffer)
      else return (0, buffer)
    else return (0, buffer)
  else return (0, buffer)

def deserialize (h : Heap) (buffer : Nat → UInt8) (size : Nat) :
    Option (Heap × Buffer × Nat) := do
  let sizeCheck := sub32 size 4
  guard (sizeCheck ≥ 4)
  let zeroDataLength := wordOf (slice buffer 0 4)
  let sizeCheck := sub32 sizeCheck 4
  let (h, b) ← initializeBuffer h zeroDataLength
  guard (sizeCheck ≥ 4)
  let dataStartLength := wordOf (slice buffer 4 4)
  let sizeCheck := sub32 sizeCheck 4
  let (h, b) ← addAtStart h b dataStartLength
  guard (sizeCheck ≥ dataStartLength)
  let (h, _) ← b.beginIterator.write h (slice buffer 8 dataStartLength)
  let p := 8 + padded dataStartLength / 4 * 4
  let sizeCheck := sub32 sizeCheck (padded dataStartLength)
  guard (sizeCheck ≥ 4)
  let dataEndLength := wordOf (slice buffer p 4)
  let sizeCheck := sub32 sizeCheck 4
  let (h, b) ← addAtEnd h b dataEndLength
  guard (sizeCheck ≥ dataEndLength)
  let tmp ← b.endIterator.prev dataEndLength
  let (h, _) ← tmp.write h (slice buffer (p + 4) dataEndLength)
  let sizeCheck := sub32 sizeCheck (padded dataEndLength)
  guard (sizeCheck = 0)
  return (h, b, if sizeCheck ≠ 0 then 0 else 1)

variable {h h' : Heap} {b : Buffer} {owners rest : List Buffer} {d : Data} {n : Nat}
  {array : Nat → UInt8}

theorem padded_eq (small : n + 3 < 4294967296) : padded n = (n + 3) / 4 * 4 := by
  unfold padded
  rw [u32_eq small]

@[simp] theorem length_wordBytes : (wordBytes n).length = 4 := rfl

theorem wordOf_wordBytes (small : n < 4294967296) : wordOf (wordBytes n) = n := by
  simp only [wordOf, wordBytes, foldr_cons, foldr_nil, UInt8.toNat_ofNat']
  omega

/-- The sections of an array: what `Serialize` writes and `Deserialize` reads. -/
structure Holds (array : Nat → UInt8) (p : Parts) : Prop where
  zeroWord : slice array 0 4 = wordBytes p.zeros
  headWord : slice array 4 4 = wordBytes p.head.length
  headBytes : slice array 8 p.head.length = p.head
  tailWord : slice array (8 + padded p.head.length) 4 = wordBytes p.tail.length
  tailBytes : slice array (12 + padded p.head.length) p.tail.length = p.tail

/-- The sections of an array one after the other. -/
def writeZeros (array : Nat → UInt8) (p : Parts) : Nat → UInt8 :=
  patch array 0 (wordBytes p.zeros)

def writeHeadWord (array : Nat → UInt8) (p : Parts) : Nat → UInt8 :=
  patch (writeZeros array p) 4 (wordBytes p.head.length)

def writeHeadBytes (array : Nat → UInt8) (p : Parts) : Nat → UInt8 :=
  patch (writeHeadWord array p) 8 p.head

def writeTailWord (array : Nat → UInt8) (p : Parts) : Nat → UInt8 :=
  patch (writeHeadBytes array p) (8 + padded p.head.length) (wordBytes p.tail.length)

def writeTailBytes (array : Nat → UInt8) (p : Parts) : Nat → UInt8 :=
  patch (writeTailWord array p) (12 + padded p.head.length) p.tail

/-- The parts fit in a storage. -/
def Parts.Fits (p : Parts) : Prop :=
  p.head.length + p.tail.length + 20 ≤ 4294967296 ∧ p.zeros < 4294967296

variable {p : Parts}

theorem Parts.Fits.head_le (fits : p.Fits) : p.head.length ≤ padded p.head.length ∧
    padded p.head.length < p.head.length + 4 := by
  obtain ⟨fits, -⟩ := fits
  rw [padded_eq (by omega)]
  omega

theorem Parts.Fits.tail_le (fits : p.Fits) : p.tail.length ≤ padded p.tail.length ∧
    padded p.tail.length < p.tail.length + 4 := by
  obtain ⟨fits, -⟩ := fits
  rw [padded_eq (by omega)]
  omega

theorem holds_writeTailBytes (fits : p.Fits) : Holds (writeTailBytes array p) p := by
  have head_le := fits.head_le.1
  constructor
  · unfold writeTailBytes writeTailWord writeHeadBytes writeHeadWord writeZeros
    rw [slice_patch_outside (.inl (by omega)), slice_patch_outside (.inl (by omega)),
      slice_patch_outside (.inl (by omega)), slice_patch_outside (.inl (by omega))]
    exact slice_patch
  · unfold writeTailBytes writeTailWord writeHeadBytes writeHeadWord
    rw [slice_patch_outside (.inl (by omega)), slice_patch_outside (.inl (by omega)),
      slice_patch_outside (.inl (by omega))]
    exact slice_patch
  · unfold writeTailBytes writeTailWord writeHeadBytes
    rw [slice_patch_outside (.inl (by omega)), slice_patch_outside (.inl (by omega))]
    exact slice_patch
  · unfold writeTailBytes writeTailWord
    rw [slice_patch_outside (.inl (by omega))]
    exact slice_patch
  · exact slice_patch

theorem Valid.fits (valid : Valid h (b :: rest)) : (parts h b).Fits := by
  obtain ⟨d, at_⟩ := valid.live mem_cons_self
  obtain ⟨start_le, zero_le, le_end, small, -, -, inside⟩ := valid.checked b mem_cons_self d at_
  have sized := valid.tidy.sized b.data d at_
  rw [parts_eq at_]
  simp only [Parts.Fits, partsIn, length_slice, headSize, tailSize, zeroSize]
  omega

theorem padded_words (n : Nat) : padded n / 4 * 4 = padded n := by
  unfold padded
  omega

/-- The sections that fit are written, and the first that does not ends the writing. -/
theorem Valid.serialize_eq (valid : Valid h (b :: rest)) (maxSize : Nat) :
    serialize h b array maxSize =
      let p := parts h b
      if 4 ≤ maxSize then
        if 8 ≤ maxSize then
          if 8 + padded p.head.length ≤ maxSize then
            if 12 + padded p.head.length ≤ maxSize then
              if 12 + padded p.head.length + padded p.tail.length ≤ maxSize then
                some (1, writeTailBytes array p)
              else some (0, writeTailWord array p)
            else some (0, writeHeadBytes array p)
          else some (0, writeHeadWord array p)
        else some (0, writeZeros array p)
      else some (0, array) := by
  obtain ⟨d, at_⟩ := valid.live mem_cons_self
  have ok := valid.checked b mem_cons_self d at_
  obtain ⟨head_eq, zeros_eq, tail_eq⟩ := ok.sizes at_
  have readHead := ok.readHead at_
  have readTail := ok.readTail at_
  have fits := valid.fits
  have head_le := fits.head_le
  have tail_le := fits.tail_le
  rw [head_eq] at readHead
  rw [tail_eq] at readTail
  have first : u32 (0 + 4) = 4 := rfl
  have second : u32 (4 + 4) = 8 := rfl
  generalize parts h b = p at *
  have small := fits.1
  have third : u32 (8 + padded p.head.length) = 8 + padded p.head.length := u32_eq (by omega)
  have fourth : u32 (12 + padded p.head.length) = 12 + padded p.head.length := u32_eq (by omega)
  have fifth : u32 (12 + padded p.head.length + padded p.tail.length) =
      12 + padded p.head.length + padded p.tail.length := u32_eq (by omega)
  have place : 8 + padded p.head.length + 4 = 12 + padded p.head.length := by omega
  simp only [serialize, first, second, head_eq, zeros_eq, tail_eq, readHead, readTail, third,
    fourth, fifth, padded_words, place, Option.bind_eq_bind, Option.bind_some]
  rfl

theorem Valid.getSerializedSize_eq (valid : Valid h (b :: rest)) :
    b.getSerializedSize = 12 + padded (parts h b).head.length + padded (parts h b).tail.length := by
  obtain ⟨d, at_⟩ := valid.live mem_cons_self
  obtain ⟨head_eq, -, tail_eq⟩ := (valid.checked b mem_cons_self d at_).sizes at_
  have fits := valid.fits
  have head_le := fits.head_le
  have tail_le := fits.tail_le
  have small := fits.1
  unfold getSerializedSize
  rw [head_eq, tail_eq, u32_eq (by omega)]
  omega

section

variable {i : Nat}

theorem writeZeros_outside (past : 4 ≤ i) : writeZeros array p i = array i :=
  patch_outside (.inr past)

theorem writeHeadWord_outside (past : 8 ≤ i) : writeHeadWord array p i = array i :=
  (patch_outside (.inr past)).trans (writeZeros_outside (by omega))

theorem writeHeadBytes_outside (past : 8 + p.head.length ≤ i) :
    writeHeadBytes array p i = array i :=
  (patch_outside (.inr past)).trans (writeHeadWord_outside (by omega))

theorem writeTailWord_outside (fits : p.Fits) (past : 12 + padded p.head.length ≤ i) :
    writeTailWord array p i = array i := by
  have head_le := fits.head_le.1
  have outside : 8 + padded p.head.length + (wordBytes p.tail.length).length ≤ i := by
    rw [length_wordBytes]
    omega
  exact (patch_outside (.inr outside)).trans (writeHeadBytes_outside (by omega))

theorem writeTailBytes_outside (fits : p.Fits)
    (past : 12 + padded p.head.length + p.tail.length ≤ i) : writeTailBytes array p i = array i :=
  (patch_outside (.inr past)).trans (writeTailWord_outside fits (by omega))

end

/-- **`Serialize`** writes within the capacity, and succeeds where that is enough. -/
theorem Valid.serialize_spec (valid : Valid h (b :: rest)) (array : Nat → UInt8) (maxSize : Nat) :
    ∃ written array', serialize h b array maxSize = some (written, array') ∧
      (∀ i, maxSize ≤ i → array' i = array i) ∧
      (maxSize < b.getSerializedSize → written = 0) ∧
      (b.getSerializedSize ≤ maxSize → written = 1 ∧ Holds array' (parts h b)) := by
  have fits := valid.fits
  have head_le := fits.head_le.1
  have tail_le := fits.tail_le.1
  rw [valid.serialize_eq, valid.getSerializedSize_eq]
  generalize parts h b = p at *
  dsimp only
  split
  case isFalse => exact ⟨0, _, rfl, fun i past => rfl, fun _ => rfl, by omega⟩
  split
  case isFalse =>
    exact ⟨0, _, rfl, fun i past => writeZeros_outside (by omega), fun _ => rfl, by omega⟩
  split
  case isFalse =>
    exact ⟨0, _, rfl, fun i past => writeHeadWord_outside (by omega), fun _ => rfl, by omega⟩
  split
  case isFalse =>
    exact ⟨0, _, rfl, fun i past => writeHeadBytes_outside (by omega), fun _ => rfl, by omega⟩
  split
  case isFalse =>
    exact ⟨0, _, rfl, fun i past => writeTailWord_outside fits (by omega), fun _ => rfl, by omega⟩
  case isTrue =>
    exact ⟨1, _, rfl, fun i past => writeTailBytes_outside fits (by omega), by omega,
      fun _ => ⟨rfl, holds_writeTailBytes fits⟩⟩

/-- **`Deserialize`** makes a buffer of the same parts, if its size counts the four bytes before
the array. -/
theorem Valid.deserialize_spec (valid : Valid h owners) (holds : Holds array p) (fits : p.Fits)
    (room : h.recommendedStart + p.bytes.length + 120 ≤ 4294967296) :
    ∃ h' b, deserialize h array (16 + padded p.head.length + padded p.tail.length) =
      some (h', b, 1) ∧ Leaves h h' b owners ∧ parts h' b = p := by
  obtain ⟨zeroWord, headWord, headBytes, tailWord, tailBytes⟩ := holds
  have head_le := fits.head_le
  have tail_le := fits.tail_le
  obtain ⟨small, zeros_small⟩ := fits
  have length := p.length_bytes
  obtain ⟨h₁, b₁, made, leaves₁, alone₁, parts₁, end₁, start₁⟩ :=
    valid.initializeBuffer (show h.recommendedStart + p.zeros + 120 ≤ 4294967296 by omega)
  have size₁ := leaves₁.valid.size_eq
  rw [parts₁, Parts.length_bytes] at size₁
  obtain ⟨h₂, b₂, old, grown, grows₂, old_length, parts₂, -⟩ :=
    leaves₁.valid.addAtStart (show b₁.end_ - b₁.start + p.head.length + 120 ≤ 4294967296 by
      rw [size₁]
      omega)
  rw [parts₁] at parts₂
  have alone₂ := grows₂.alone alone₁
  obtain ⟨h₃, i₃, written, leaves₃, parts₃, start₃⟩ :=
    @Valid.writeBegin _ _ _ grows₂.leaves.valid p.head old [] old_length
      (by rw [parts₂]) alone₂.apart
  rw [parts₂, append_nil] at parts₃
  obtain ⟨d₃, at₃⟩ := leaves₃.valid.live mem_cons_self
  have end₂ := grows₂.end_le
  obtain ⟨h₄, b₄, old', grown', grows₄, old_length', parts₄, -⟩ :=
    leaves₃.valid.addAtEnd at₃ (show b₂.end_ + p.tail.length + 120 ≤ 4294967296 by omega)
  rw [parts₃] at parts₄
  have alone₄ := grows₄.alone alone₂
  obtain ⟨i, h₅, i₅, back, written', leaves₅, parts₅, start₅⟩ :=
    @Valid.writeEnd _ _ _ grows₄.leaves.valid p.tail old' [] old_length'
      (by rw [parts₄]) alone₄.apart
  rw [parts₄, nil_append] at parts₅
  have frame : Leaves h h₅ b₄ owners := by
    refine ⟨leaves₅.valid, fun r mem => ?_⟩
    rw [leaves₅.frame r mem, grows₄.leaves.frame r mem, leaves₃.frame r mem,
      grows₂.leaves.frame r mem, leaves₁.frame r mem]
  refine ⟨h₅, b₄, ?_, frame, parts₅⟩
  have zeros_read : wordOf (slice array 0 4) = p.zeros := by
    rw [zeroWord, wordOf_wordBytes zeros_small]
  have head_read : wordOf (slice array 4 4) = p.head.length := by
    rw [headWord, wordOf_wordBytes (by omega)]
  have tail_read : wordOf (slice array (8 + padded p.head.length) 4) = p.tail.length := by
    rw [tailWord, wordOf_wordBytes (by omega)]
  have place : 8 + padded p.head.length + 4 = 12 + padded p.head.length := by omega
  have left₁ : sub32 (16 + padded p.head.length + padded p.tail.length) 4 =
      12 + padded p.head.length + padded p.tail.length := by
    rw [sub32_eq (by omega) (by omega)]
    omega
  have left₂ : sub32 (12 + padded p.head.length + padded p.tail.length) 4 =
      8 + padded p.head.length + padded p.tail.length := by
    rw [sub32_eq (by omega) (by omega)]
    omega
  have left₃ : sub32 (8 + padded p.head.length + padded p.tail.length) 4 =
      4 + padded p.head.length + padded p.tail.length := by
    rw [sub32_eq (by omega) (by omega)]
    omega
  have left₄ : sub32 (4 + padded p.head.length + padded p.tail.length) (padded p.head.length) =
      4 + padded p.tail.length := by
    rw [sub32_eq (by omega) (by omega)]
    omega
  have left₅ : sub32 (4 + padded p.tail.length) 4 = padded p.tail.length := by
    rw [sub32_eq (by omega) (by omega)]
    omega
  have left₆ : sub32 (padded p.tail.length) (padded p.tail.length) = 0 := by
    rw [sub32_eq le_rfl (by omega), Nat.sub_self]
  have check₁ : 12 + padded p.head.length + padded p.tail.length ≥ 4 := by omega
  have check₂ : 8 + padded p.head.length + padded p.tail.length ≥ 4 := by omega
  have check₃ : 4 + padded p.head.length + padded p.tail.length ≥ p.head.length := by omega
  have check₄ : 4 + padded p.tail.length ≥ 4 := by omega
  have check₅ : padded p.tail.length ≥ p.tail.length := tail_le.1
  rw [deserialize, left₁, guard_some check₁]
  simp only [Option.bind_eq_bind, Option.bind_some, left₂, zeros_read, made, guard_some check₂,
    left₃, head_read, grown, guard_some check₃, headBytes, written, left₄, guard_some check₄,
    padded_words, tail_read, left₅, grown', guard_some check₅, back, place, tailBytes, written',
    left₆]
  rfl

theorem Holds.congr {copied : Nat → UInt8} (holds : Holds array p) (fits : p.Fits)
    (same : ∀ i, i < 12 + padded p.head.length + padded p.tail.length → copied i = array i) :
    Holds copied p := by
  have head_le := fits.head_le.1
  have tail_le := fits.tail_le.1
  obtain ⟨zeroWord, headWord, headBytes, tailWord, tailBytes⟩ := holds
  have region {k m : Nat} (inside : k + m ≤ 12 + padded p.head.length + padded p.tail.length) :
      slice copied k m = slice array k m := slice_congr fun i _ below => same i (by omega)
  exact ⟨(region (by omega)).trans zeroWord, (region (by omega)).trans headWord,
    (region (by omega)).trans headBytes, (region (by omega)).trans tailWord,
    (region (by omega)).trans tailBytes⟩

/-- **Serialization round trip.** -/
theorem buffer_roundTrip (valid : Valid h (b :: rest)) (array : Nat → UInt8) :
    (∀ maxSize, ∃ written array', serialize h b array maxSize = some (written, array') ∧
      (∀ i, maxSize ≤ i → array' i = array i) ∧ (maxSize < b.getSerializedSize → written = 0)) ∧
    ∃ array', serialize h b array b.getSerializedSize = some (1, array') ∧
      ∀ (copied : Nat → UInt8) (h₂ : Heap) (owners : List Buffer),
        (∀ i, i < b.getSerializedSize → copied i = array' i) → Valid h₂ owners →
        h₂.recommendedStart + b.getSize + 120 ≤ 4294967296 →
        ∃ h₃ b', deserialize h₂ copied (b.getSerializedSize + 4) = some (h₃, b', 1) ∧
          Leaves h₂ h₃ b' owners ∧ (parts h₃ b').bytes = (parts h b).bytes := by
  refine ⟨fun maxSize => ?_, ?_⟩
  · obtain ⟨written, array', done, outside, short, -⟩ := valid.serialize_spec array maxSize
    exact ⟨written, array', done, outside, short⟩
  obtain ⟨written, array', done, -, -, complete⟩ := valid.serialize_spec array b.getSerializedSize
  obtain ⟨rfl, holds⟩ := complete le_rfl
  refine ⟨array', done, fun copied h₂ owners same valid₂ room => ?_⟩
  obtain ⟨d, at_⟩ := valid.live mem_cons_self
  have fits := valid.fits
  have size_eq := valid.getSerializedSize_eq
  rw [(valid.checked b mem_cons_self d at_).getSize_eq, valid.size_eq] at room
  rw [size_eq] at same ⊢
  obtain ⟨h₃, b', read, leaves, parts_eq⟩ :=
    valid₂.deserialize_spec (holds.congr fits same) fits room
  refine ⟨h₃, b', ?_, leaves, congrArg Parts.bytes parts_eq⟩
  have total : 12 + padded (parts h b).head.length + padded (parts h b).tail.length + 4 =
      16 + padded (parts h b).head.length + padded (parts h b).tail.length := by omega
  rw [total]
  exact read

theorem buffer_roundTrip_three :
    ∃ h b h' b', initializeBuffer (Heap.empty (fun _ _ => 7) 0) 5 = some (h, b) ∧
      addAtStart h b 3 = some (h', b') ∧
      (∀ maxSize, ∃ written array', serialize h' b' (fun _ => 0) maxSize = some (written, array') ∧
        (∀ i, maxSize ≤ i → array' i = 0) ∧ (maxSize < b'.getSerializedSize → written = 0)) ∧
      ∃ array', serialize h' b' (fun _ => 0) b'.getSerializedSize = some (1, array') ∧
        ∀ (copied : Nat → UInt8) (h₂ : Heap) (owners : List Buffer),
          (∀ i, i < b'.getSerializedSize → copied i = array' i) → Valid h₂ owners →
          h₂.recommendedStart + b'.getSize + 120 ≤ 4294967296 →
          ∃ h₃ b₃, deserialize h₂ copied (b'.getSerializedSize + 4) = some (h₃, b₃, 1) ∧
            Leaves h₂ h₃ b₃ owners ∧ (parts h₃ b₃).bytes = (parts h' b').bytes := by
  obtain ⟨h, b, made, leaves, -, parts, -, -⟩ :=
    @Valid.initializeBuffer _ _ 5 (Valid.empty (fun _ _ => 7) 0) (show 0 + 5 + 120 ≤ _ by omega)
  have size := leaves.valid.size_eq
  rw [parts] at size
  obtain ⟨h', b', -, grown, grows, -, -, -⟩ := @Valid.addAtStart _ _ _ 3 leaves.valid (by
      rw [size]
      simp [Parts.bytes])
  exact ⟨h, b, h', b', made, grown, buffer_roundTrip grows.leaves.valid (fun _ => 0)⟩

/-- With the size of the array itself a check fails; and so it does where the offsets of the new
buffer wrap around. -/
theorem buffer_not_roundTrip : ((initializeBuffer (Heap.empty (fun _ _ => 0) 0) 0).any fun (h, b) =>
      (serialize h b (fun _ => 0) b.getSerializedSize).any fun (written, array) =>
        written == 1 && (deserialize h array b.getSerializedSize).isNone) ∧
    ((initializeBuffer (Heap.empty (fun _ _ => 0) 0) 4294967291).any fun (h, b) =>
      (addAtEnd h b 2).any fun (h', b') =>
        (serialize h' b' (fun _ => 0) b'.getSerializedSize).any fun (written, array) =>
          written == 1 && (deserialize (Heap.empty (fun _ _ => 0) 4) array
            (b'.getSerializedSize + 4)).isNone) := by decide +kernel

end Ns3.Network.Buffer
