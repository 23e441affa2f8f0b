import Ns3.Library.ByteReader

/-!
# `TcpOption`

The options of the TCP header, each with what its class writes and reads. A size
is a `uint32_t` and far from its limit.
-/

namespace Ns3.Internet

open ByteReader List ByteReader

/-- What ends a parse: a loop that does not end, an abort, and a read past the bytes. -/
inductive Stop where
  | endless
  | aborted
  | pastEnd
  deriving DecidableEq

inductive TcpOption where
  | listEnd
  | nop
  | mss (value : UInt16)
  | winScale (scale : UInt8)
  | sackPermitted
  | sack (sackList : List (UInt32 × UInt32))
  | ts (timestamp echo : UInt32)
  | unknown (kind size : UInt8) (content : List UInt8)
  deriving DecidableEq

namespace TcpOption

def getKind : TcpOption → UInt8
  | listEnd => 0
  | nop => 1
  | mss _ => 2
  | winScale _ => 3
  | sackPermitted => 4
  | sack _ => 5
  | ts _ _ => 8
  | unknown kind _ _ => kind

def isKindKnown (kind : UInt8) : Bool :=
  kind = 0 || kind = 1 || kind = 2 || kind = 3 || kind = 4 || kind = 5 || kind = 8

def getSerializedSize : TcpOption → Nat
  | listEnd | nop => 1
  | mss _ => 4
  | winScale _ => 3
  | sackPermitted => 2
  | sack sackList => 2 + 8 * sackList.length
  | ts _ _ => 10
  | unknown _ size _ => size.toNat

def writeBlock (block : UInt32 × UInt32) : List UInt8 :=
  writeHtonU32 block.1 ++ writeHtonU32 block.2

def serialize : TcpOption → List UInt8
  | listEnd => [0]
  | nop => [1]
  | mss value => [2, 4] ++ writeHtonU16 value
  | winScale scale => [3, 3, scale]
  | sackPermitted => [4, 2]
  | sack sackList =>
    [5, .ofNat (8 * sackList.length + 2)] ++ sackList.flatMap writeBlock
  | ts timestamp echo =>
    [8, 10] ++ (writeHtonU32 timestamp ++ writeHtonU32 echo)
  | unknown kind size content => if size = 0 then [] else [kind, size] ++ content

/-! ## `Deserialize`

Each answers the size that `Deserialize` returns, and the option it leaves. -/

/-- An option of one byte. -/
def deserializeBare (op : TcpOption) : Reader Stop (Nat × TcpOption) := do
  let readKind ← readU8 Stop.pastEnd
  if readKind ≠ op.getKind then return (0, op) else return (op.getSerializedSize, op)

/-- An option with one size only, which is rejected with another. -/
def deserializeFixed (created : TcpOption) (body : Reader Stop TcpOption) :
    Reader Stop (Nat × TcpOption) := do
  let readKind ← readU8 Stop.pastEnd
  if readKind ≠ created.getKind then return (0, created)
  else
    let size ← readU8 Stop.pastEnd
    if size ≠ .ofNat created.getSerializedSize then return (0, created)
    else
      let op ← body
      return (op.getSerializedSize, op)

def deserializeEnd : Reader Stop (Nat × TcpOption) := deserializeBare listEnd

def deserializeNop : Reader Stop (Nat × TcpOption) := deserializeBare nop

/-- Another size than 4 aborts. -/
def deserializeMss : Reader Stop (Nat × TcpOption) := do
  let readKind ← readU8 Stop.pastEnd
  if readKind ≠ 2 then return (0, mss 1460)
  else
    let size ← readU8 Stop.pastEnd
    if size ≠ 4 then throw Stop.aborted
    else
      let value ← readNtohU16 Stop.pastEnd
      return ((mss value).getSerializedSize, mss value)

def deserializeWinScale : Reader Stop (Nat × TcpOption) :=
  deserializeFixed (winScale 0) do
    let scale ← readU8 Stop.pastEnd
    return winScale scale

def deserializeSackPermitted : Reader Stop (Nat × TcpOption) :=
  deserializeFixed sackPermitted (return sackPermitted)

def readBlock : Reader Stop (UInt32 × UInt32) := do
  let leftEdge ← readNtohU32 Stop.pastEnd
  let rightEdge ← readNtohU32 Stop.pastEnd
  return (leftEdge, rightEdge)

/-- A size below 2 gives no block, as the division is of an `int` and rounds to zero. -/
def deserializeSack : Reader Stop (Nat × TcpOption) := do
  let readKind ← readU8 Stop.pastEnd
  if readKind ≠ 5 then return (0, sack [])
  else
    let size ← readU8 Stop.pastEnd
    let sackList ← readMany readBlock ((size.toNat - 2) / 8)
    return ((sack sackList).getSerializedSize, sack sackList)

def deserializeTs : Reader Stop (Nat × TcpOption) :=
  deserializeFixed (ts 0 0) do
    let timestamp ← readNtohU32 Stop.pastEnd
    let echo ← readNtohU32 Stop.pastEnd
    return ts timestamp echo

def deserializeUnknown : Reader Stop (Nat × TcpOption) := do
  let kind ← readU8 Stop.pastEnd
  let size ← readU8 Stop.pastEnd
  if size < 2 ∨ 40 < size then return (0, unknown kind size [])
  else
    let content ← readBytes Stop.pastEnd (size.toNat - 2)
    return (size.toNat, unknown kind size content)

/-- `Deserialize` of the option that `CreateOption` creates for a kind. -/
def deserializeKind (kind : UInt8) : Reader Stop (Nat × TcpOption) :=
  if kind = 0 then deserializeEnd
  else if kind = 1 then deserializeNop
  else if kind = 2 then deserializeMss
  else if kind = 3 then deserializeWinScale
  else if kind = 4 then deserializeSackPermitted
  else if kind = 5 then deserializeSack
  else if kind = 8 then deserializeTs
  else deserializeUnknown

/-- The kind is peeked at first. -/
def deserialize (i : List UInt8) : Except Stop (Nat × TcpOption) :=
  match i with
  | [] => .error .pastEnd
  | kind :: _ => (deserializeKind kind i).map Prod.fst

end TcpOption

/-! ## Written options -/

namespace TcpOption

theorem length_writeBlock (block : UInt32 × UInt32) : (writeBlock block).length = 8 := rfl

/-- The option is of a class for one kind. -/
def Known : TcpOption → Prop
  | unknown _ _ _ => False
  | _ => True

/-- An option of a known kind writes as many bytes as its size. -/
theorem length_serialize {op : TcpOption} (known : op.Known) :
    op.serialize.length = op.getSerializedSize := by
  cases op with
  | sack sackList =>
    have blocks : (sackList.flatMap writeBlock).length = 8 * sackList.length := by
      rw [length_flatMap]
      simp [length_writeBlock, Nat.mul_comm]
    unfold serialize getSerializedSize
    rw [length_append, blocks]
    rfl
  | unknown => exact known.elim
  | _ => rfl

/-- The SACK option reads back as many blocks as it wrote. -/
theorem readBlock_reads (block : UInt32 × UInt32) : Reads readBlock (writeBlock block) block :=
  (readNtohU32_reads Stop.pastEnd block.1).bind ((readNtohU32_reads Stop.pastEnd block.2).map _)

theorem deserializeFixed_reads {created op : TcpOption} {body : Reader Stop TcpOption}
    {written : List UInt8} (reads : Reads body written op) :
    Reads (deserializeFixed created body)
      ([created.getKind] ++ ([.ofNat created.getSerializedSize] ++ written))
      (op.getSerializedSize, op) := by
  apply (readU8_reads Stop.pastEnd created.getKind).bind
  rw [if_neg (not_not.mpr rfl)]
  apply (readU8_reads Stop.pastEnd _).bind
  rw [if_neg (not_not.mpr rfl)]
  exact reads.map _

theorem deserializeMss_reads (value : UInt16) :
    Reads deserializeMss ([2] ++ ([4] ++ writeHtonU16 value)) (4, mss value) := by
  apply (readU8_reads Stop.pastEnd 2).bind
  rw [if_neg (not_not.mpr rfl)]
  apply (readU8_reads Stop.pastEnd 4).bind
  rw [if_neg (not_not.mpr rfl)]
  exact (readNtohU16_reads Stop.pastEnd value).map _

theorem deserializeSack_reads {sackList : List (UInt32 × UInt32)} (fits : sackList.length ≤ 31) :
    Reads deserializeSack
      ([5] ++ ([.ofNat (8 * sackList.length + 2)] ++ sackList.flatMap writeBlock))
      (2 + 8 * sackList.length, sack sackList) := by
  have count : ((UInt8.ofNat (8 * sackList.length + 2)).toNat - 2) / 8 = sackList.length := by
    rw [UInt8.toNat_ofNat']
    omega
  apply (readU8_reads Stop.pastEnd 5).bind
  rw [if_neg (not_not.mpr rfl)]
  apply (readU8_reads Stop.pastEnd _).bind
  rw [count]
  exact (readMany_reads readBlock_reads sackList).map _

/-- **An option of a known kind** reads back, with its size. -/
theorem deserialize_serialize {op : TcpOption} (known : op.Known)
    (fits : op.getSerializedSize ≤ 40) (rest : List UInt8) :
    deserialize (op.serialize ++ rest) = .ok (op.getSerializedSize, op) := by
  have reads : Reads (deserializeKind op.getKind) op.serialize (op.getSerializedSize, op) := by
    cases op with
    | listEnd => exact fun _ => rfl
    | nop => exact fun _ => rfl
    | mss value => exact deserializeMss_reads value
    | winScale scale =>
      exact deserializeFixed_reads ((readU8_reads Stop.pastEnd scale).map winScale)
    | sackPermitted => exact deserializeFixed_reads (.pure sackPermitted)
    | sack sackList =>
      have : 2 + 8 * sackList.length ≤ 40 := fits
      exact deserializeSack_reads (by omega)
    | ts timestamp echo =>
      exact deserializeFixed_reads ((readNtohU32_reads Stop.pastEnd timestamp).bind
        ((readNtohU32_reads Stop.pastEnd echo).map (ts timestamp)))
    | unknown => exact known.elim
  have starts : ∃ others, op.serialize = op.getKind :: others := by
    cases op with
    | unknown => exact known.elim
    | _ => exact ⟨_, rfl⟩
  obtain ⟨others, is⟩ := starts
  have read := reads rest
  rw [is, cons_append] at read ⊢
  unfold deserialize
  dsimp only
  rw [read]
  rfl

/-! ## Any bytes -/

/-- The kind byte of what may be an option. -/
def kindByte (i : List UInt8) : UInt8 := i.headD 0

/-- The length byte of what may be an option. -/
def lengthByte (i : List UInt8) : UInt8 := i.tail.headD 0

/-- How many bytes are read of what may be an option. -/
def readLength (i : List UInt8) : Nat :=
  let length := (lengthByte i).toNat
  if kindByte i = 0 then 1
  else if kindByte i = 1 then 1
  else if kindByte i = 2 then 4
  else if kindByte i = 3 then if length = 3 then 3 else 2
  else if kindByte i = 4 then 2
  else if kindByte i = 5 then 2 + 8 * ((length - 2) / 8)
  else if kindByte i = 8 then if length = 10 then 10 else 2
  else if 2 ≤ length ∧ length ≤ 40 then length else 2

/-- How far the option goes, when it is accepted. -/
def optionLength (i : List UInt8) : Option Nat :=
  let length := (lengthByte i).toNat
  if kindByte i = 0 then some 1
  else if kindByte i = 1 then some 1
  else if kindByte i = 2 then some 4
  else if kindByte i = 3 then if length = 3 then some 3 else none
  else if kindByte i = 4 then if length = 2 then some 2 else none
  else if kindByte i = 5 then some (2 + 8 * ((length - 2) / 8))
  else if kindByte i = 8 then if length = 10 then some 10 else none
  else if 2 ≤ length ∧ length ≤ 40 then some length
  else if length = 0 then some 0 else none

/-- The bytes that are read are there, an MSS option has its length, and an option of an unknown
kind has a length other than zero. -/
structure Readable (i : List UInt8) : Prop where
  available : readLength i ≤ i.length
  mss : kindByte i = 2 → lengthByte i = 4
  unknown : isKindKnown (kindByte i) = false → lengthByte i ≠ 0

instance (i : List UInt8) : Decidable (Readable i) :=
  decidable_of_iff (readLength i ≤ i.length ∧ (kindByte i = 2 → lengthByte i = 4) ∧
    (isKindKnown (kindByte i) = false → lengthByte i ≠ 0))
    ⟨fun ⟨a, b, c⟩ => ⟨a, b, c⟩, fun ⟨a, b, c⟩ => ⟨a, b, c⟩⟩

/-- An accepted option, with its length. -/
structure Accepted (i : List UInt8) (size : Nat) (op : TcpOption) : Prop where
  length : optionLength i = some size
  size : op.getSerializedSize = size
  last : op.getKind = 0 ↔ kindByte i = 0

/-- A rejected option. -/
structure Rejected (i : List UInt8) (size : Nat) (op : TcpOption) : Prop where
  length : optionLength i = none
  size : size ≠ op.getSerializedSize

/-- What may come of bytes: an option that is accepted or rejected when they are readable, else a
failure, or an option that takes no byte. -/
inductive Parse (i : List UInt8) : Except Stop (Nat × TcpOption) → Prop where
  | accepted {size : Nat} {op : TcpOption} : Readable i → 0 < size → Accepted i size op →
      Parse i (.ok (size, op))
  | rejected {size : Nat} {op : TcpOption} : Readable i → Rejected i size op →
      Parse i (.ok (size, op))
  | failed (e : Stop) : ¬ Readable i → Parse i (.error e)
  | stuck {op : TcpOption} : ¬ Readable i → op.getSerializedSize = 0 → op.getKind ≠ 0 →
      Parse i (.ok (0, op))

theorem parse_mss (len : UInt8) (rest : List UInt8) :
    Parse (2 :: len :: rest) ((deserializeMss (2 :: len :: rest)).map Prod.fst) := by
  by_cases four : len = 4
  · subst four
    have unfolded : deserializeMss (2 :: 4 :: rest) =
        (readNtohU16 Stop.pastEnd rest).map fun p => ((4, mss p.1), p.2) :=
      map_run (readNtohU16 Stop.pastEnd) (fun value => (4, mss value)) rest
    have takes := readNtohU16_takes Stop.pastEnd rest
    rw [unfolded]
    by_cases enough : 2 ≤ rest.length
    · obtain ⟨value, reads⟩ := takes.1 enough
      rw [reads]
      have readable : Readable (2 :: 4 :: rest) :=
        ⟨Nat.add_le_add_right enough 2, fun _ => rfl, nofun⟩
      exact .accepted readable (by decide) ⟨rfl, rfl, Iff.rfl⟩
    · rw [takes.2 (by omega)]
      refine .failed _ fun readable => ?_
      have : 4 ≤ rest.length + 2 := readable.available
      omega
  · have unfolded : deserializeMss (2 :: len :: rest) = .error Stop.aborted := by
      unfold deserializeMss
      simp [bind, StateT.bind, Except.bind, readU8, four]
      rfl
    rw [unfolded]
    exact .failed _ fun readable => four (readable.mss rfl)

theorem parse_fixed (created : TcpOption) {body : Reader Stop TcpOption} {n : Nat}
    (takes : Takes Stop.pastEnd body n) (created_size : created.getSerializedSize = n + 2)
    (small : n + 2 < 256)
    (like : ∀ bytes op rest, body bytes = .ok (op, rest) →
      op.getSerializedSize = n + 2 ∧ op.getKind = created.getKind)
    (known : isKindKnown created.getKind = true) (other : created.getKind ≠ 2)
    (len : UInt8) (rest : List UInt8)
    (reads : readLength (created.getKind :: len :: rest) = if len.toNat = n + 2 then n + 2 else 2)
    (goes : optionLength (created.getKind :: len :: rest) =
      if len.toNat = n + 2 then some (n + 2) else none) :
    Parse (created.getKind :: len :: rest)
      ((deserializeFixed created body (created.getKind :: len :: rest)).map Prod.fst) := by
  have mss : kindByte (created.getKind :: len :: rest) = 2 →
      lengthByte (created.getKind :: len :: rest) = 4 := fun two => absurd two other
  have unknown : isKindKnown (kindByte (created.getKind :: len :: rest)) = false →
      lengthByte (created.getKind :: len :: rest) ≠ 0 := by
    intro never
    rw [kindByte, headD_cons, known] at never
    cases never
  by_cases right : len.toNat = n + 2
  · rw [if_pos right] at reads goes
    have len_is : len = .ofNat created.getSerializedSize := by simp [created_size, ← right]
    have unfolded : deserializeFixed created body (created.getKind :: len :: rest) =
        (body rest).map fun p => ((p.1.getSerializedSize, p.1), p.2) := by
      rw [← map_run body fun op => (op.getSerializedSize, op)]
      unfold deserializeFixed
      simp [bind, StateT.bind, Except.bind, readU8, len_is]
    rw [unfolded]
    by_cases enough : n ≤ rest.length
    · obtain ⟨op, done⟩ := (takes rest).1 enough
      obtain ⟨size, kind⟩ := like _ _ _ done
      rw [done]
      have readable : Readable (created.getKind :: len :: rest) := by
        refine ⟨?_, mss, unknown⟩
        rw [reads]
        exact Nat.add_le_add_right enough 2
      dsimp only [Except.map]
      rw [size]
      refine .accepted readable (by omega) ⟨goes, size, ?_⟩
      rw [kind]
      exact Iff.rfl
    · rw [(takes rest).2 (by omega)]
      refine .failed _ fun readable => ?_
      have := readable.available
      rw [reads, length_cons, length_cons] at this
      omega
  · rw [if_neg right] at reads goes
    have len_is : len ≠ .ofNat created.getSerializedSize := by
      intro same
      apply right
      rw [same, created_size, UInt8.toNat_ofNat']
      omega
    have unfolded : deserializeFixed created body (created.getKind :: len :: rest) =
        .ok ((0, created), rest) := by
      unfold deserializeFixed
      simp [bind, StateT.bind, Except.bind, readU8, len_is]
      rfl
    rw [unfolded]
    refine .rejected ⟨?_, mss, unknown⟩ ⟨goes, ?_⟩
    · rw [reads]
      exact Nat.le_add_left 2 rest.length
    · rw [created_size]
      omega

theorem readBlock_takes : Takes Stop.pastEnd readBlock 8 :=
  (readNtohU32_takes Stop.pastEnd).bind fun _ => (readNtohU32_takes Stop.pastEnd).map _

theorem parse_sack (len : UInt8) (rest : List UInt8) :
    Parse (5 :: len :: rest) ((deserializeSack (5 :: len :: rest)).map Prod.fst) := by
  generalize count_is : (len.toNat - 2) / 8 = count
  have unfolded : deserializeSack (5 :: len :: rest) = (readMany readBlock count rest).map fun p =>
        (((sack p.1).getSerializedSize, sack p.1), p.2) := by
    rw [← map_run (readMany readBlock count) fun l => ((sack l).getSerializedSize, sack l),
      ← count_is]
    rfl
  have reads : readLength (5 :: len :: rest) = 2 + 8 * count := by
    rw [← count_is]
    rfl
  rw [unfolded]
  have takes := readMany_takes readBlock_takes count rest
  by_cases enough : 8 * count ≤ rest.length
  · obtain ⟨blocks, done⟩ := takes.1 enough
    have size : (sack blocks).getSerializedSize = 2 + 8 * count :=
      congrArg (2 + 8 * ·) (length_of_readMany done)
    rw [done]
    have readable : Readable (5 :: len :: rest) := by
      refine ⟨?_, nofun, nofun⟩
      rw [reads, length_cons, length_cons]
      omega
    dsimp only [Except.map]
    rw [size]
    refine .accepted readable (by omega) ⟨?_, size, Iff.rfl⟩
    rw [← count_is]
    rfl
  · rw [takes.2 (by omega)]
    refine .failed _ fun readable => ?_
    have := readable.available
    rw [reads, length_cons, length_cons] at this
    omega

/-- **An option of an unknown kind.** With the length zero it takes no byte. -/
theorem parse_unknown {kind : UInt8} (never : isKindKnown kind = false) (len : UInt8)
    (rest : List UInt8) :
    Parse (kind :: len :: rest) ((deserializeUnknown (kind :: len :: rest)).map Prod.fst) := by
  have others : kind ≠ 0 ∧ kind ≠ 1 ∧ kind ≠ 2 ∧ kind ≠ 3 ∧ kind ≠ 4 ∧ kind ≠ 5 ∧ kind ≠ 8 := by
    simpa [isKindKnown, and_assoc] using never
  obtain ⟨k0, k1, k2, k3, k4, k5, k8⟩ := others
  have mss : kindByte (kind :: len :: rest) = 2 → lengthByte (kind :: len :: rest) = 4 :=
    fun two => absurd two k2
  have reads : readLength (kind :: len :: rest) =
      if 2 ≤ len.toNat ∧ len.toNat ≤ 40 then len.toNat else 2 := by
    simp [readLength, kindByte, lengthByte, k0, k1, k2, k3, k4, k5, k8]
  have goes : optionLength (kind :: len :: rest) =
      if 2 ≤ len.toNat ∧ len.toNat ≤ 40 then some len.toNat
      else if len.toNat = 0 then some 0 else none := by
    simp [optionLength, kindByte, lengthByte, k0, k1, k2, k3, k4, k5, k8]
  have two_iff : len < 2 ↔ len.toNat < 2 := UInt8.lt_iff_toNat_lt
  have forty_iff : 40 < len ↔ 40 < len.toNat := UInt8.lt_iff_toNat_lt
  by_cases right : 2 ≤ len.toNat ∧ len.toNat ≤ 40
  · rw [if_pos right] at reads goes
    have unfolded : deserializeUnknown (kind :: len :: rest) =
        (readBytes Stop.pastEnd (len.toNat - 2) rest).map fun p =>
          ((len.toNat, unknown kind len p.1), p.2) := by
      rw [← map_run (readBytes Stop.pastEnd (len.toNat - 2)) fun content =>
        (len.toNat, unknown kind len content)]
      have inside : ¬ (len < 2 ∨ 40 < len) := by
        rw [two_iff, forty_iff]
        omega
      unfold deserializeUnknown
      simp [bind, StateT.bind, Except.bind, readU8, inside]
    rw [unfolded]
    have takes := readBytes_takes Stop.pastEnd (len.toNat - 2) rest
    by_cases enough : len.toNat - 2 ≤ rest.length
    · obtain ⟨content, done⟩ := takes.1 enough
      rw [done]
      have readable : Readable (kind :: len :: rest) := by
        refine ⟨?_, mss, ?_⟩
        · rw [reads, length_cons, length_cons]
          omega
        · intro _ zero
          have : len.toNat = 0 := congrArg UInt8.toNat zero
          omega
      exact .accepted readable (by omega) ⟨goes, rfl, Iff.rfl⟩
    · rw [takes.2 (by omega)]
      refine .failed _ fun readable => ?_
      have := readable.available
      rw [reads, length_cons, length_cons] at this
      omega
  · rw [if_neg right] at reads goes
    have unfolded : deserializeUnknown (kind :: len :: rest) =
        .ok ((0, unknown kind len []), rest) := by
      have outside : len < 2 ∨ 40 < len := by
        rw [two_iff, forty_iff]
        omega
      unfold deserializeUnknown
      simp [bind, StateT.bind, Except.bind, readU8, outside]
      rfl
    rw [unfolded]
    by_cases zero : len.toNat = 0
    · have len_zero : len = 0 := UInt8.toNat_inj.mp zero
      exact .stuck (fun readable => readable.unknown never len_zero) zero k0
    · rw [if_neg zero] at goes
      refine .rejected ⟨?_, mss, ?_⟩ ⟨goes, Ne.symm zero⟩
      · rw [reads]
        exact Nat.le_add_left 2 rest.length
      · intro _ len_zero
        exact zero (congrArg UInt8.toNat len_zero)

theorem parse_end (rest : List UInt8) : Parse (0 :: rest) (.ok (1, listEnd)) :=
  .accepted ⟨Nat.le_add_left 1 rest.length, nofun, nofun⟩ Nat.one_pos ⟨rfl, rfl, Iff.rfl⟩

theorem parse_nop (rest : List UInt8) : Parse (1 :: rest) (.ok (1, nop)) :=
  .accepted ⟨Nat.le_add_left 1 rest.length, nofun, nofun⟩ Nat.one_pos ⟨rfl, rfl, Iff.rfl⟩

/-- A length byte is read of every option but those of one byte. -/
theorem two_le_readLength {i : List UInt8} (k0 : kindByte i ≠ 0) (k1 : kindByte i ≠ 1) :
    2 ≤ readLength i := by
  unfold readLength
  rw [if_neg k0, if_neg k1]
  grind

theorem deserializeKind_short {kind : UInt8} (k0 : kind ≠ 0) (k1 : kind ≠ 1) :
    deserializeKind kind [kind] = .error Stop.pastEnd := by
  unfold deserializeKind
  rw [if_neg k0, if_neg k1]
  by_cases k2 : kind = 2
  · subst k2
    rfl
  by_cases k3 : kind = 3
  · subst k3
    rfl
  by_cases k4 : kind = 4
  · subst k4
    rfl
  by_cases k5 : kind = 5
  · subst k5
    rfl
  by_cases k8 : kind = 8
  · subst k8
    rfl
  rw [if_neg k2, if_neg k3, if_neg k4, if_neg k5, if_neg k8]
  rfl

theorem parse_winScale (len : UInt8) (rest : List UInt8) :
    Parse (3 :: len :: rest) ((deserializeWinScale (3 :: len :: rest)).map Prod.fst) := by
  apply parse_fixed (winScale 0) ((readU8_takes Stop.pastEnd).map winScale) rfl (by decide) _ rfl
    (by decide) len rest rfl rfl
  intro bytes op left done
  obtain ⟨scale, between, _, ends⟩ := of_bind done
  obtain ⟨rfl, _⟩ := of_pure ends
  exact ⟨rfl, rfl⟩

theorem parse_sackPermitted (len : UInt8) (rest : List UInt8) :
    Parse (4 :: len :: rest) ((deserializeSackPermitted (4 :: len :: rest)).map Prod.fst) := by
  apply parse_fixed sackPermitted (.pure Stop.pastEnd sackPermitted) rfl (by decide) _ rfl
    (by decide) len rest (ite_self 2).symm rfl
  intro bytes op left done
  obtain ⟨rfl, _⟩ := of_pure done
  exact ⟨rfl, rfl⟩

theorem parse_ts (len : UInt8) (rest : List UInt8) :
    Parse (8 :: len :: rest) ((deserializeTs (8 :: len :: rest)).map Prod.fst) := by
  apply parse_fixed (ts 0 0) ((readNtohU32_takes Stop.pastEnd).bind fun timestamp =>
    (readNtohU32_takes Stop.pastEnd).map (ts timestamp)) rfl (by decide) _ rfl (by decide) len rest
    rfl rfl
  intro bytes op left done
  obtain ⟨timestamp, between, _, later⟩ := of_bind done
  obtain ⟨echo, last, _, ends⟩ := of_bind later
  obtain ⟨rfl, _⟩ := of_pure ends
  exact ⟨rfl, rfl⟩

/-- **Any bytes.** -/
theorem deserialize_parse (i : List UInt8) : Parse i (deserialize i) := by
  match i with
  | [] => exact .failed _ fun readable => absurd readable.available (by decide)
  | [kind] =>
    by_cases k0 : kind = 0
    · subst k0
      exact parse_end []
    by_cases k1 : kind = 1
    · subst k1
      exact parse_nop []
    change Parse [kind] ((deserializeKind kind [kind]).map Prod.fst)
    rw [deserializeKind_short k0 k1]
    refine .failed _ fun readable => ?_
    have long := two_le_readLength (i := [kind]) k0 k1
    have : readLength [kind] ≤ 1 := readable.available
    omega
  | kind :: len :: rest =>
    change Parse (kind :: len :: rest) ((deserializeKind kind (kind :: len :: rest)).map Prod.fst)
    by_cases k0 : kind = 0
    · subst k0
      exact parse_end (len :: rest)
    by_cases k1 : kind = 1
    · subst k1
      exact parse_nop (len :: rest)
    by_cases k2 : kind = 2
    · subst k2
      exact parse_mss len rest
    by_cases k3 : kind = 3
    · subst k3
      exact parse_winScale len rest
    by_cases k4 : kind = 4
    · subst k4
      exact parse_sackPermitted len rest
    by_cases k5 : kind = 5
    · subst k5
      exact parse_sack len rest
    by_cases k8 : kind = 8
    · subst k8
      exact parse_ts len rest
    have never : isKindKnown kind = false := by simp [isKindKnown, k0, k1, k2, k3, k4, k5, k8]
    unfold deserializeKind
    rw [if_neg k0, if_neg k1, if_neg k2, if_neg k3, if_neg k4, if_neg k5, if_neg k8]
    exact parse_unknown never len rest

end TcpOption

end Ns3.Internet
