import Ns3.Library.CommonEnds
import Ns3.Library.Scan
import Ns3.Network.PbbTlv

/-!
# `PbbAddressBlock`

The addresses with the head and the tail that `GetHeadTail` finds for them, their
prefixes and their TLVs.
-/

namespace Ns3.Network

open ByteReader PbbStop

inductive IpVersion where
  | ipv4
  | ipv6
  deriving DecidableEq

/-- `GetAddressLength`. -/
def IpVersion.addressLength : IpVersion → Nat
  | ipv4 => 4
  | ipv6 => 16

/-- An address as `SerializeAddress` writes it. -/
structure Address (version : IpVersion) where
  bytes : List UInt8
  length_bytes : bytes.length = version.addressLength
  deriving DecidableEq

/-- `AHAS_…` flags. -/
def hasHead : UInt8 := 0x80
def hasFullTail : UInt8 := 0x40
def hasZeroTail : UInt8 := 0x20
def hasSinglePreLen : UInt8 := 0x10
def hasMultiPreLen : UInt8 := 0x08

structure PbbAddressBlock (version : IpVersion) where
  addressList : List (Address version)
  prefixList : List UInt8
  addressTlvList : List PbbTlv
  deriving DecidableEq

namespace PbbAddressBlock

variable {version : IpVersion}

/-! ## `GetHeadTail` -/

/-- The lengths and the two buffers of the loop. -/
structure HeadTail (version : IpVersion) where
  headlen : Nat
  taillen : Nat
  buflast : Address version
  bufcur : Address version

/-- The first byte below `headlen` that differs, or `headlen`. -/
def headAgreed (buflast bufcur : Address version) (headlen : Nat) : Nat :=
  Scan.skipWhile Nat.succ
    (fun i => decide (i < headlen) && decide (buflast.bytes[i]? = bufcur.bytes[i]?)) headlen 0

/-- The scan of the tail goes on below byte `i`: it may go one byte past the last `taillen`. -/
def tailGoesOn (buflast bufcur : Address version) (headlen taillen i : Nat) : Bool :=
  decide (version.addressLength - 1 - i ≤ taillen) && decide (headlen < i) &&
    decide (buflast.bytes[i]? = bufcur.bytes[i]?)

/-- The tail after the scan down from the last byte. -/
def tailAgreed (buflast bufcur : Address version) (headlen taillen : Nat) : Nat :=
  version.addressLength - 1 -
    Scan.skipWhile (· - 1) (tailGoesOn buflast bufcur headlen taillen) version.addressLength
      (version.addressLength - 1)

/-- The loop over the addresses. -/
def headTailLoop : HeadTail version → List (Address version) → HeadTail version
  | s, [] => s
  | s, address :: rest =>
    let headlen := headAgreed s.buflast address s.headlen
    if 0 < version.addressLength - headlen then
      headTailLoop ⟨headlen, tailAgreed s.buflast address headlen s.taillen, address, s.buflast⟩
        rest
    else if headlen = 0 then ⟨headlen, 0, s.buflast, address⟩
    else headTailLoop ⟨headlen, s.taillen, address, s.buflast⟩ rest

/-- The iterator after `AddressBegin()++` is at the first address, so the loop begins with it. -/
def getHeadTail (first : Address version) (rest : List (Address version)) : HeadTail version :=
  headTailLoop ⟨version.addressLength, version.addressLength, first, first⟩ (first :: rest)

namespace HeadTail

variable (s : HeadTail version)

def head : List UInt8 := s.bufcur.bytes.take s.headlen

def tail : List UInt8 := s.bufcur.bytes.drop (version.addressLength - s.taillen)

def hasZero : Bool := s.tail.all (· == 0)

/-- The bytes of an address between the head and the tail. -/
def mid (address : Address version) : List UInt8 :=
  (address.bytes.drop s.headlen).take (version.addressLength - s.headlen - s.taillen)

end HeadTail

/-! ## `Serialize` -/

variable (block : PbbAddressBlock version)

def getPrefixFlags : UInt8 :=
  match block.prefixList.length with
  | 0 => 0
  | 1 => hasSinglePreLen
  | _ => hasMultiPreLen

/-- As a `uint32_t`, with the length of the middle as an `int`. -/
def getSerializedSize : Nat :=
  let size : Int := match block.addressList with
    | [] => 2
    | [_] => 2 + (version.addressLength + block.prefixList.length)
    | first :: rest =>
      let s := getHeadTail first rest
      2 + (if 0 < s.headlen then 1 + s.headlen else 0) +
        (if 0 < s.taillen then if s.hasZero then 1 else 1 + s.taillen else 0) +
        ((version.addressLength : Int) - s.headlen - s.taillen) * (rest.length + 1) +
        block.prefixList.length
  ((size + PbbTlvBlock.getSerializedSize block.addressTlvList) % 2 ^ 32).toNat

def headFlags (s : HeadTail version) : UInt8 := if 0 < s.headlen then hasHead else 0

def tailFlags (s : HeadTail version) : UInt8 :=
  if 0 < s.taillen then if s.hasZero then hasZeroTail else hasFullTail else 0

def serializeHead (s : HeadTail version) : List UInt8 :=
  if 0 < s.headlen then .ofNat s.headlen :: s.head else []

def serializeTail (s : HeadTail version) : List UInt8 :=
  if 0 < s.taillen then .ofNat s.taillen :: (if s.hasZero then [] else s.tail) else []

def serializeMids (s : HeadTail version) : List UInt8 :=
  if s.headlen + s.taillen < version.addressLength then block.addressList.flatMap s.mid else []

/-- The flags, and the bytes up to the TLVs. -/
def serializeAddresses : UInt8 × List UInt8 :=
  match block.addressList with
  | [] => (0, [])
  | [address] =>
    match block.prefixList with
    | [front] => (hasSinglePreLen, address.bytes ++ [front])
    | _ => (0, address.bytes)
  | first :: rest =>
    let s := getHeadTail first rest
    (headFlags s ||| tailFlags s ||| block.getPrefixFlags,
      serializeHead s ++ (serializeTail s ++ (block.serializeMids s ++ block.prefixList)))

def serialize : List UInt8 :=
  let (flags, bytes) := block.serializeAddresses
  [.ofNat block.addressList.length, flags] ++ (bytes ++ PbbTlvBlock.serialize block.addressTlvList)

/-! ## `Deserialize` -/

/-- `memset(addrtmp, 0, GetAddressLength())`. -/
def zeroAddress (version : IpVersion) : Address version :=
  ⟨List.replicate version.addressLength 0, List.length_replicate⟩

/-- Bytes that are read to a place in `addrtmp`. -/
def store (addrtmp : Address version) (place : Nat) (bytes : List UInt8) :
    Reader PbbStop (Address version) :=
  if inside : place + bytes.length ≤ version.addressLength then
    pure ⟨addrtmp.bytes.take place ++ (bytes ++ addrtmp.bytes.drop (place + bytes.length)), by
      have := addrtmp.length_bytes
      simp only [List.length_append, List.length_take, List.length_drop]
      omega⟩
  else throw .overrun

def readHead (flags : UInt8) (addrtmp : Address version) :
    Reader PbbStop (Nat × Address version) :=
  if flags &&& hasHead ≠ 0 then do
    let headlen ← readU8 pastEnd
    let head ← readBytes pastEnd headlen.toNat
    let addrtmp ← store addrtmp 0 head
    return (headlen.toNat, addrtmp)
  else return (0, addrtmp)

/-- A tail longer than an address would begin before `addrtmp`. -/
def readTail (flags : UInt8) (addrtmp : Address version) :
    Reader PbbStop (Nat × Address version) :=
  if (flags &&& hasFullTail) ^^^ (flags &&& hasZeroTail) ≠ 0 then do
    let taillen ← readU8 pastEnd
    if flags &&& hasFullTail ≠ 0 then do
      let tail ← readBytes pastEnd taillen.toNat
      let addrtmp ← store addrtmp (version.addressLength - taillen.toNat) tail
      return (taillen.toNat, addrtmp)
    else return (taillen.toNat, addrtmp)
  else return (0, addrtmp)

/-- `GetAddressLength() - headlen - taillen` as a `uint32_t`. -/
def midLength (version : IpVersion) (headlen taillen : Nat) : Nat :=
  (((version.addressLength : Int) - headlen - taillen) % 2 ^ 32).toNat

/-- The loop over the addresses, all read through `addrtmp`. -/
def readAddresses (headlen taillen : Nat) :
    Nat → Address version → Reader PbbStop (List (Address version))
  | 0, _ => pure []
  | numaddr + 1, addrtmp => do
    let mid ← readBytes pastEnd (midLength version headlen taillen)
    let addrtmp ← store addrtmp headlen mid
    let rest ← readAddresses headlen taillen numaddr addrtmp
    return addrtmp :: rest

def readPrefixes (numaddr : Nat) (flags : UInt8) : Reader PbbStop (List UInt8) :=
  if flags &&& hasSinglePreLen ≠ 0 then readBytes pastEnd 1
  else if flags &&& hasMultiPreLen ≠ 0 then readBytes pastEnd numaddr
  else return []

def deserializeAddresses (numaddr : Nat) (flags : UInt8) :
    Reader PbbStop (List (Address version) × List UInt8) :=
  if 0 < numaddr then do
    let (headlen, addrtmp) ← readHead flags (zeroAddress version)
    let (taillen, addrtmp) ← readTail flags addrtmp
    let addresses ← readAddresses headlen taillen numaddr addrtmp
    let prefixes ← readPrefixes numaddr flags
    return (addresses, prefixes)
  else return ([], [])

def deserialize : Reader PbbStop (PbbAddressBlock version) := do
  let numaddr ← readU8 pastEnd
  let flags ← readU8 pastEnd
  let (addresses, prefixes) ← deserializeAddresses numaddr.toNat flags
  let tlvs ← PbbTlvBlock.deserialize
  return ⟨addresses, prefixes, tlvs⟩

end PbbAddressBlock

end Ns3.Network

/-!
## The head and the tail of an address block

The head is the start that all addresses share. The tail follows the last pair
of addresses, and may have grown since an earlier pair cut it.
-/

namespace Ns3.Network

open CommonEnds List

theorem IpVersion.addressLength_bounds (version : IpVersion) :
    4 ≤ version.addressLength ∧ version.addressLength ≤ 16 := by cases version <;> decide

namespace PbbAddressBlock

variable {version : IpVersion}

/-- The start that each address shares with the first one. -/
def sharedHead (first : Address version) (rest : List (Address version)) : Nat :=
  shared commonStart first.bytes (rest.map Address.bytes)

/-- The end that each address shares with the first one. -/
def sharedTail (first : Address version) (rest : List (Address version)) : Nat :=
  shared commonEnd first.bytes (rest.map Address.bytes)

/-- The end that the last two addresses share. -/
def lastTail (first : Address version) (rest : List (Address version)) : Nat :=
  commonEnd ((first :: rest).dropLast.getLastD first).bytes ((first :: rest).getLastD first).bytes

/-- The last pair, or the room behind the head of the first addresses with one byte for each
address after them, holds the tail down. -/
def HeldTo (first : Address version) (rest : List (Address version)) (tail : Nat) : Prop :=
  lastTail first rest ≤ tail ∨
    ∃ n ≤ rest.length, sharedHead first (rest.take n) < version.addressLength ∧
      version.addressLength - 1 - sharedHead first (rest.take n) + (rest.length - n) ≤ tail

/-! ## What is shared -/

variable {first : Address version} {rest : List (Address version)}

theorem le_sharedHead_iff {n : Nat} : n ≤ sharedHead first rest ↔
      n ≤ version.addressLength ∧ ∀ b ∈ rest, n ≤ commonStart first.bytes b.bytes := by
  unfold sharedHead
  simp [le_shared_iff, first.length_bytes]

theorem le_sharedTail_iff {n : Nat} : n ≤ sharedTail first rest ↔
      n ≤ version.addressLength ∧ ∀ b ∈ rest, n ≤ commonEnd first.bytes b.bytes := by
  unfold sharedTail
  simp [le_shared_iff, first.length_bytes]

theorem sharedHead_le (first : Address version) (rest : List (Address version)) :
    sharedHead first rest ≤ version.addressLength :=
  (le_sharedHead_iff.mp (Nat.le_refl _)).1

theorem sharedTail_le (first : Address version) (rest : List (Address version)) :
    sharedTail first rest ≤ version.addressLength :=
  (le_sharedTail_iff.mp (Nat.le_refl _)).1

theorem sharedHead_nil (first : Address version) : sharedHead first [] = version.addressLength :=
  first.length_bytes

theorem getLastD_mem (first : Address version) (rest : List (Address version)) :
    (first :: rest).getLastD first ∈ first :: rest := by
  rw [getLastD_eq_getLast?, getLast?_eq_some_getLast (cons_ne_nil _ _)]
  exact getLast_mem _

theorem sharedHead_shares {b : Address version} (mem : b ∈ first :: rest) :
    sharedHead first rest ≤ commonStart first.bytes b.bytes := by
  rcases mem_cons.mp mem with rfl | mem
  · rw [commonStart_self, b.length_bytes]
    exact sharedHead_le b rest
  · exact (le_sharedHead_iff.mp (Nat.le_refl _)).2 b mem

theorem sharedTail_shares {b : Address version} (mem : b ∈ first :: rest) :
    sharedTail first rest ≤ commonEnd first.bytes b.bytes := by
  rcases mem_cons.mp mem with rfl | mem
  · unfold commonEnd
    rw [commonStart_self, length_reverse, b.length_bytes]
    exact sharedTail_le b rest
  · exact (le_sharedTail_iff.mp (Nat.le_refl _)).2 b mem

theorem sharedHead_snoc (first : Address version) (rest : List (Address version))
    (a : Address version) :
    sharedHead first (rest ++ [a]) =
      min (sharedHead first rest) (commonStart ((first :: rest).getLastD first).bytes a.bytes) := by
  apply eq_of_forall_le_iff
  intro n
  rw [le_sharedHead_iff, forall_mem_append, ← and_assoc, ← le_sharedHead_iff,
    forall_mem_singleton, Nat.le_min]
  exact and_congr_right fun within =>
    le_commonStart_trans (within.trans (sharedHead_shares (getLastD_mem first rest)))

theorem sharedTail_snoc (first : Address version) (rest : List (Address version))
    (a : Address version) :
    sharedTail first (rest ++ [a]) =
      min (sharedTail first rest) (commonEnd ((first :: rest).getLastD first).bytes a.bytes) := by
  apply eq_of_forall_le_iff
  intro n
  rw [le_sharedTail_iff, forall_mem_append, ← and_assoc, ← le_sharedTail_iff,
    forall_mem_singleton, Nat.le_min]
  exact and_congr_right fun within =>
    le_commonEnd_trans (within.trans (sharedTail_shares (getLastD_mem first rest)))

theorem lastTail_snoc (first : Address version) (rest : List (Address version))
    (a : Address version) :
    lastTail first (rest ++ [a]) = commonEnd ((first :: rest).getLastD first).bytes a.bytes := by
  unfold lastTail
  rw [← cons_append, dropLast_concat, getLastD_concat]

theorem sharedTail_le_lastTail (first : Address version) (some_ : rest ≠ []) :
    sharedTail first rest ≤ lastTail first rest := by
  obtain ⟨front, a, rfl⟩ := eq_nil_or_concat' rest |>.resolve_left some_
  rw [sharedTail_snoc, lastTail_snoc]
  exact Nat.min_le_right _ _

/-! ## The two scans -/

theorem headAgreed_eq (a b : Address version) {headlen : Nat}
    (within : headlen ≤ version.addressLength) :
    headAgreed a b headlen = min headlen (commonStart a.bytes b.bytes) := by
  apply eq_of_forall_le_iff
  intro n
  rw [headAgreed, Scan.le_skipWhile_iff, Nat.le_min]
  apply and_congr_right
  intro below
  rw [le_commonStart_get (by rw [a.length_bytes]; omega) (by rw [b.length_bytes]; omega)]
  simp only [Bool.and_eq_true, decide_eq_true_eq]
  exact ⟨fun all k small => (all k small).2, fun all k small => ⟨by omega, all k small⟩⟩

/-- The tail after a pair may be one byte longer than before. -/
theorem tailAgreed_eq (a b : Address version) {headlen taillen : Nat}
    (within : headlen < version.addressLength) :
    tailAgreed a b headlen taillen = min (commonEnd a.bytes b.bytes)
        (min (taillen + 1) (version.addressLength - 1 - headlen)) := by
  have loop : Scan.skipWhile (· - 1) (tailGoesOn a b headlen taillen) version.addressLength
      (version.addressLength - 1 - 0) = _ :=
    Scan.skipWhile_map (fun k => version.addressLength - 1 - k) (fun k => by omega) _ 0
  rw [Nat.sub_zero] at loop
  have scanned : ∀ n, n ≤ Scan.skipWhile Nat.succ
      (fun k => tailGoesOn a b headlen taillen (version.addressLength - 1 - k))
      version.addressLength 0 ↔ n ≤ min (commonEnd a.bytes b.bytes)
        (min (taillen + 1) (version.addressLength - 1 - headlen)) := by
    intro n
    rw [Scan.le_skipWhile_iff, Nat.le_min, Nat.le_min]
    unfold tailGoesOn
    simp only [Bool.and_eq_true, decide_eq_true_eq]
    have lengths : a.bytes.length = b.bytes.length := by rw [a.length_bytes, b.length_bytes]
    have pairs (inside : n ≤ version.addressLength) := le_commonEnd_get lengths
      (inside.trans a.length_bytes.ge)
    rw [a.length_bytes] at pairs
    constructor
    · rintro ⟨inside, all⟩
      refine ⟨(pairs inside).mpr fun k small => (all k small).2, ?_⟩
      cases n with
      | zero => exact ⟨Nat.zero_le _, Nat.zero_le _⟩
      | succ n =>
        have last := (all n (Nat.lt_succ_self n)).1
        omega
    · rintro ⟨same, short, room⟩
      have inside : n ≤ version.addressLength := by omega
      exact ⟨inside, fun k small => ⟨⟨by omega, by omega⟩, (pairs inside).mp same k small⟩⟩
  have small := (scanned _).mp (Nat.le_refl _)
  unfold tailAgreed
  rw [loop, ← eq_of_forall_le_iff scanned]
  omega

/-! ## The loop -/

/-- What the loop knows after the first address and `rest`. -/
structure Scanned (first : Address version) (rest : List (Address version))
    (s : HeadTail version) : Prop where
  headlen : s.headlen = sharedHead first rest
  buflast : s.buflast = (first :: rest).getLastD first
  bufcur : s.bufcur ∈ first :: rest
  same : s.headlen = version.addressLength → s.taillen = version.addressLength
  within : s.headlen < version.addressLength → s.headlen + s.taillen < version.addressLength
  tail : s.headlen < version.addressLength → ∀ tail ≤ sharedTail first rest,
    (s.taillen ≤ tail ↔ HeldTo first rest tail)

/-- A tail for one more address is a pair's, the room's, or one byte longer than before. -/
theorem heldTo_snoc (a : Address version) (tail : Nat)
    (differ : sharedHead first (rest ++ [a]) < version.addressLength)
    (shared : tail ≤ sharedTail first (rest ++ [a])) :
    HeldTo first (rest ++ [a]) tail ↔ lastTail first (rest ++ [a]) ≤ tail ∨
        version.addressLength - 1 - sharedHead first (rest ++ [a]) ≤ tail ∨
        0 < tail ∧ sharedHead first rest < version.addressLength ∧
          HeldTo first rest (tail - 1) := by
  have before : tail ≤ sharedTail first rest := by
    rw [sharedTail_snoc] at shared
    exact shared.trans (Nat.min_le_left _ _)
  unfold HeldTo
  rw [length_append, length_singleton]
  constructor
  · rintro (pair | ⟨n, within, apart, room⟩)
    · exact Or.inl pair
    · by_cases all : n = rest.length + 1
      · subst all
        rw [take_of_length_le (by simp)] at room
        exact Or.inr (Or.inl (by omega))
      · rw [take_append_of_le_length (by omega)] at apart room
        refine Or.inr (Or.inr ⟨by omega, ?_, Or.inr ⟨n, by omega, apart, by omega⟩⟩)
        refine Nat.lt_of_le_of_lt ?_ apart
        exact le_sharedHead_iff.mpr ⟨sharedHead_le first rest, fun b mem =>
          sharedHead_shares (mem_cons_of_mem _ (mem_of_mem_take mem))⟩
  · rintro (pair | room | ⟨positive, apart, pair | ⟨n, within, parted, room⟩⟩)
    · exact Or.inl pair
    · refine Or.inr ⟨rest.length + 1, Nat.le_refl _, ?_⟩
      rw [take_of_length_le (by simp)]
      exact ⟨differ, by omega⟩
    · have some_ : rest ≠ [] := by
        rintro rfl
        rw [sharedHead_nil] at apart
        exact Nat.lt_irrefl _ apart
      have := sharedTail_le_lastTail first some_
      omega
    · refine Or.inr ⟨n, by omega, ?_⟩
      rw [take_append_of_le_length within]
      exact ⟨parted, by omega⟩

/-- The state after one more address. -/
def scanNext (s : HeadTail version) (a : Address version) : HeadTail version :=
  let headlen := headAgreed s.buflast a s.headlen
  ⟨headlen,
    if 0 < version.addressLength - headlen then tailAgreed s.buflast a headlen s.taillen
    else s.taillen, a, s.buflast⟩

variable {s : HeadTail version}

/-- An address is longer than nothing, so the loop never breaks. -/
theorem headTailLoop_cons (s : HeadTail version) (a : Address version)
    (later : List (Address version)) :
    headTailLoop s (a :: later) = headTailLoop (scanNext s a) later := by
  have length := version.addressLength_bounds
  conv_lhs => unfold headTailLoop
  dsimp only
  split
  · rename_i more
    rw [scanNext, if_pos more]
  · rename_i none
    have positive : headAgreed s.buflast a s.headlen ≠ 0 := by omega
    rw [if_neg positive, scanNext, if_neg none]

theorem Scanned.next (scanned : Scanned first rest s) (a : Address version) :
    Scanned first (rest ++ [a]) (scanNext s a) := by
  have within : s.headlen ≤ version.addressLength := by
    rw [scanned.headlen]
    exact sharedHead_le first rest
  have head : headAgreed s.buflast a s.headlen = sharedHead first (rest ++ [a]) := by
    rw [headAgreed_eq s.buflast a within, scanned.headlen, scanned.buflast, sharedHead_snoc]
  have shorter : sharedHead first (rest ++ [a]) ≤ s.headlen := by
    rw [sharedHead_snoc, scanned.headlen]
    exact Nat.min_le_left _ _
  have last : (first :: (rest ++ [a])).getLastD first = a := by rw [← cons_append, getLastD_concat]
  have cur : s.buflast ∈ first :: (rest ++ [a]) := by
    rw [scanned.buflast, ← cons_append]
    exact mem_append_left _ (getLastD_mem first rest)
  by_cases more : sharedHead first (rest ++ [a]) < version.addressLength
  · have taillen : (scanNext s a).taillen =
        min (commonEnd s.buflast.bytes a.bytes) (min (s.taillen + 1)
          (version.addressLength - 1 - sharedHead first (rest ++ [a]))) := by
      dsimp only [scanNext]
      rw [head, if_pos (by omega), tailAgreed_eq s.buflast a more]
    refine ⟨head, last.symm, cur, fun equal => absurd (head.symm.trans equal) (by omega), ?_, ?_⟩
    · intro _
      rw [taillen]
      dsimp only [scanNext]
      omega
    · intro _ tail shared
      rw [taillen, heldTo_snoc a tail more shared, lastTail_snoc, scanned.buflast]
      have before : tail ≤ sharedTail first rest := by
        rw [sharedTail_snoc] at shared
        exact shared.trans (Nat.min_le_left _ _)
      have short := sharedTail_le first rest
      have grown : s.taillen + 1 ≤ tail ↔ 0 < tail ∧
          sharedHead first rest < version.addressLength ∧ HeldTo first rest (tail - 1) := by
        rw [← scanned.headlen]
        constructor
        · intro longer
          have apart : s.headlen < version.addressLength := by
            apply Nat.lt_of_le_of_ne within
            intro equal
            have := scanned.same equal
            omega
          exact ⟨by omega, apart, (scanned.tail apart _ (by omega)).mp (by omega)⟩
        · rintro ⟨positive, apart, held⟩
          have := (scanned.tail apart _ (by omega)).mpr held
          omega
      rw [← grown]
      omega
  · have full : s.headlen = version.addressLength := by omega
    refine ⟨head, last.symm, cur, fun _ => ?_, fun less => absurd (head ▸ less) more,
      fun less => absurd (head ▸ less) more⟩
    dsimp only [scanNext]
    rw [head, if_neg (by omega)]
    exact scanned.same full

theorem Scanned.loop (scanned : Scanned first rest s) (later : List (Address version)) :
    Scanned first (rest ++ later) (headTailLoop s later) := by
  induction later generalizing s rest with
  | nil =>
    rw [append_nil]
    exact scanned
  | cons a later ih =>
    rw [headTailLoop_cons, append_cons]
    exact ih (scanned.next a)

/-- **The head and the tail** that the loop finds. -/
theorem getHeadTail_scanned (first : Address version) (rest : List (Address version)) :
    Scanned first rest (getHeadTail first rest) := by
  have length := version.addressLength_bounds
  have start : Scanned first [] ⟨version.addressLength, version.addressLength, first, first⟩ := by
    refine ⟨(sharedHead_nil first).symm, rfl, mem_cons_self, fun _ => rfl, ?_, ?_⟩ <;>
      exact fun less => absurd less (Nat.lt_irrefl _)
  have itself : scanNext ⟨version.addressLength, version.addressLength, first, first⟩ first =
      ⟨version.addressLength, version.addressLength, first, first⟩ := by
    have head : headAgreed first first version.addressLength = version.addressLength := by
      simp [headAgreed_eq first first (Nat.le_refl _), commonStart_self, first.length_bytes]
    simp [scanNext, head]
  unfold getHeadTail
  rw [headTailLoop_cons, itself]
  exact start.loop rest

end PbbAddressBlock

end Ns3.Network
