import Ns3.Network.PbbAddressBlock

/-!
# Address blocks that were written and read back

The addresses come back when the tail that is written is a tail of each of them.
Addresses that are all the same leave no room for a middle.
-/

namespace Ns3.Network

open ByteReader CommonEnds List

namespace PbbAddressBlock

variable {version : IpVersion}

/-! ## Flags -/

/-- What `Serialize` puts together: a head flag, a tail flag and a prefix flag. -/
inductive Flags : UInt8 → UInt8 → UInt8 → UInt8 → Prop where
  | mk {head tail pre : UInt8} : head = 0 ∨ head = hasHead →
      tail = 0 ∨ tail = hasZeroTail ∨ tail = hasFullTail →
      pre = 0 ∨ pre = hasSinglePreLen ∨ pre = hasMultiPreLen →
      Flags (head ||| tail ||| pre) head tail pre

variable {flags head tail pre : UInt8}

section

variable (f : Flags flags head tail pre)
include f

theorem Flags.head_iff : flags &&& hasHead ≠ 0 ↔ head ≠ 0 := by
  obtain ⟨rfl | rfl, rfl | rfl | rfl, rfl | rfl | rfl⟩ := f <;> decide

theorem Flags.tail_iff : (flags &&& hasFullTail) ^^^ (flags &&& hasZeroTail) ≠ 0 ↔ tail ≠ 0 := by
  obtain ⟨rfl | rfl, rfl | rfl | rfl, rfl | rfl | rfl⟩ := f <;> decide

theorem Flags.full_iff : flags &&& hasFullTail ≠ 0 ↔ tail = hasFullTail := by
  obtain ⟨rfl | rfl, rfl | rfl | rfl, rfl | rfl | rfl⟩ := f <;> decide

theorem Flags.single_iff : flags &&& hasSinglePreLen ≠ 0 ↔ pre = hasSinglePreLen := by
  obtain ⟨rfl | rfl, rfl | rfl | rfl, rfl | rfl | rfl⟩ := f <;> decide

theorem Flags.multi_iff : flags &&& hasMultiPreLen ≠ 0 ↔ pre = hasMultiPreLen := by
  obtain ⟨rfl | rfl, rfl | rfl | rfl, rfl | rfl | rfl⟩ := f <;> decide

end

theorem flags_of (s : HeadTail version) (block : PbbAddressBlock version) :
    Flags (headFlags s ||| tailFlags s ||| block.getPrefixFlags) (headFlags s) (tailFlags s)
      block.getPrefixFlags := by
  refine .mk ?_ ?_ ?_
  · unfold headFlags
    split <;> simp
  · unfold tailFlags
    split
    · split <;> simp
    · simp
  · unfold getPrefixFlags
    split <;> simp

theorem headFlags_ne_zero (s : HeadTail version) : headFlags s ≠ 0 ↔ 0 < s.headlen := by
  unfold headFlags
  split <;> simp_all [hasHead]

theorem tailFlags_ne_zero (s : HeadTail version) : tailFlags s ≠ 0 ↔ 0 < s.taillen := by
  unfold tailFlags
  split
  · split <;> simp_all [hasZeroTail, hasFullTail]
  · simp_all

theorem tailFlags_eq_full (s : HeadTail version) :
    tailFlags s = hasFullTail ↔ 0 < s.taillen ∧ s.hasZero = false := by
  unfold tailFlags
  split
  · split <;> simp_all [hasZeroTail, hasFullTail]
  · simp_all [hasFullTail]

/-! ## The head and the tail, read to `addrtmp` -/

theorem store_reads (addrtmp : Address version) (place : Nat) (bytes : List UInt8)
    (inside : place + bytes.length ≤ version.addressLength) :
    ∃ stored, Reads (store addrtmp place bytes) [] stored ∧ stored.bytes =
        addrtmp.bytes.take place ++ (bytes ++ addrtmp.bytes.drop (place + bytes.length)) := by
  unfold store
  rw [dif_pos inside]
  exact ⟨_, .pure _, rfl⟩

variable {addrtmp : Address version} {bytes : List UInt8} {n : Nat}

theorem store_overruns {stored : Address version} {place : Nat} {rest between : List UInt8}
    (done : store addrtmp place bytes rest = .ok (stored, between)) :
    place + bytes.length ≤ version.addressLength := by
  unfold store at done
  split at done
  · assumption
  · cases done

variable {s : HeadTail version}

theorem length_head (within : s.headlen ≤ version.addressLength) : s.head.length = s.headlen := by
  rw [HeadTail.head, length_take, s.bufcur.length_bytes]
  omega

theorem length_tail (within : s.taillen ≤ version.addressLength) : s.tail.length = s.taillen := by
  rw [HeadTail.tail, length_drop, s.bufcur.length_bytes]
  omega

theorem toNat_ofNat_of_le (version : IpVersion) (within : n ≤ version.addressLength) :
    (UInt8.ofNat n).toNat = n := by
  have := version.addressLength_bounds
  rw [UInt8.toNat_ofNat']
  omega

theorem readStored_reads (place : Nat) (addrtmp : Address version) (length : bytes.length = n)
    (fits : place + n ≤ version.addressLength) :
    ∃ stored, Reads (do
        let read ← readBytes PbbStop.pastEnd (UInt8.ofNat n).toNat
        let addrtmp ← store addrtmp place read
        return ((UInt8.ofNat n).toNat, addrtmp)) bytes (n, stored) ∧
      stored.bytes = addrtmp.bytes.take place ++ (bytes ++ addrtmp.bytes.drop (place + n)) := by
  subst length
  obtain ⟨stored, stores, same⟩ := store_reads addrtmp place bytes fits
  refine ⟨stored, ?_, same⟩
  have value : (UInt8.ofNat bytes.length).toNat = bytes.length :=
    toNat_ofNat_of_le version (by omega)
  rw [value]
  exact (readBytes_reads PbbStop.pastEnd bytes).bind_nil
    (stores.map fun addrtmp => (bytes.length, addrtmp))

theorem readHead_reads (f : Flags flags (headFlags s) tail pre)
    (within : s.headlen ≤ version.addressLength) :
    ∃ addrtmp : Address version,
      Reads (readHead flags (zeroAddress version)) (serializeHead s) (s.headlen, addrtmp) ∧
        addrtmp.bytes = s.head ++ List.replicate (version.addressLength - s.headlen) 0 := by
  unfold readHead serializeHead
  simp only [f.head_iff, headFlags_ne_zero]
  split
  · obtain ⟨addrtmp, reads, bytes⟩ := readStored_reads 0 (zeroAddress version)
      (length_head within) (by omega)
    refine ⟨addrtmp, (readU8_reads _ _).bind reads, ?_⟩
    simp [bytes, zeroAddress]
  · have none : s.headlen = 0 := by omega
    refine ⟨zeroAddress version, ?_, ?_⟩
    · rw [none]
      exact .pure _
    · rw [HeadTail.head, none, take_zero, nil_append, Nat.sub_zero]
      rfl

theorem readTail_reads (f : Flags flags head (tailFlags s) pre) (addrtmp : Address version)
    (within : s.taillen ≤ version.addressLength) :
    ∃ addrtmp' : Address version,
      Reads (readTail flags addrtmp) (serializeTail s) (s.taillen, addrtmp') ∧
        addrtmp'.bytes = if tailFlags s = hasFullTail then
          addrtmp.bytes.take (version.addressLength - s.taillen) ++ s.tail else addrtmp.bytes := by
  unfold readTail serializeTail
  simp only [f.tail_iff, tailFlags_ne_zero, f.full_iff, tailFlags_eq_full]
  have value : (UInt8.ofNat s.taillen).toNat = s.taillen := toNat_ofNat_of_le version within
  by_cases some_ : 0 < s.taillen
  · simp only [if_pos some_, some_, true_and]
    cases zero : s.hasZero with
    | false =>
      obtain ⟨addrtmp', reads, bytes⟩ := readStored_reads (version.addressLength - s.taillen)
        addrtmp (length_tail within) (by omega)
      refine ⟨addrtmp', ?_, ?_⟩
      · apply (readU8_reads _ _).bind
        rw [if_pos rfl]
        rw [value] at reads ⊢
        exact reads
      · rw [bytes, drop_of_length_le, append_nil]
        · rfl
        · rw [addrtmp.length_bytes]
          omega
    | true =>
      refine ⟨addrtmp, ?_, rfl⟩
      apply (readU8_reads _ _).bind
      rw [if_neg nofun, value]
      exact .pure _
  · have none : s.taillen = 0 := by omega
    simp only [if_neg some_, some_, false_and, none]
    exact ⟨addrtmp, .pure _, rfl⟩

/-! ## The addresses -/

/-- Room for a middle, and a head that each address shares. -/
structure Framed (s : HeadTail version) (addresses : List (Address version)) : Prop where
  room : s.headlen + s.taillen < version.addressLength
  head : ∀ a ∈ addresses, s.headlen ≤ commonStart s.bufcur.bytes a.bytes

/-- The address that is read back: with the tail of the block for its own. -/
def decoded (s : HeadTail version) (within : s.taillen ≤ version.addressLength)
    (a : Address version) : Address version :=
  ⟨a.bytes.take (version.addressLength - s.taillen) ++ s.tail, by
    rw [length_append, length_take, a.length_bytes, length_tail within]
    omega⟩

/-- `addrtmp` with the head and the tail in it. -/
structure Holds (s : HeadTail version) (addrtmp : Address version) : Prop where
  front : addrtmp.bytes.take s.headlen = s.head
  back : addrtmp.bytes.drop (version.addressLength - s.taillen) = s.tail

variable {addresses : List (Address version)}

section

variable (framed : Framed s addresses)
include framed

theorem Framed.within : s.taillen ≤ version.addressLength := by
  have := framed.room
  omega

theorem Framed.length_mid (a : Address version) :
    (s.mid a).length = midLength version s.headlen s.taillen := by
  have room := framed.room
  have length := version.addressLength_bounds
  unfold HeadTail.mid midLength
  rw [length_take, length_drop, a.length_bytes]
  omega

theorem Framed.take_eq {a : Address version} (mem : a ∈ addresses) :
    a.bytes.take (version.addressLength - s.taillen) = s.head ++ s.mid a := by
  have room := framed.room
  have same := (le_commonStart_iff.mp (framed.head a mem)).2.2
  have split : version.addressLength - s.taillen =
      s.headlen + (version.addressLength - s.headlen - s.taillen) := by omega
  rw [split, take_add, ← same]
  rfl

theorem Framed.decoded_holds {a : Address version}
    (mem : a ∈ addresses) : Holds s (decoded s framed.within a) := by
  have room := framed.room
  have head := length_head (s := s) (by omega)
  have tail := length_tail framed.within
  constructor
  · dsimp only [decoded]
    simp [framed.take_eq mem, take_left' head]
  · dsimp only [decoded]
    have front : (a.bytes.take (version.addressLength - s.taillen)).length =
        version.addressLength - s.taillen := by
      rw [length_take, a.length_bytes]
      omega
    rw [drop_append_of_le_length (by omega), drop_of_length_le (by omega), nil_append]

theorem readAddresses_reads (holds : Holds s addrtmp) :
    Reads (readAddresses s.headlen s.taillen addresses.length addrtmp) (addresses.flatMap s.mid)
      (addresses.map (decoded s framed.within)) := by
  have within := framed.within
  suffices ∀ later : List (Address version), (∀ a ∈ later, a ∈ addresses) →
      ∀ addrtmp, Holds s addrtmp →
      Reads (readAddresses s.headlen s.taillen later.length addrtmp) (later.flatMap s.mid)
        (later.map (decoded s within)) from this addresses (fun _ mem => mem) addrtmp holds
  intro later
  induction later with
  | nil => exact fun _ _ _ => .pure []
  | cons a later ih =>
    intro inside addrtmp holds
    have mem := inside a mem_cons_self
    have length := framed.length_mid a
    have room := framed.room
    have size : s.headlen + (s.mid a).length = version.addressLength - s.taillen := by
      have := version.addressLength_bounds
      rw [length, midLength]
      omega
    obtain ⟨stored, stores, bytes⟩ := store_reads addrtmp s.headlen (s.mid a) (by omega)
    have same : stored = decoded s within a := by
      obtain ⟨bytes', _⟩ := stored
      subst bytes
      simp only [decoded, Address.mk.injEq]
      simp [holds.front, size, holds.back, framed.take_eq mem]
    subst same
    have rest := ih (fun b mem => inside b (mem_cons_of_mem a mem)) _ (framed.decoded_holds mem)
    have mid := readBytes_reads PbbStop.pastEnd (s.mid a)
    rw [length] at mid
    rw [flatMap_cons]
    apply mid.bind
    exact stores.bind (rest.map (decoded s within a :: ·))

end

/-- No middle is read over a whole head and a whole tail. -/
theorem readAddresses_overruns {rest : List UInt8} (some_ : n ≠ 0) :
    readAddresses version.addressLength version.addressLength n addrtmp bytes ≠
      .ok (addresses, rest) := by
  intro done
  obtain ⟨n, rfl⟩ := Nat.exists_eq_succ_of_ne_zero some_
  obtain ⟨mid, between, reads, later⟩ := of_bind done
  obtain ⟨stored, last, stores, _⟩ := of_bind later
  have inside := store_overruns stores
  have length := length_of_readMany reads
  have bounds := version.addressLength_bounds
  unfold midLength at length
  omega

theorem hasZero_tail (within : s.taillen ≤ version.addressLength) (zero : s.hasZero = true) :
    s.tail = List.replicate s.taillen 0 := by
  apply eq_replicate_iff.mpr
  refine ⟨length_tail within, fun b mem => ?_⟩
  exact eq_of_beq (all_eq_true.mp zero b mem)

theorem Framed.holds (framed : Framed s addresses) {addrtmp' : Address version}
    (headed : addrtmp.bytes = s.head ++ List.replicate (version.addressLength - s.headlen) 0)
    (tailed : addrtmp'.bytes = if tailFlags s = hasFullTail then
      addrtmp.bytes.take (version.addressLength - s.taillen) ++ s.tail else addrtmp.bytes) :
    Holds s addrtmp' := by
  have room := framed.room
  have head := length_head (s := s) (by omega)
  have tail := length_tail framed.within
  have front : addrtmp.bytes.take s.headlen = s.head := by rw [headed, take_left' head]
  have length : (addrtmp.bytes.take (version.addressLength - s.taillen)).length =
      version.addressLength - s.taillen := by
    rw [length_take, addrtmp.length_bytes]
    omega
  by_cases full : tailFlags s = hasFullTail
  · rw [if_pos full] at tailed
    constructor
    · rw [tailed, take_append_of_le_length (by omega), take_take, Nat.min_eq_left (by omega), front]
    · rw [tailed, drop_left' length]
  · rw [if_neg full] at tailed
    refine ⟨by rw [tailed, front], ?_⟩
    have zeros : s.tail = List.replicate s.taillen 0 := by
      by_cases some_ : 0 < s.taillen
      · apply hasZero_tail framed.within
        rw [tailFlags_eq_full] at full
        simpa [some_] using full
      · have none : s.taillen = 0 := by omega
        rw [none] at tail ⊢
        exact length_eq_zero_iff.mp tail
    rw [tailed, headed, zeros, drop_append, drop_of_length_le (by omega),
      drop_replicate, nil_append, head]
    congr 1
    omega

variable {block : PbbAddressBlock version}

/-- No prefix, one for all, or one for each address. -/
def PrefixesMatch (block : PbbAddressBlock version) : Prop :=
  block.prefixList.length = 0 ∨ block.prefixList.length = 1 ∨
    block.prefixList.length = block.addressList.length

theorem readPrefixes_reads (f : Flags flags head tail block.getPrefixFlags)
    (prefixes : block.PrefixesMatch) :
    Reads (readPrefixes block.addressList.length flags) block.prefixList block.prefixList := by
  unfold readPrefixes
  simp only [f.single_iff, f.multi_iff]
  have reads := readBytes_reads PbbStop.pastEnd block.prefixList
  unfold getPrefixFlags
  split
  · rename_i none
    rw [length_eq_zero_iff.mp none, if_neg (by decide), if_neg (by decide)]
    exact .pure []
  · rename_i one
    rw [if_pos rfl]
    rwa [one] at reads
  · rename_i many single
    rw [if_neg (by decide), if_pos rfl]
    obtain none | one | all := prefixes
    · exact absurd none many
    · exact absurd one single
    · rwa [all] at reads

theorem deserializeAddresses_reads
    (f : Flags flags (headFlags s) (tailFlags s) block.getPrefixFlags)
    (framed : Framed s block.addressList) (some_ : 0 < block.addressList.length)
    (prefixes : block.PrefixesMatch) :
    Reads (deserializeAddresses block.addressList.length flags)
      (serializeHead s ++ (serializeTail s ++ (block.addressList.flatMap s.mid ++
        block.prefixList)))
      (block.addressList.map (decoded s framed.within), block.prefixList) := by
  have room := framed.room
  obtain ⟨addrtmp, head, headed⟩ := readHead_reads f (by omega)
  obtain ⟨addrtmp', tail, tailed⟩ := readTail_reads f addrtmp framed.within
  have addresses := readAddresses_reads framed (framed.holds headed tailed)
  unfold deserializeAddresses
  rw [if_pos some_]
  apply head.bind
  apply tail.bind
  apply addresses.bind
  exact (readPrefixes_reads f prefixes).map fun prefixes =>
    (block.addressList.map (decoded s framed.within), prefixes)

/-! ## The block -/

/-- What a block of the claimed kind has. -/
structure Valid (block : PbbAddressBlock version) : Prop where
  some_ : 0 < block.addressList.length
  few : block.addressList.length ≤ 255
  prefixes : block.PrefixesMatch
  countable : ∀ tlv ∈ block.addressTlvList, tlv.Countable

/-- The addresses are written around one head and one tail, with something between them. -/
structure Written (block : PbbAddressBlock version) (s : HeadTail version) : Prop where
  framed : Framed s block.addressList
  addresses : ∃ flags, Flags flags (headFlags s) (tailFlags s) block.getPrefixFlags ∧
    block.serializeAddresses = (flags, serializeHead s ++ (serializeTail s ++
      (block.addressList.flatMap s.mid ++ block.prefixList)))

/-- The TLVs that are read back, and those that are not. -/
def tlvsRead (block : PbbAddressBlock version) : List PbbTlv :=
  (startedBefore PbbTlvBlock.width
    (PbbTlvBlock.sizeField (block.addressTlvList.flatMap PbbTlv.serialize).length).toNat 0
    block.addressTlvList).map PbbTlv.kept

def tlvsLeft (block : PbbAddressBlock version) : List PbbTlv :=
  notStarted PbbTlvBlock.width
    (PbbTlvBlock.sizeField (block.addressTlvList.flatMap PbbTlv.serialize).length).toNat 0
    block.addressTlvList

/-- **A written block** is read with the tail of the block in each address. -/
theorem Written.reads_back (written : Written block s) (valid : block.Valid) (rest : List UInt8) :
    deserialize (block.serialize ++ rest) =
      .ok (⟨block.addressList.map (decoded s written.framed.within), block.prefixList,
        block.tlvsRead⟩, block.tlvsLeft.flatMap PbbTlv.serialize ++ rest) := by
  obtain ⟨flags, f, addresses⟩ := written.addresses
  have number : (UInt8.ofNat block.addressList.length).toNat = block.addressList.length := by
    have := valid.few
    rw [UInt8.toNat_ofNat']
    omega
  have body := deserializeAddresses_reads f written.framed valid.some_ valid.prefixes
  rw [← number] at body
  have tlvs := PbbTlvBlock.deserialize_written valid.countable rest
  have bytes : block.serialize ++ rest = [.ofNat block.addressList.length] ++ ([flags] ++
      ((serializeHead s ++ (serializeTail s ++ (block.addressList.flatMap s.mid ++
        block.prefixList))) ++ (PbbTlvBlock.serialize block.addressTlvList ++ rest))) := by
    rw [serialize, addresses]
    simp
  rw [bytes]
  unfold deserialize
  rw [(readU8_reads _ _).next, (readU8_reads _ _).next, body.next]
  dsimp only
  rw [map_run, tlvs]
  rfl

theorem decoded_eq_iff (within : s.taillen ≤ version.addressLength) (a : Address version) :
    decoded s within a = a ↔ s.taillen ≤ commonEnd s.bufcur.bytes a.bytes := by
  have whole := take_append_drop (version.addressLength - s.taillen) a.bytes
  have unfolded : decoded s within a = a ↔
      a.bytes.take (version.addressLength - s.taillen) ++ s.tail = a.bytes := by
    obtain ⟨bytes, length⟩ := a
    simp [decoded]
  rw [unfolded, le_commonEnd_iff, s.bufcur.length_bytes, a.length_bytes]
  constructor
  · intro same
    exact ⟨within, within, append_cancel_left (same.trans whole.symm)⟩
  · rintro ⟨_, _, same⟩
    simp [HeadTail.tail, same]

/-- The addresses come back when each of them ends with the tail. -/
theorem map_decoded_iff (framed : Framed s addresses) :
    addresses.map (decoded s framed.within) = addresses ↔
      ∀ a ∈ addresses, s.taillen ≤ commonEnd s.bufcur.bytes a.bytes := by
  have each : addresses.map (decoded s framed.within) = addresses.map id ↔ _ := map_inj_left
  rw [map_id] at each
  simp [each, decoded_eq_iff]

/-- The whole block comes back when the addresses and the TLVs do. -/
theorem Written.roundTrips_iff (written : Written block s) (valid : block.Valid)
    (size : (∀ tlv ∈ block.addressTlvList, tlv.Plain) →
      PbbTlvBlock.Fits block.addressTlvList → block.serialize.length = block.getSerializedSize) :
    RoundTrips getSerializedSize serialize deserialize block ↔
      (∀ a ∈ block.addressList, s.taillen ≤ commonEnd s.bufcur.bytes a.bytes) ∧
        (∀ tlv ∈ block.addressTlvList, tlv.Plain) ∧ PbbTlvBlock.Fits block.addressTlvList := by
  have tlvs := PbbTlvBlock.block_restored_iff valid.countable
  rw [← map_decoded_iff written.framed, ← tlvs]
  constructor
  · intro trip
    have same := (written.reads_back valid []).symm.trans (trip.reads [])
    have back := (Prod.mk.inj (Except.ok.inj same)).1
    exact ⟨congrArg addressList back, congrArg addressTlvList back⟩
  · rintro ⟨addresses, restored⟩
    obtain ⟨plain, fits⟩ := tlvs.mp restored
    refine .of_reads (size plain fits) fun rest => ?_
    have left : block.tlvsLeft = [] :=
      notStarted_eq_nil ((PbbTlvBlock.startedBefore_iff valid.countable plain).mpr fits)
    have tlvs : block.tlvsRead = block.addressTlvList := restored
    simp [written.reads_back valid rest, addresses, tlvs, left]

theorem Framed.length_mids (framed : Framed s addresses) (later : List (Address version)) :
    (later.flatMap s.mid).length =
      later.length * (version.addressLength - s.headlen - s.taillen) := by
  have room := framed.room
  have bounds := version.addressLength_bounds
  induction later with
  | nil => simp
  | cons a later ih =>
    have length := framed.length_mid a
    unfold midLength at length
    rw [flatMap_cons, length_append, ih, length_cons, Nat.succ_mul]
    omega

theorem Written.length_serialize (written : Written block s)
    (plain : ∀ tlv ∈ block.addressTlvList, tlv.Plain) :
    block.serialize.length = 2 + (if 0 < s.headlen then 1 + s.headlen else 0) +
      (if 0 < s.taillen then if s.hasZero then 1 else 1 + s.taillen else 0) +
      block.addressList.length * (version.addressLength - s.headlen - s.taillen) +
      block.prefixList.length + PbbTlvBlock.getSerializedSize block.addressTlvList := by
  obtain ⟨flags, _, addresses⟩ := written.addresses
  have room := written.framed.room
  have head : (serializeHead s).length = if 0 < s.headlen then 1 + s.headlen else 0 := by
    unfold serializeHead
    split
    · rw [length_cons, length_head (by omega)]
      omega
    · rfl
  have tail : (serializeTail s).length =
      if 0 < s.taillen then if s.hasZero then 1 else 1 + s.taillen else 0 := by
    unfold serializeTail
    split
    · split
      · rfl
      · rw [length_cons, length_tail (by omega)]
        omega
    · rfl
  unfold serialize
  rw [addresses]
  simp only [length_append, length_cons, length_nil, head, tail,
    written.framed.length_mids, PbbTlvBlock.length_serialize_of_plain plain]
  omega

theorem tlvs_le (fits : PbbTlvBlock.Fits block.addressTlvList) :
    PbbTlvBlock.getSerializedSize block.addressTlvList ≤ 131073 := by
  unfold PbbTlvBlock.Fits at fits
  unfold PbbTlvBlock.getSerializedSize
  omega

/-! ## One address -/

theorem written_single {address : Address version} (alone : block.addressList = [address])
    (prefixes : block.PrefixesMatch) : Written block ⟨0, 0, address, address⟩ := by
  have length := version.addressLength_bounds
  refine ⟨⟨?_, fun a mem => Nat.zero_le _⟩, 0 ||| 0 ||| block.getPrefixFlags, ?_, ?_⟩
  · dsimp only
    omega
  · exact flags_of ⟨0, 0, address, address⟩ block
  · unfold serializeAddresses getPrefixFlags
    have mid : (⟨0, 0, address, address⟩ : HeadTail version).mid address = address.bytes := by
      rw [HeadTail.mid, drop_zero, Nat.sub_zero, Nat.sub_zero, take_of_length_le]
      rw [address.length_bytes]
    unfold PrefixesMatch at prefixes
    rw [alone] at prefixes ⊢
    simp only [serializeHead, serializeTail, flatMap_cons, mid]
    cases given : block.prefixList with
    | nil => simp
    | cons front more =>
      cases more with
      | nil => simp
      | cons second more =>
        rw [given] at prefixes
        simp at prefixes

theorem size_single {address : Address version} (alone : block.addressList = [address])
    (prefixes : block.PrefixesMatch) (plain : ∀ tlv ∈ block.addressTlvList, tlv.Plain)
    (fits : PbbTlvBlock.Fits block.addressTlvList) :
    block.serialize.length = block.getSerializedSize := by
  have tlvs := tlvs_le fits
  have bounds := version.addressLength_bounds
  rw [(written_single alone prefixes).length_serialize plain]
  unfold getSerializedSize
  unfold PrefixesMatch at prefixes
  rw [alone] at prefixes ⊢
  dsimp only [length_cons, length_nil] at prefixes ⊢
  simp only [Nat.lt_irrefl, if_false]
  omega

/-! ## More addresses -/

section
variable {first second : Address version} {rest : List (Address version)}
  (several : block.addressList = first :: second :: rest)

theorem taillen_le_iff (scanned : Scanned first rest s)
    (apart : s.headlen < version.addressLength) :
    (∀ a ∈ first :: rest, s.taillen ≤ commonEnd s.bufcur.bytes a.bytes) ↔
      HeldTo first rest (sharedTail first rest) := by
  have within := scanned.within apart
  rw [← scanned.tail apart _ (Nat.le_refl _)]
  constructor
  · intro all
    have near := all first mem_cons_self
    refine le_sharedTail_iff.mpr ⟨by omega, fun b mem => ?_⟩
    exact (le_commonEnd_trans near).mp (all b (mem_cons_of_mem first mem))
  · intro shared a mem
    have near := shared.trans (sharedTail_shares scanned.bufcur)
    rw [← le_commonEnd_trans near]
    exact shared.trans (sharedTail_shares mem)

include several

theorem written_several (apart : sharedHead first (second :: rest) < version.addressLength) :
    Written block (getHeadTail first (second :: rest)) := by
  have scanned := getHeadTail_scanned first (second :: rest)
  rw [← scanned.headlen] at apart
  have room := scanned.within apart
  refine ⟨⟨room, fun a mem => ?_⟩, _, flags_of _ block, ?_⟩
  · rw [several] at mem
    have near := scanned.headlen.le.trans (sharedHead_shares scanned.bufcur)
    rw [← le_commonStart_trans near]
    exact scanned.headlen.le.trans (sharedHead_shares mem)
  · unfold serializeAddresses
    rw [several]
    dsimp only
    unfold serializeMids
    rw [if_pos room, several]

theorem size_several (few : block.addressList.length ≤ 255) (prefixes : block.PrefixesMatch)
    (apart : sharedHead first (second :: rest) < version.addressLength)
    (plain : ∀ tlv ∈ block.addressTlvList, tlv.Plain)
    (fits : PbbTlvBlock.Fits block.addressTlvList) :
    block.serialize.length = block.getSerializedSize := by
  have tlvs := tlvs_le fits
  have bounds := version.addressLength_bounds
  have written := written_several several apart
  have room := written.framed.room
  have mids : block.addressList.length * (version.addressLength -
      (getHeadTail first (second :: rest)).headlen -
      (getHeadTail first (second :: rest)).taillen) ≤ 255 * 16 :=
    Nat.mul_le_mul few (by omega)
  have number : (first :: second :: rest).length = (second :: rest).length + 1 := rfl
  rw [written.length_serialize plain]
  unfold getSerializedSize
  unfold PrefixesMatch at prefixes
  rw [several] at few mids prefixes ⊢
  dsimp only
  generalize getHeadTail first (second :: rest) = s at *
  have middle : (version.addressLength : Int) - s.headlen - s.taillen =
      ((version.addressLength - s.headlen - s.taillen : Nat) : Int) := by omega
  have product : ((version.addressLength : Int) - s.headlen - s.taillen) *
      ((second :: rest).length + 1) = (((second :: rest).length + 1) *
        (version.addressLength - s.headlen - s.taillen) : Nat) := by simp [middle, Int.mul_comm]
  rw [number] at few mids prefixes ⊢
  rw [product]
  generalize ((second :: rest).length + 1) *
    (version.addressLength - s.headlen - s.taillen) = middles at *
  have head : (if 0 < s.headlen then 1 + s.headlen else 0) ≤ 17 := by
    split <;> omega
  have tail : (if 0 < s.taillen then if s.hasZero then 1 else 1 + s.taillen else 0) ≤ 17 := by
    split
    · split <;> omega
    · omega
  omega

/-- Addresses that are all the same are written without a middle, and read with a negative one. -/
theorem not_roundTrips_of_same (valid : block.Valid)
    (same : sharedHead first (second :: rest) = version.addressLength) :
    ¬ RoundTrips getSerializedSize serialize deserialize block := by
  intro trip
  have scanned := getHeadTail_scanned first (second :: rest)
  rw [← scanned.headlen] at same
  have whole := scanned.same same
  have addresses : block.serializeAddresses = (headFlags (getHeadTail first (second :: rest)) |||
        tailFlags (getHeadTail first (second :: rest)) ||| block.getPrefixFlags,
        serializeHead (getHeadTail first (second :: rest)) ++
          (serializeTail (getHeadTail first (second :: rest)) ++
            (block.serializeMids (getHeadTail first (second :: rest)) ++ block.prefixList))) := by
    unfold serializeAddresses
    rw [several]
  generalize getHeadTail first (second :: rest) = s at *
  have f := flags_of s block
  obtain ⟨addrtmp, head, _⟩ := readHead_reads f same.le
  obtain ⟨addrtmp', tail, _⟩ := readTail_reads f addrtmp whole.le
  have number : (UInt8.ofNat block.addressList.length).toNat = block.addressList.length := by
    have := valid.few
    rw [UInt8.toNat_ofNat']
    omega
  have some_ := valid.some_
  have done := trip.reads []
  rw [serialize, addresses] at done
  rw [append_assoc, append_assoc, ← singleton_append, append_assoc] at done
  unfold deserialize at done
  rw [(readU8_reads _ _).next, (readU8_reads _ _).next, number] at done
  obtain ⟨p, between, body, _⟩ := of_bind done
  unfold deserializeAddresses at body
  rw [if_pos some_, append_assoc, head.next] at body
  dsimp only at body
  rw [append_assoc, tail.next, same, whole] at body
  obtain ⟨read, _, reads, _⟩ := of_bind body
  exact readAddresses_overruns (by omega) reads

end

/-- One address, or addresses that are not all the same with a tail that each of them has. -/
def Separable (block : PbbAddressBlock version) : Prop :=
  match block.addressList with
  | first :: second :: rest =>
    sharedHead first (second :: rest) < version.addressLength ∧
      HeldTo first (second :: rest) (sharedTail first (second :: rest))
  | _ => True

theorem block_roundTrips_iff (valid : block.Valid) :
    RoundTrips getSerializedSize serialize deserialize block ↔
      block.Separable ∧ (∀ tlv ∈ block.addressTlvList, tlv.Plain) ∧
        PbbTlvBlock.Fits block.addressTlvList := by
  unfold Separable
  cases list : block.addressList with
  | nil =>
    have some_ := valid.some_
    rw [list] at some_
    exact absurd some_ (Nat.lt_irrefl 0)
  | cons first others =>
    cases others with
    | nil =>
      have written := written_single list valid.prefixes
      rw [written.roundTrips_iff valid (size_single list valid.prefixes)]
      simp
    | cons second rest =>
      have scanned := getHeadTail_scanned first (second :: rest)
      by_cases apart : sharedHead first (second :: rest) < version.addressLength
      · have written := written_several list apart
        rw [written.roundTrips_iff valid (size_several list valid.few valid.prefixes apart), list,
          taillen_le_iff scanned (scanned.headlen ▸ apart)]
        simp [apart]
      · have same : sharedHead first (second :: rest) = version.addressLength :=
          Nat.le_antisymm (sharedHead_le first _) (Nat.le_of_not_lt apart)
        have never := not_roundTrips_of_same list valid same
        simp only [apart, false_and, iff_false]
        exact never

/-- **PacketBB round trips.** A TLV comes back when its multivalue flag is not set and an index
stop has a start; an address block when its TLVs do and fit their size field, and its addresses
are one, or differ and share the tail that is written. -/
theorem packetBb_roundTrips_iff {tlv : PbbTlv} (countable : tlv.Countable) (valid : block.Valid) :
    (RoundTrips PbbTlv.getSerializedSize PbbTlv.serialize PbbTlv.deserialize tlv ↔ tlv.Plain) ∧
      (RoundTrips getSerializedSize serialize deserialize block ↔
        block.Separable ∧ (∀ tlv ∈ block.addressTlvList, tlv.Plain) ∧
          PbbTlvBlock.Fits block.addressTlvList) :=
  ⟨PbbTlv.roundTrips_iff countable, block_roundTrips_iff valid⟩

/-- A ranged TLV, and three addresses with one prefix for all, a head, a tail and a TLV. -/
theorem packetBb_round_trip :
    let tlv : PbbTlv := ⟨1, some 2, some 0, some 2, false, some [7, 8]⟩
    let block : PbbAddressBlock .ipv4 :=
      ⟨[⟨[10, 0, 1, 1], rfl⟩, ⟨[10, 0, 2, 1], rfl⟩, ⟨[10, 0, 3, 1], rfl⟩], [24], [tlv]⟩
    RoundTrips PbbTlv.getSerializedSize PbbTlv.serialize PbbTlv.deserialize tlv ∧
      RoundTrips getSerializedSize serialize deserialize block := by
  have countable : PbbTlv.Countable ⟨1, some 2, some 0, some 2, false, some [7, 8]⟩ := by
    rintro value ⟨⟩
    decide
  have plain : PbbTlv.Plain ⟨1, some 2, some 0, some 2, false, some [7, 8]⟩ := ⟨rfl, fun _ => rfl⟩
  have valid : Valid (⟨[⟨[10, 0, 1, 1], rfl⟩, ⟨[10, 0, 2, 1], rfl⟩, ⟨[10, 0, 3, 1], rfl⟩], [24],
      [⟨1, some 2, some 0, some 2, false, some [7, 8]⟩]⟩ : PbbAddressBlock .ipv4) :=
    ⟨by decide, by decide, Or.inr (Or.inl rfl), forall_mem_singleton.mpr countable⟩
  have both := packetBb_roundTrips_iff countable valid
  exact ⟨both.1.mpr plain, both.2.mpr ⟨⟨by decide, Or.inl (by decide)⟩,
    forall_mem_singleton.mpr plain, Or.inl (by decide)⟩⟩

/-- The last two addresses end with `6.4`, and so does the first one after it is read back. -/
theorem grown_tail :
    let block : PbbAddressBlock .ipv4 :=
      ⟨[⟨[1, 2, 3, 4], rfl⟩, ⟨[1, 5, 6, 4], rfl⟩, ⟨[1, 7, 6, 4], rfl⟩], [], []⟩
    block.Valid ∧ ¬ RoundTrips getSerializedSize serialize deserialize block := by
  refine ⟨⟨by decide, by decide, Or.inl rfl, nofun⟩, fun trip => ?_⟩
  have read := trip.reads []
  revert read
  decide

end PbbAddressBlock

end Ns3.Network
