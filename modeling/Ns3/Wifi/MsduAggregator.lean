import Ns3.Library.ByteReader

/-!
# `MsduAggregator`

MSDUs are put together by `WifiMpdu::Aggregate` and taken apart by `Deaggregate`. `none` is an
abort, or a read beyond the end of a packet.
-/

namespace Ns3.Wifi.Amsdu

open ByteReader (Reader Reads)

abbrev Mac48Address := Vector UInt8 6

open List

structure AmsduSubframeHeader where
  da : Mac48Address
  sa : Mac48Address
  length : UInt16
  deriving DecidableEq

namespace AmsduSubframeHeader

def serializedSize : Nat := 6 + 6 + 2

def serialize (hdr : AmsduSubframeHeader) : List UInt8 :=
  hdr.da.toList ++ (hdr.sa.toList ++ ByteReader.writeHtonU16 hdr.length)

/-- `ReadFrom` -/
def readFrom : Reader Unit Mac48Address := fun bytes =>
  match bytes with
  | a :: b :: c :: d :: e :: f :: rest => .ok (#v[a, b, c, d, e, f], rest)
  | _ => .error ()

def deserialize : Reader Unit AmsduSubframeHeader := do
  let da ← readFrom
  let sa ← readFrom
  let length ← ByteReader.readNtohU16 ()
  return ⟨da, sa, length⟩

end AmsduSubframeHeader

/-- The type `QosData` and the fields of such a header that the aggregation reads. -/
structure WifiMacHeader where
  isQosData : Bool
  amsduPresent : Bool
  isToDs : Bool
  isFromDs : Bool
  addr1 : Mac48Address
  addr2 : Mac48Address
  addr3 : Mac48Address
  addr4 : Mac48Address
  deriving DecidableEq

/-- The original version of an MPDU, with its packet and `m_msduList`. -/
structure WifiMpdu where
  header : WifiMacHeader
  packet : List UInt8
  msduList : List (List UInt8 × AmsduSubframeHeader)
  deriving DecidableEq

/-! ## `MsduAggregator` -/

def calculatePadding (amsduSize : UInt16) : UInt8 := .ofNat ((4 - amsduSize.toNat % 4) % 4)

def getSizeIfAggregated (msduSize amsduSize : UInt16) : UInt16 :=
  amsduSize + (calculatePadding amsduSize).toUInt16 + 14 + msduSize

/-- The loop of `Deaggregate`, which takes bytes in every round. -/
def deaggregateFrom (maxSize : Nat) : (rounds deserialized : Nat) → (packet : List UInt8) →
    Option (List (List UInt8 × AmsduSubframeHeader))
  | 0, _, _ => none
  | rounds + 1, deserialized, packet =>
    if deserialized < maxSize then
      match AmsduSubframeHeader.deserialize packet with
      | .error _ => none
      | .ok (hdr, packet) =>
        let deserialized := deserialized + AmsduSubframeHeader.serializedSize
        let extractedLength := hdr.length.toNat
        if packet.length < extractedLength then none
        else
          let extractedMsdu := packet.take extractedLength
          let packet := packet.drop extractedLength
          let deserialized := deserialized + extractedLength
          let padding := (4 - (extractedLength + 14) % 4) % 4
          if 0 < padding ∧ deserialized < maxSize then
            if packet.length < padding then none
            else (deaggregateFrom maxSize rounds (deserialized + padding) (packet.drop padding)).map
              ((extractedMsdu, hdr) :: ·)
          else (deaggregateFrom maxSize rounds deserialized packet).map ((extractedMsdu, hdr) :: ·)
    else some []

def deaggregate (aggregatedPacket : List UInt8) :
    Option (List (List UInt8 × AmsduSubframeHeader)) :=
  deaggregateFrom aggregatedPacket.length (aggregatedPacket.length + 1) 0 aggregatedPacket

/-! ## `WifiMpdu` -/

namespace WifiMpdu

variable (mpdu : WifiMpdu)

/-- The header that `DoAggregate` puts in front of an MSDU. -/
def subframeHeader (msdu : WifiMpdu) : AmsduSubframeHeader where
  da := if msdu.header.isToDs then msdu.header.addr3 else msdu.header.addr1
  sa :=
    if !msdu.header.isFromDs then msdu.header.addr2
    else if !msdu.header.isToDs then msdu.header.addr3
    else msdu.header.addr4
  length := .ofNat msdu.packet.length

def doAggregate (msdu : WifiMpdu) : WifiMpdu :=
  let hdr := msdu.subframeHeader
  let padding :=
    if 0 < mpdu.packet.length then (calculatePadding (.ofNat mpdu.packet.length)).toNat else 0
  { mpdu with
    msduList := mpdu.msduList ++ [(msdu.packet, hdr)]
    packet := mpdu.packet ++ List.replicate padding 0 ++ (hdr.serialize ++ msdu.packet) }

/-- What becomes of the header of the first MSDU. -/
def amsduHeader (header : WifiMacHeader) : WifiMacHeader :=
  { header with
    amsduPresent := true
    addr3 :=
      if header.isToDs && !header.isFromDs then header.addr1
      else if !header.isToDs && header.isFromDs then header.addr2
      else header.addr3 }

def aggregate (msdu : WifiMpdu) : Option WifiMpdu :=
  if !msdu.header.isQosData || msdu.header.amsduPresent then none
  else if mpdu.msduList.isEmpty then
    let firstMsdu := mpdu
    let amsdu := { mpdu with packet := [] }.doAggregate firstMsdu
    some ({ amsdu with header := amsduHeader mpdu.header }.doAggregate msdu)
  else some (mpdu.doAggregate msdu)

/-- The MSDUs are aggregated one by one. -/
def aggregateAll (msdus : List WifiMpdu) : Option WifiMpdu := msdus.foldlM aggregate mpdu

/-! ## The A-MSDU -/

/-- An MSDU that can be aggregated. -/
structure WellFormed (msdu : WifiMpdu) : Prop where
  isQosData : msdu.header.isQosData = true
  amsduPresent : msdu.header.amsduPresent = false
  small : msdu.packet.length < 65536
  msduList : msdu.msduList = []

def subframe (msdu : WifiMpdu) : List UInt8 := msdu.subframeHeader.serialize ++ msdu.packet

/-- The subframes with their padding, but for the last one. -/
def pack : List WifiMpdu → List UInt8
  | [] => []
  | [msdu] => msdu.subframe
  | msdu :: next :: rest =>
    msdu.subframe ++ (List.replicate ((4 - (msdu.packet.length + 14) % 4) % 4) 0 ++
      pack (next :: rest))

theorem length_subframe (msdu : WifiMpdu) : msdu.subframe.length = msdu.packet.length + 14 := by
  simp [subframe, AmsduSubframeHeader.serialize]
  omega

/-- A subframe is put behind the others after padding for all of their bytes. -/
theorem pack_concat (msdu : WifiMpdu) : ∀ {msdus : List WifiMpdu}, msdus ≠ [] →
    pack (msdus ++ [msdu]) =
      pack msdus ++ List.replicate ((4 - (pack msdus).length % 4) % 4) 0 ++ msdu.subframe
  | [first], _ => by simp [pack, length_subframe]
  | first :: next :: rest, _ => by
    have ih := @pack_concat msdu (next :: rest) (cons_ne_nil _ _)
    have padding : ((first.packet.length + 14 + ((4 - (first.packet.length + 14) % 4) % 4 +
        (pack (next :: rest)).length)) % 4) = (pack (next :: rest)).length % 4 := by omega
    simp only [cons_append, pack] at ih ⊢
    rw [ih]
    simp only [length_append, length_replicate, length_subframe, padding]
    simp

theorem calculatePadding_eq (size : Nat) :
    (calculatePadding (.ofNat size)).toNat = (4 - size % 4) % 4 := by
  simp [calculatePadding]
  omega

theorem doAggregate_packet (mpdu msdu : WifiMpdu) : (mpdu.doAggregate msdu).packet =
    mpdu.packet ++ List.replicate ((4 - mpdu.packet.length % 4) % 4) 0 ++ msdu.subframe := by
  unfold doAggregate
  dsimp only
  rw [calculatePadding_eq]
  split
  · rfl
  · rename_i empty
    rw [eq_nil_of_length_eq_zero (Nat.eq_zero_of_not_pos empty)]
    rfl

variable {mpdu msdu : WifiMpdu}

/-- MSDUs have been aggregated. -/
structure Aggregated (msdus : List WifiMpdu) (amsdu : WifiMpdu) : Prop where
  packet : amsdu.packet = pack msdus
  msduList : amsdu.msduList ≠ []

theorem Aggregated.doAggregate {msdus : List WifiMpdu} (some_ : msdus ≠ [])
    (aggregated : Aggregated msdus mpdu) (msdu : WifiMpdu) :
    Aggregated (msdus ++ [msdu]) (mpdu.doAggregate msdu) where
  packet := by rw [doAggregate_packet, aggregated.packet, pack_concat msdu some_]
  msduList := append_ne_nil_of_right_ne_nil _ (cons_ne_nil _ _)

theorem aggregate_first (wellFormed : mpdu.WellFormed) (wellFormed' : msdu.WellFormed) :
    ∃ amsdu, mpdu.aggregate msdu = some amsdu ∧ Aggregated [mpdu, msdu] amsdu := by
  have alone : Aggregated [mpdu]
      { { mpdu with packet := [] }.doAggregate mpdu with header := amsduHeader mpdu.header } :=
    ⟨by simpa [pack] using doAggregate_packet { mpdu with packet := [] } mpdu,
      append_ne_nil_of_right_ne_nil _ (cons_ne_nil _ _)⟩
  refine ⟨_, ?_, alone.doAggregate (cons_ne_nil _ _) msdu⟩
  simp [aggregate, wellFormed.msduList, wellFormed'.isQosData, wellFormed'.amsduPresent]

theorem aggregate_next {msdus : List WifiMpdu} (some_ : msdus ≠ [])
    (aggregated : Aggregated msdus mpdu) (wellFormed : msdu.WellFormed) :
    ∃ amsdu, mpdu.aggregate msdu = some amsdu ∧ Aggregated (msdus ++ [msdu]) amsdu := by
  refine ⟨_, ?_, aggregated.doAggregate some_ msdu⟩
  simp [aggregate, aggregated.msduList, wellFormed.isQosData, wellFormed.amsduPresent]

/-- The run lemma: all MSDUs are in the A-MSDU. -/
theorem aggregateAll_spec {first : WifiMpdu} (wellFormed : first.WellFormed) :
    ∀ {rest : List WifiMpdu}, rest ≠ [] → (∀ msdu ∈ rest, msdu.WellFormed) →
      ∃ amsdu, first.aggregateAll rest = some amsdu ∧ Aggregated (first :: rest) amsdu := by
  intro rest some_ all
  induction rest using List.reverseRecOn with
  | nil => exact absurd rfl some_
  | append_singleton front msdu ih =>
    have last := all msdu (mem_append_right _ mem_cons_self)
    by_cases none_before : front = []
    · subst none_before
      obtain ⟨amsdu, done, aggregated⟩ := aggregate_first wellFormed last
      exact ⟨amsdu, by simp [aggregateAll, done], aggregated⟩
    · obtain ⟨amsdu, done, aggregated⟩ := ih none_before fun m mem => all m (mem_append_left _ mem)
      obtain ⟨amsdu', done', aggregated'⟩ := aggregate_next (cons_ne_nil _ _) aggregated last
      refine ⟨amsdu', ?_, aggregated'⟩
      unfold aggregateAll at done ⊢
      rw [foldlM_append, done]
      simpa using done'

/-! ## Taking it apart -/

theorem readFrom_reads (address : Mac48Address) :
    Reads AmsduSubframeHeader.readFrom address.toList address := by
  obtain ⟨⟨bytes⟩, length⟩ := address
  intro rest
  match bytes, length with
  | [a, b, c, d, e, f], _ => rfl

theorem deserialize_reads (hdr : AmsduSubframeHeader) :
    Reads AmsduSubframeHeader.deserialize hdr.serialize hdr :=
  (readFrom_reads hdr.da).bind ((readFrom_reads hdr.sa).bind
    ((ByteReader.readNtohU16_reads () hdr.length).map _))

/-- A round takes a subframe, and the padding unless there is nothing left. -/
theorem deaggregateFrom_subframe {msdu : WifiMpdu} (small : msdu.packet.length < 65536)
    {maxSize deserialized : Nat} (more : deserialized < maxSize) (rounds : Nat)
    (tail : List UInt8) :
    deaggregateFrom maxSize (rounds + 1) deserialized (msdu.subframe ++ tail) =
      let padding := (4 - (msdu.packet.length + 14) % 4) % 4
      let deserialized := deserialized + msdu.subframe.length
      if 0 < padding ∧ deserialized < maxSize then
        if tail.length < padding then none
        else (deaggregateFrom maxSize rounds (deserialized + padding) (tail.drop padding)).map
          ((msdu.packet, msdu.subframeHeader) :: ·)
      else (deaggregateFrom maxSize rounds deserialized tail).map
        ((msdu.packet, msdu.subframeHeader) :: ·) := by
  have length : msdu.subframeHeader.length.toNat = msdu.packet.length :=
    UInt16.toNat_ofNat_of_lt' small
  have taken : deserialized + AmsduSubframeHeader.serializedSize + msdu.packet.length =
      deserialized + msdu.subframe.length := by
    rw [length_subframe]
    unfold AmsduSubframeHeader.serializedSize
    omega
  rw [deaggregateFrom, if_pos more, subframe, append_assoc, deserialize_reads]
  dsimp only
  rw [length, taken, if_neg (by simp), take_left, drop_left]
  rfl

theorem length_le_pack : ∀ msdus : List WifiMpdu, msdus.length ≤ (pack msdus).length
  | [] => Nat.le_refl 0
  | [msdu] => by
    rw [pack, length_subframe, length_singleton]
    omega
  | msdu :: next :: rest => by
    have ih := length_le_pack (next :: rest)
    rw [pack, length_append, length_append, length_subframe, length_cons]
    omega

/-- The rest of the packet is taken apart into the rest of the MSDUs. -/
theorem deaggregateFrom_pack : ∀ (msdus : List WifiMpdu), (∀ msdu ∈ msdus, msdu.WellFormed) →
    ∀ (rounds deserialized : Nat), msdus.length < rounds →
      deaggregateFrom (deserialized + (pack msdus).length) rounds deserialized (pack msdus) =
        some (msdus.map fun msdu => (msdu.packet, msdu.subframeHeader))
  | _, _, 0, _, enough => absurd enough (Nat.not_lt_zero _)
  | [], _, rounds + 1, deserialized, _ => if_neg (Nat.lt_irrefl _)
  | [msdu], all, rounds + 1, deserialized, enough => by
    have small := (all msdu mem_cons_self).small
    have more : deserialized < deserialized + msdu.subframe.length := by
      rw [length_subframe]
      omega
    have round := deaggregateFrom_subframe small more rounds []
    have ends := deaggregateFrom_pack [] nofun rounds (deserialized + msdu.subframe.length)
      (by simpa using enough)
    rw [append_nil] at round
    rw [pack, round]
    dsimp only
    rw [if_neg fun both => Nat.lt_irrefl _ both.2]
    exact congrArg (Option.map _) ends
  | msdu :: next :: rest, all, rounds + 1, deserialized, enough => by
    have small := (all msdu mem_cons_self).small
    have later := deaggregateFrom_pack (next :: rest)
      (fun m mem => all m (mem_cons_of_mem _ mem)) rounds
      (deserialized + msdu.subframe.length + (4 - (msdu.packet.length + 14) % 4) % 4)
      (Nat.lt_of_succ_lt_succ enough)
    have some_ := length_le_pack (next :: rest)
    rw [length_cons] at some_
    have whole : deserialized + (pack (msdu :: next :: rest)).length = deserialized +
        msdu.subframe.length + (4 - (msdu.packet.length + 14) % 4) % 4 +
          (pack (next :: rest)).length := by
      simp only [pack, length_append, length_replicate]
      omega
    rw [whole, pack, deaggregateFrom_subframe small (by omega)]
    dsimp only
    generalize (4 - (msdu.packet.length + 14) % 4) % 4 = padding at *
    by_cases none_ : padding = 0
    · subst none_
      rw [if_neg (by omega)]
      exact congrArg (Option.map _) later
    · rw [if_pos ⟨by omega, by omega⟩, if_neg (by simp), drop_left' (by simp)]
      exact congrArg (Option.map _) later

/-! ## The round trip -/

/-- The addresses that a header denotes: the destination and the source, by `ToDS` and `FromDS`. -/
def denoted (header : WifiMacHeader) : Mac48Address × Mac48Address :=
  match header.isToDs, header.isFromDs with
  | false, false => (header.addr1, header.addr2)
  | false, true => (header.addr1, header.addr3)
  | true, false => (header.addr3, header.addr2)
  | true, true => (header.addr3, header.addr4)

theorem subframeHeader_denoted (msdu : WifiMpdu) :
    (msdu.subframeHeader.da, msdu.subframeHeader.sa) = denoted msdu.header := by
  unfold subframeHeader denoted
  cases msdu.header.isToDs <;> cases msdu.header.isFromDs <;> rfl

/-- The size of the A-MSDU when it has been made of the first MSDU and some others. -/
def sizeBefore (first : WifiMpdu) (front : List WifiMpdu) : Option Nat :=
  if front = [] then some (getSizeIfAggregated (.ofNat first.packet.length) 0).toNat
  else (first.aggregateAll front).map (·.packet.length)

theorem getSizeIfAggregated_eq (size size' : Nat)
    (fits : size' + (4 - size' % 4) % 4 + 14 + size < 65536) :
    (getSizeIfAggregated (.ofNat size) (.ofNat size')).toNat =
      size' + (4 - size' % 4) % 4 + 14 + size := by
  simp [getSizeIfAggregated, calculatePadding_eq]
  omega

/-- **The round trip.** The MSDUs come back with their addresses, and the size after every step is
the one that was foreseen. -/
theorem deaggregate_aggregateAll {first : WifiMpdu} {rest : List WifiMpdu} (some_ : rest ≠ [])
    (wellFormed : ∀ msdu ∈ first :: rest, msdu.WellFormed) :
    (∃ amsdu msdus, first.aggregateAll rest = some amsdu ∧ deaggregate amsdu.packet = some msdus ∧
      msdus.map (fun msdu => (msdu.1, msdu.2.da, msdu.2.sa)) =
        (first :: rest).map fun msdu => (msdu.packet, denoted msdu.header)) ∧
    ∀ front msdu back, rest = front ++ msdu :: back → ∃ size amsdu,
      first.sizeBefore front = some size ∧ first.aggregateAll (front ++ [msdu]) = some amsdu ∧
      (amsdu.packet.length < 65536 →
        (getSizeIfAggregated (.ofNat msdu.packet.length) (.ofNat size)).toNat =
          amsdu.packet.length) := by
  have own := wellFormed first mem_cons_self
  have others := fun msdu mem => wellFormed msdu (mem_cons_of_mem first mem)
  constructor
  · obtain ⟨amsdu, done, aggregated⟩ := aggregateAll_spec own some_ others
    refine ⟨amsdu, (first :: rest).map fun msdu => (msdu.packet, msdu.subframeHeader), done, ?_, ?_⟩
    · have apart := deaggregateFrom_pack (first :: rest) wellFormed
        ((pack (first :: rest)).length + 1) 0 (Nat.lt_succ_of_le (length_le_pack _))
      rw [Nat.zero_add] at apart
      rw [deaggregate, aggregated.packet, apart]
    · rw [map_map]
      apply map_congr_left
      intro msdu _
      exact congrArg (msdu.packet, ·) msdu.subframeHeader_denoted
  · rintro front msdu back rfl
    have before : ∀ m ∈ front ++ [msdu], m.WellFormed := by
      intro m mem
      apply others
      rw [append_cons]
      exact mem_append_left _ mem
    obtain ⟨amsdu, done, aggregated⟩ := aggregateAll_spec own (by simp) before
    have size := congrArg List.length (aggregated.packet.trans
      (pack_concat msdu (cons_ne_nil first front)))
    rw [length_append, length_append, length_replicate, length_subframe] at size
    have foreseen : amsdu.packet.length < 65536 → (getSizeIfAggregated (.ofNat msdu.packet.length)
          (.ofNat (pack (first :: front)).length)).toNat = amsdu.packet.length := by
      intro fits
      rw [getSizeIfAggregated_eq _ _ (by omega)]
      omega
    unfold sizeBefore
    by_cases none_before : front = []
    · subst none_before
      refine ⟨_, amsdu, if_pos rfl, done, fun fits => ?_⟩
      have first_size : (pack [first]).length = first.packet.length + 14 := length_subframe first
      have alone := getSizeIfAggregated_eq first.packet.length 0 (by omega)
      have same : (getSizeIfAggregated (.ofNat first.packet.length) 0).toNat =
          (pack [first]).length := by
        rw [first_size]
        exact alone.trans (by omega)
      rw [same]
      exact foreseen fits
    · obtain ⟨shorter, done', aggregated'⟩ := aggregateAll_spec own none_before fun m mem =>
        before m (mem_append_left _ mem)
      refine ⟨shorter.packet.length, amsdu, by rw [if_neg none_before, done']; rfl, done,
        fun fits => ?_⟩
      rw [aggregated'.packet]
      exact foreseen fits

/-- A QoS data frame between the stations of a basic service set without distribution system. -/
def qosData (payload : List UInt8) : WifiMpdu where
  header := ⟨true, false, false, false, .replicate 6 1, .replicate 6 2, .replicate 6 3,
    .replicate 6 0⟩
  packet := payload
  msduList := []

theorem qosData_restored :
    ∃ amsdu msdus, (qosData [1, 2, 3]).aggregateAll [qosData [4]] = some amsdu ∧
      deaggregate amsdu.packet = some msdus ∧
      msdus.map (fun msdu => (msdu.1, msdu.2.da, msdu.2.sa)) =
        [qosData [1, 2, 3], qosData [4]].map fun msdu => (msdu.packet, denoted msdu.header) :=
  (deaggregate_aggregateAll (cons_ne_nil _ _) fun msdu mem => by
    obtain rfl | mem := mem_cons.mp mem
    · exact ⟨rfl, rfl, by decide, rfl⟩
    · cases mem_singleton.mp mem
      exact ⟨rfl, rfl, by decide, rfl⟩).1

end WifiMpdu

end Ns3.Wifi.Amsdu
