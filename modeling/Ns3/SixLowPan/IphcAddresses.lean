import Ns3.SixLowPan.IphcHeaders

/-!
# Which addresses come back from IPHC compression

A context is found for an address that has the ones of its prefix; what comes back
has the whole prefix, and zeros where the compressor cleans the address or leaves it
out.
-/

namespace Ns3.SixLowPan

open List

open PrefixBits (bit)

open Ipv6Address PrefixBits

/-! ## Contexts -/

/-- Every context is valid when a packet is compressed and when it is decompressed. -/
def ContextTable.Unexpired (t : ContextTable) (now later : Time) : Prop :=
  ∀ e ∈ t.entries, now < e.2.validLifetime ∧ later ≤ e.2.validLifetime

variable {t : ContextTable} {now later : Time}

theorem ContextTable.find_of_mem {e : Nat × ContextEntry} (mem : e ∈ t.entries) :
    t.find e.1 = some e.2 := by
  have found : t.entries.find? (fun x => x.1 = e.1) = some e := by
    obtain ⟨front, back, split⟩ := append_of_mem mem
    have ids := t.ids
    rw [split, map_append, map_cons, pairwise_append] at ids
    rw [split, find?_append]
    have absent : front.find? (fun x => x.1 = e.1) = none := by
      apply find?_eq_none.mpr
      intro x there same
      have lt := ids.2.2 x.1 (mem_map_of_mem there) e.1 mem_cons_self
      exact Nat.ne_of_lt lt (of_decide_eq_true same)
    simp [absent]
  unfold ContextTable.find
  rw [found]
  rfl

theorem getContext_of_mem (unexpired : t.Unexpired now later) {e : Nat × ContextEntry}
    (mem : e ∈ t.entries) : getContext t later e.1 = .ok e.2 := by
  unfold getContext
  rw [ContextTable.find_of_mem mem]
  exact if_neg (Int.not_lt.mpr (unexpired e mem).2)

/-! ## Prefixes -/

variable {p : Ipv6Prefix} {a : Ipv6Address} {mac : LinkAddress}

theorem overridePrefix_eq (p : Ipv6Prefix) (address : List UInt8) :
    overridePrefix p address = splice p.prefixLength p.bytes address := rfl

theorem bit_overridePrefix {address : List UInt8} (full : address.length = 16) (i : Nat) :
    bit (deserialize (overridePrefix p address)).bytes i =
      if i < p.prefixLength then bit p.bytes i else bit address i := by
  have same : p.bytes.length = address.length := p.length_eq.trans full.symm
  have inside : p.prefixLength ≤ 8 * address.length := by
    have := p.le
    omega
  rw [overridePrefix_eq, bytes_deserialize
    ((length_splice same inside).trans full), bit_splice same inside]

/-- The bits that `CleanPrefix` clears behind the prefix. -/
def Cleaned (length i : Nat) : Prop :=
  length % 8 ≠ 0 ∧ i / 8 = length / 8 ∧ i % 8 < 8 - length % 8

instance (length i : Nat) : Decidable (Cleaned length i) := by
  unfold Cleaned
  infer_instance

theorem bit_cleanPrefix {i : Nat} (lt : i < 128) (behind : p.prefixLength ≤ i) :
    bit (cleanPrefix a p).bytes i =
      if Cleaned p.prefixLength i then false else bit a.bytes i := by
  have full : (List.replicate (p.prefixLength / 8) 0 ++ a.bytes.drop (p.prefixLength / 8)).length =
      16 := by
    have := p.le
    rw [length_append, length_replicate, length_drop, a.length_eq]
    omega
  have bits : bit (List.replicate (p.prefixLength / 8) 0 ++ a.bytes.drop (p.prefixLength / 8)) i =
      bit a.bytes i := by
    have length : (List.replicate (p.prefixLength / 8) (0 : UInt8)).length = p.prefixLength / 8 :=
      length_replicate
    rw [bit_append_right (by omega), bit_drop, length]
    congr 1
    omega
  unfold cleanPrefix
  dsimp only
  by_cases even : p.prefixLength % 8 = 0
  · have kept : ¬ Cleaned p.prefixLength i := fun cleaned => cleaned.1 even
    rw [if_pos even, bytes_deserialize full, bits, if_neg kept]
  · rw [if_neg even, bytes_deserialize (by rw [length_modify]; exact full), bit_modify _ (by omega)]
    by_cases here : i / 8 = p.prefixLength / 8
    · unfold bit at bits
      rw [here] at bits
      rw [if_pos here, UInt8.toBitVec_and, BitVec.getMsbD_and, bits,
        getMsbD_lowBits (by omega) (by omega)]
      unfold bit
      rw [here]
      by_cases low : i % 8 < 8 - p.prefixLength % 8
      · have cleaned : Cleaned p.prefixLength i := ⟨even, here, low⟩
        rw [if_pos cleaned, decide_eq_false (by omega), Bool.and_false]
      · have kept : ¬ Cleaned p.prefixLength i := fun cleaned => low cleaned.2.2
        rw [if_neg kept, decide_eq_true (by omega), Bool.and_true]
    · have kept : ¬ Cleaned p.prefixLength i := fun cleaned => here cleaned.2.1
      rw [if_neg here, bits, if_neg kept]

/-! ## Unicast addresses -/

/-- The encoding when it is read: the rest of the array is zero. -/
def AddressEncoding.padded (e : AddressEncoding) : AddressEncoding :=
  { e with inlinePart := e.inlinePart ++ List.replicate (16 - e.inlinePart.length) 0 }

@[simp]
theorem padded_stateful (e : AddressEncoding) : e.padded.stateful = e.stateful := rfl

@[simp]
theorem padded_mode (e : AddressEncoding) : e.padded.mode = e.mode := rfl

@[simp]
theorem padded_contextId (e : AddressEncoding) : e.padded.contextId = e.contextId := rfl

theorem take_padded {e : AddressEncoding} {n : Nat} (length : e.inlinePart.length = n) :
    e.padded.inlinePart.take n = e.inlinePart := take_left' length

/-- When an address with the ones of a prefix comes back by its context. An address made of the
prefix and the link-layer address is filled up with `fe80::`, any other one with zeros. -/
def UnicastKept (mac : LinkAddress) (p : Ipv6Prefix) (a : Ipv6Address) : Prop :=
  makeAutoconfiguredAddress mac p ≠ none ∧ (∀ i < p.prefixLength, bit a.bytes i = bit p.bytes i) ∧
    if makeAutoconfiguredAddress mac p = some a then 9 ≤ p.prefixLength
    else ∀ i < 128, p.prefixLength ≤ i → i < 64 ∨ Cleaned p.prefixLength i → bit a.bytes i = false

theorem bytes_linkLocal (mac : LinkAddress) :
    (makeAutoconfiguredLinkLocalAddress mac).bytes = linkLocal.bytes.take 8 ++ mac.interfaceId := by
  apply bytes_deserialize
  rw [length_append, length_take, linkLocal.length_eq, mac.length_interfaceId]
  rfl

theorem bytes_autoconfigured (auto : makeAutoconfiguredAddress mac p = some a) :
    a.bytes = p.bytes.take 8 ++ mac.interfaceId := by
  unfold makeAutoconfiguredAddress at auto
  dsimp only at auto
  split at auto
  case isTrue => cases auto
  case isFalse =>
    cases auto
    rw [getOnes_combinePrefix]
    apply bytes_deserialize
    rw [length_append, length_take, p.length_eq, mac.length_interfaceId]
    rfl

theorem decompress_compr0 (mac : LinkAddress) (auto : makeAutoconfiguredAddress mac p = some a) :
    deserialize (overridePrefix p (makeAutoconfiguredLinkLocalAddress mac).bytes) = a ↔
      (∀ i < p.prefixLength, bit a.bytes i = bit p.bytes i) ∧ 9 ≤ p.prefixLength := by
  have link := bytes_linkLocal mac
  have bytes := bytes_autoconfigured auto
  have take_link : (linkLocal.bytes.take 8).length = 8 := rfl
  have take_p : (p.bytes.take 8).length = 8 := by
    rw [length_take, p.length_eq]
    rfl
  have first_link : ∀ i < 64, bit (makeAutoconfiguredLinkLocalAddress mac).bytes i =
      decide (i < 7 ∨ i = 8) := by
    intro i lt
    rw [link, bit_append_left (by omega), bit_take (by omega), bit_linkLocal i (by omega)]
  have first : ∀ i < 64, bit a.bytes i = bit p.bytes i := by
    intro i lt
    rw [bytes, bit_append_left (by omega), bit_take (by omega)]
  have last : ∀ i, 64 ≤ i →
      bit (makeAutoconfiguredLinkLocalAddress mac).bytes i = bit a.bytes i := by
    intro i ge
    rw [link, bytes, bit_append_right (by omega), bit_append_right (by omega), take_link, take_p]
  have full := (makeAutoconfiguredLinkLocalAddress mac).length_eq
  constructor
  · intro same
    have bits : ∀ i, bit a.bytes i = if i < p.prefixLength then bit p.bytes i
        else bit (makeAutoconfiguredLinkLocalAddress mac).bytes i := by
      intro i
      rw [← bit_overridePrefix full, same]
    refine ⟨fun i lt => (bits i).trans (if_pos lt), ?_⟩
    -- The ninth bit of `fe80::` is one, and the prefix is zero behind its length.
    by_contra short
    have ninth := bits 8
    rw [if_neg (by omega), first_link 8 (by omega), first 8 (by omega),
      p.compatible 8 (by omega) (by omega)] at ninth
    exact absurd ninth (by decide)
  · rintro ⟨front, long⟩
    apply ext_bits
    intro i lt
    rw [bit_overridePrefix full]
    split
    case isTrue before => exact (front i before).symm
    case isFalse after =>
      by_cases upper : i < 64
      · rw [first_link i upper, first i upper, p.compatible i lt (by omega)]
        exact decide_eq_false (by omega)
      · exact last i (by omega)

theorem decompress_cleaned : deserialize (overridePrefix p
        (List.replicate 8 0 ++ (cleanPrefix a p).bytes.drop 8)) = a ↔
      (∀ i < p.prefixLength, bit a.bytes i = bit p.bytes i) ∧
        ∀ i < 128, p.prefixLength ≤ i → i < 64 ∨ Cleaned p.prefixLength i →
          bit a.bytes i = false := by
  have full : (List.replicate 8 0 ++ (cleanPrefix a p).bytes.drop 8).length = 16 := by
    simp [(cleanPrefix a p).length_eq]
  have behind : ∀ i < 128, p.prefixLength ≤ i →
      bit (List.replicate 8 0 ++ (cleanPrefix a p).bytes.drop 8) i =
        if i < 64 ∨ Cleaned p.prefixLength i then false else bit a.bytes i := by
    intro i lt ge
    by_cases first : i < 64
    · rw [if_pos (.inl first), bit_append_left (by rw [length_replicate]; omega), bit_zeros]
    · have length : (List.replicate 8 (0 : UInt8)).length = 8 := length_replicate
      rw [bit_append_right (by omega), bit_drop, length,
        show 8 * 8 + (i - 8 * 8) = i by omega, bit_cleanPrefix lt ge]
      simp [first]
  constructor
  · intro same
    have bits : ∀ i, bit a.bytes i = if i < p.prefixLength then bit p.bytes i
        else bit (List.replicate 8 0 ++ (cleanPrefix a p).bytes.drop 8) i := by
      intro i
      rw [← bit_overridePrefix full, same]
    refine ⟨fun i lt => (bits i).trans (if_pos lt), fun i lt ge cleared => ?_⟩
    rw [bits i, if_neg (by omega), behind i lt ge, if_pos cleared]
  · rintro ⟨front, zeros⟩
    apply ext_bits
    intro i lt
    rw [bit_overridePrefix full]
    split
    case isTrue before => exact (front i before).symm
    case isFalse after =>
      rw [behind i lt (by omega)]
      split
      case isTrue cleared => exact (zeros i lt (by omega) cleared).symm
      case isFalse => rfl

/-- **A unicast address by its context.** -/
theorem unicast_context (unexpired : t.Unexpired now later) {c : Nat × ContextEntry}
    (found : t.findUnicastCompressionContext now a = some c) :
    (∃ e, compressUnicast t now mac a = some e ∧ decompressUnicast t later mac e.padded = .ok a) ↔
      UnicastKept mac c.2.contextPrefix a := by
  have known := getContext_of_mem unexpired (mem_of_find?_eq_some found)
  unfold compressUnicast UnicastKept
  rw [found]
  dsimp only
  cases auto : makeAutoconfiguredAddress mac c.2.contextPrefix with
  | none => simp
  | some b =>
    simp only [Option.map_some, Option.some.injEq, exists_eq_left', ne_eq, reduceCtorEq,
      not_false_eq_true, true_and]
    by_cases same : b = a
    · subst same
      rw [if_pos rfl, if_pos rfl]
      have decoded : decompressUnicast t later mac
          (AddressEncoding.padded ⟨true, .compr0, c.1, []⟩) =
          .ok (.deserialize (overridePrefix c.2.contextPrefix
            (makeAutoconfiguredLinkLocalAddress mac).bytes)) := by
        simp [decompressUnicast, known, Except.map]
      simp [decoded, decompress_compr0 mac auto]
    · rw [if_neg same, if_neg same, ← decompress_cleaned]
      have length := (cleanPrefix a c.2.contextPrefix).length_eq
      generalize (cleanPrefix a c.2.contextPrefix).bytes = cleaned at length
      split
      case isTrue middle =>
        have parts := (take_append_drop 6 (cleaned.drop 8)).symm
        rw [middle, drop_drop] at parts
        have inline_ := take_padded (e := ⟨true, .compr16, c.1, cleaned.drop 14⟩)
          (n := 2) (by simp [length])
        simp [decompressUnicast, known, Except.map, inline_, parts]
      case isFalse =>
        have inline_ := take_padded (e := ⟨true, .compr64, c.1, cleaned.drop 8⟩)
          (n := 8) (by simp [length])
        simp [decompressUnicast, known, Except.map, inline_]

/-- A unicast address without a context comes back. -/
theorem unicast_stateless (absent : t.findUnicastCompressionContext now a = none) :
    ∃ e, compressUnicast t now mac a = some e ∧ decompressUnicast t later mac e.padded = .ok a := by
  have a_length := a.length_eq
  unfold compressUnicast
  rw [absent]
  refine ⟨_, rfl, ?_⟩
  split
  case isTrue link =>
    rw [link]
    rfl
  case isFalse =>
  split
  case isTrue checker =>
    have inline_ := take_padded (e := ⟨false, .compr16, 0, a.bytes.drop 14⟩)
      (n := 2) (by simp [a_length])
    have whole : unicastAddrChecker ++ a.bytes.drop 14 = a.bytes := by simp [← checker]
    simp [decompressUnicast, inline_, whole, deserialize_bytes]
  case isFalse =>
  split
  case isTrue link =>
    have inline_ := take_padded (e := ⟨false, .compr64, 0, a.bytes.drop 8⟩)
      (n := 8) (by simp [a_length])
    have whole : [0xfe, 0x80] ++ List.replicate 6 0 ++ a.bytes.drop 8 = a.bytes := by
      have front : [0xfe, 0x80] ++ List.replicate 6 0 = a.bytes.take 8 :=
        (take_of_isLinkLocal link).symm
      rw [front, take_append_drop]
    have back : deserialize (([0xfe, 0x80] ++ List.replicate 6 0) ++ a.bytes.drop 8) = a := by
      rw [whole, deserialize_bytes]
    unfold decompressUnicast
    rw [padded_stateful, padded_mode, inline_]
    exact congrArg Except.ok back
  case isFalse =>
    have inline_ := take_padded (e := ⟨false, .inline_, 0, a.bytes⟩) (n := 16) a_length
    simp [decompressUnicast, inline_, deserialize_bytes]

/-- A unicast address has no context, or comes back by its context. -/
def UnicastRestored (t : ContextTable) (now : Time) (mac : LinkAddress) (a : Ipv6Address) : Prop :=
  ∀ c, t.findUnicastCompressionContext now a = some c → UnicastKept mac c.2.contextPrefix a

/-- **Unicast addresses.** -/
theorem unicast_restored (unexpired : t.Unexpired now later) :
    (∃ e, compressUnicast t now mac a = some e ∧ decompressUnicast t later mac e.padded = .ok a) ↔
      UnicastRestored t now mac a := by
  unfold UnicastRestored
  cases found : t.findUnicastCompressionContext now a with
  | none => exact ⟨nofun, fun _ => unicast_stateless found⟩
  | some c => rw [unicast_context unexpired found]; simp

/-- The identifier fits into its four bits, and the inline part is what the modes say. -/
theorem unicast_encoding {e : AddressEncoding} (done : compressUnicast t now mac a = some e) :
    e.contextId < 16 ∧ e.inlinePart.length = SixLowPanIphc.srcSize e.stateful e.mode ∧
      ¬ (e.stateful = true ∧ e.mode = .inline_) := by
  have a_length := a.length_eq
  unfold compressUnicast at done
  cases found : t.findUnicastCompressionContext now a with
  | none =>
    rw [found] at done
    cases done
    split_ifs <;> simp [SixLowPanIphc.srcSize, a_length]
  | some c =>
    have small := t.small c (mem_of_find?_eq_some found)
    rw [found] at done
    obtain ⟨b, -, rfl⟩ := Option.map_eq_some_iff.mp done
    have length := (cleanPrefix a c.2.contextPrefix).length_eq
    dsimp only
    split_ifs <;> simp [SixLowPanIphc.srcSize, length] <;> omega

/-! ## Sources -/

/-- The unspecified address has an encoding of its own. -/
def SourceRestored (t : ContextTable) (now : Time) (mac : LinkAddress) (a : Ipv6Address) : Prop :=
  a = .getAny ∨ UnicastRestored t now mac a

/-- **Sources.** -/
theorem source_restored (unexpired : t.Unexpired now later) :
    (∃ e, compressSource t now mac a = some e ∧ decompressSource t later mac e.padded = .ok a) ↔
      SourceRestored t now mac a := by
  unfold compressSource SourceRestored
  by_cases any : a = .getAny
  · rw [if_pos any]
    simp [any, decompressSource]
  · rw [if_neg any, ← unicast_restored unexpired]
    simp only [any, false_or]
    apply exists_congr
    intro e
    apply and_congr_right
    intro done
    have other := (unicast_encoding done).2.2
    unfold decompressSource
    rw [padded_stateful, padded_mode, if_neg other]

theorem source_encoding {e : AddressEncoding} (done : compressSource t now mac a = some e) :
    e.contextId < 16 ∧ e.inlinePart.length = SixLowPanIphc.srcSize e.stateful e.mode := by
  unfold compressSource at done
  split at done
  case isTrue =>
    cases done
    exact ⟨by decide, rfl⟩
  case isFalse =>
    obtain ⟨small, length, -⟩ := unicast_encoding done
    exact ⟨small, length⟩

/-! ## Destinations -/

/-- A multicast address must have no context, since the inline part of a stateful one is longer
than its header. -/
def DestinationRestored (t : ContextTable) (now : Time) (mac : LinkAddress) (a : Ipv6Address) :
    Prop :=
  if a.isMulticast then t.findMulticastCompressionContext now a = none
  else UnicastRestored t now mac a

/-- An address that begins with `0xff` and a byte in front of zeros, from these parts. -/
theorem multicast_parts {l : List UInt8} {k : Nat} (length : l.length = 16)
    (first : l.getD 0 0 = 0xff) (le : k ≤ 14) (zeros : (l.drop 2).take k = List.replicate k 0)
    (pad : List UInt8) :
    [0xff] ++ ((l.drop 1).take 1 ++ l.drop (2 + k) ++ pad).take 1 ++ List.replicate k 0 ++
      (((l.drop 1).take 1 ++ l.drop (2 + k) ++ pad).drop 1).take (14 - k) = l := by
  have one : ((l.drop 1).take 1).length = 1 := by
    rw [length_take, length_drop, length]
    rfl
  have rest : (l.drop (2 + k)).length = 14 - k := by
    rw [length_drop, length]
    omega
  have head : l.take 1 = [0xff] := by
    cases l with
    | nil => cases length
    | cons b l => exact congrArg (fun b => [b]) first
  have two : [0xff] ++ (l.drop 1).take 1 = l.take 2 := by
    rw [← head]
    exact take_add.symm
  rw [append_assoc ((l.drop 1).take 1), take_left' one, drop_left' one,
    take_left' rest, ← zeros, two, ← take_add, take_append_drop]

/-- A multicast address without a context comes back. -/
theorem multicast_stateless (later : Time) (multicast : a.isMulticast = true)
    (absent : t.findMulticastCompressionContext now a = none) :
    decompressMulticast t later (compressMulticast t now a).padded = .ok a := by
  have length := a.length_eq
  have back : ∀ {buf}, buf = a.bytes → deserialize buf = a := by
    rintro _ rfl
    exact a.deserialize_bytes
  have first : a.bytes.getD 0 0 = 0xff := of_decide_eq_true multicast
  unfold compressMulticast
  rw [absent]
  dsimp only
  split
  case isTrue all =>
    have inline_ := take_padded (e := ⟨false, .compr0, 0, a.bytes.drop 15⟩)
      (n := 1) (by simp [length])
    unfold decompressMulticast
    rw [padded_stateful, padded_mode, inline_]
    apply congrArg Except.ok
    apply back
    change [0xff, 0x02, 0, 0, 0, 0, 0, 0, 0, 0, 0, 0, 0, 0, 0] ++ a.bytes.drop 15 = a.bytes
    simp [← all]
  case isFalse =>
  split
  case isTrue zeros =>
    exact congrArg Except.ok (back (multicast_parts length first (by decide) zeros.2 _))
  case isFalse =>
  split
  case isTrue zeros =>
    exact congrArg Except.ok (back (multicast_parts length first (by decide) zeros.2 _))
  case isFalse =>
    have inline_ := take_padded (e := ⟨false, .inline_, 0, a.bytes⟩) (n := 16) length
    simp [decompressMulticast, inline_, back]

/-- **Destinations.** One whose encoding the header has room for. -/
theorem destination_restored (unexpired : t.Unexpired now later)
    (counted : a.isMulticast = true → t.findMulticastCompressionContext now a = none) :
    (∃ e, compressDestination t now mac a = some e ∧
        decompressDestination t later mac a.isMulticast e.padded = .ok a) ↔
      DestinationRestored t now mac a := by
  unfold compressDestination DestinationRestored
  by_cases multicast : a.isMulticast = true
  · rw [if_pos multicast, if_pos multicast]
    have restored := multicast_stateless later multicast (counted multicast)
    simp [decompressDestination, restored, multicast, counted multicast]
  · rw [if_neg multicast, if_neg multicast, ← unicast_restored unexpired]
    apply exists_congr
    intro e
    apply and_congr_right
    intro done
    have other := (unicast_encoding done).2.2
    unfold decompressDestination
    rw [if_neg multicast, padded_stateful, padded_mode, if_neg other]

theorem destination_encoding {e : AddressEncoding}
    (counted : a.isMulticast = true → t.findMulticastCompressionContext now a = none)
    (done : compressDestination t now mac a = some e) :
    e.contextId < 16 ∧ e.inlinePart.length = SixLowPanIphc.dstSize a.isMulticast e.mode ∧
      (e.stateful = true → a.isMulticast = false ∧ e.mode ≠ .inline_) := by
  have length := a.length_eq
  unfold compressDestination at done
  by_cases multicast : a.isMulticast = true
  · rw [if_pos multicast] at done
    cases done
    unfold compressMulticast
    rw [counted multicast, multicast]
    split_ifs <;> simp [SixLowPanIphc.dstSize, length]
  · rw [if_neg multicast] at done
    obtain ⟨small, inline_, other⟩ := unicast_encoding done
    refine ⟨small, ?_, fun stateful => ⟨Bool.eq_false_iff.mpr multicast,
      fun mode => other ⟨stateful, mode⟩⟩⟩
    rw [inline_, Bool.eq_false_iff.mpr multicast]
    cases stateful : e.stateful <;> cases mode : e.mode <;>
      simp_all [SixLowPanIphc.srcSize, SixLowPanIphc.dstSize]

end Ns3.SixLowPan
