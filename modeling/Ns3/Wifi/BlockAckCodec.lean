import Ns3.Wifi.BlockAckBitmap

/-!
# Block Ack codec

The size of a response, and all that is read back of it.
-/

namespace Ns3.Wifi.CtrlBAckResponseHeader

open List

/-- `GetSerializedSize`, of the type that is set. -/
def getSerializedSize (h : CtrlBAckResponseHeader) : Nat :=
  (2 + match h.variant with
    | .basic | .compressed | .extendedCompressed => 2 + h.lenOf 0
    | .multiTid => (2 + 2 + 8) * (h.tidInfo + 1)
    | .multiSta =>
      (h.bitmapLen.map fun bitmapLen => 2 + (if 0 < bitmapLen then 2 else 0) + bitmapLen).sum) %
    2 ^ 32

/-- The constructor. -/
def create : CtrlBAckResponseHeader :=
  ({ baAckPolicy := false, variant := .basic, bitmapLen := [], tidInfo := 0, baInfo := [] } :
    CtrlBAckResponseHeader).setType .basic [128]

/-! ## Well-formed responses -/

/-- A Per AID TID Info subfield with the length of its bitmap. What the subfield has no room for
is as it was created, except for the bitmap of AID 2045. -/
inductive Subfield (bitmapLen : Nat) (info : BaInfoInstance) : Prop where
  | blockAck (context : BlockAckContext bitmapLen info) (length : info.bitmap.length = bitmapLen)
      (start : info.startingSeq < 4096) (ra : info.ra = Vector.replicate 6 0)
  | ack (aid11 : info.aid11 ≠ 2045) (context : info.ackType = true ∨ 8 ≤ info.tidInfo)
      (len : bitmapLen = 0) (bitmap : info.bitmap = []) (start : info.startingSeq = 0)
      (ra : info.ra = Vector.replicate 6 0)
  | unassociated (aid11 : info.aid11 = 2045) (reserved : bitmapLen = 8)
      (start : info.startingSeq = 0)

/-- The variants that are supported. -/
inductive WellFormed (h : CtrlBAckResponseHeader) : Prop where
  | single {len : Nat} {info : BaInfoInstance} (single : Single h.variant len)
      (lens : h.bitmapLen = [len]) (one : h.baInfo = [info]) (length : info.bitmap.length = len)
      (start : info.startingSeq < 4096) (aidTidInfo : info.aidTidInfo = 0)
      (ra : info.ra = Vector.replicate 6 0) (tid : h.tidInfo < 16)
  | multiSta (variant : h.variant = .multiSta)
      (entries : List.Forall₂ (fun len info => info.aidTidInfo < 2 ^ 16 ∧ Subfield len info)
        h.bitmapLen h.baInfo)

/-- A subfield of AID 2045 has its address where there is a bitmap otherwise. -/
def withoutReserved (info : BaInfoInstance) : BaInfoInstance :=
  if info.aid11 = 2045 then { info with bitmap := [] } else info

namespace Subfield

variable {bitmapLen : Nat} {info : BaInfoInstance}

theorem sendable (subfield : Subfield bitmapLen info) : Sendable bitmapLen info := by
  cases subfield with
  | blockAck context length start => exact .blockAck context length start
  | ack aid11 context _ bitmap => exact .ack aid11 context bitmap
  | unassociated aid11 => exact .unassociated aid11

theorem received (subfield : Subfield bitmapLen info) :
    received bitmapLen info = (bitmapLen, withoutReserved info) := by
  cases subfield with
  | blockAck context length _ ra =>
    rw [context.received length, ← ra, withoutReserved, if_neg context.aid11]
  | ack aid11 _ len bitmap start ra =>
    have same : ({ info with startingSeq := 0, ra := Vector.replicate 6 0 } : BaInfoInstance) =
        info := by rw [← start, ← ra]
    simp [CtrlBAckResponseHeader.received, if_pos bitmap, same, len, withoutReserved, if_neg aid11]
  | unassociated aid11 reserved start =>
    have same : ({ info with startingSeq := 0, bitmap := [] } : BaInfoInstance) =
        { info with bitmap := [] } := by rw [← start]
    rw [CtrlBAckResponseHeader.received, if_neg fun other => other aid11, same, reserved,
      withoutReserved, if_pos aid11]

theorem length (subfield : Subfield bitmapLen info) :
    (serializeInfo bitmapLen info).length = 2 + (if 0 < bitmapLen then 2 else 0) + bitmapLen := by
  unfold serializeInfo writeHtolsbU16
  cases subfield with
  | blockAck context length =>
    have some_bytes : 0 < bitmapLen := by
      have := context.bitmapLen
      omega
    rw [if_pos context.aid11, if_neg (context.nonempty length), if_pos some_bytes]
    simp only [length_append, length_cons, length_nil]
    omega
  | ack aid11 _ len bitmap =>
    rw [if_pos aid11, if_pos bitmap, len]
    rfl
  | unassociated aid11 reserved =>
    rw [if_neg fun other => other aid11, reserved]
    simp

end Subfield

variable {lens : List Nat} {infos : List BaInfoInstance}

theorem received_all
    (entries : List.Forall₂ (fun len info => info.aidTidInfo < 2 ^ 16 ∧ Subfield len info)
      lens infos) :
    (List.zipWith received lens infos).map Prod.fst = lens ∧
      (List.zipWith received lens infos).map Prod.snd = infos.map withoutReserved ∧
      (∀ p ∈ lens.zip infos, p.2.aidTidInfo < 2 ^ 16 ∧ Sendable p.1 p.2) ∧
      (List.zipWith serializeInfo lens infos).flatten.length =
        (lens.map fun len => 2 + (if 0 < len then 2 else 0) + len).sum := by
  induction entries with
  | nil => exact ⟨rfl, rfl, nofun, rfl⟩
  | @cons len info lens infos entry _ ih =>
    obtain ⟨fits, subfield⟩ := entry
    obtain ⟨same_lens, same_infos, sendable, size⟩ := ih
    refine ⟨?_, ?_, ?_, ?_⟩
    · rw [zipWith_cons_cons, map_cons, subfield.received, same_lens]
    · rw [zipWith_cons_cons, map_cons, subfield.received, same_infos, map_cons]
    · intro p mem
      rw [zip_cons_cons] at mem
      cases mem with
      | head => exact ⟨fits, subfield.sendable⟩
      | tail _ mem => exact sendable p mem
    · simp [subfield.length, size]

/-! ## Round trip -/

variable {h : CtrlBAckResponseHeader}

theorem WellFormed.sent (wellFormed : WellFormed h) : Sent h := by
  cases wellFormed with
  | single single lens one length start => exact .single single lens one length start
  | multiSta variant entries =>
    exact .multiSta variant entries.length_eq.symm (received_all entries).2.2.1

theorem WellFormed.restored (wellFormed : WellFormed h) (blank : CtrlBAckResponseHeader) :
    h.restored blank = { h with
      tidInfo := if h.variant = .multiSta then blank.tidInfo else h.tidInfo
      baInfo := h.baInfo.map withoutReserved } := by
  unfold CtrlBAckResponseHeader.restored
  cases wellFormed with
  | @single len info single _ one _ _ aidTidInfo ra tid =>
    have same : ({ info with aidTidInfo := 0, ra := Vector.replicate 6 0 } : BaInfoInstance) =
        withoutReserved info := by
      have assigned : info.aid11 ≠ 2045 := by
        rw [BaInfoInstance.aid11, aidTidInfo]
        decide
      rw [withoutReserved, if_neg assigned, ← ra, ← aidTidInfo]
    rw [if_neg single.not_multiSta, if_neg single.not_multiSta, Nat.mod_eq_of_lt tid, one,
      map_cons, map_cons, same]
    rfl
  | multiSta variant entries =>
    obtain ⟨same_lens, same_infos, -⟩ := received_all entries
    rw [if_pos variant, if_pos variant, same_lens, same_infos]

theorem WellFormed.size (wellFormed : WellFormed h) {bytes : List UInt8}
    (written : h.serialize = some bytes) : bytes.length % 2 ^ 32 = h.getSerializedSize := by
  unfold getSerializedSize
  cases wellFormed with
  | @single len info single lens one length start =>
    have is := (deserialize_single create single lens one length start).1
    have lenOf : h.lenOf 0 = len := by
      unfold CtrlBAckResponseHeader.lenOf
      rw [lens]
      rfl
    have count : bytes.length = 2 + (2 + h.lenOf 0) := by
      rw [← Option.some.inj (is.symm.trans written), lenOf, ← length]
      unfold writeHtolsbU16
      simp only [length_append, length_cons, length_nil]
      omega
    rw [count]
    generalize h.variant = variant at single
    cases single <;> rfl
  | multiSta variant entries =>
    obtain ⟨-, -, sendable, size⟩ := received_all entries
    have is := (deserialize_multiSta create variant entries.length_eq.symm sendable).1
    rw [← Option.some.inj (is.symm.trans written), length_append, size, variant]
    rfl

/-- **A response comes back whole**, but for the reserved bytes of AID 2045, which are counted and
not kept. -/
theorem response_restored (wellFormed : h.WellFormed) (blank : CtrlBAckResponseHeader) :
    ∃ bytes, h.serialize = some bytes ∧ bytes.length % 2 ^ 32 = h.getSerializedSize ∧
      blank.deserialize bytes = some { h with
        tidInfo := if h.variant = .multiSta then blank.tidInfo else h.tidInfo
        baInfo := h.baInfo.map withoutReserved } := by
  obtain ⟨bytes, written, read⟩ := wellFormed.sent.deserialize blank
  rw [wellFormed.restored] at read
  exact ⟨bytes, written, wellFormed.size written, read⟩

/-- Subfields of the three kinds. -/
def threeSubfields : CtrlBAckResponseHeader :=
  { create.setType .multiSta [0, 4, 8] with
    baInfo := [
      { BaInfoInstance.create 0 with aidTidInfo := 100 ||| 1 <<< 11 ||| 1 <<< 12 },
      { BaInfoInstance.create 4 with
        aidTidInfo := 200 ||| 2 <<< 12, startingSeq := 1000, bitmap := [0x55, 0xaa, 0x00, 0xff] },
      { BaInfoInstance.create 8 with
        aidTidInfo := 2045 ||| 15 <<< 12, ra := #v[0, 0, 0, 0, 0, 1] }] }

theorem threeSubfields_wellFormed : threeSubfields.WellFormed :=
  .multiSta rfl (.cons ⟨by decide, .ack (by decide) (.inl rfl) rfl rfl rfl rfl⟩
    (.cons ⟨by decide, .blockAck ⟨by decide, rfl, by decide, .inl rfl⟩ rfl (by decide) rfl⟩
      (.cons ⟨by decide, .unassociated (by decide) rfl rfl⟩ .nil)))

theorem threeSubfields_restored : ∃ bytes, threeSubfields.serialize = some bytes ∧
    bytes.length % 2 ^ 32 = threeSubfields.getSerializedSize ∧
    create.deserialize bytes = some { threeSubfields with
      tidInfo := if threeSubfields.variant = .multiSta then create.tidInfo
        else threeSubfields.tidInfo
      baInfo := threeSubfields.baInfo.map withoutReserved } :=
  response_restored threeSubfields_wellFormed create

/-- The reserved bytes of AID 2045 are not there any more. -/
theorem reserved_dropped : threeSubfields.WellFormed ∧
    (threeSubfields.info 2).bitmap = List.replicate 8 0 ∧
    ∃ bytes back, threeSubfields.serialize = some bytes ∧
      create.deserialize bytes = some back ∧ (back.info 2).bitmap = [] :=
  ⟨threeSubfields_wellFormed, rfl, _, _, rfl, rfl, rfl⟩

end Ns3.Wifi.CtrlBAckResponseHeader
