import Mathlib
import Ns3.Library.Circular
import Ns3.Wifi.CtrlBAckResponseHeader

/-!
# Block Ack bitmaps

What is filled in, and what of a response is read back.
-/

namespace Ns3.Wifi.CtrlBAckResponseHeader

open List Option Nat BaInfoInstance CtrlBAckResponseHeader

/-! ## Bits -/

theorem and_bitMask (byte : UInt8) (i : Nat) :
    (byte &&& bitMask i ≠ 0) ↔ byte.toNat.testBit (i % 8) = true := by
  have masks : ∀ k < 8, (1 <<< UInt8.ofNat k : UInt8).toNat = 2 ^ k := by decide
  have mask := masks (i % 8) (mod_lt _ (by decide))
  rw [← not_iff_not, not_not, ← UInt8.toNat_inj, UInt8.toNat_and, bitMask, mask,
    and_two_pow, UInt8.toNat_zero]
  cases byte.toNat.testBit (i % 8) <;> simp

theorem or_bitMask (byte : UInt8) (i j : Nat) :
    ((byte ||| bitMask i) &&& bitMask j ≠ 0) ↔ i % 8 = j % 8 ∨ byte &&& bitMask j ≠ 0 := by
  have masks : ∀ k < 8, (1 <<< UInt8.ofNat k : UInt8).toNat = 2 ^ k := by decide
  have mask := masks (i % 8) (mod_lt _ (by decide))
  rw [and_bitMask, and_bitMask, UInt8.toNat_or, testBit_or, bitMask, mask, testBit_two_pow]
  simp [or_comm]

variable {i seq start bitmapLen len : Nat} {info : BaInfoInstance}

theorem hasBit_setBit {bitmap : List UInt8} (inside : i < bitmap.length * 8) (j : Nat) :
    hasBit (setBit bitmap i) j = (decide (i = j) || hasBit bitmap j) := by
  unfold hasBit setBit
  rw [getD_eq_getElem?_getD, getD_eq_getElem?_getD, getElem?_modify]
  by_cases same : i / 8 = j / 8
  · have here : i / 8 < bitmap.length := by omega
    rw [← same, getElem?_eq_getElem here]
    simp only [if_true, Option.map_eq_map, map_some, getD_some]
    have split : i = j ↔ i % 8 = j % 8 := by omega
    simp [decide_eq_decide.mpr (or_bitMask _ i j), decide_eq_decide.mpr split]
  · have other : i ≠ j := fun is => same (is ▸ rfl)
    simp [same, other]

@[simp]
theorem length_setBit (bitmap : List UInt8) (i : Nat) :
    (setBit bitmap i).length = bitmap.length := length_modify ..

theorem hasBit_replicate (n i : Nat) : hasBit (List.replicate n 0) i = false := by
  unfold hasBit
  rw [getD_eq_getElem?_getD, getElem?_replicate]
  split <;> simp

/-! ## Filling -/

variable {h h' : CtrlBAckResponseHeader} {index : Nat}

/-- A bitmap can be filled at an index. -/
structure Fillable (h : CtrlBAckResponseHeader) (index : Nat) : Prop where
  variant : h.variant = .compressed ∨ h.variant = .extendedCompressed ∨ h.variant = .multiSta
  inRange : h.inRange index = true

theorem Fillable.lt (fillable : Fillable h index) : index < h.baInfo.length := by
  have := fillable.inRange
  exact of_decide_eq_true (Bool.and_eq_true_iff.mp this).2

theorem Fillable.setInfo (fillable : Fillable h index) (info : BaInfoInstance) :
    Fillable (h.setInfo index info) index := by
  refine ⟨fillable.variant, ?_⟩
  have := fillable.inRange
  unfold CtrlBAckResponseHeader.inRange CtrlBAckResponseHeader.setInfo at *
  rwa [length_set]

theorem info_setInfo (inside : index < h.baInfo.length) (info : BaInfoInstance) :
    (h.setInfo index info).info index = info := by
  unfold CtrlBAckResponseHeader.info CtrlBAckResponseHeader.setInfo
  simp [getElem?_set_self inside]

theorem setInfo_setInfo (info info' : BaInfoInstance) :
    (h.setInfo index info).setInfo index info' = h.setInfo index info' := by
  unfold setInfo
  rw [set_set]

theorem Fillable.nAckedMpdus (fillable : Fillable h index) :
    h.nAckedMpdus index = h.lenOf index * 8 := by
  unfold CtrlBAckResponseHeader.nAckedMpdus
  rw [if_neg]
  intro basic
  have := fillable.variant
  rw [basic] at this
  simp at this

theorem isInBitmap_eq (fillable : Fillable h index) (start : (h.info index).startingSeq < 4096) :
    h.isInBitmap seq index =
      decide (getDistance seq (h.info index).startingSeq < h.lenOf index * 8) := by
  unfold isInBitmap
  rw [relative_eq _ start, getDistance_eq _ start, fillable.nAckedMpdus]
  apply decide_eq_decide.mpr
  omega

theorem indexInBitmap_eq (start : (h.info index).startingSeq < 4096) (inSpace : seq < 4096) :
    h.indexInBitmap seq index = getDistance seq (h.info index).startingSeq := by
  unfold indexInBitmap
  rw [getDistance_eq _ start]
  split <;> omega

theorem setReceivedPacket_eq (fillable : Fillable h index)
    (start : (h.info index).startingSeq < 4096) (inSpace : seq < 4096) :
    h.setReceivedPacket seq index =
      some (if getDistance seq (h.info index).startingSeq < h.lenOf index * 8 then
        h.setInfo index { h.info index with
          bitmap := setBit (h.info index).bitmap (getDistance seq (h.info index).startingSeq) }
      else h) := by
  unfold setReceivedPacket
  rw [fillable.inRange, isInBitmap_eq fillable start]
  by_cases inside : getDistance seq (h.info index).startingSeq < h.lenOf index * 8
  · simp only [inside, decide_true, Bool.not_true, Bool.false_eq_true, if_false, if_true]
    rw [indexInBitmap_eq start inSpace]
    obtain is | is | is := fillable.variant <;> rw [is]
  · simp [inside]

theorem isPacketReceived_eq (fillable : Fillable h index)
    (not_all : ¬ (h.variant = .multiSta ∧ (h.info index).ackType = true))
    (start : (h.info index).startingSeq < 4096) (inSpace : seq < 4096) :
    h.isPacketReceived seq index =
      some (decide (getDistance seq (h.info index).startingSeq < h.lenOf index * 8) &&
        hasBit (h.info index).bitmap (getDistance seq (h.info index).startingSeq)) := by
  unfold isPacketReceived
  rw [fillable.inRange, isInBitmap_eq fillable start, indexInBitmap_eq start inSpace]
  have context : ¬ (h.variant = .multiSta ∧ (h.info index).ackType = true ∧
      (h.info index).tidInfo = 14) := fun all => not_all ⟨all.1, all.2.1⟩
  simp only [if_neg context]
  by_cases inside : getDistance seq (h.info index).startingSeq < h.lenOf index * 8
  · simp only [inside, decide_true, Bool.not_true, Bool.false_eq_true, if_false, Bool.true_and]
    obtain is | is | is := fillable.variant <;> rw [is]
  · simp [inside]

/-- The bits of a window up to a distance. -/
def Filled (w : BlockAckWindow) (count : Nat) (h filled : CtrlBAckResponseHeader) (index : Nat) :
    Prop :=
  ∃ bitmap, filled = h.setInfo index { h.info index with startingSeq := w.winStart, bitmap } ∧
    bitmap.length = h.lenOf index ∧
    ∀ i < h.lenOf index * 8, hasBit bitmap i = (decide (i < count) && w.bitAt i)

theorem distance_add (inSpace : start < 4096) (near : i < 4096) :
    getDistance ((start + i) % 4096) start = i := by
  have is := Circular.offset_add start near
  rw [mod_eq_of_lt inSpace] at is
  rw [getDistance_eq _ inSpace]
  exact is

theorem Filled.next {w : BlockAckWindow} {count : Nat} {filled : CtrlBAckResponseHeader}
    (done : Filled w count h filled index) (fillable : Fillable h index)
    (start : w.winStart < 4096) (near : count < 4096) :
    ∃ filled', (if w.bitAt count then filled.setReceivedPacket ((w.winStart + count) % 4096) index
      else some filled) = some filled' ∧ Filled w (count + 1) h filled' index := by
  obtain ⟨bitmap, rfl, length, bits⟩ := done
  have more : ∀ i, i ≠ count → decide (i < count + 1) = decide (i < count) := by
    intro i other
    apply decide_eq_decide.mpr
    omega
  by_cases here : w.bitAt count = true
  · rw [if_pos here]
    generalize filledInfo : ({ h.info index with startingSeq := w.winStart, bitmap } :
      BaInfoInstance) = info
    have info_start : info.startingSeq = w.winStart := by rw [← filledInfo]
    have info_bitmap : info.bitmap = bitmap := by rw [← filledInfo]
    have is := info_setInfo fillable.lt info
    have inSpace : (w.winStart + count) % 4096 < 4096 := mod_lt _ (by decide)
    have lenOf : (h.setInfo index info).lenOf index = h.lenOf index := rfl
    rw [setReceivedPacket_eq (fillable.setInfo info) (by rwa [is, info_start]) inSpace, is,
      info_start, info_bitmap, distance_add start near, lenOf, setInfo_setInfo]
    refine ⟨_, rfl, ?_⟩
    by_cases room : count < h.lenOf index * 8
    · rw [if_pos room]
      refine ⟨setBit bitmap count, ?_, ?_, ?_⟩
      · rw [← filledInfo]
      · rw [length_setBit, length]
      · intro i inside
        rw [hasBit_setBit (by rwa [length]), bits i inside]
        by_cases same : count = i
        · rw [← same, here]
          simp
        · rw [more i (Ne.symm same), decide_eq_false same, Bool.false_or]
    · rw [if_neg room]
      refine ⟨bitmap, ?_, length, ?_⟩
      · rw [← filledInfo]
      · intro i inside
        rw [bits i inside, more i (by omega)]
  · rw [if_neg here]
    refine ⟨_, rfl, bitmap, rfl, length, ?_⟩
    intro i inside
    rw [bits i inside]
    by_cases same : i = count
    · rw [same, Bool.eq_false_iff.mpr here]
      simp
    · rw [more i same]

theorem fold_filled {w : BlockAckWindow} (fillable : Fillable h index) (start : w.winStart < 4096)
    (more : Nat) {count : Nat} {filled : CtrlBAckResponseHeader}
    (near : count + more ≤ 4096) (done : Filled w count h filled index) :
    ∃ filled', (List.range' count more).foldlM (fun h i =>
        if w.bitAt i then h.setReceivedPacket ((w.winStart + i) % 4096) index else some h)
          filled = some filled' ∧ Filled w (count + more) h filled' index := by
  induction more generalizing count filled with
  | zero => exact ⟨filled, rfl, done⟩
  | succ more ih =>
    obtain ⟨next, is, done'⟩ := done.next fillable start (by omega)
    obtain ⟨filled', rest, done''⟩ := ih (by omega) done'
    refine ⟨filled', ?_, ?_⟩
    · rw [range'_succ, foldlM_cons, is]
      exact rest
    · rwa [Nat.add_right_comm] at done''

/-- **A filled bitmap** has the bits of the scoreboard, as far as there is room. -/
theorem fillBlockAckBitmap_spec {Body : Type} {s : RecipientBlockAckAgreement Body}
    (fillable : Fillable h index) (valid : s.scoreboard.Valid)
    (near : s.scoreboard.winSize ≤ 4096) :
    ∃ bitmap, s.fillBlockAckBitmap h index = some (h.setInfo index
          { h.info index with startingSeq := s.scoreboard.winStart, bitmap }) ∧
      bitmap.length = h.lenOf index ∧
      ∀ i < h.lenOf index * 8, hasBit bitmap i = s.scoreboard.bits i := by
  have reset : Filled s.scoreboard 0 h (h.setInfo index { h.info index with
      startingSeq := s.scoreboard.winStart
      bitmap := List.replicate (h.lenOf index) 0 }) index := by
    refine ⟨_, rfl, length_replicate, ?_⟩
    intro i inside
    simp [hasBit_replicate]
  obtain ⟨filled, is, bitmap, rfl, length, bits⟩ :=
    fold_filled fillable valid.winStart s.scoreboard.winSize (by omega) reset
  refine ⟨bitmap, ?_, length, ?_⟩
  · have fatal : ¬ (h.variant = .basic ∨ h.variant = .multiTid) := by
      obtain is | is | is := fillable.variant <;> rw [is] <;> simp
    have start_set : h.setStartingSequence s.scoreboard.winStart index =
        some (h.setInfo index { h.info index with startingSeq := s.scoreboard.winStart }) :=
      if_pos fillable.inRange
    rw [← range_eq_range'] at is
    unfold RecipientBlockAckAgreement.fillBlockAckBitmap
    simp only [if_neg fatal, start_set, bind_eq_bind, bind_some]
    rw [resetBitmap, if_pos (fillable.setInfo _).inRange, info_setInfo fillable.lt, setInfo_setInfo]
    exact is
  · intro i inside
    rw [bits i inside, zero_add]
    rfl

/-! ## Control fields -/

theorem startingSequenceControl_eq (variant : BlockAckVariant) (bitmapLen : Nat)
    (start : info.startingSeq < 4096) :
    startingSequenceControl variant bitmapLen info =
        info.startingSeq * 16 + fragmentNumber variant bitmapLen ∧
      fragmentNumber variant bitmapLen < 16 := by
  have fragment : fragmentNumber variant bitmapLen < 2 ^ 4 := by
    unfold fragmentNumber
    split <;> repeat' split
    all_goals decide
  have masked : (info.startingSeq <<< 4) &&& 0xfff0 = info.startingSeq <<< 4 := by
    have mask : info.startingSeq &&& 2 ^ 12 - 1 = info.startingSeq :=
      and_two_pow_sub_one_of_lt_two_pow start
    calc (info.startingSeq <<< 4) &&& 0xfff0
        = (info.startingSeq <<< 4) &&& ((2 ^ 12 - 1) <<< 4) := rfl
      _ = (info.startingSeq &&& 2 ^ 12 - 1) <<< 4 := shiftLeft_and_distrib.symm
      _ = info.startingSeq <<< 4 := by rw [mask]
  refine ⟨?_, fragment⟩
  unfold startingSequenceControl
  rw [masked, ← shiftLeft_add_eq_or_of_lt fragment, shiftLeft_eq]

theorem startingSeq_of_control {fragment : Nat} (small : start < 4096) (low : fragment < 16) :
    ((start * 16 + fragment) >>> 4) &&& 0x0fff = start := by
  rw [shiftRight_eq_div_pow]
  have : start * 16 + fragment < 2 ^ 16 := by omega
  have divided : (start * 16 + fragment) / 2 ^ 4 = start := by omega
  rw [divided]
  exact and_two_pow_sub_one_of_lt_two_pow (n := 12) small

theorem lenOfControl_eq (variant : BlockAckVariant) (start fragment : Nat) :
    lenOfControl variant (start * 16 + fragment) = lenOfControl variant fragment := by
  have bit0 : (start * 16 + fragment) &&& 0x0001 = fragment &&& 0x0001 := by
    rw [and_one_is_mod, and_one_is_mod]
    omega
  have bit3 : ((start * 16 + fragment) >>> 3) &&& 0x0001 = (fragment >>> 3) &&& 0x0001 := by
    rw [and_one_is_mod, and_one_is_mod, shiftRight_eq_div_pow, shiftRight_eq_div_pow]
    omega
  have bits12 : ((start * 16 + fragment) >>> 1) &&& 0x0003 = (fragment >>> 1) &&& 0x0003 := by
    have mask : ∀ n : Nat, n &&& 0x0003 = n % 4 := fun n => and_two_pow_sub_one_eq_mod n 2
    rw [mask, mask, shiftRight_eq_div_pow, shiftRight_eq_div_pow]
    omega
  unfold lenOfControl
  rw [bit0, bit3, bits12]

theorem readLsbtohU16_writeHtolsbU16 {n : Nat} (small : n < 2 ^ 16) (rest : List UInt8) :
    readLsbtohU16 (writeHtolsbU16 n ++ rest) = some (n, rest) := by
  unfold writeHtolsbU16
  simp only [cons_append, readLsbtohU16, UInt8.toNat_ofNat']
  congr 2
  omega

theorem readBytes_append (bytes rest : List UInt8) :
    readBytes bytes.length (bytes ++ rest) = some (bytes, rest) := by
  unfold readBytes
  rw [if_pos (by rw [length_append]; omega), take_left, drop_left]

theorem getBaControl_eq (h : CtrlBAckResponseHeader) :
    h.getBaControl = (if h.baAckPolicy then 1 else 0) + 2 * variantCode h.variant +
      4096 * if h.variant ≠ .multiSta then h.tidInfo % 16 else 0 := by
  have mask : ∀ n : Nat, (n <<< 12) &&& 0xf000 = (n % 16) <<< 12 := by
    intro n
    calc (n <<< 12) &&& 0xf000
        = (n <<< 12) &&& ((2 ^ 4 - 1) <<< 12) := rfl
      _ = (n &&& 2 ^ 4 - 1) <<< 12 := shiftLeft_and_distrib.symm
      _ = (n % 16) <<< 12 := by rw [and_two_pow_sub_one_eq_mod]
  have code : variantCode h.variant < 16 := by cases h.variant <;> decide
  have parts : ∀ low < 2, ∀ tid, (low ||| variantCode h.variant <<< 1) ||| tid <<< 12 =
      low + 2 * variantCode h.variant + 4096 * tid := by
    intro low small tid
    have first : low ||| variantCode h.variant <<< 1 = variantCode h.variant <<< 1 + low := by
      rw [Nat.or_comm, shiftLeft_add_eq_or_of_lt small]
    have fits : variantCode h.variant <<< 1 + low < 2 ^ 12 := by
      rw [shiftLeft_eq]
      omega
    rw [first, Nat.or_comm, ← shiftLeft_add_eq_or_of_lt fits, shiftLeft_eq, shiftLeft_eq]
    omega
  unfold getBaControl
  rw [← parts _ (by split <;> decide)]
  congr 1
  split
  · exact mask _
  · rfl

/-- The lengths of the bitmaps of a type that is set with its variant alone. -/
def defaultLens : BlockAckVariant → List Nat
  | .basic => [128]
  | .compressed | .extendedCompressed => [8]
  | .multiTid | .multiSta => []

theorem setBaControl_getBaControl (h blank : CtrlBAckResponseHeader) : h.getBaControl < 2 ^ 16 ∧
      blank.setBaControl h.getBaControl = some { blank.setType h.variant (defaultLens h.variant) with
        baAckPolicy := h.baAckPolicy
        tidInfo := if h.variant = .multiSta then blank.tidInfo else h.tidInfo % 16 } := by
  have is := getBaControl_eq h
  generalize h.getBaControl = ba at is ⊢
  have code_small : variantCode h.variant < 16 := by cases h.variant <;> decide
  have low_small : (if h.baAckPolicy then 1 else 0) < 2 := by split <;> decide
  have tid_small : (if h.variant ≠ .multiSta then h.tidInfo % 16 else 0) < 16 := by split <;> omega
  have mask : ∀ n : Nat, n &&& 0x0f = n % 16 := fun n => and_two_pow_sub_one_eq_mod n 4
  have code : (ba >>> 1) &&& 0x0f = variantCode h.variant := by
    rw [mask, shiftRight_eq_div_pow, is]
    omega
  have policy : decide (ba &&& 0x01 = 1) = h.baAckPolicy := by
    have low : ba &&& 0x01 = if h.baAckPolicy then 1 else 0 := by
      rw [and_one_is_mod, is]
      omega
    rw [low]
    cases h.baAckPolicy <;> rfl
  have tid : (ba >>> 12) &&& 0x0f = if h.variant ≠ .multiSta then h.tidInfo % 16 else 0 := by
    rw [mask, shiftRight_eq_div_pow, is]
    omega
  refine ⟨by omega, ?_⟩
  unfold setBaControl
  rw [code, policy, tid]
  cases h.variant <;> rfl

/-! ## Round trip -/

/-- A Per AID TID Info subfield with a bitmap. -/
structure BlockAckContext (bitmapLen : Nat) (info : BaInfoInstance) : Prop where
  aid11 : info.aid11 ≠ 2045
  ackType : info.ackType = false
  tidInfo : info.tidInfo < 8
  bitmapLen : bitmapLen = 4 ∨ bitmapLen = 8 ∨ bitmapLen = 16 ∨ bitmapLen = 32

/-- The three kinds of a Per AID TID Info subfield. -/
inductive Sendable (bitmapLen : Nat) (info : BaInfoInstance) : Prop where
  | blockAck (context : BlockAckContext bitmapLen info) (length : info.bitmap.length = bitmapLen)
      (start : info.startingSeq < 4096)
  | ack (aid11 : info.aid11 ≠ 2045) (context : info.ackType = true ∨ 8 ≤ info.tidInfo)
      (bitmap : info.bitmap = [])
  | unassociated (aid11 : info.aid11 = 2045)

theorem BlockAckContext.congr {info' : BaInfoInstance} (context : BlockAckContext bitmapLen info)
    (same : info'.aidTidInfo = info.aidTidInfo) :
    BlockAckContext bitmapLen info' := by
  obtain ⟨aidTidInfo, startingSeq, bitmap, ra⟩ := info'
  cases same
  exact ⟨context.aid11, context.ackType, context.tidInfo, context.bitmapLen⟩

/-- What the reader has of a subfield, and the length that it takes its bitmap to have. Where there
is no bitmap there is no starting sequence number either, and an address is there for AID 2045. -/
def received (bitmapLen : Nat) (info : BaInfoInstance) : Nat × BaInfoInstance :=
  if info.aid11 ≠ 2045 then
    if info.bitmap = [] then (0, { info with startingSeq := 0, ra := Vector.replicate 6 0 })
    else (bitmapLen, { info with ra := Vector.replicate 6 0 })
  else (8, { info with startingSeq := 0, bitmap := [] })

theorem BlockAckContext.nonempty (context : BlockAckContext bitmapLen info)
    (length : info.bitmap.length = bitmapLen) :
    info.bitmap ≠ [] := by
  intro empty
  rw [empty] at length
  have := context.bitmapLen
  simp at length
  omega

theorem BlockAckContext.received (context : BlockAckContext bitmapLen info)
    (length : info.bitmap.length = bitmapLen) :
    received bitmapLen info = (bitmapLen, { info with ra := Vector.replicate 6 0 }) := by
  unfold CtrlBAckResponseHeader.received
  rw [if_pos context.aid11, if_neg (context.nonempty length)]

theorem deserializeInfo_serializeInfo (fits : info.aidTidInfo < 2 ^ 16)
    (sendable : Sendable bitmapLen info) (rest : List UInt8) :
    deserializeInfo (serializeInfo bitmapLen info ++ rest) =
      some (received bitmapLen info, rest) := by
  have same_aid : ({ create 0 with aidTidInfo := info.aidTidInfo } :
    BaInfoInstance).aid11 = info.aid11 := rfl
  have same_ack : ({ create 0 with aidTidInfo := info.aidTidInfo } :
    BaInfoInstance).ackType = info.ackType := rfl
  have same_tid : ({ create 0 with aidTidInfo := info.aidTidInfo } :
    BaInfoInstance).tidInfo = info.tidInfo := rfl
  unfold deserializeInfo serializeInfo
  rw [append_assoc, readLsbtohU16_writeHtolsbU16 fits]
  simp only [bind_eq_bind, bind_some, same_aid, same_ack, same_tid]
  cases sendable with
  | blockAck context length start =>
    obtain ⟨control, low⟩ := startingSequenceControl_eq .multiSta bitmapLen start
    have nonempty := context.nonempty length
    have len : lenOfControl .multiSta (fragmentNumber .multiSta bitmapLen) = some bitmapLen := by
      obtain rfl | rfl | rfl | rfl := context.bitmapLen <;> rfl
    have small : startingSequenceControl .multiSta bitmapLen info < 2 ^ 16 := by omega
    have read := readBytes_append info.bitmap rest
    rw [length] at read
    have back_start := startingSeq_of_control start low
    rw [← control] at back_start
    have back_len := lenOfControl_eq .multiSta info.startingSeq (fragmentNumber .multiSta bitmapLen)
    rw [← control, len] at back_len
    have block : (!info.ackType) = true ∧ info.tidInfo < 8 := by
      rw [context.ackType]
      exact ⟨rfl, context.tidInfo⟩
    rw [context.received length, if_pos context.aid11, if_pos context.aid11, if_neg nonempty,
      if_pos block, append_assoc, readLsbtohU16_writeHtolsbU16 small]
    simp only [bind_some, back_len, read, back_start]
    rfl
  | ack aid11 context bitmap =>
    have block : ¬ ((!info.ackType) = true ∧ info.tidInfo < 8) := by
      rintro ⟨not_ack, low⟩
      cases context with
      | inl ack =>
        rw [ack] at not_ack
        cases not_ack
      | inr high => omega
    unfold received
    rw [if_pos aid11, if_pos aid11, if_pos aid11, if_pos bitmap, if_pos bitmap, if_neg block,
      bitmap]
    rfl
  | unassociated aid11 =>
    have other : ¬ info.aid11 ≠ 2045 := fun ne => ne aid11
    have zeros : readBytes 4 ([0, 0, 0, 0] ++ (info.ra.toList ++ rest)) =
      some ([0, 0, 0, 0], info.ra.toList ++ rest) := readBytes_append [0, 0, 0, 0] _
    have address := readBytes_append info.ra.toList rest
    rw [Vector.length_toList] at address
    have same_ra : (Vector.ofFn fun i : Fin 6 => info.ra.toList.getD i 0) = info.ra := by
      apply Vector.ext
      intro i inside
      simp [inside]
    unfold received
    rw [if_neg other, if_neg other, if_neg other, append_assoc]
    simp only [zeros, bind_some, address]
    rw [same_ra]
    rfl

theorem deserializeInfos_serializeInfos {lens : List Nat} {infos : List BaInfoInstance}
    (same : infos.length = lens.length)
    (sendable : ∀ p ∈ lens.zip infos, p.2.aidTidInfo < 2 ^ 16 ∧ Sendable p.1 p.2)
    {rounds : Nat} (enough : infos.length ≤ rounds) :
    deserializeInfos rounds (List.zipWith serializeInfo lens infos).flatten =
      some (List.zipWith received lens infos) := by
  induction lens generalizing infos rounds with
  | nil =>
    cases infos with
    | nil => cases rounds <;> rfl
    | cons _ _ => cases same
  | cons len lens ih =>
    cases infos with
    | nil => cases same
    | cons info infos =>
      obtain ⟨rounds, rfl⟩ := Nat.exists_eq_add_of_le' (le_trans (Nat.le_add_left 1 _) enough)
      obtain ⟨fits, sends⟩ := sendable (len, info) mem_cons_self
      have is := deserializeInfo_serializeInfo fits sends
        (List.zipWith serializeInfo lens infos).flatten
      have rest := ih (Nat.succ.inj same) (fun p mem => sendable p (mem_cons_of_mem _ mem))
        (le_of_succ_le_succ enough)
      rw [zipWith_cons_cons, flatten_cons, zipWith_cons_cons]
      cases bytes : serializeInfo len info ++ (List.zipWith serializeInfo lens infos).flatten with
      | nil =>
        cases bytes
      | cons b bs =>
        rw [bytes] at is
        unfold deserializeInfos
        simp only [is, rest, bind_eq_bind, bind_some]
        rfl

/-- The types with one info, with the length of its bitmap. -/
inductive Single : BlockAckVariant → Nat → Prop where
  | basic : Single .basic 128
  | compressed8 : Single .compressed 8
  | compressed32 : Single .compressed 32
  | extendedCompressed : Single .extendedCompressed 8

theorem setStartingSequenceControl_eq (blank : CtrlBAckResponseHeader) {variant : BlockAckVariant}
    (inSpace : start < 4096) (single : Single variant len) :
    (blank.setType variant (defaultLens variant)).setStartingSequenceControl
        (start * 16 + fragmentNumber variant len) =
      some { blank with
        variant
        bitmapLen := [len]
        baInfo := [{ create len with startingSeq := start }] } := by
  have low : fragmentNumber variant len < 16 := by cases single <;> decide
  have back := startingSeq_of_control inSpace low
  have len_is : variant = .compressed →
      lenOfControl .compressed (start * 16 + fragmentNumber variant len) = some len := by
    intro is
    rw [lenOfControl_eq]
    cases single <;> first | rfl | cases is
  unfold setStartingSequenceControl setTypeOf
  rw [back]
  cases single with
  | compressed8 | compressed32 =>
    rw [len_is rfl]
    rfl
  | basic | extendedCompressed => rfl

theorem getD_of_getElem? {α : Type} {xs : List α} {x : α} (found : xs[i]? = some x) (default : α) :
    xs.getD i default = x := by simp [found]

theorem length_serializeInfos {lens : List Nat} {infos : List BaInfoInstance}
    (same : infos.length = lens.length) :
    infos.length ≤ (List.zipWith serializeInfo lens infos).flatten.length := by
  induction lens generalizing infos with
  | nil =>
    rw [same]
    exact Nat.zero_le _
  | cons len lens ih =>
    cases infos with
    | nil => exact Nat.zero_le _
    | cons info infos =>
      have rest := ih (Nat.succ.inj same)
      have first : 1 ≤ (serializeInfo len info).length := by
        unfold serializeInfo writeHtolsbU16
        rw [length_append, length_cons]
        omega
      rw [zipWith_cons_cons, flatten_cons, length_append, length_cons]
      omega

/-- A response that can be sent. -/
inductive Sent (h : CtrlBAckResponseHeader) : Prop where
  | single {len : Nat} {info : BaInfoInstance} (single : Single h.variant len)
      (lens : h.bitmapLen = [len]) (one : h.baInfo = [info]) (length : info.bitmap.length = len)
      (start : info.startingSeq < 4096)
  | multiSta (variant : h.variant = .multiSta) (same : h.baInfo.length = h.bitmapLen.length)
      (sendable : ∀ p ∈ h.bitmapLen.zip h.baInfo, p.2.aidTidInfo < 2 ^ 16 ∧ Sendable p.1 p.2)

/-- What the reader has of a response. -/
def restored (h blank : CtrlBAckResponseHeader) : CtrlBAckResponseHeader :=
  if h.variant = .multiSta then
    { h with
      bitmapLen := (List.zipWith received h.bitmapLen h.baInfo).map Prod.fst
      tidInfo := blank.tidInfo
      baInfo := (List.zipWith received h.bitmapLen h.baInfo).map Prod.snd }
  else
    { h with
      tidInfo := h.tidInfo % 16
      baInfo := h.baInfo.map fun info =>
        { info with aidTidInfo := 0, ra := Vector.replicate 6 0 } }

theorem Single.not_multiSta {variant : BlockAckVariant} (single : Single variant len) :
    variant ≠ .multiSta := by
  rintro rfl
  cases single

theorem deserialize_single (blank : CtrlBAckResponseHeader) (single : Single h.variant len)
    (lens : h.bitmapLen = [len]) (one : h.baInfo = [info]) (length : info.bitmap.length = len)
    (start : info.startingSeq < 4096) :
    h.serialize = some (writeHtolsbU16 h.getBaControl ++
        writeHtolsbU16 (startingSequenceControl h.variant len info) ++ info.bitmap) ∧
      blank.deserialize (writeHtolsbU16 h.getBaControl ++
        writeHtolsbU16 (startingSequenceControl h.variant len info) ++ info.bitmap) =
          some (h.restored blank) := by
  obtain ⟨small, set⟩ := setBaControl_getBaControl h blank
  obtain ⟨control, low⟩ := startingSequenceControl_eq h.variant len start
  unfold restored
  rw [if_neg single.not_multiSta] at set ⊢
  have read := setStartingSequenceControl_eq
    { blank with baAckPolicy := h.baAckPolicy, tidInfo := h.tidInfo % 16 } start single
  have bytes := readBytes_append info.bitmap []
  rw [append_nil, length] at bytes
  constructor
  · obtain ⟨baAckPolicy, variant, bitmapLen, tidInfo, baInfo⟩ := h
    dsimp only at *
    subst lens one
    cases single <;> rfl
  · generalize h.getBaControl = ba at small set ⊢
    obtain ⟨baAckPolicy, variant, bitmapLen, tidInfo, baInfo⟩ := h
    dsimp only at *
    subst lens one
    unfold deserialize
    rw [append_assoc, readLsbtohU16_writeHtolsbU16 small]
    simp only [bind_eq_bind, bind_some, set, map_cons, map_nil]
    have parsed : (do
        let seqControl ← readLsbtohU16
          (writeHtolsbU16 (startingSequenceControl variant len info) ++ info.bitmap)
        let h ← ({ blank.setType variant (defaultLens variant) with
          baAckPolicy, tidInfo := tidInfo % 16 } :
            CtrlBAckResponseHeader).setStartingSequenceControl seqControl.1
        let bitmap ← readBytes (h.lenOf 0) seqControl.2
        return h.setInfo 0 { h.info 0 with bitmap := bitmap.1 }) =
      some { baAckPolicy, variant, bitmapLen := [len], tidInfo := tidInfo % 16,
             baInfo := [{ info with aidTidInfo := 0, ra := Vector.replicate 6 0 }] } := by
      have type_set : ({ blank.setType variant (defaultLens variant) with
          baAckPolicy, tidInfo := tidInfo % 16 } : CtrlBAckResponseHeader) =
        ({ blank with baAckPolicy, tidInfo := tidInfo % 16 } : CtrlBAckResponseHeader).setType
          variant (defaultLens variant) := rfl
      have len_is : ({ blank with
          baAckPolicy, variant, bitmapLen := [len], tidInfo := tidInfo % 16
          baInfo := [{ create len with startingSeq := info.startingSeq }] } :
            CtrlBAckResponseHeader).lenOf 0 = len := rfl
      rw [readLsbtohU16_writeHtolsbU16 (by omega), control, type_set]
      simp only [bind_eq_bind, bind_some, read, len_is, bytes]
      rfl
    cases single <;> exact parsed

theorem deserialize_multiSta (blank : CtrlBAckResponseHeader) (variant : h.variant = .multiSta)
    (same : h.baInfo.length = h.bitmapLen.length)
    (sendable : ∀ p ∈ h.bitmapLen.zip h.baInfo, p.2.aidTidInfo < 2 ^ 16 ∧ Sendable p.1 p.2) :
    h.serialize = some (writeHtolsbU16 h.getBaControl ++
        (List.zipWith serializeInfo h.bitmapLen h.baInfo).flatten) ∧
      blank.deserialize (writeHtolsbU16 h.getBaControl ++
        (List.zipWith serializeInfo h.bitmapLen h.baInfo).flatten) = some (h.restored blank) := by
  obtain ⟨small, set⟩ := setBaControl_getBaControl h blank
  unfold restored
  rw [if_pos variant] at set ⊢
  have read := deserializeInfos_serializeInfos same sendable (length_serializeInfos same)
  constructor
  · obtain ⟨baAckPolicy, _, bitmapLen, tidInfo, baInfo⟩ := h
    cases variant
    exact if_pos same
  · generalize h.getBaControl = ba at small set ⊢
    obtain ⟨baAckPolicy, _, bitmapLen, tidInfo, baInfo⟩ := h
    cases variant
    unfold deserialize
    rw [readLsbtohU16_writeHtolsbU16 small]
    simp only [bind_eq_bind, bind_some, set, read]
    rfl

/-- **A response is read back**, whatever the reader held before. -/
theorem Sent.deserialize (sent : Sent h) (blank : CtrlBAckResponseHeader) :
    ∃ bytes, h.serialize = some bytes ∧ blank.deserialize bytes = some (h.restored blank) := by
  cases sent with
  | single single lens one length start =>
    exact ⟨_, deserialize_single blank single lens one length start⟩
  | multiSta variant same sendable =>
    exact ⟨_, deserialize_multiSta blank variant same sendable⟩

/-! ## Responses with a bitmap at an index -/

/-- A response that can be sent with a bitmap at an index. -/
inductive Response (h : CtrlBAckResponseHeader) (index : Nat) : Prop where
  | compressed (variant : h.variant = .compressed) (len : h.bitmapLen = [8] ∨ h.bitmapLen = [32])
      (one : h.baInfo.length = 1) (first : index = 0)
  | extendedCompressed (variant : h.variant = .extendedCompressed) (len : h.bitmapLen = [8])
      (one : h.baInfo.length = 1) (first : index = 0)
  | multiSta (variant : h.variant = .multiSta) (same : h.baInfo.length = h.bitmapLen.length)
      (sendable : ∀ p ∈ h.bitmapLen.zip h.baInfo, p.2.aidTidInfo < 2 ^ 16 ∧ Sendable p.1 p.2)
      (inside : index < h.baInfo.length)
      (context : BlockAckContext (h.lenOf index) (h.info index))

theorem Response.fillable (response : Response h index) : Fillable h index := by
  cases response with
  | compressed variant _ one first =>
    refine ⟨.inl variant, ?_⟩
    unfold inRange
    simp [one, first]
  | extendedCompressed variant _ one first =>
    refine ⟨.inr (.inl variant), ?_⟩
    unfold inRange
    simp [one, first]
  | multiSta variant _ _ inside _ =>
    refine ⟨.inr (.inr variant), ?_⟩
    unfold inRange
    simp [variant, inside]

theorem Response.not_all (response : Response h index) :
    ¬ (h.variant = .multiSta ∧ (h.info index).ackType = true) := by
  rintro ⟨is, ack⟩
  cases response with
  | compressed variant => exact nomatch variant.symm.trans is
  | extendedCompressed variant => exact nomatch variant.symm.trans is
  | multiSta _ _ _ _ context => exact nomatch ack.symm.trans context.ackType

/-- Two responses say the same at an index. -/
structure Alike (h h' : CtrlBAckResponseHeader) (index : Nat) : Prop where
  fillable : Fillable h' index
  variant : h'.variant = h.variant
  lenOf : h'.lenOf index = h.lenOf index
  startingSeq : (h'.info index).startingSeq = (h.info index).startingSeq
  bitmap : (h'.info index).bitmap = (h.info index).bitmap
  aidTidInfo : h.variant = .multiSta → (h'.info index).aidTidInfo = (h.info index).aidTidInfo

theorem isPacketReceived_alike (fillable : Fillable h index) (alike : Alike h h' index)
    (not_all : ¬ (h.variant = .multiSta ∧ (h.info index).ackType = true))
    (start : (h.info index).startingSeq < 4096) (inSpace : seq < 4096) :
    h'.isPacketReceived seq index = h.isPacketReceived seq index := by
  have not_all' : ¬ (h'.variant = .multiSta ∧ (h'.info index).ackType = true) := by
    rintro ⟨multiSta, ack⟩
    rw [alike.variant] at multiSta
    unfold ackType at ack
    rw [alike.aidTidInfo multiSta] at ack
    exact not_all ⟨multiSta, ack⟩
  have start' : (h'.info index).startingSeq < 4096 := by
    rw [alike.startingSeq]
    exact start
  rw [isPacketReceived_eq fillable not_all start inSpace,
    isPacketReceived_eq alike.fillable not_all' start' inSpace, alike.lenOf, alike.startingSeq,
    alike.bitmap]

theorem Response.sent (response : Response h index) (inSpace : info.startingSeq < 4096)
    (length : info.bitmap.length = h.lenOf index)
    (same : info.aidTidInfo = (h.info index).aidTidInfo) : Sent (h.setInfo index info) := by
  have alone : h.baInfo.length = 1 → index = 0 → (h.setInfo index info).baInfo = [info] := by
    rintro one rfl
    obtain ⟨old, is⟩ := length_eq_one_iff.mp one
    unfold setInfo
    rw [is]
    rfl
  have len_of : ∀ len, h.bitmapLen = [len] → index = 0 → info.bitmap.length = len := by
    rintro len is rfl
    rw [length, lenOf, is]
    rfl
  cases response with
  | compressed variant len one first =>
    have is : (h.setInfo index info).variant = .compressed := variant
    cases len with
    | inl len =>
      exact .single (is ▸ .compressed8) len (alone one first) (len_of 8 len first) inSpace
    | inr len =>
      exact .single (is ▸ .compressed32) len (alone one first) (len_of 32 len first) inSpace
  | extendedCompressed variant len one first =>
    have is : (h.setInfo index info).variant = .extendedCompressed := variant
    exact .single (is ▸ .extendedCompressed) len (alone one first) (len_of 8 len first) inSpace
  | multiSta variant lengths sendable inside context =>
    refine .multiSta variant (length_set.trans lengths) ?_
    have same_lens : (h.setInfo index info).bitmapLen = h.bitmapLen := rfl
    rw [same_lens]
    intro p mem
    obtain ⟨i, found⟩ := mem_iff_getElem?.mp mem
    obtain ⟨len, at_i⟩ := getElem?_zip_eq_some.mp found
    unfold setInfo at at_i
    by_cases here : i = index
    · rw [here] at len at_i
      have len_at : h.lenOf index = p.1 := getD_of_getElem? len 0
      have old_at : h.baInfo[index]? = some (h.info index) := by
        unfold CtrlBAckResponseHeader.info
        simp [getElem?_eq_getElem inside]
      have old := sendable (p.1, h.info index)
        (mem_iff_getElem?.mpr ⟨index, getElem?_zip_eq_some.mpr ⟨len, old_at⟩⟩)
      rw [getElem?_set_self inside] at at_i
      rw [len_at] at length context
      rw [← Option.some.inj at_i]
      exact ⟨same ▸ old.1, .blockAck (context.congr same) length inSpace⟩
    · rw [getElem?_set_ne (Ne.symm here)] at at_i
      exact sendable p (mem_iff_getElem?.mpr ⟨i, getElem?_zip_eq_some.mpr ⟨len, at_i⟩⟩)

theorem Response.restored (response : Response h index)
    (length : info.bitmap.length = h.lenOf index)
    (same : info.aidTidInfo = (h.info index).aidTidInfo) (blank : CtrlBAckResponseHeader) :
    Alike (h.setInfo index info) ((h.setInfo index info).restored blank) index := by
  have filled := response.fillable.setInfo info
  have info_is := info_setInfo response.fillable.lt info
  have lenOf_is : (h.setInfo index info).lenOf index = h.lenOf index := rfl
  have info_at : (h.setInfo index info).baInfo[index]? = some info :=
    getElem?_set_self response.fillable.lt
  have one_info : (h.setInfo index info).variant ≠ .multiSta →
      Alike (h.setInfo index info) ((h.setInfo index info).restored blank) index := by
    intro single
    unfold CtrlBAckResponseHeader.restored
    rw [if_neg single]
    have back_at : ((h.setInfo index info).baInfo.map fun info =>
        ({ info with aidTidInfo := 0, ra := Vector.replicate 6 0 } : BaInfoInstance))[index]? =
          some { info with aidTidInfo := 0, ra := Vector.replicate 6 0 } := by simp [info_at]
    have back := getD_of_getElem? back_at (.create 0)
    refine ⟨⟨filled.variant, ?_⟩, rfl, rfl, ?_, ?_, fun multi => absurd multi single⟩
    · have := filled.inRange
      unfold inRange at this ⊢
      rwa [length_map]
    · rw [info_is]
      have same_start := congrArg startingSeq back
      exact same_start
    · rw [info_is]
      have same_bitmap := congrArg bitmap back
      exact same_bitmap
  cases response with
  | compressed variant => exact one_info fun multi => nomatch variant.symm.trans multi
  | extendedCompressed variant => exact one_info fun multi => nomatch variant.symm.trans multi
  | multiSta variant lengths sendable inside context =>
    have len_at : (h.setInfo index info).bitmapLen[index]? = some (h.lenOf index) := by
      have inside' : index < h.bitmapLen.length := lengths ▸ inside
      have same_lens : (h.setInfo index info).bitmapLen = h.bitmapLen := rfl
      simp [same_lens, lenOf, getElem?_eq_getElem inside']
    have back_at : (List.zipWith received (h.setInfo index info).bitmapLen
        (h.setInfo index info).baInfo)[index]? =
          some (h.lenOf index, { info with ra := Vector.replicate 6 0 }) := by
      rw [getElem?_zipWith, len_at, info_at]
      exact congrArg some ((context.congr same).received length)
    have multi : (h.setInfo index info).variant = .multiSta := variant
    have length_is : (List.zipWith received (h.setInfo index info).bitmapLen
        (h.setInfo index info).baInfo).length = h.baInfo.length := by
      have set_length : (h.setInfo index info).baInfo.length = h.baInfo.length := length_set
      have same_lens : (h.setInfo index info).bitmapLen = h.bitmapLen := rfl
      simp [set_length, same_lens, lengths]
    unfold CtrlBAckResponseHeader.restored
    rw [if_pos multi]
    generalize List.zipWith received (h.setInfo index info).bitmapLen
      (h.setInfo index info).baInfo = backs at back_at length_is
    have len_back : (backs.map Prod.fst)[index]? = some (h.lenOf index) := by simp [back_at]
    have info_back : (backs.map Prod.snd)[index]? =
        some { info with ra := Vector.replicate 6 0 } := by simp [back_at]
    have back := getD_of_getElem? info_back (.create 0)
    refine ⟨⟨filled.variant, ?_⟩, rfl, getD_of_getElem? len_back 0, ?_, ?_, ?_⟩
    · unfold inRange
      simp only [multi, length_map, length_is]
      simp [inside]
    · rw [info_is]
      have same_start := congrArg startingSeq back
      exact same_start
    · rw [info_is]
      have same_bitmap := congrArg bitmap back
      exact same_bitmap
    · intro _
      rw [info_is]
      have same_aid := congrArg aidTidInfo back
      exact same_aid

/-- **A filled response is read back**, whatever the reader held before. -/
theorem deserialize_serialize (response : Response h index) (inSpace : info.startingSeq < 4096)
    (length : info.bitmap.length = h.lenOf index)
    (same : info.aidTidInfo = (h.info index).aidTidInfo) (blank : CtrlBAckResponseHeader) :
    ∃ bytes h', (h.setInfo index info).serialize = some bytes ∧
      blank.deserialize bytes = some h' ∧ Alike (h.setInfo index info) h' index := by
  obtain ⟨bytes, written, read⟩ := (response.sent inSpace length same).deserialize blank
  exact ⟨bytes, _, written, read, response.restored length same blank⟩

end Ns3.Wifi.CtrlBAckResponseHeader
