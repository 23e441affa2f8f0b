import Ns3.Wifi.CtrlTriggerHeader

/-!
# Trigger frame codec
-/

namespace Ns3.Wifi

open LittleEndian List Option

/-! ## Block Ack requests -/

namespace CtrlBAckRequestHeader

/-- A request of a type that is supported. -/
structure WellFormed (bar : CtrlBAckRequestHeader) : Prop where
  variant : bar.variant ≠ .multiTid
  nSeqControls : bar.nSeqControls = 1
  tidInfo : bar.tidInfo < 16
  startingSeq : bar.startingSeq < 4096

/-- The policy is not written. -/
theorem deserialize_serialize {bar : CtrlBAckRequestHeader} (wellFormed : bar.WellFormed) :
    ∃ bytes, bar.serialize = some bytes ∧ bytes.length = bar.getSerializedSize ∧
      ∀ rest, create.deserialize (bytes ++ rest) =
        some ({ bar with barAckPolicy := false }, rest) := by
  obtain ⟨policy, variant, nSeqControls, tidInfo, startingSeq⟩ := bar
  obtain ⟨variant_ne, rfl, tid, seq⟩ := wellFormed
  dsimp only at *
  have sequence : (startingSeq &&& 0x0fff) <<< 4 = 16 * startingSeq ∧
      ((16 * startingSeq) >>> 4) &&& 0x0fff = startingSeq := by
    simp only [and_mask]
    omega
  have reads : ∀ code, (code = 0 ∨ code = 1 ∨ code = 2) → ∀ rest,
      create.deserialize (write 2 (code <<< 1 ||| (tidInfo &&& 0x0f) <<< 12) ++
        write 2 ((startingSeq &&& 0x0fff) <<< 4) ++ rest) =
      some ({
        barAckPolicy := false
        variant := if code = 1 then .extendedCompressed else if code = 2 then .compressed else .basic
        nSeqControls := 1, tidInfo, startingSeq }, rest) := by
    intro code is rest
    have value : code <<< 1 ||| (tidInfo &&& 0x0f) <<< 12 = 2 * code + 4096 * tidInfo := by
      have low : code <<< 1 < 2 ^ 12 := by omega
      rw [or_shiftLeft low]
      simp only [and_mask]
      omega
    have set : create.setBarControl (2 * code + 4096 * tidInfo) = { create with
        variant := if code = 1 then .extendedCompressed else if code = 2 then .compressed else .basic
        tidInfo } := by
      obtain ⟨policy, kind, tid_is⟩ : (2 * code + 4096 * tidInfo) &&& 0x01 = 0 ∧
          ((2 * code + 4096 * tidInfo) >>> 1) &&& 0x0f = code ∧
          ((2 * code + 4096 * tidInfo) >>> 12) &&& 0x0f = tidInfo := by
        simp only [and_mask]
        omega
      unfold setBarControl
      rw [policy, kind, tid_is, if_neg (show code ≠ 3 by omega)]
      rfl
    unfold deserialize
    rw [value, sequence.1, append_assoc, read_write (by omega)]
    simp only [bind_eq_bind, bind_some, set, read_write (show 16 * startingSeq < 256 ^ 2
      by omega), sequence.2]
    obtain rfl | rfl | rfl := is <;> rfl
  cases variant with
  | basic => exact ⟨_, rfl, by simp [getSerializedSize], reads 0 (.inl rfl)⟩
  | compressed => exact ⟨_, rfl, by simp [getSerializedSize], reads 2 (.inr (.inr rfl))⟩
  | extendedCompressed => exact ⟨_, rfl, by simp [getSerializedSize], reads 1 (.inr (.inl rfl))⟩
  | multiTid => exact absurd rfl variant_ne

end CtrlBAckRequestHeader

/-! ## User Info fields -/

namespace CtrlTriggerUserInfoField

/-- A field of a frame of a type and a variant, with what it has no room for as it was created. -/
structure WellFormed (type : TriggerFrameType) (version : TriggerFrameVariant)
    (ui : CtrlTriggerUserInfoField) : Prop where
  triggerType : ui.triggerType = type
  variant : ui.variant = version
  aid12 : ui.aid12 < 4095
  ruAllocation : ui.ruAllocation < 256
  ulMcs : ui.ulMcs < 16
  ulDcm : ui.variant = .eht → ui.ulDcm = false
  ps160 : ui.variant = .he → ui.ps160 = true
  bits26To31 : ui.bits26To31.first < (if ui.hasSsAllocation then 8 else 32) ∧
    ui.bits26To31.second < if ui.hasSsAllocation then 8 else 2
  ulTargetRssi : ui.ulTargetRssi < 128
  basic : if type = .basicTrigger then ui.basicTriggerDependentUserInfo < 256
    else ui.basicTriggerDependentUserInfo = 0
  muBar : if type = .muBarTrigger then ui.muBarTriggerDependentUserInfo.WellFormed
    else ui.muBarTriggerDependentUserInfo = .create

variable {type : TriggerFrameType} {version : TriggerFrameVariant}
  {ui : CtrlTriggerUserInfoField}

theorem WellFormed.setUserInfo (wellFormed : ui.WellFormed type version)
    (blank : CtrlTriggerUserInfoField) (same : blank.variant = ui.variant)
    (no_dcm : blank.ulDcm = false) :
    ui.userInfo < 256 ^ 4 ∧ ui.userInfo % 4096 = ui.aid12 ∧
      blank.setUserInfo ui.userInfo = { ui with
        ps160 := blank.ps160
        ulTargetRssi := blank.ulTargetRssi
        triggerType := blank.triggerType
        basicTriggerDependentUserInfo := blank.basicTriggerDependentUserInfo
        muBarTriggerDependentUserInfo := blank.muBarTriggerDependentUserInfo } := by
  obtain ⟨-, -, aid, ru, mcs, dcm, -, bits, -, -, -⟩ := wellFormed
  have fec := ui.ulFecCodingType.toNat_lt
  have dcm_lt := ui.ulDcm.toNat_lt
  have written_dcm : (if ui.variant = .he then ui.ulDcm.toNat else 0) = ui.ulDcm.toNat := by
    cases is : ui.variant with
    | he => rfl
    | eht =>
      rw [dcm is]
      rfl
  have word : ∃ high < 64, ui.userInfo = ui.aid12 + ui.ruAllocation * 2 ^ 12 +
      ui.ulFecCodingType.toNat * 2 ^ 20 + ui.ulMcs * 2 ^ 21 + ui.ulDcm.toNat * 2 ^ 25 +
      high * 2 ^ 26 ∧ ui.bits26To31 =
        if ui.hasSsAllocation then ⟨high % 8, high / 8 % 8⟩ else ⟨high % 32, high / 32 % 2⟩ := by
    unfold userInfo
    rw [written_dcm]
    obtain ⟨⟨first, second⟩, is⟩ : ∃ bits, ui.bits26To31 = bits := ⟨_, rfl⟩
    rw [is] at bits ⊢
    dsimp only at bits ⊢
    by_cases ss : ui.hasSsAllocation = true
    · simp only [ss, if_true] at bits ⊢
      refine ⟨first + second * 8, by omega, ?_, ?_⟩
      · simp (disch := omega) only [and_mask, Nat.mod_eq_of_lt, or_shiftLeft]
        omega
      · congr 1 <;> omega
    · simp only [ss, Bool.false_eq_true, if_false] at bits ⊢
      have written : (if second ≠ 0 then 1 else 0) = second := by
        split <;> omega
      refine ⟨first + second * 32, by omega, ?_, ?_⟩
      · rw [written]
        simp (disch := omega) only [and_mask, Nat.mod_eq_of_lt, or_shiftLeft]
        omega
      · congr 1 <;> omega
  obtain ⟨high, small, value, union⟩ := word
  unfold CtrlTriggerUserInfoField.setUserInfo
  generalize ui.userInfo = read at value ⊢
  have aid_is : read &&& 0x0fff = ui.aid12 := by
    rw [(and_mask read).2.2.2.2.2.2.2.2.1]
    omega
  have ss_is : ({ blank with aid12 := ui.aid12 } : CtrlTriggerUserInfoField).hasSsAllocation =
    ui.hasSsAllocation := rfl
  have fec_is : decide ((read >>> 20) &&& 0x01 = 1) = ui.ulFecCodingType := by
    have bit : (read >>> 20) &&& 0x01 = ui.ulFecCodingType.toNat := by
      simp only [and_mask]
      omega
    rw [bit]
    cases ui.ulFecCodingType <;> rfl
  have dcm_is : (if blank.variant = .he then decide ((read >>> 25) &&& 0x01 = 1)
      else blank.ulDcm) = ui.ulDcm := by
    have bit : (read >>> 25) &&& 0x01 = ui.ulDcm.toNat := by
      simp only [and_mask]
      omega
    rw [bit, same, no_dcm]
    cases is : ui.variant with
    | he => cases ui.ulDcm <;> rfl
    | eht =>
      rw [dcm is]
      rfl
  obtain ⟨ru_is, mcs_is⟩ : (read >>> 12) &&& 0xff = ui.ruAllocation ∧
      (read >>> 21) &&& 0x0f = ui.ulMcs := by
    simp only [and_mask]
    omega
  have union_is : (if ui.hasSsAllocation then
        (⟨(read >>> 26) &&& 0x07, (read >>> 29) &&& 0x07⟩ : Bits26To31)
      else ⟨(read >>> 26) &&& 0x1f, (read >>> 31) &&& 0x01⟩) = ui.bits26To31 := by
    rw [union]
    simp only [and_mask]
    split <;> congr 1 <;> omega
  refine ⟨by omega, by omega, ?_⟩
  simp only [aid_is, ss_is, fec_is, dcm_is, ru_is, mcs_is, union_is]
  rw [same]

theorem WellFormed.setBit32To39 (wellFormed : ui.WellFormed type version)
    (blank : CtrlTriggerUserInfoField) (same : blank.variant = ui.variant)
    (ps160 : blank.ps160 = true) :
    ui.bit32To39 < 256 ^ 1 ∧ blank.setBit32To39 ui.bit32To39 =
      { blank with ulTargetRssi := ui.ulTargetRssi, ps160 := ui.ps160 } := by
  have rssi := wellFormed.ulTargetRssi
  have ps160_lt := ui.ps160.toNat_lt
  have value : ui.bit32To39 =
      ui.ulTargetRssi + (if ui.variant = .eht then ui.ps160.toNat else 0) * 2 ^ 7 :=
    or_shiftLeft rssi _
  have high : (if ui.variant = .eht then ui.ps160.toNat else 0) < 2 := by
    split <;> omega
  have rssi_is : ui.bit32To39 &&& 0x7f = ui.ulTargetRssi := by
    simp only [and_mask]
    omega
  have ps160_is : (if blank.variant = .eht then decide (ui.bit32To39 >>> 7 = 1)
      else blank.ps160) = ui.ps160 := by
    have bit : ui.bit32To39 >>> 7 = if ui.variant = .eht then ui.ps160.toNat else 0 := by
      rw [Nat.shiftRight_eq_div_pow]
      omega
    rw [bit, same, ps160]
    cases is : ui.variant with
    | he =>
      rw [wellFormed.ps160 is]
      rfl
    | eht => cases ui.ps160 <;> rfl
  refine ⟨by omega, ?_⟩
  unfold CtrlTriggerUserInfoField.setBit32To39
  rw [rssi_is, ps160_is]

/-- What the reader has of a field. -/
def carried (ui : CtrlTriggerUserInfoField) : CtrlTriggerUserInfoField :=
  { ui with
    muBarTriggerDependentUserInfo := { ui.muBarTriggerDependentUserInfo with barAckPolicy := false } }

/-- A field is read back, and does not start like the padding. -/
theorem WellFormed.deserialize (wellFormed : ui.WellFormed type version)
    (supported : type.supported = true) :
    ∃ bytes, ui.serialize = some bytes ∧ bytes.length = ui.getSerializedSize ∧
      (∃ first second tail, bytes = first :: second :: tail ∧ ¬ (first = 0xff ∧ second = 0xff)) ∧
      ∀ rest, (create type version).deserialize (bytes ++ rest) = some (ui.carried, rest) := by
  have same : (create type version).variant = ui.variant := wellFormed.variant.symm
  have is_type : (create type version).triggerType = ui.triggerType := wellFormed.triggerType.symm
  obtain ⟨word_fits, word_aid, read_word⟩ := wellFormed.setUserInfo (create type version) same rfl
  obtain ⟨byte_fits, read_byte⟩ := wellFormed.setBit32To39
    ((create type version).setUserInfo ui.userInfo) (by rw [read_word]) (by rw [read_word]; rfl)
  have aid_is : ((create type version).setUserInfo ui.userInfo).aid12 = ui.aid12 := by
    rw [read_word]
  have not_padding : ui.aid12 ≠ 4095 := ne_of_lt wellFormed.aid12
  have fixed : ((create type version).setUserInfo ui.userInfo).setBit32To39 ui.bit32To39 =
      { ui with
        basicTriggerDependentUserInfo := 0, muBarTriggerDependentUserInfo := .create } := by
    rw [read_byte, read_word, is_type]
    rfl
  have basic := wellFormed.basic
  have muBar := wellFormed.muBar
  have starts : ∀ tail, ∃ first second tail', write 4 ui.userInfo ++ tail =
      first :: second :: tail' ∧ ¬ (first = 0xff ∧ second = 0xff) := by
    intro tail
    refine ⟨_, _, _, rfl, ?_⟩
    rintro ⟨low, high⟩
    have low := congrArg UInt8.toNat low
    have high := congrArg UInt8.toNat high
    simp at low high
    omega
  have no_abort : type.aborts = false := by cases type <;> first | rfl | cases supported
  have reads : ∀ rest, (create type version).deserialize
      (write 4 ui.userInfo ++ (write 1 ui.bit32To39 ++ rest)) =
    deserializeDependent { ui with
      basicTriggerDependentUserInfo := 0, muBarTriggerDependentUserInfo := .create } rest := by
    intro rest
    have created : ¬ (create type version).triggerType.aborts = true := by
      rw [is_type, wellFormed.triggerType, no_abort]
      exact Bool.false_ne_true
    unfold CtrlTriggerUserInfoField.deserialize
    simp only [if_neg created, read_write word_fits, bind_eq_bind, bind_some, aid_is,
      if_neg not_padding, read_write byte_fits, fixed]
  have written : ∀ dependent, ui.serializeDependent = some dependent → ui.serialize =
      some (write 4 ui.userInfo ++ (write 1 ui.bit32To39 ++ dependent)) := by
    intro dependent is
    unfold serialize
    rw [wellFormed.triggerType, no_abort, is]
    rfl
  have is_type := wellFormed.triggerType
  unfold serializeDependent at written
  unfold deserializeDependent at reads
  unfold getSerializedSize carried
  rw [is_type] at written ⊢
  cases type with
  | basicTrigger =>
    have small : ui.basicTriggerDependentUserInfo < 256 ^ 1 := basic
    have request : ui.muBarTriggerDependentUserInfo = .create := muBar
    refine ⟨_, written _ rfl, by simp, starts _, ?_⟩
    intro rest
    rw [append_assoc, append_assoc, reads, is_type]
    simp only [read_write small, request]
    rfl
  | muBarTrigger =>
    have none_left : ui.basicTriggerDependentUserInfo = 0 := basic
    obtain ⟨bytes, written', size, back⟩ := CtrlBAckRequestHeader.deserialize_serialize muBar
    refine ⟨_, written _ written', ?_, starts _, ?_⟩
    · simp only [length_append, length_write, size]
      omega
    · intro rest
      rw [append_assoc, append_assoc, reads, is_type]
      simp only [back, none_left]
      rfl
  | muRtsTrigger | bsrpTrigger | bqrpTrigger =>
    have none_left : ui.basicTriggerDependentUserInfo = 0 := basic
    have request : ui.muBarTriggerDependentUserInfo = .create := muBar
    refine ⟨_, written _ rfl, by simp, starts _, ?_⟩
    intro rest
    rw [append_assoc, append_assoc, reads, is_type]
    simp only [none_left, request]
    rfl
  | bfrpTrigger | gcrMuBarTrigger | nfrpTrigger | unnamed => cases supported

end CtrlTriggerUserInfoField

/-! ## Trigger frames -/

namespace CtrlTriggerHeader

/-- A frame of a type that is supported. -/
structure WellFormed (h : CtrlTriggerHeader) : Prop where
  triggerType : h.triggerType.supported = true
  ulLength : h.ulLength < 4096
  ulBandwidth : h.ulBandwidth < 4
  giAndLtfType : h.giAndLtfType < 4
  apTxPower : h.apTxPower < 64
  ulSpatialReuse : h.ulSpatialReuse < 65536
  userInfoFields : ∀ ui ∈ h.userInfoFields, ui.WellFormed h.triggerType h.variant

/-- The frame is read back, and all of it is taken. -/
def Restored (h : CtrlTriggerHeader) : Prop :=
  ∃ bytes taken, h.serialize = some bytes ∧ deserialize bytes = some (h, taken) ∧
    taken % 2 ^ 32 = h.getSerializedSize

/-- The reader does not go to the end of the padding, and finds it again every two bytes. -/
theorem deserializeFields_padding (type : TriggerFrameType) (version : TriggerFrameVariant)
    (fields : List CtrlTriggerUserInfoField) :
    ∀ (size rounds padding : Nat), size ≤ rounds →
      deserializeFields type version rounds fields padding (List.replicate size 0xff) =
        some (fields, if size < 2 then padding else 2 + size % 2, List.replicate (size % 2) 0xff)
  | 0, rounds, padding, _ => by cases rounds <;> rfl
  | 1, rounds, padding, _ => by cases rounds <;> rfl
  | size + 2, rounds + 1, padding, enough => by
    have ih := deserializeFields_padding type version fields size rounds
      ((List.replicate size (0xff : UInt8)).length + 2) (by omega)
    have parity : (size + 2) % 2 = size % 2 := Nat.add_mod_right size 2
    have last : (if size < 2 then (List.replicate size (0xff : UInt8)).length + 2
        else 2 + size % 2) = 2 + size % 2 := by
      rw [length_replicate]
      split <;> omega
    rw [last] at ih
    rw [parity, if_neg (by omega)]
    simpa [replicate_succ, deserializeFields] using ih

/-- The fields are read back, and after them the padding. -/
theorem deserializeFields_serialize {type : TriggerFrameType} {version : TriggerFrameVariant}
    (supported : type.supported = true) (padding : Nat) (fields : List CtrlTriggerUserInfoField)
    (wellFormed : ∀ ui ∈ fields, ui.WellFormed type version) :
    ∃ written, fields.mapM (·.serialize) = some written ∧
      written.flatten.length = (fields.map (·.getSerializedSize)).sum ∧
      ∀ rounds past, written.flatten.length + padding ≤ rounds →
        deserializeFields type version rounds past 0
            (written.flatten ++ List.replicate padding 0xff) =
          some (past ++ fields.map (·.carried), if padding < 2 then 0 else 2 + padding % 2,
            List.replicate (padding % 2) 0xff) := by
  induction fields with
  | nil =>
    refine ⟨[], rfl, rfl, ?_⟩
    intro rounds past enough
    simpa using deserializeFields_padding type version past padding rounds 0 (by simpa using enough)
  | cons ui fields ih =>
    obtain ⟨written, writes, size, reads⟩ := ih fun ui mem => wellFormed ui (mem_cons_of_mem _ mem)
    obtain ⟨bytes, writes_ui, size_ui, ⟨first, second, tail, starts, no_padding⟩, reads_ui⟩ :=
      (wellFormed ui mem_cons_self).deserialize supported
    refine ⟨bytes :: written, by simp [writes_ui, writes], by simp [size_ui, size], ?_⟩
    intro rounds past enough
    have longer : 2 ≤ bytes.length := by simp [starts]
    rw [flatten_cons, length_append] at enough
    cases rounds with
    | zero => omega
    | succ rounds =>
      have all := reads_ui (written.flatten ++ List.replicate padding 0xff)
      rw [flatten_cons, append_assoc]
      simp only [starts, cons_append] at all ⊢
      simp only [deserializeFields, if_neg no_padding, all, bind_eq_bind, bind_some,
        reads rounds (past ++ [ui.carried]) (by omega)]
      simp

/-- What the reader has of a frame, and the number of bytes it takes. -/
theorem WellFormed.deserialize {h : CtrlTriggerHeader} (wellFormed : h.WellFormed) :
    ∃ bytes, h.serialize = some bytes ∧ 0 < bytes.length ∧
      bytes.length % 2 ^ 32 = h.getSerializedSize ∧ deserialize bytes = some ({ h with
        userInfoFields := h.userInfoFields.map (·.carried)
        padding := if h.padding < 2 then 0 else 2 + h.padding % 2 },
        bytes.length - h.padding % 2) := by
  obtain ⟨variant, type, ulLength, moreTF, csRequired, ulBandwidth, giAndLtfType, apTxPower,
    ulSpatialReuse, padding, fields⟩ := h
  obtain ⟨supported, length_lt, bandwidth_lt, gi_lt, power_lt, reuse_lt, all⟩ := wellFormed
  dsimp only at *
  obtain ⟨written, writes, size, reads⟩ := deserializeFields_serialize supported padding fields all
  have no_abort : type.aborts = false := by cases type <;> first | rfl | cases supported
  have not_gcr : type ≠ .gcrMuBarTrigger := by rintro rfl; cases supported
  have code_lt : type.code < 16 := by cases type <;> first | decide | cases supported
  have ofCode_code : TriggerFrameType.ofCode type.code = type := by
    cases type <;> first | rfl | cases supported
  have more_lt := moreTF.toNat_lt
  have required_lt := csRequired.toNat_lt
  have bit : ∀ b : Bool, decide (b.toNat = 1) = b := by decide
  obtain ⟨he, he_lt, he_is⟩ : ∃ he < 512, (if variant = .he then 0x01ff else 0) = he ∧
      (if he % 4 = 3 then TriggerFrameVariant.he else .eht) = variant := by
    cases variant
    · exact ⟨0x01ff, by decide, rfl, rfl⟩
    · exact ⟨0, by decide, rfl, rfl⟩
  obtain ⟨info, info_is⟩ : ∃ info, commonInfo ⟨variant, type, ulLength, moreTF, csRequired,
    ulBandwidth, giAndLtfType, apTxPower, ulSpatialReuse, padding, fields⟩ = info := ⟨_, rfl⟩
  have value : info = type.code + ulLength * 2 ^ 4 + moreTF.toNat * 2 ^ 16 +
      csRequired.toNat * 2 ^ 17 + ulBandwidth * 2 ^ 18 + giAndLtfType * 2 ^ 20 +
      apTxPower * 2 ^ 28 + ulSpatialReuse * 2 ^ 37 + he * 2 ^ 54 := by
    rw [← info_is]
    unfold commonInfo
    simp (disch := omega) only [he_is.1, and_mask, Nat.mod_eq_of_lt, or_shiftLeft]
  have fits : info < 256 ^ 8 := by omega
  obtain ⟨type_is, variant_is, length_is, more_is, required_is, bandwidth_is, gi_is, power_is,
      reuse_is⟩ : info &&& 0x0f = type.code ∧ (info >>> 54) &&& 0x03 = he % 4 ∧
      (info >>> 4) &&& 0x0fff = ulLength ∧ (info >>> 16) &&& 0x01 = moreTF.toNat ∧
      (info >>> 17) &&& 0x01 = csRequired.toNat ∧ (info >>> 18) &&& 0x03 = ulBandwidth ∧
      (info >>> 20) &&& 0x03 = giAndLtfType ∧ (info >>> 28) &&& 0x3f = apTxPower ∧
      (info >>> 37) &&& 0xffff = ulSpatialReuse := by
    simp only [and_mask]
    omega
  refine ⟨write 8 info ++ written.flatten ++ List.replicate padding 0xff, ?_,
    by simp only [length_append, length_write]; omega, ?_, ?_⟩
  · unfold serialize
    simp only [no_abort, writes, info_is]
    rfl
  · unfold getSerializedSize
    simp [not_gcr, size, add_assoc]
  · unfold CtrlTriggerHeader.deserialize
    rw [append_assoc, read_write fits]
    simp only [bind_eq_bind, bind_some, type_is, ofCode_code, no_abort, variant_is,
      he_is.2, length_is, more_is, required_is, bit, bandwidth_is, gi_is, power_is, reuse_is,
      reads _ [] (by simp : written.flatten.length + padding ≤
        (written.flatten ++ List.replicate padding (0xff : UInt8)).length)]
    simp

/-- **A Trigger frame is restored without padding, or with two bytes of it.** The padding must be
none or two bytes, and no Block Ack request of a MU-BAR frame may have its policy set. -/
theorem restored_iff {h : CtrlTriggerHeader} (wellFormed : h.WellFormed) :
    h.Restored ↔ (h.padding = 0 ∨ h.padding = 2) ∧
      ∀ ui ∈ h.userInfoFields, ui.muBarTriggerDependentUserInfo.barAckPolicy = false := by
  obtain ⟨bytes, writes, some_byte, size, reads⟩ := wellFormed.deserialize
  have carried_eq : ∀ ui : CtrlTriggerUserInfoField,
      ui.carried = ui ↔ ui.muBarTriggerDependentUserInfo.barAckPolicy = false := by
    intro ui
    constructor
    · intro same
      rw [← same]
      rfl
    · intro clear
      unfold CtrlTriggerUserInfoField.carried
      rw [← clear]
  have fields : h.userInfoFields.map (·.carried) = h.userInfoFields ↔
      ∀ ui ∈ h.userInfoFields, ui.muBarTriggerDependentUserInfo.barAckPolicy = false := by
    simpa only [carried_eq, id_eq, List.map_id] using
      map_eq_map_iff (f := (·.carried)) (g := id) (l := h.userInfoFields)
  rw [← fields]
  constructor
  · rintro ⟨bytes', taken, writes', reads', takes⟩
    cases writes.symm.trans writes'
    have same := Option.some.inj (reads.symm.trans reads')
    have taken_is := congrArg Prod.snd same
    have fields_same := congrArg (·.1.userInfoFields) same
    have padding_same := congrArg (·.1.padding) same
    dsimp only at taken_is fields_same padding_same
    refine ⟨?_, fields_same⟩
    split at padding_same <;> omega
  · rintro ⟨padding, fields⟩
    refine ⟨bytes, bytes.length, writes, ?_, size⟩
    have same : (if h.padding < 2 then 0 else 2 + h.padding % 2) = h.padding := by
      split <;> omega
    have even : h.padding % 2 = 0 := by omega
    rw [reads, fields, same, even]
    rfl

/-- A Basic Trigger frame for one station, with as many bytes of padding. -/
def basic (padding : Nat) : CtrlTriggerHeader where
  variant := .he
  triggerType := .basicTrigger
  ulLength := 100
  moreTF := false
  csRequired := true
  ulBandwidth := 2
  giAndLtfType := 1
  apTxPower := 20
  ulSpatialReuse := 500
  padding
  userInfoFields := [{ CtrlTriggerUserInfoField.create .basicTrigger .he with
    aid12 := 5, ruAllocation := 97, ulMcs := 7, ulTargetRssi := 80, bits26To31 := ⟨0, 1⟩ }]

theorem basic_wellFormed (padding : Nat) : (basic padding).WellFormed where
  triggerType := rfl
  ulLength := by simp [basic]
  ulBandwidth := by simp [basic]
  giAndLtfType := by simp [basic]
  apTxPower := by simp [basic]
  ulSpatialReuse := by simp [basic]
  userInfoFields ui mem := by
    cases mem_singleton.mp mem
    exact ⟨rfl, rfl, by decide, by decide, by decide, fun _ => rfl, fun _ => rfl, by decide,
      by decide, show (0 : Nat) < 256 by decide, rfl⟩

theorem basic_restored : (basic 2).Restored ↔ ((basic 2).padding = 0 ∨ (basic 2).padding = 2) ∧
      ∀ ui ∈ (basic 2).userInfoFields, ui.muBarTriggerDependentUserInfo.barAckPolicy = false :=
  restored_iff (basic_wellFormed 2)

/-- Four bytes of padding come back as two. -/
theorem four_bytes_not_restored : ¬ ∀ h : CtrlTriggerHeader, h.WellFormed →
    (h.padding = 0 ∨ 2 ≤ h.padding) → h.Restored := by
  intro all
  obtain ⟨bytes, taken, writes, reads, -⟩ := all (basic 4) (basic_wellFormed 4) (.inr (by decide))
  cases writes
  have padding := congrArg (Option.map (·.1.padding)) reads
  exact absurd padding (show (_ : Option Nat) ≠ some 4 by decide)

end CtrlTriggerHeader

end Ns3.Wifi
