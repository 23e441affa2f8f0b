import Ns3.Library.LittleEndian

/-!
# `CtrlTriggerHeader`

A Trigger frame and its User Info fields. `none` is an abort, a fatal error or a read beyond the
frame.
-/

namespace Ns3.Wifi

open LittleEndian

/-! ## Block Ack requests -/

inductive BlockAckReqVariant where
  | basic
  | compressed
  | extendedCompressed
  | multiTid
  deriving DecidableEq

structure CtrlBAckRequestHeader where
  barAckPolicy : Bool
  variant : BlockAckReqVariant
  nSeqControls : Nat
  tidInfo : Nat
  startingSeq : Nat
  deriving DecidableEq

namespace CtrlBAckRequestHeader

/-- The constructor, which leaves the last two as they are in memory. -/
def create : CtrlBAckRequestHeader :=
  { barAckPolicy := false, variant := .basic, nSeqControls := 1, tidInfo := 0, startingSeq := 0 }

variable (bar : CtrlBAckRequestHeader)

def getSerializedSize : Nat :=
  2 + match bar.variant with
    | .basic | .compressed | .extendedCompressed => 2
    | .multiTid => (2 + 2) * (bar.tidInfo + 1)

def getBarControl : Nat :=
  (match bar.variant with
    | .basic => 0
    | .compressed => 0x02 <<< 1
    | .extendedCompressed => 0x01 <<< 1
    | .multiTid => 0x03 <<< 1) ||| (bar.tidInfo &&& 0x0f) <<< 12

def setBarControl (control : Nat) : CtrlBAckRequestHeader :=
  { bar with
    barAckPolicy := control &&& 0x01 = 1
    variant :=
      if (control >>> 1) &&& 0x0f = 0x03 then .multiTid
      else if (control >>> 1) &&& 0x0f = 0x01 then .extendedCompressed
      else if (control >>> 1) &&& 0x0f = 0x02 then .compressed
      else .basic
    tidInfo := (control >>> 12) &&& 0x0f }

def serialize : Option (List UInt8) :=
  match bar.variant with
  | .basic | .compressed | .extendedCompressed =>
    some (write 2 bar.getBarControl ++ write 2 ((bar.startingSeq &&& 0x0fff) <<< 4))
  | .multiTid => none

def deserialize (bytes : List UInt8) : Option (CtrlBAckRequestHeader × List UInt8) := do
  let (control, bytes) ← read 2 bytes
  let bar := bar.setBarControl control
  match bar.variant with
  | .basic | .compressed | .extendedCompressed =>
    let (seqControl, bytes) ← read 2 bytes
    return ({ bar with startingSeq := (seqControl >>> 4) &&& 0x0fff }, bytes)
  | .multiTid => none

end CtrlBAckRequestHeader

/-! ## User Info fields -/

/-- The values of the enumeration, and the others that a received field can have. -/
inductive TriggerFrameType where
  | basicTrigger
  | bfrpTrigger
  | muBarTrigger
  | muRtsTrigger
  | bsrpTrigger
  | gcrMuBarTrigger
  | bqrpTrigger
  | nfrpTrigger
  | unnamed (code : Nat)
  deriving DecidableEq

namespace TriggerFrameType

def code : TriggerFrameType → Nat
  | .basicTrigger => 0
  | .bfrpTrigger => 1
  | .muBarTrigger => 2
  | .muRtsTrigger => 3
  | .bsrpTrigger => 4
  | .gcrMuBarTrigger => 5
  | .bqrpTrigger => 6
  | .nfrpTrigger => 7
  | .unnamed code => code

def ofCode : Nat → TriggerFrameType
  | 0 => .basicTrigger
  | 1 => .bfrpTrigger
  | 2 => .muBarTrigger
  | 3 => .muRtsTrigger
  | 4 => .bsrpTrigger
  | 5 => .gcrMuBarTrigger
  | 6 => .bqrpTrigger
  | 7 => .nfrpTrigger
  | code => .unnamed code

/-- The aborts of the readers and the writers. -/
def aborts (triggerType : TriggerFrameType) : Bool :=
  triggerType = .bfrpTrigger || triggerType = .gcrMuBarTrigger || triggerType = .nfrpTrigger

/-- The types that the class documents as supported. -/
def supported : TriggerFrameType → Bool
  | .basicTrigger | .muBarTrigger | .muRtsTrigger | .bsrpTrigger | .bqrpTrigger => true
  | _ => false

end TriggerFrameType

inductive TriggerFrameVariant where
  | he
  | eht
  deriving DecidableEq

/-- The two bytes of the union `m_bits26To31`. They are `startingSs` and `nSs` of the SS
Allocation, or `nRaRu` and `moreRaRu` of the RA-RU Information. -/
structure Bits26To31 where
  first : Nat
  second : Nat
  deriving DecidableEq

structure CtrlTriggerUserInfoField where
  variant : TriggerFrameVariant
  aid12 : Nat
  ruAllocation : Nat
  ulFecCodingType : Bool
  ulMcs : Nat
  ulDcm : Bool
  ps160 : Bool
  bits26To31 : Bits26To31
  ulTargetRssi : Nat
  triggerType : TriggerFrameType
  basicTriggerDependentUserInfo : Nat
  muBarTriggerDependentUserInfo : CtrlBAckRequestHeader
  deriving DecidableEq

namespace CtrlTriggerUserInfoField

def create (triggerType : TriggerFrameType) (variant : TriggerFrameVariant) :
    CtrlTriggerUserInfoField where
  variant
  aid12 := 0
  ruAllocation := 0
  ulFecCodingType := false
  ulMcs := 0
  ulDcm := false
  ps160 := true
  bits26To31 := ⟨0, 0⟩
  ulTargetRssi := 0
  triggerType
  basicTriggerDependentUserInfo := 0
  muBarTriggerDependentUserInfo := .create

variable (ui : CtrlTriggerUserInfoField)

def getSerializedSize : Nat :=
  5 + match ui.triggerType with
    | .basicTrigger | .bfrpTrigger => 1
    | .muBarTrigger => ui.muBarTriggerDependentUserInfo.getSerializedSize
    | _ => 0

/-- Where the SS Allocation is. -/
def hasSsAllocation : Bool := ui.aid12 ≠ 0 && ui.aid12 ≠ 2045

/-- The first four bytes. -/
def userInfo : Nat :=
  let low := (ui.aid12 &&& 0x0fff) ||| ui.ruAllocation <<< 12 |||
    ui.ulFecCodingType.toNat <<< 20 ||| (ui.ulMcs &&& 0x0f) <<< 21 |||
    (if ui.variant = .he then ui.ulDcm.toNat else 0) <<< 25
  if ui.hasSsAllocation then
    low ||| (ui.bits26To31.first &&& 0x07) <<< 26 ||| (ui.bits26To31.second &&& 0x07) <<< 29
  else
    low ||| (ui.bits26To31.first &&& 0x1f) <<< 26 |||
      (if ui.bits26To31.second ≠ 0 then 1 else 0) <<< 31

def bit32To39 : Nat :=
  ui.ulTargetRssi ||| (if ui.variant = .eht then ui.ps160.toNat else 0) <<< 7

/-- The Trigger Dependent User Info. -/
def serializeDependent : Option (List UInt8) :=
  match ui.triggerType with
  | .basicTrigger => some (write 1 ui.basicTriggerDependentUserInfo)
  | .muBarTrigger => ui.muBarTriggerDependentUserInfo.serialize
  | _ => some []

def serialize : Option (List UInt8) :=
  if ui.triggerType.aborts then none
  else ui.serializeDependent.map fun dependent =>
    write 4 ui.userInfo ++ (write 1 ui.bit32To39 ++ dependent)

def setUserInfo (userInfo : Nat) : CtrlTriggerUserInfoField :=
  let ui := { ui with aid12 := userInfo &&& 0x0fff }
  { ui with
    ruAllocation := (userInfo >>> 12) &&& 0xff
    ulFecCodingType := (userInfo >>> 20) &&& 0x01 = 1
    ulMcs := (userInfo >>> 21) &&& 0x0f
    ulDcm := if ui.variant = .he then (userInfo >>> 25) &&& 0x01 = 1 else ui.ulDcm
    bits26To31 :=
      if ui.hasSsAllocation then ⟨(userInfo >>> 26) &&& 0x07, (userInfo >>> 29) &&& 0x07⟩
      else ⟨(userInfo >>> 26) &&& 0x1f, (userInfo >>> 31) &&& 0x01⟩ }

def setBit32To39 (bit32To39 : Nat) : CtrlTriggerUserInfoField :=
  { ui with
    ulTargetRssi := bit32To39 &&& 0x7f
    ps160 := if ui.variant = .eht then bit32To39 >>> 7 = 1 else ui.ps160 }

def deserializeDependent (bytes : List UInt8) :
    Option (CtrlTriggerUserInfoField × List UInt8) :=
  match ui.triggerType with
  | .basicTrigger =>
    (read 1 bytes).map fun (basicTriggerDependentUserInfo, bytes) =>
      ({ ui with basicTriggerDependentUserInfo }, bytes)
  | .muBarTrigger =>
    (ui.muBarTriggerDependentUserInfo.deserialize bytes).map
      fun (muBarTriggerDependentUserInfo, bytes) =>
        ({ ui with muBarTriggerDependentUserInfo }, bytes)
  | _ => some (ui, bytes)

def deserialize (bytes : List UInt8) : Option (CtrlTriggerUserInfoField × List UInt8) := do
  if ui.triggerType.aborts then none
  let (userInfo, bytes) ← read 4 bytes
  let ui := ui.setUserInfo userInfo
  if ui.aid12 = 4095 then none
  let (bit32To39, bytes) ← read 1 bytes
  (ui.setBit32To39 bit32To39).deserializeDependent bytes

end CtrlTriggerUserInfoField

/-! ## Trigger frames -/

structure CtrlTriggerHeader where
  variant : TriggerFrameVariant
  triggerType : TriggerFrameType
  ulLength : Nat
  moreTF : Bool
  csRequired : Bool
  ulBandwidth : Nat
  giAndLtfType : Nat
  apTxPower : Nat
  ulSpatialReuse : Nat
  padding : Nat
  userInfoFields : List CtrlTriggerUserInfoField
  deriving DecidableEq

namespace CtrlTriggerHeader

variable (h : CtrlTriggerHeader)

def getSerializedSize : Nat :=
  (8 + (if h.triggerType = .gcrMuBarTrigger then 4 else 0) +
    (h.userInfoFields.map (·.getSerializedSize)).sum + h.padding) % 2 ^ 32

def commonInfo : Nat :=
  (h.triggerType.code &&& 0x0f) ||| (h.ulLength &&& 0x0fff) <<< 4 ||| h.moreTF.toNat <<< 16 |||
    h.csRequired.toNat <<< 17 ||| (h.ulBandwidth &&& 0x03) <<< 18 |||
    (h.giAndLtfType &&& 0x03) <<< 20 ||| (h.apTxPower &&& 0x3f) <<< 28 |||
    h.ulSpatialReuse <<< 37 ||| (if h.variant = .he then 0x01ff else 0) <<< 54

def serialize : Option (List UInt8) := do
  if h.triggerType.aborts then none
  let fields ← h.userInfoFields.mapM (·.serialize)
  return write 8 h.commonInfo ++ fields.flatten ++ List.replicate h.padding 0xff

/-- The loop over the User Info fields and the padding. Each round takes at least two bytes. -/
def deserializeFields (triggerType : TriggerFrameType) (variant : TriggerFrameVariant) :
    (rounds : Nat) → List CtrlTriggerUserInfoField → (padding : Nat) → List UInt8 →
      Option (List CtrlTriggerUserInfoField × Nat × List UInt8)
  | _, fields, padding, [] => some (fields, padding, [])
  | _, fields, padding, [byte] => some (fields, padding, [byte])
  | 0, _, _, _ => none
  | rounds + 1, fields, padding, first :: second :: rest =>
    if first = 0xff ∧ second = 0xff then
      deserializeFields triggerType variant rounds fields (rest.length + 2) rest
    else do
      let (ui, bytes) ←
        (CtrlTriggerUserInfoField.create triggerType variant).deserialize (first :: second :: rest)
      deserializeFields triggerType variant rounds (fields ++ [ui]) padding bytes

/-- The header, all of it from the frame, and the number of bytes that were read. -/
def deserialize (bytes : List UInt8) : Option (CtrlTriggerHeader × Nat) := do
  let (commonInfo, rest) ← read 8 bytes
  let triggerType := TriggerFrameType.ofCode (commonInfo &&& 0x0f)
  let variant : TriggerFrameVariant := if (commonInfo >>> 54) &&& 0x03 = 3 then .he else .eht
  if triggerType.aborts then none
  let (userInfoFields, padding, rest) ←
    deserializeFields triggerType variant rest.length [] 0 rest
  return ({
    variant
    triggerType
    ulLength := (commonInfo >>> 4) &&& 0x0fff
    moreTF := (commonInfo >>> 16) &&& 0x01 = 1
    csRequired := (commonInfo >>> 17) &&& 0x01 = 1
    ulBandwidth := (commonInfo >>> 18) &&& 0x03
    giAndLtfType := (commonInfo >>> 20) &&& 0x03
    apTxPower := (commonInfo >>> 28) &&& 0x3f
    ulSpatialReuse := (commonInfo >>> 37) &&& 0xffff
    padding
    userInfoFields }, bytes.length - rest.length)

end CtrlTriggerHeader

end Ns3.Wifi
