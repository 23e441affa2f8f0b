import Ns3.SixLowPan.LowPanIphc

/-!
# Reading the compressed headers back

What was elided is not read back, so a header is read as the part of it that was
written.
-/

namespace Ns3.SixLowPan

open List

open ByteReader (Reader Reads)

open ByteReader

/-! ## The fields of the base formats -/

@[simp]
theorem TrafficClassFlowLabel.ofValue_value (tf : TrafficClassFlowLabel) : ofValue tf.value = tf := by
  cases tf <;> rfl

@[simp]
theorem Hlim.ofValue_value (hlim : Hlim) : ofValue hlim.value = hlim := by cases hlim <;> rfl

@[simp]
theorem HeaderCompression.ofValue_value (mode : HeaderCompression) : ofValue mode.value = mode := by
  cases mode <;> rfl

@[simp]
theorem Ports.ofValue_value (ports : Ports) : ofValue ports.value = ports := by cases ports <;> rfl

theorem TrafficClassFlowLabel.ofValue_mod (n : Nat) : ofValue (n % 4) = ofValue n := by
  unfold ofValue
  rw [Nat.mod_mod]

theorem Hlim.ofValue_mod (n : Nat) : ofValue (n % 4) = ofValue n := by
  unfold ofValue
  rw [Nat.mod_mod]

theorem HeaderCompression.ofValue_mod (n : Nat) : ofValue (n % 4) = ofValue n := by
  unfold ofValue
  rw [Nat.mod_mod]

theorem Ports.ofValue_mod (n : Nat) : ofValue (n % 4) = ofValue n := by
  unfold ofValue
  rw [Nat.mod_mod]

theorem TrafficClassFlowLabel.value_lt (tf : TrafficClassFlowLabel) : tf.value < 4 := by
  cases tf <;> decide

theorem Hlim.value_lt (hlim : Hlim) : hlim.value < 4 := by cases hlim <;> decide

theorem HeaderCompression.value_lt (mode : HeaderCompression) : mode.value < 4 := by
  cases mode <;> decide

theorem Ports.value_lt (ports : Ports) : ports.value < 4 := by cases ports <;> decide

theorem decide_toNat (b : Bool) : decide (b.toNat = 1) = b := by cases b <;> rfl

namespace SixLowPanIphc

variable (h : SixLowPanIphc)

theorem baseFormat_fields : h.baseFormat < 2 ^ 16 ∧ h.baseFormat / 2 ^ 11 % 4 = h.tf.value ∧
    h.baseFormat / 2 ^ 10 % 2 = h.nh.toNat ∧ h.baseFormat / 2 ^ 8 % 4 = h.hlim.value ∧
    h.baseFormat / 2 ^ 7 % 2 = h.cid.toNat ∧ h.baseFormat / 2 ^ 6 % 2 = h.sac.toNat ∧
    h.baseFormat / 2 ^ 4 % 4 = h.sam.value ∧ h.baseFormat / 2 ^ 3 % 2 = h.m.toNat ∧
    h.baseFormat / 2 ^ 2 % 2 = h.dac.toNat ∧ h.baseFormat % 4 = h.dam.value := by
  have tf := h.tf.value_lt
  have nh := h.nh.toNat_lt
  have hlim := h.hlim.value_lt
  have cid := h.cid.toNat_lt
  have sac := h.sac.toNat_lt
  have sam := h.sam.value_lt
  have m := h.m.toNat_lt
  have dac := h.dac.toNat_lt
  have dam := h.dam.value_lt
  unfold baseFormat
  omega

/-- What is in the header when it is read back: elided fields are zero, or what their
elision stands for. -/
def decoded : SixLowPanIphc :=
  { h with
    srcdstContextId := if h.cid then h.srcdstContextId else 0
    ecn := if h.tf = .elided then 0 else h.ecn
    dscp := if h.tf = .full ∨ h.tf = .flElided then h.dscp else 0
    flowLabel := if h.tf = .full ∨ h.tf = .dscpElided then h.flowLabel else 0
    nextHeader := if h.nh then 0 else h.nextHeader
    hopLimit :=
      match h.hlim with
      | .inline_ => h.hopLimit
      | .compr1 => 1
      | .compr64 => 64
      | .compr255 => 255
    srcInlinePart := h.srcInlinePart.take (srcSize h.sac h.sam) ++
      List.replicate (16 - srcSize h.sac h.sam) 0
    dstInlinePart := h.dstInlinePart.take (dstSize h.m h.dam) ++
      List.replicate (16 - dstSize h.m h.dam) 0 }

/-- The fields fit into their bits and the inline parts are arrays of 16 bytes. -/
structure Sized : Prop where
  ecn : h.ecn < 4
  dscp : h.dscp < 64
  flowLabel : h.flowLabel < 2 ^ 20
  src : h.srcInlinePart.length = 16
  dst : h.dstInlinePart.length = 16

theorem srcSize_le (sac : Bool) (sam : HeaderCompression) : srcSize sac sam ≤ 16 := by
  cases sac <;> cases sam <;> decide

theorem dstSize_le (m : Bool) (dam : HeaderCompression) : dstSize m dam ≤ 16 := by
  cases m <;> cases dam <;> decide

theorem readInlinePart_reads {size : Nat} {part : List UInt8} (long : size ≤ part.length) :
    Reads (readInlinePart size) (part.take size)
      (part.take size ++ List.replicate (16 - size) 0) := by
  have reads := readBytes_reads () (part.take size)
  rw [length_take_of_le long] at reads
  exact reads.map _

variable {h}

theorem readTf_reads (sized : h.Sized) :
    Reads (readTf h.tf) h.serializeTf (h.decoded.ecn, h.decoded.dscp, h.decoded.flowLabel) := by
  have ecn := sized.ecn
  have dscp := sized.dscp
  have flowLabel := sized.flowLabel
  intro rest
  unfold serializeTf decoded
  cases tf : h.tf
  case elided => rfl
  all_goals
    simp [readTf, readU8, bind, StateT.bind, Except.bind, pure, StateT.pure, Except.pure]
    omega

theorem readSrcdstContextId_reads :
    Reads (readSrcdstContextId h.cid) (if h.cid then [h.srcdstContextId] else [])
      h.decoded.srcdstContextId := by
  intro rest
  unfold readSrcdstContextId decoded
  cases h.cid <;> rfl

theorem readNextHeader_reads :
    Reads (readNextHeader h.nh) (if h.nh then [] else [h.nextHeader]) h.decoded.nextHeader := by
  intro rest
  unfold readNextHeader decoded
  cases h.nh <;> rfl

theorem readHopLimit_reads :
    Reads (readHopLimit h.hlim) (if h.hlim = .inline_ then [h.hopLimit] else [])
      h.decoded.hopLimit := by
  intro rest
  unfold decoded
  cases hlim : h.hlim <;> rfl

/-- **Reading.** `Deserialize` reads back what `Serialize` wrote. -/
theorem deserialize_reads (sized : h.Sized) : Reads deserialize h.serialize h.decoded := by
  obtain ⟨small, tf, nh, hlim, cid, sac, sam, m, dac, dam⟩ := h.baseFormat_fields
  have format : (UInt16.ofNat h.baseFormat).toNat = h.baseFormat := UInt16.toNat_ofNat_of_lt small
  refine (readNtohU16_reads () _).bind ?_
  dsimp only
  rw [format, ← TrafficClassFlowLabel.ofValue_mod, tf, nh, ← Hlim.ofValue_mod, hlim, cid, sac,
    ← HeaderCompression.ofValue_mod, sam, m, dac, ← HeaderCompression.ofValue_mod h.baseFormat, dam]
  simp only [TrafficClassFlowLabel.ofValue_value, Hlim.ofValue_value,
    HeaderCompression.ofValue_value, decide_toNat]
  have src : srcSize h.sac h.sam ≤ h.srcInlinePart.length := by
    rw [sized.src]
    exact srcSize_le h.sac h.sam
  have dst : dstSize h.m h.dam ≤ h.dstInlinePart.length := by
    rw [sized.dst]
    exact dstSize_le h.m h.dam
  exact readSrcdstContextId_reads.bind ((readTf_reads sized).bind (readNextHeader_reads.bind
    (readHopLimit_reads.bind ((readInlinePart_reads src).bind ((readInlinePart_reads dst).map _)))))

/-! ## Sizes -/

variable (h) in
/-- The destination is written as `GetSerializedSize` counts it. -/
def DestinationCounted : Prop := h.dac = true → h.m = false ∧ h.dam ≠ .inline_

theorem length_serializeTf : h.serializeTf.length =
    match h.tf with
    | .full => 4
    | .dscpElided => 3
    | .flElided => 1
    | .elided => 0 := by
  unfold serializeTf
  cases h.tf <;> rfl

section

variable (sized : h.Sized)
include sized

theorem length_serialize : h.serialize.length =
    2 + (if h.cid then 1 else 0) + h.serializeTf.length + (if h.nh then 0 else 1) +
      (if h.hlim = .inline_ then 1 else 0) + srcSize h.sac h.sam + dstSize h.m h.dam := by
  have src := srcSize_le h.sac h.sam
  have dst := dstSize_le h.m h.dam
  have src_length := sized.src
  have dst_length := sized.dst
  unfold serialize
  simp only [length_append, length_writeHtonU16, length_take, apply_ite
    List.length, length_nil, length_singleton]
  omega

theorem length_eq_getSerializedSize (counted : h.DestinationCounted) :
    h.serialize.length = h.getSerializedSize := by
  rw [length_serialize sized, length_serializeTf]
  unfold getSerializedSize srcSize
  unfold DestinationCounted at counted
  cases m : h.m <;> cases dac : h.dac <;> cases dam : h.dam <;> simp_all [dstSize] <;> rfl

/-- A stateful multicast destination is written as 16 bytes and counted as six. -/
theorem length_of_statefulMulticast (m : h.m = true) (dac : h.dac = true)
    (dam : h.dam = .inline_) : h.serialize.length = h.getSerializedSize + 10 := by
  rw [length_serialize sized, length_serializeTf]
  unfold getSerializedSize srcSize dstSize
  rw [m, dac, dam]
  rfl

/-! ## Headers on packets -/

theorem removeHeader_serialize (fits : h.getSerializedSize ≤ h.serialize.length)
    (rest : List UInt8) : removeHeader (h.serialize ++ rest) =
      some (h.decoded, (h.serialize ++ rest).drop h.getSerializedSize) := by
  have same : h.decoded.getSerializedSize = h.getSerializedSize := rfl
  have enough : h.getSerializedSize ≤ (h.serialize ++ rest).length := by
    rw [length_append]
    omega
  unfold removeHeader
  rw [deserialize_reads sized rest]
  dsimp only
  rw [same, if_pos enough]

/-- **A header on a packet.** It comes off as it was written, and leaves the packet. -/
theorem removeHeader_addHeader (counted : h.DestinationCounted)
    (body : List UInt8) : ∃ packet, h.addHeader body = some packet ∧
      removeHeader packet = some (h.decoded, body) := by
  have length := length_eq_getSerializedSize sized counted
  refine ⟨h.serialize ++ body, ?_, ?_⟩
  · unfold addHeader
    simp [length]
  · simp [removeHeader_serialize sized (by omega), ← length]

/-- The rest of the array with a stateful multicast destination replaces the first ten bytes of the
packet. -/
theorem removeHeader_of_statefulMulticast (m : h.m = true) (dac : h.dac = true)
    (dam : h.dam = .inline_) {body packet : List UInt8} (added : h.addHeader body = some packet) :
    10 ≤ body.length ∧
      removeHeader packet = some (h.decoded, h.dstInlinePart.drop 6 ++ body.drop 10) := by
  have length := length_of_statefulMulticast sized m dac dam
  have dst := sized.dst
  unfold addHeader at added
  split at added
  case isFalse => cases added
  case isTrue fits =>
    cases added
    refine ⟨by omega, ?_⟩
    have front : ∃ front, h.serialize = front ++ h.dstInlinePart := by
      unfold serialize dstSize
      rw [m, dam]
      simp only [take_of_length_le (Nat.le_of_eq dst), ← append_assoc]
      exact ⟨_, rfl⟩
    obtain ⟨front, written⟩ := front
    have front_length : front.length + 6 = h.getSerializedSize := by
      have := congrArg List.length written
      rw [length_append] at this
      omega
    rw [removeHeader_serialize sized (by omega), length, Nat.add_sub_cancel_left, written,
      append_assoc, ← front_length, drop_append, drop_of_length_le (by omega),
      nil_append, Nat.add_sub_cancel_left, drop_append_of_le_length (by omega)]

end

end SixLowPanIphc

/-! ## `SixLowPanUdpNhcExtension` -/

theorem readU16_reads (value : UInt16) : Reads readU16 (writeU16 value) value := by
  intro rest
  have lt := value.toNat_lt
  have back : value.toNat % 256 + value.toNat / 2 ^ 8 % 256 * 2 ^ 8 = value.toNat := by omega
  have both : readU16 (writeU16 value ++ rest) =
      .ok (.ofNat (value.toNat % 256 + value.toNat / 2 ^ 8 % 256 * 2 ^ 8), rest) := rfl
  rw [both, back, UInt16.ofNat_toNat]

namespace SixLowPanUdpNhcExtension

variable (h : SixLowPanUdpNhcExtension)

/-- What is in the header when it is read back. -/
def decoded : SixLowPanUdpNhcExtension :=
  { h with
    srcPort :=
      match h.ports with
      | .inline_ | .allSrcLastDst => h.srcPort
      | .lastSrcAllDst => .ofNat (h.srcPort.toNat % 2 ^ 8)
      | .lastSrcLastDst => .ofNat (h.srcPort.toNat % 2 ^ 4)
    dstPort :=
      match h.ports with
      | .inline_ | .lastSrcAllDst => h.dstPort
      | .allSrcLastDst => .ofNat (h.dstPort.toNat % 2 ^ 8)
      | .lastSrcLastDst => .ofNat (h.dstPort.toNat % 2 ^ 4)
    checksum := if h.c then 0 else h.checksum }

theorem baseFormat_fields : 0xf0 ≤ h.baseFormat ∧ h.baseFormat ≤ 0xf7 ∧
    h.baseFormat / 2 ^ 2 % 2 = h.c.toNat ∧ h.baseFormat % 4 = h.ports.value := by
  have c := h.c.toNat_lt
  have ports := h.ports.value_lt
  unfold baseFormat
  omega

theorem readPorts_reads :
    Reads (readPorts h.ports) h.serializePorts (h.decoded.srcPort, h.decoded.dstPort) := by
  have src := readNtohU16_reads () h.srcPort
  have dst := readNtohU16_reads () h.dstPort
  unfold serializePorts decoded readPorts
  cases ports : h.ports with
  | inline_ => exact src.bind (dst.map _)
  | allSrcLastDst =>
    have byte := (readU8_reads () (.ofNat h.dstPort.toNat)).map
      fun b => (h.srcPort, UInt16.ofNat b.toNat)
    exact src.bind byte
  | lastSrcAllDst =>
    have byte := readU8_reads () (.ofNat h.srcPort.toNat)
    exact byte.bind (dst.map _)
  | lastSrcLastDst =>
    have byte := readU8_reads ()
      (.ofNat (h.srcPort.toNat % 2 ^ 4 * 2 ^ 4 + h.dstPort.toNat % 2 ^ 4))
    have both := byte.map fun b =>
      (UInt16.ofNat (b.toNat / 2 ^ 4), UInt16.ofNat (b.toNat % 2 ^ 4))
    have value : (UInt8.ofNat (h.srcPort.toNat % 2 ^ 4 * 2 ^ 4 + h.dstPort.toNat % 2 ^ 4)).toNat =
        h.srcPort.toNat % 2 ^ 4 * 2 ^ 4 + h.dstPort.toNat % 2 ^ 4 := by
      rw [UInt8.toNat_ofNat']
      omega
    rw [value, show (h.srcPort.toNat % 2 ^ 4 * 2 ^ 4 + h.dstPort.toNat % 2 ^ 4) / 2 ^ 4 =
      h.srcPort.toNat % 2 ^ 4 by omega, show (h.srcPort.toNat % 2 ^ 4 * 2 ^ 4 +
      h.dstPort.toNat % 2 ^ 4) % 2 ^ 4 = h.dstPort.toNat % 2 ^ 4 by omega] at both
    exact both

theorem readChecksum_reads :
    Reads (readChecksum h.c) (if h.c then [] else writeU16 h.checksum) h.decoded.checksum := by
  unfold readChecksum decoded
  cases h.c with
  | true => exact .pure 0
  | false => exact readU16_reads h.checksum

theorem deserialize_reads : Reads deserialize h.serialize h.decoded := by
  obtain ⟨_, small, c, ports⟩ := h.baseFormat_fields
  have format : (UInt8.ofNat h.baseFormat).toNat = h.baseFormat :=
    UInt8.toNat_ofNat_of_lt (show h.baseFormat < 256 by omega)
  refine (readU8_reads () _).bind ?_
  rw [format, c, ← Ports.ofValue_mod, ports]
  simp only [Ports.ofValue_value, decide_toNat]
  exact h.readPorts_reads.bind (h.readChecksum_reads.map _)

end SixLowPanUdpNhcExtension

theorem port_eq {port : UInt16} {high n : Nat} (same : port.toNat / 2 ^ n = high) :
    UInt16.ofNat (high <<< n ||| (UInt16.ofNat (port.toNat % 2 ^ n)).toNat) = port := by
  have low : port.toNat % 2 ^ n < 2 ^ n := Nat.mod_lt _ (Nat.two_pow_pos n)
  have small : (UInt16.ofNat (port.toNat % 2 ^ n)).toNat = port.toNat % 2 ^ n :=
    UInt16.toNat_ofNat_of_lt (Nat.lt_of_le_of_lt (Nat.mod_le _ _) port.toNat_lt)
  rw [small, ← Nat.shiftLeft_add_eq_or_of_lt low, Nat.shiftLeft_eq, ← same, Nat.mul_comm,
    Nat.div_add_mod, UInt16.ofNat_toNat]

/-- **UDP.** The ports come back, and the checksum is computed again when it was elided. -/
theorem decompressLowPanUdpNhc_decoded (checksums : Checksums) (saddr daddr : Ipv6Address)
    (omitChecksum : Bool) (u : UdpHeader) (payload : List UInt8) :
    decompressLowPanUdpNhc checksums saddr daddr (compressLowPanUdpNhc omitChecksum u).decoded
        payload =
      ⟨u.sourcePort, u.destinationPort,
        if checksums.enabled then
          if omitChecksum then
            checksums.calculate saddr daddr u.sourcePort u.destinationPort payload
          else u.checksum
        else 0⟩ := by
  have checksum : (if omitChecksum then checksums.calculate saddr daddr u.sourcePort
      u.destinationPort payload else if omitChecksum then 0 else u.checksum) =
        if omitChecksum then checksums.calculate saddr daddr u.sourcePort u.destinationPort payload
        else u.checksum := by cases omitChecksum <;> rfl
  unfold decompressLowPanUdpNhc SixLowPanUdpNhcExtension.decoded compressLowPanUdpNhc
  by_cases last : u.sourcePort.toNat / 2 ^ 4 = 0xf0b ∧ u.destinationPort.toNat / 2 ^ 4 = 0xf0b
  · simp only [if_pos last, port_eq last.1, port_eq last.2, checksum]
  rw [if_neg last]
  by_cases src : u.sourcePort.toNat / 2 ^ 8 = 0xf0 ∧ u.destinationPort.toNat / 2 ^ 8 ≠ 0xf0
  · simp only [if_pos src, port_eq src.1, checksum]
  rw [if_neg src]
  by_cases dst : u.sourcePort.toNat / 2 ^ 8 ≠ 0xf0 ∧ u.destinationPort.toNat / 2 ^ 8 = 0xf0
  · simp only [if_pos dst, port_eq dst.2, checksum]
  simp only [if_neg dst, checksum]

/-- A compressed UDP header is found by its first byte. -/
theorem serialize_dispatch (h : SixLowPanUdpNhcExtension) (payload : List UInt8) :
    0xf0 ≤ (h.serialize ++ payload).headD 0 ∧ (h.serialize ++ payload).headD 0 ≤ 0xf7 := by
  obtain ⟨low, high, -, -⟩ := h.baseFormat_fields
  have format : (UInt8.ofNat h.baseFormat).toNat = h.baseFormat :=
    UInt8.toNat_ofNat_of_lt (show h.baseFormat < 256 by omega)
  have first : (h.serialize ++ payload).headD 0 = .ofNat h.baseFormat := rfl
  rw [first, UInt8.le_iff_toNat_le, UInt8.le_iff_toNat_le, format]
  exact ⟨low, high⟩

end Ns3.SixLowPan
