import Ns3.SixLowPan.IphcAddresses

/-!
# Which packets come back from IPHC compression
-/

namespace Ns3.SixLowPan

open SixLowPanIphc SixLowPanIphc

/-! ## The header -/

section

variable {h : Ipv6Header} {s d : AddressEncoding} {memory : Memory}

theorem encodeHeader_sized (flowLabel : h.flowLabel < 2 ^ 20) (src : s.inlinePart.length ≤ 16)
    (dst : d.inlinePart.length ≤ 16) : (encodeHeader h s d memory).Sized where
  ecn := by
    have lt := h.trafficClass.toNat_lt
    change h.trafficClass.toNat / 2 ^ 6 < 4
    omega
  dscp := Nat.mod_lt _ (by decide)
  flowLabel := flowLabel
  src := by
    change (s.inlinePart ++ memory.src.drop s.inlinePart.length).length = 16
    rw [List.length_append, List.length_drop, memory.length_src]
    omega
  dst := by
    change (d.inlinePart ++ memory.dst.drop d.inlinePart.length).length = 16
    rw [List.length_append, List.length_drop, memory.length_dst]
    omega

theorem contextIds (src : s.contextId < 16) (dst : d.contextId < 16) :
    (encodeHeader h s d memory).decoded.getSrcContextId = s.contextId ∧
      (encodeHeader h s d memory).decoded.getDstContextId = d.contextId := by
  unfold getSrcContextId getDstContextId decoded encodeHeader
  by_cases both : s.contextId = 0 ∧ d.contextId = 0
  · simp [both]
  · have cid : (decide (s.contextId ≠ 0) || decide (d.contextId ≠ 0)) = true := by
      simp only [Bool.or_eq_true, decide_eq_true_eq]
      omega
    have small : (UInt8.ofNat (s.contextId * 2 ^ 4 + d.contextId)).toNat =
        s.contextId * 2 ^ 4 + d.contextId :=
      UInt8.toNat_ofNat_of_lt (show s.contextId * 2 ^ 4 + d.contextId < 256 by omega)
    rw [if_pos cid, small]
    omega

theorem source_decoded (src : s.contextId < 16) (dst : d.contextId < 16)
    (inline_ : s.inlinePart.length = srcSize s.stateful s.mode) :
    (⟨(encodeHeader h s d memory).decoded.sac, (encodeHeader h s d memory).decoded.sam,
      (encodeHeader h s d memory).decoded.getSrcContextId,
      (encodeHeader h s d memory).decoded.srcInlinePart⟩ : AddressEncoding) = s.padded := by
  rw [(contextIds src dst).1]
  unfold decoded encodeHeader AddressEncoding.padded
  simp [← inline_]

theorem destination_decoded (src : s.contextId < 16) (dst : d.contextId < 16)
    (inline_ : d.inlinePart.length = dstSize h.destination.isMulticast d.mode) :
    (⟨(encodeHeader h s d memory).decoded.dac, (encodeHeader h s d memory).decoded.dam,
      (encodeHeader h s d memory).decoded.getDstContextId,
      (encodeHeader h s d memory).decoded.dstInlinePart⟩ : AddressEncoding) = d.padded := by
  rw [(contextIds src dst).2]
  unfold decoded encodeHeader AddressEncoding.padded
  simp [← inline_]

theorem hopLimit_decoded : (encodeHeader h s d memory).decoded.hopLimit = h.hopLimit := by
  unfold decoded encodeHeader compressHlim
  dsimp only
  split_ifs <;> simp_all

/-- A flow label beside a traffic class comes back without its high byte. -/
theorem decompressTf_decoded : decompressTf (encodeHeader h s d memory).decoded =
    (h.trafficClass, if h.trafficClass = 0 then h.flowLabel else h.flowLabel % 2 ^ 12) := by
  have whole : UInt8.ofNat (h.trafficClass.toNat / 2 ^ 6 * 2 ^ 6 + h.trafficClass.toNat % 2 ^ 6) =
      h.trafficClass := by simp [Nat.div_add_mod']
  have zero : UInt8.ofNat 0 = 0 := rfl
  unfold decompressTf decoded encodeHeader compressTf
  by_cases class_ : h.trafficClass = 0 <;> by_cases label : h.flowLabel = 0 <;>
    simp [class_, label, whole, -Nat.reducePow, -UInt8.ofNat_add, -UInt8.ofNat_mul]

end

/-! ## The body -/

/-- The body is what the next header says it is. -/
def BodyMatches (p : Ipv6Packet) : Prop :=
  match p.body with
  | .udp _ _ => p.header.nextHeader = ipv6Udp
  | .raw _ => canCompressLowPanNhc p.header.nextHeader = false

/-- The body after both. -/
def restoreBody (checksums : Checksums) (omitUdpChecksum : Bool) (source destination : Ipv6Address) :
    Body → Body
  | .udp u payload => .udp
      ⟨u.sourcePort, u.destinationPort,
        if checksums.enabled then
          if omitUdpChecksum then
            checksums.calculate source destination u.sourcePort u.destinationPort payload
          else u.checksum
        else 0⟩
      payload
  | .raw p => .raw p

theorem decompressBody_compressBody {p : Ipv6Packet} (matches_ : BodyMatches p)
    (omitUdpChecksum : Bool) : ∃ bytes size,
    compressBody omitUdpChecksum p.header.nextHeader p.body = some (bytes, size) ∧
      ∀ checksums source destination,
        decompressBody checksums source destination (canCompressLowPanNhc p.header.nextHeader)
          (if canCompressLowPanNhc p.header.nextHeader then 0 else p.header.nextHeader) bytes =
        .ok (p.header.nextHeader, restoreBody checksums omitUdpChecksum source destination p.body) := by
  unfold BodyMatches at matches_
  unfold compressBody restoreBody
  cases body : p.body with
  | udp u payload =>
    rw [body] at matches_
    dsimp only at matches_ ⊢
    rw [matches_, if_pos rfl]
    refine ⟨_, _, rfl, fun checksums source destination => ?_⟩
    have can : canCompressLowPanNhc ipv6Udp = true := rfl
    have reads := (compressLowPanUdpNhc omitUdpChecksum u).deserialize_reads payload
    unfold decompressBody
    rw [can, if_pos rfl, if_pos (serialize_dispatch _ _), reads]
    dsimp only
    rw [decompressLowPanUdpNhc_decoded]
  | raw bytes =>
    rw [body] at matches_
    rw [matches_]
    exact ⟨_, _, rfl, fun _ _ _ => rfl⟩

/-! ## Packets -/

/-- The UDP header and the payload come back; an omitted checksum is computed again. -/
def BodyRestores (omitUdpChecksum : Bool) : Body → Body → Prop
  | .udp u payload, .udp v payload' =>
    v.sourcePort = u.sourcePort ∧ v.destinationPort = u.destinationPort ∧
      (omitUdpChecksum = false → v.checksum = u.checksum) ∧ payload' = payload
  | .raw bytes, .raw bytes' => bytes' = bytes
  | _, _ => False

/-- The packet comes back, with a length of its own. -/
structure Restores (omitUdpChecksum : Bool) (p q : Ipv6Packet) : Prop where
  header : q.header = { p.header with payloadLength := q.header.payloadLength }
  body : BodyRestores omitUdpChecksum p.body q.body

section

variable (t : ContextTable) (now later : Time) (omitUdpChecksum : Bool) (checksums : Checksums)
  (src dst : LinkAddress) (p : Ipv6Packet)

/-- Whatever the arrays held before, the packet is compressed and comes back. -/
def Lossless : Prop := ∀ memory, ∃ bytes size q,
  compressLowPanIphc t now omitUdpChecksum memory src dst p = some (bytes, size) ∧
    decompressLowPanIphc t later checksums src dst bytes = .ok q ∧ Restores omitUdpChecksum p q

/-- A checksum that is sent comes back where checksums are computed. -/
def ChecksumRestored : Prop :=
  match p.body with
  | .udp u _ => omitUdpChecksum = true ∨ checksums.enabled = true ∨ u.checksum = 0
  | .raw _ => True

end

variable {t : ContextTable} {now later : Time} {omitUdpChecksum : Bool} {checksums : Checksums}
  {src dst : LinkAddress} {p : Ipv6Packet}

theorem restoreBody_restores (source destination : Ipv6Address) :
    BodyRestores omitUdpChecksum p.body
        (restoreBody checksums omitUdpChecksum source destination p.body) ↔
      ChecksumRestored omitUdpChecksum checksums p := by
  unfold ChecksumRestored
  cases p.body with
  | udp u payload =>
    cases omitUdpChecksum <;> cases enabled : checksums.enabled <;>
      simp [restoreBody, BodyRestores, enabled, eq_comm (a := (0 : UInt16))]
  | raw bytes => simp [restoreBody, BodyRestores]

/-- The multicast destination of a packet has no context. -/
def MulticastCounted (t : ContextTable) (now : Time) (p : Ipv6Packet) : Prop :=
  p.header.destination.isMulticast = true →
    t.findMulticastCompressionContext now p.header.destination = none

/-- **Compression and decompression.** What comes back, when the header has room for the
destination. -/
theorem decompress_compress (later : Time) (omitUdpChecksum : Bool) (checksums : Checksums)
    (flowLabel : p.header.flowLabel < 2 ^ 20) (matches_ : BodyMatches p)
    (counted : MulticastCounted t now p) {s d : AddressEncoding}
    (source : compressSource t now src p.header.source = some s)
    (destination : compressDestination t now dst p.header.destination = some d)
    (memory : Memory) : ∃ bytes size length,
    compressLowPanIphc t now omitUdpChecksum memory src dst p = some (bytes, size) ∧
      decompressLowPanIphc t later checksums src dst bytes = (do
        let source ← decompressSource t later src s.padded
        let destination ←
          decompressDestination t later dst p.header.destination.isMulticast d.padded
        return ⟨⟨p.header.trafficClass,
            if p.header.trafficClass = 0 then p.header.flowLabel
            else p.header.flowLabel % 2 ^ 12,
            length, p.header.nextHeader, p.header.hopLimit, source, destination⟩,
          restoreBody checksums omitUdpChecksum source destination p.body⟩) := by
  obtain ⟨body, size, compressed, decompressed⟩ :=
    decompressBody_compressBody matches_ omitUdpChecksum
  obtain ⟨src_id, src_inline⟩ := source_encoding source
  obtain ⟨dst_id, dst_inline, dst_stateful⟩ := destination_encoding counted destination
  have sized : (encodeHeader p.header s d memory).Sized := by
    apply encodeHeader_sized flowLabel
    · rw [src_inline]
      exact srcSize_le _ _
    · rw [dst_inline]
      exact dstSize_le _ _
  obtain ⟨packet, added, removed⟩ := removeHeader_addHeader sized dst_stateful body
  have done : compressLowPanIphc t now omitUdpChecksum memory src dst p =
      some (packet, 40 + size) := by
    unfold compressLowPanIphc
    simp [compressed, source, destination, added]
  have back : ∀ source destination,
      (restoreBody checksums omitUdpChecksum source destination p.body).getSize =
        p.body.getSize := by
    intro source destination
    cases p.body <;> rfl
  refine ⟨packet, _, p.body.getSize % 2 ^ 16, done, ?_⟩
  unfold decompressLowPanIphc
  rw [removed]
  dsimp only
  rw [source_decoded src_id dst_id src_inline, destination_decoded src_id dst_id dst_inline,
    hopLimit_decoded, decompressTf_decoded]
  cases decompressSource t later src s.padded with
  | error e => rfl
  | ok source' =>
    change (decompressDestination t later dst p.header.destination.isMulticast d.padded >>= _) =
      decompressDestination t later dst p.header.destination.isMulticast d.padded >>= _
    cases decompressDestination t later dst p.header.destination.isMulticast d.padded with
    | error e => rfl
    | ok destination' =>
      have whole := decompressed checksums source' destination'
      change (decompressBody checksums source' destination'
        (canCompressLowPanNhc p.header.nextHeader)
        (if canCompressLowPanNhc p.header.nextHeader then 0 else p.header.nextHeader) body >>=
          _) = _
      rw [whole, ← back source' destination']
      rfl

/-! ## The exact condition -/

/-- A flow label beside a traffic class has no bits in its high byte. -/
def LabelRestored (h : Ipv6Header) : Prop := h.trafficClass = 0 ∨ h.flowLabel < 2 ^ 12

/-- When a packet is compressed without loss: the high byte of the flow label, the addresses with a
context, multicast ones never, and the checksum. -/
structure Kept (t : ContextTable) (now : Time) (omitUdpChecksum : Bool) (checksums : Checksums)
    (src dst : LinkAddress) (p : Ipv6Packet) : Prop where
  label : LabelRestored p.header
  source : SourceRestored t now src p.header.source
  destination : DestinationRestored t now dst p.header.destination
  checksum : ChecksumRestored omitUdpChecksum checksums p

theorem labelRestored_iff (h : Ipv6Header) :
    (if h.trafficClass = 0 then h.flowLabel else h.flowLabel % 2 ^ 12) = h.flowLabel ↔
      LabelRestored h := by
  unfold LabelRestored
  split <;> simp [*]

/-- Arrays filled with one byte. -/
def Memory.filled (b : UInt8) : Memory where
  src := List.replicate 16 b
  dst := List.replicate 16 b
  length_src := List.length_replicate
  length_dst := List.length_replicate

/-- A compressed packet has compressed addresses and a compressed body. -/
theorem of_compressLowPanIphc {memory : Memory} {bytes : List UInt8} {size : Nat}
    (done : compressLowPanIphc t now omitUdpChecksum memory src dst p = some (bytes, size)) :
    ∃ body n s d, compressBody omitUdpChecksum p.header.nextHeader p.body = some (body, n) ∧
      compressSource t now src p.header.source = some s ∧
      compressDestination t now dst p.header.destination = some d ∧
      (encodeHeader p.header s d memory).addHeader body = some bytes := by
  unfold compressLowPanIphc at done
  simp only [Option.bind_eq_bind, Option.bind_eq_some_iff] at done
  obtain ⟨⟨body, n⟩, compressed, s, source, d, destination, packet, added, same⟩ := done
  cases same
  exact ⟨body, n, s, d, compressed, source, destination, added⟩

theorem lossless_of_kept (flowLabel : p.header.flowLabel < 2 ^ 20) (matches_ : BodyMatches p)
    (unexpired : t.Unexpired now later)
    (kept : Kept t now omitUdpChecksum checksums src dst p) :
    Lossless t now later omitUdpChecksum checksums src dst p := by
  have counted : MulticastCounted t now p := by
    intro multicast
    have destination := kept.destination
    unfold DestinationRestored at destination
    rwa [if_pos multicast] at destination
  obtain ⟨s, source, source_back⟩ := (source_restored unexpired).mpr kept.source
  obtain ⟨d, destination, destination_back⟩ :=
    (destination_restored unexpired counted).mpr kept.destination
  intro memory
  obtain ⟨bytes, size, length, compressed, decompressed⟩ := decompress_compress later
    omitUdpChecksum checksums flowLabel matches_ counted source destination memory
  rw [source_back, destination_back] at decompressed
  refine ⟨bytes, size, _, compressed, decompressed, ?_, ?_⟩
  · simp only [(labelRestored_iff p.header).mpr kept.label]
  · exact (restoreBody_restores _ _).mpr kept.checksum

theorem kept_of_lossless (flowLabel : p.header.flowLabel < 2 ^ 20) (matches_ : BodyMatches p)
    (unexpired : t.Unexpired now later) (counted : MulticastCounted t now p)
    (lossless : Lossless t now later omitUdpChecksum checksums src dst p) :
    Kept t now omitUdpChecksum checksums src dst p := by
  obtain ⟨bytes, size, q, compressed, decompressed, restores⟩ := lossless (.filled 0)
  obtain ⟨_, _, s, d, _, source, destination, _⟩ := of_compressLowPanIphc compressed
  obtain ⟨bytes', size', length, compressed', decompressed'⟩ := decompress_compress later
    omitUdpChecksum checksums flowLabel matches_ counted source destination (.filled 0)
  cases compressed.symm.trans compressed'
  rw [decompressed] at decompressed'
  cases source_back : decompressSource t later src s.padded with
  | error e =>
    rw [source_back] at decompressed'
    cases decompressed'
  | ok source' =>
  cases destination_back : decompressDestination t later dst
      p.header.destination.isMulticast d.padded with
  | error e =>
    rw [source_back, destination_back] at decompressed'
    cases decompressed'
  | ok destination' =>
  rw [source_back, destination_back] at decompressed'
  cases decompressed'
  have header := restores.header
  simp only [Ipv6Header.mk.injEq, true_and] at header
  obtain ⟨label, source_same, destination_same⟩ := header
  subst source_same destination_same
  exact ⟨(labelRestored_iff p.header).mp label,
    (source_restored unexpired).mp ⟨s, source, source_back⟩,
    (destination_restored unexpired counted).mp ⟨d, destination, destination_back⟩,
    (restoreBody_restores _ _).mp restores.body⟩

theorem of_decompressLowPanIphc {bytes packet : List UInt8} {encoding : SixLowPanIphc}
    {q : Ipv6Packet} (removed : removeHeader bytes = some (encoding, packet))
    (done : decompressLowPanIphc t later checksums src dst bytes = .ok q) :
    ∃ source destination nextHeader, decompressBody checksums source destination encoding.nh
      encoding.nextHeader packet = .ok (nextHeader, q.body) := by
  unfold decompressLowPanIphc at done
  rw [removed] at done
  dsimp only at done
  generalize decompressSource t later src _ = source at done
  generalize decompressDestination t later dst _ _ = destination at done
  cases source with
  | error e => cases done
  | ok source =>
  cases destination with
  | error e => cases done
  | ok destination =>
  cases body : decompressBody checksums source destination encoding.nh encoding.nextHeader
      packet with
  | error e =>
    simp [bind, Except.bind, body] at done
  | ok last =>
    simp only [bind, Except.bind, body, pure, Except.pure, Except.ok.injEq] at done
    subst done
    exact ⟨source, destination, last.1, body⟩

/-- A byte that the body does not begin with, or none of a compressed header. -/
def Body.foreign : Body → UInt8
  | .udp _ _ => 0
  | .raw p => p.headD 0 + 1

/-- **Multicast contexts.** What the array held before replaces the beginning of the body. -/
theorem not_lossless_of_context (flowLabel : p.header.flowLabel < 2 ^ 20)
    (matches_ : BodyMatches p) (multicast : p.header.destination.isMulticast = true)
    {c : Nat × ContextEntry}
    (found : t.findMulticastCompressionContext now p.header.destination = some c) :
    ¬ Lossless t now later omitUdpChecksum checksums src dst p := by
  intro lossless
  obtain ⟨bytes, size, q, compressed, decompressed, -, same⟩ := lossless (.filled p.body.foreign)
  obtain ⟨body, _, s, d, bodied, source, destination, added⟩ := of_compressLowPanIphc compressed
  have d_eq : d = ⟨true, .inline_, c.1, (p.header.destination.bytes.drop 1).take 2 ++
      p.header.destination.bytes.drop 12⟩ := by
    unfold compressDestination compressMulticast at destination
    rw [if_pos multicast, found] at destination
    exact (Option.some.inj destination).symm
  have six : d.inlinePart.length = 6 := by
    rw [d_eq]
    simp [p.header.destination.length_eq]
  have sized : (encodeHeader p.header s d (.filled p.body.foreign)).Sized := by
    apply encodeHeader_sized flowLabel
    · rw [(source_encoding source).2]
      exact srcSize_le _ _
    · omega
  obtain ⟨-, removed⟩ := removeHeader_of_statefulMulticast sized multicast
    (by rw [d_eq]; rfl) (by rw [d_eq]; rfl) added
  have garbage : (encodeHeader p.header s d (.filled p.body.foreign)).dstInlinePart.drop 6 =
      List.replicate 10 p.body.foreign := by
    change (d.inlinePart ++ (List.replicate 16 p.body.foreign).drop d.inlinePart.length).drop 6 = _
    rw [six, List.drop_left' six]
    rfl
  rw [garbage] at removed
  obtain ⟨source', destination', nextHeader, restored⟩ :=
    of_decompressLowPanIphc removed decompressed
  have nh : (encodeHeader p.header s d (.filled p.body.foreign)).decoded.nh =
      canCompressLowPanNhc p.header.nextHeader := rfl
  rw [nh] at restored
  unfold BodyMatches at matches_
  cases body_eq : p.body with
  | udp u payload =>
    rw [body_eq] at matches_ restored
    rw [matches_] at restored
    cases restored
  | raw x =>
    rw [body_eq] at matches_ restored bodied same
    unfold compressBody at bodied
    rw [matches_] at restored bodied
    cases bodied
    simp only [decompressBody, Bool.false_eq_true, if_false, Except.ok.injEq,
      Prod.mk.injEq] at restored
    rw [← restored.2] at same
    have first := congrArg (·.headD 0) (show _ = body from same)
    change body.headD 0 + 1 = body.headD 0 at first
    exact absurd first (by simp)

/-- **Lossless compression.** A packet comes back exactly when its flow label, its addresses and
its checksum do. -/
theorem lossless_iff_kept (flowLabel : p.header.flowLabel < 2 ^ 20) (matches_ : BodyMatches p)
    (unexpired : t.Unexpired now later) :
    Lossless t now later omitUdpChecksum checksums src dst p ↔
      Kept t now omitUdpChecksum checksums src dst p := by
  constructor
  · intro lossless
    apply kept_of_lossless flowLabel matches_ unexpired _ lossless
    intro multicast
    by_contra present
    obtain ⟨c, found⟩ := Option.ne_none_iff_exists'.mp present
    exact not_lossless_of_context flowLabel matches_ multicast found lossless
  · exact lossless_of_kept flowLabel matches_ unexpired

/-! ## A packet that comes back, and one that does not -/

/-- `2001:db8::/32`, as the only context. -/
def documentationContexts : ContextTable where
  entries := [(1, ⟨⟨[0x20, 0x01, 0x0d, 0xb8] ++ List.replicate 12 0, rfl, 32, by decide,
    by decide⟩, true, 100⟩)]
  ids := by decide
  small := by decide

def plainChecksums : Checksums := ⟨true, fun _ _ _ _ _ => 0⟩

/-- A UDP packet from `2001:db8::ff:fe00:1` to all nodes. -/
def udpPacket (trafficClass : UInt8) (flowLabel : Nat) : Ipv6Packet where
  header :=
    { trafficClass, flowLabel
      payloadLength := 10
      nextHeader := ipv6Udp
      hopLimit := 64
      source := .deserialize [0x20, 0x01, 0x0d, 0xb8, 0, 0, 0, 0, 0, 0, 0, 0xff, 0xfe, 0, 0, 1]
      destination := .deserialize [0xff, 0x02, 0, 0, 0, 0, 0, 0, 0, 0, 0, 0, 0, 0, 0, 1] }
  body := .udp ⟨0xf0b1, 0xf0b2, 0x1234⟩ [7, 8]

theorem lossless_udpPacket : Lossless documentationContexts 1 2 false plainChecksums
    (.mac16 0 9) (.mac16 0 2) (udpPacket 0 0x12345) := by
  have unexpired : documentationContexts.Unexpired 1 2 := by
    unfold ContextTable.Unexpired
    decide
  have matches_ : BodyMatches (udpPacket 0 0x12345) := rfl
  refine (lossless_iff_kept (by decide) matches_ unexpired).mpr ⟨.inl rfl, .inr ?_, ?_, ?_⟩
  · intro c found
    cases found
    exact ⟨by decide, by decide, by decide⟩
  · exact (if_pos rfl).mpr rfl
  · exact .inr (.inl rfl)

/-- The high byte of the flow label is lost beside a traffic class. -/
theorem label_lost : (udpPacket 1 0x12345).header.flowLabel < 2 ^ 20 ∧
    BodyMatches (udpPacket 1 0x12345) ∧
    documentationContexts.Unexpired 1 2 ∧
    ¬ Lossless documentationContexts 1 2 false plainChecksums (.mac16 0 9) (.mac16 0 2)
      (udpPacket 1 0x12345) := by
  have unexpired : documentationContexts.Unexpired 1 2 := by
    unfold ContextTable.Unexpired
    decide
  have matches_ : BodyMatches (udpPacket 1 0x12345) := rfl
  have counted : MulticastCounted documentationContexts 1 (udpPacket 1 0x12345) := fun _ => rfl
  refine ⟨by decide, matches_, unexpired, fun lossless => ?_⟩
  obtain same | small :=
    (kept_of_lossless (by decide) matches_ unexpired counted lossless).label
  · exact absurd same (by decide)
  · exact absurd small (by decide)

end Ns3.SixLowPan
