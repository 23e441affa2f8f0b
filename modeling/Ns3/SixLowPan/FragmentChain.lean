import Ns3.Internet.TcpRxStored
import Ns3.SixLowPan.Fragmentation

/-!
# The fragments of a datagram in order

The fragments stand for a chain of pieces of the uncompressed packet. What is
stored are the pieces that have arrived, in the order of the chain.
-/

namespace Ns3.SixLowPan

open List

open Internet (add32 sub32 createFragment add32_eq sub32_eq)

open Fragments SixLowPanFragN

/-- A packet that is sent in fragments: its compressed headers, the size of what they
stand for, and the rest. -/
structure Datagram where
  l2Mtu : Nat
  extraHdrSize : Nat
  origHdrSize : Nat
  headers : List UInt8
  payload : List UInt8

namespace Datagram

def packet (d : Datagram) : List UInt8 := d.headers ++ d.payload

def origPacketSize (d : Datagram) : Nat := d.origHdrSize + d.payload.length

/-- The packet does not fit in a frame, its compressed headers fit in the first one, and each
frame has room for 8 bytes. The headers are restored whatever follows them. -/
structure WellFormed {A : Type} (decompression : Decompression A) (src dst : A) (d : Datagram) :
    Prop where
  l2Mtu : d.l2Mtu < 2 ^ 16
  large : d.l2Mtu < d.packet.length + d.extraHdrSize
  small : d.packet.length < 2 ^ 16
  origPacketSize : d.origPacketSize ≤ 2047
  headers : SixLowPanFrag1.serializedSize + d.headers.length + d.extraHdrSize ≤ d.l2Mtu
  room : serializedSize + d.extraHdrSize + 8 ≤ d.l2Mtu
  ipv6Header : 40 ≤ d.origHdrSize
  aligned : d.origHdrSize % 8 = 0
  lossless : ∀ data, ∃ original, original.length = d.origHdrSize ∧
    uncompress decompression src dst (d.headers ++ data) = some (.stored ⟨0, original ++ data⟩)

/-- A fragment behind the first one. -/
def next (d : Datagram) (tag : Nat) (x : Segment UInt8) : Fragment :=
  .fragN ⟨d.origPacketSize % 2 ^ 11, tag, x.offset / 8 % 2 ^ 8⟩ x.data

end Datagram

variable {start stop : Nat} {xs : List (Segment UInt8)}

theorem createFragment_eq {p : List UInt8} {length : Nat} (inside : start + length ≤ p.length)
    (small : p.length < 2 ^ 32) : createFragment p start length = (p.drop start).take length := by
  unfold createFragment
  dsimp only
  rw [add32_eq (by omega), sub32_eq inside small, length_drop]
  congr 1
  omega

/-! ## Sending -/

/-- What the fragments behind the first one are cut from `offsetData` on. -/
structure Cut (d : Datagram) (offset offsetData : Nat) (xs : List (Segment UInt8)) : Prop where
  chain : Segment.Chain offset xs d.origPacketSize
  filled : Segment.Filled xs
  aligned : ∀ x ∈ xs, x.offset % 8 = 0
  fits : ∀ x ∈ xs, serializedSize + x.data.length + d.extraHdrSize ≤ d.l2Mtu
  data : xs.flatMap (·.data) = d.packet.drop offsetData

theorem nextFragments_eq {A : Type} {decompression : Decompression A} {src dst : A} {d : Datagram}
    (wellFormed : d.WellFormed decompression src dst) (tag rounds offset offsetData : Nat)
    (enough : d.packet.length < offsetData + rounds) (inside : offsetData ≤ d.packet.length)
    (aligned : offset % 8 = 0) (place : offset + d.packet.length = offsetData + d.origPacketSize) :
    ∃ xs, nextFragments d.l2Mtu tag d.packet d.origPacketSize d.extraHdrSize rounds offset
        offsetData = some (xs.map (d.next tag)) ∧ Cut d offset offsetData xs := by
  have l2Mtu := wellFormed.l2Mtu
  have small := wellFormed.small
  have bound := wellFormed.origPacketSize
  have room := wellFormed.room
  unfold serializedSize at room
  have full : sub32 (sub32 d.l2Mtu serializedSize) d.extraHdrSize =
      d.l2Mtu - 5 - d.extraHdrSize := by
    have inner : sub32 d.l2Mtu serializedSize = d.l2Mtu - 5 :=
      sub32_eq (by unfold serializedSize; omega) (by omega)
    rw [inner, sub32_eq (by omega) (by omega)]
  induction rounds generalizing offset offsetData with
  | zero => omega
  | succ rounds ih =>
    rw [nextFragments, full]
    generalize size_eq : d.l2Mtu - 5 - d.extraHdrSize - (d.l2Mtu - 5 - d.extraHdrSize) % 8 = size
    have size_room : 8 ≤ size ∧ size % 8 = 0 ∧ 5 + size + d.extraHdrSize ≤ d.l2Mtu := by omega
    rw [add32_eq (by omega)]
    by_cases more : offsetData + size ≤ d.packet.length
    · obtain ⟨xs, done, cut⟩ := ih (offset + size) (offsetData + size) (by omega) (by omega)
        (by omega) (by omega)
      let x : Segment UInt8 := ⟨offset, (d.packet.drop offsetData).take size⟩
      have x_length : x.data.length = size := by
        rw [length_take, length_drop]
        omega
      have x_stop : x.stop = offset + size := by rw [Segment.stop, x_length]
      refine ⟨x :: xs, ?_, ⟨⟨rfl, x_stop ▸ cut.chain⟩, ?_, ?_, ?_, ?_⟩⟩
      · have offset_fits : (offset + size) % 2 ^ 16 = offset + size := by omega
        have data_fits : (offsetData + size) % 2 ^ 16 = offsetData + size := by omega
        rw [if_pos more, if_pos (by omega), if_pos more, offset_fits, data_fits, done,
          createFragment_eq more (by omega)]
        rfl
      · intro y mem
        cases mem with
        | head =>
          rw [x_length]
          omega
        | tail _ mem => exact cut.filled y mem
      · intro y mem
        cases mem with
        | head => exact aligned
        | tail _ mem => exact cut.aligned y mem
      · intro y mem
        cases mem with
        | head =>
          rw [x_length]
          exact size_room.2.2
        | tail _ mem => exact cut.fits y mem
      · rw [flatMap_cons, cut.data, ← drop_drop]
        exact take_append_drop size _
    · rw [if_neg more, if_neg more, if_neg more, sub32_eq inside (by omega)]
      by_cases left : 0 < d.packet.length - offsetData
      · let x : Segment UInt8 := ⟨offset, d.packet.drop offsetData⟩
        have x_length : x.data.length = d.packet.length - offsetData := length_drop
        refine ⟨[x], ?_, ⟨⟨rfl, ?_⟩, ?_, ?_, ?_, ?_⟩⟩
        · rw [if_pos left, createFragment_eq (by omega) (by omega),
            take_of_length_le (by rw [length_drop])]
          rfl
        · change x.offset + x.data.length = d.origPacketSize
          rw [x_length]
          change offset + (d.packet.length - offsetData) = d.origPacketSize
          omega
        · intro y mem
          obtain rfl := mem_singleton.mp mem
          rw [x_length]
          exact left
        · intro y mem
          obtain rfl := mem_singleton.mp mem
          exact aligned
        · intro y mem
          obtain rfl := mem_singleton.mp mem
          rw [x_length]
          unfold serializedSize
          omega
        · exact append_nil _
      · rw [if_neg left]
        refine ⟨[], rfl, ⟨?_, nofun, nofun, nofun, ?_⟩⟩
        · change offset = d.origPacketSize
          omega
        · rw [drop_of_length_le (by omega)]
          rfl

/-! ## The pieces -/

variable {A : Type} {decompression : Decompression A} {key : FragmentKey A} {d : Datagram}

/-- What is stored of a fragment. -/
def piece (decompression : Decompression A) (key : FragmentKey A) (f : Fragment) : Segment UInt8 :=
  match f.unpack decompression key.src key.dst with
  | some (.stored x) => x
  | _ => ⟨0, []⟩

/-- The fragments that are sent of a datagram. -/
structure Sent (decompression : Decompression A) (key : FragmentKey A) (d : Datagram)
    (fragments : List Fragment) : Prop where
  unpack : ∀ f ∈ fragments, f.unpack decompression key.src key.dst =
    some (.stored (piece decompression key f))
  keys : ∀ f ∈ fragments, f.key key.src key.dst = key
  fits : ∀ f ∈ fragments, f.getSize + d.extraHdrSize ≤ d.l2Mtu
  size : key.datagramSize = d.origPacketSize ∧ d.origPacketSize < 2 ^ 16
  chain : Segment.Chain 0 (fragments.map (piece decompression key)) d.origPacketSize
  filled : Segment.Filled (fragments.map (piece decompression key))
  first : ∃ header data rest, fragments = .frag1 header data :: rest ∧
    (∀ f ∈ rest, ∀ header data, f ≠ .frag1 header data) ∧
    data ++ rest.flatMap (fun f => (piece decompression key f).data) = d.packet

theorem piece_next {offset offsetData : Nat} (cut : Cut d offset offsetData xs)
    (bound : d.origPacketSize ≤ 2047) (tag : Nat) {x : Segment UInt8} (mem : x ∈ xs) :
    (d.next tag x).unpack decompression key.src key.dst = some (.stored x) := by
  have inside := (cut.chain.bounds.2 x mem).2
  have aligned := cut.aligned x mem
  unfold Segment.stop at inside
  obtain ⟨place, data⟩ := x
  have place_eq : place / 8 % 2 ^ 8 * 8 = place := by
    dsimp only at *
    omega
  unfold Datagram.next Fragment.unpack
  dsimp only
  rw [place_eq]

/-- **The fragments.** Each fits in a frame with the extra headers. -/
theorem Datagram.WellFormed.sent (wellFormed : d.WellFormed decompression key.src key.dst)
    (size : key.datagramSize = d.origPacketSize) :
    ∃ fragments, doFragmentation d.l2Mtu key.datagramTag d.packet d.origPacketSize d.origHdrSize
      d.extraHdrSize = some fragments ∧ Sent decompression key d fragments := by
  have l2Mtu := wellFormed.l2Mtu
  have large := wellFormed.large
  have small := wellFormed.small
  have bound := wellFormed.origPacketSize
  have headers := wellFormed.headers
  have aligned := wellFormed.aligned
  have ipv6Header := wellFormed.ipv6Header
  have origPacketSize : d.origPacketSize = d.origHdrSize + d.payload.length := rfl
  have length : d.packet.length = d.headers.length + d.payload.length := length_append
  have frame := wellFormed.room
  unfold SixLowPanFrag1.serializedSize at headers
  have compressed : sub32 d.packet.length (sub32 d.origPacketSize d.origHdrSize) =
      d.headers.length := by
    have inner : sub32 d.origPacketSize d.origHdrSize = d.payload.length := by
      rw [sub32_eq (by omega) (by omega)]
      omega
    rw [inner, sub32_eq (by omega) (by omega)]
    omega
  have room : sub32 (sub32 (sub32 d.l2Mtu SixLowPanFrag1.serializedSize) d.headers.length)
      d.extraHdrSize = d.l2Mtu - 4 - d.headers.length - d.extraHdrSize := by
    have inner : sub32 d.l2Mtu SixLowPanFrag1.serializedSize = d.l2Mtu - 4 :=
      sub32_eq (by unfold SixLowPanFrag1.serializedSize; omega) (by omega)
    have middle : sub32 (d.l2Mtu - 4) d.headers.length = d.l2Mtu - 4 - d.headers.length :=
      sub32_eq (by omega) (by omega)
    rw [inner, middle, sub32_eq (by omega) (by omega)]
  unfold doFragmentation
  dsimp only
  rw [compressed, room, if_neg (by unfold SixLowPanFrag1.serializedSize; omega)]
  generalize part_eq : d.l2Mtu - 4 - d.headers.length - d.extraHdrSize -
    (d.l2Mtu - 4 - d.headers.length - d.extraHdrSize) % 8 = part
  have part_fits : part % 8 = 0 ∧ 4 + (part + d.headers.length) + d.extraHdrSize ≤ d.l2Mtu := by
    omega
  rw [add32_eq (by omega : part + d.headers.length < 2 ^ 32), add32_eq (by omega),
    sub32_eq (by omega) (by omega)]
  have offset_eq : (part + d.headers.length + d.origHdrSize - d.headers.length) % 2 ^ 16 =
      part + d.origHdrSize := by omega
  have data_eq : (part + d.headers.length) % 2 ^ 16 = part + d.headers.length := by omega
  rw [offset_eq, data_eq]
  obtain ⟨xs, done, cut⟩ := nextFragments_eq wellFormed key.datagramTag (d.packet.length + 1)
    (part + d.origHdrSize) (part + d.headers.length) (by omega) (by omega) (by omega) (by omega)
  rw [done, createFragment_eq (by omega) (by omega), drop_zero]
  have front : d.packet.take (part + d.headers.length) = d.headers ++ d.payload.take part := by
    unfold Datagram.packet
    rw [add_comm, take_length_add_append]
  obtain ⟨original, original_length, restored⟩ := wellFormed.lossless (d.payload.take part)
  rw [front]
  let first : Fragment :=
    .frag1 ⟨d.origPacketSize % 2 ^ 11, key.datagramTag⟩ (d.headers ++ d.payload.take part)
  have first_unpack : first.unpack decompression key.src key.dst =
      some (.stored ⟨0, original ++ d.payload.take part⟩) := restored
  have first_piece : piece decompression key first = ⟨0, original ++ d.payload.take part⟩ := by
    unfold piece
    rw [first_unpack]
  have next_unpack : ∀ x ∈ xs, (d.next key.datagramTag x).unpack decompression key.src key.dst =
      some (.stored x) := fun x mem => piece_next cut bound _ mem
  have next_piece : ∀ x ∈ xs, piece decompression key (d.next key.datagramTag x) = x := by
    intro x mem
    unfold piece
    rw [next_unpack x mem]
  have pieces : (xs.map (d.next key.datagramTag)).map (piece decompression key) = xs := by
    rw [map_map]
    exact (map_congr_left next_piece).trans (map_id xs)
  have part_length : (d.payload.take part).length = part := by
    rw [length_take]
    omega
  have length_eq : (original ++ d.payload.take part).length = part + d.origHdrSize := by
    rw [length_append, original_length, part_length]
    omega
  refine ⟨first :: xs.map (d.next key.datagramTag), rfl, ⟨?_, ?_, ?_, ⟨size, by omega⟩, ?_, ?_, ?_⟩⟩
  · intro f mem
    cases mem with
    | head => rw [first_unpack, first_piece]
    | tail _ mem =>
      obtain ⟨x, x_mem, rfl⟩ := mem_map.mp mem
      rw [next_unpack x x_mem, next_piece x x_mem]
  · have key_eq : (⟨key.src, key.dst, d.origPacketSize % 2 ^ 11, key.datagramTag⟩ :
        FragmentKey A) = key := by rw [Nat.mod_eq_of_lt (by omega), ← size]
    intro f mem
    cases mem with
    | head => exact key_eq
    | tail _ mem =>
      obtain ⟨x, x_mem, rfl⟩ := mem_map.mp mem
      exact key_eq
  · intro f mem
    cases mem with
    | head =>
      change 4 + (d.headers ++ d.payload.take part).length + d.extraHdrSize ≤ d.l2Mtu
      rw [length_append, part_length]
      omega
    | tail _ mem =>
      obtain ⟨x, x_mem, rfl⟩ := mem_map.mp mem
      exact cut.fits x x_mem
  · rw [map_cons, first_piece, pieces]
    refine ⟨rfl, ?_⟩
    change Segment.Chain (0 + _) xs d.origPacketSize
    rw [length_eq, zero_add]
    exact cut.chain
  · rw [map_cons, first_piece, pieces]
    intro x mem
    cases mem with
    | head =>
      rw [length_eq]
      omega
    | tail _ mem => exact cut.filled x mem
  · refine ⟨_, _, _, rfl, ?_, ?_⟩
    · intro f mem header data is
      obtain ⟨x, x_mem, rfl⟩ := mem_map.mp mem
      cases is
    · rw [flatMap_map]
      have datas : xs.flatMap (fun x => (piece decompression key (d.next key.datagramTag x)).data) =
          xs.flatMap (·.data) := flatMap_congr fun x mem => by rw [next_piece x mem]
      simp [datas, cut.data, ← front]

/-! ## What has arrived -/

variable {fragments : List Fragment} {f : Fragment}

theorem addFragment_front {x : Segment UInt8} (before : ∀ y ∈ xs, x.offset < y.offset) :
    addFragment x xs = some (x :: xs) := by
  cases xs with
  | nil => rfl
  | cons y ys => rw [addFragment, if_pos (before y mem_cons_self)]

theorem addFragment_filter {piece : Fragment → Segment UInt8}
    (chain : Segment.Chain start (fragments.map piece) stop)
    (filled : Segment.Filled (fragments.map piece)) {p q : Fragment → Bool}
    (adds : ∀ g, q g = true ↔ g = f ∨ p g = true) (mem : f ∈ fragments) :
    addFragment (piece f) ((fragments.filter p).map piece) =
      some ((fragments.filter q).map piece) := by
  induction fragments generalizing start with
  | nil => cases mem
  | cons g rest ih =>
    obtain ⟨start_eq, later⟩ := chain
    have g_filled := filled (piece g) mem_cons_self
    have rest_filled : Segment.Filled (rest.map piece) :=
      fun x held => filled x (mem_cons_of_mem _ held)
    have behind : ∀ h ∈ rest, (piece g).offset < (piece h).offset := by
      intro h held
      have after := (later.bounds.2 (piece h) (mem_map_of_mem held)).1
      unfold Segment.stop at after
      omega
    by_cases is : g = f
    · have others : rest.filter q = rest.filter p := by
        apply filter_congr
        intro h held
        have after := behind h held
        have other : h ≠ f := by
          rintro rfl
          rw [is] at after
          exact lt_irrefl _ after
        rw [Bool.eq_iff_iff, adds, or_iff_right other]
      rw [filter_cons_of_pos ((adds g).mpr (.inl is)), others, map_cons]
      by_cases there : p g = true
      · rw [filter_cons_of_pos there, map_cons, is, addFragment,
          if_neg (lt_irrefl _), if_pos rfl, if_pos rfl]
      · rw [filter_cons_of_neg there, is]
        apply addFragment_front
        intro y held
        obtain ⟨h, h_mem, rfl⟩ := mem_map.mp held
        rw [← is]
        exact behind h (mem_of_mem_filter h_mem)
    · have f_mem : f ∈ rest := by
        cases mem with
        | head => exact absurd rfl is
        | tail _ held => exact held
      have after := behind f f_mem
      have added := ih later rest_filled f_mem
      by_cases there : p g = true
      · rw [filter_cons_of_pos there,  filter_cons_of_pos ((adds g).mpr (.inr there)),
          map_cons, map_cons, addFragment, if_neg (by omega),
          if_neg (by omega), added]
        rfl
      · rw [filter_cons_of_neg there, filter_cons_of_neg fun now => ((adds g).mp now).elim is there,
          added]

theorem reaches_filter {piece : Fragment → Segment UInt8}
    (chain : Segment.Chain start (fragments.map piece) stop)
    (filled : Segment.Filled (fragments.map piece)) (small : stop < 2 ^ 16) (p : Fragment → Bool) :
    reaches stop start ((fragments.filter p).map piece) = true ↔ ∀ f ∈ fragments, p f = true := by
  induction fragments generalizing start with
  | nil =>
    obtain rfl : start = stop := chain
    exact iff_of_true (decide_eq_true rfl) nofun
  | cons g rest ih =>
    obtain ⟨rfl, later⟩ := chain
    have g_filled := filled (piece g) mem_cons_self
    have grows := later.bounds
    have stop_eq : (piece g).stop = (piece g).offset + (piece g).data.length := rfl
    by_cases there : p g = true
    · have next : max (piece g).offset (((piece g).data.length + (piece g).offset) % 2 ^ 16) =
          (piece g).stop := by omega
      rw [filter_cons_of_pos there, map_cons, reaches, if_neg (lt_irrefl _), next,
        ih later fun x held => filled x (mem_cons_of_mem _ held), forall_mem_cons]
      exact ⟨fun all => ⟨there, all⟩, And.right⟩
    · rw [filter_cons_of_neg there]
      apply iff_of_false _ fun all => there (all g mem_cons_self)
      cases left : rest.filter p with
      | nil =>
        rw [map_nil, reaches, decide_eq_true_iff]
        omega
      | cons h others =>
        have held : h ∈ rest := mem_of_mem_filter (left ▸ mem_cons_self)
        have after := (grows.2 (piece h) (mem_map_of_mem held)).1
        rw [map_cons, reaches, if_pos (by omega)]
        exact Bool.false_ne_true

theorem addAtEnd_chain (chain : Segment.Chain start xs stop) (small : stop < 2 ^ 16)
    (p : List UInt8) :
    addAtEnd start p xs = some (p ++ xs.flatMap (·.data)) := by
  induction xs generalizing start p with
  | nil => rw [addAtEnd, flatMap_nil, append_nil]
  | cons x xs ih =>
    obtain ⟨rfl, later⟩ := chain
    have grows := later.bounds.1
    have next : (x.offset + x.data.length) % 2 ^ 16 = x.stop :=
      Nat.mod_eq_of_lt (lt_of_le_of_lt grows small)
    rw [addAtEnd, if_neg (lt_irrefl _), next, ih later, flatMap_cons, append_assoc]

end Ns3.SixLowPan
