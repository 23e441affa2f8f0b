import Ns3.Internet.Ipv6ExtensionHeader

/-!
# Reassembly of IPv6 packets

The fragments carry the headers of the unfragmentable part in reverse, the
last one leading to the fragment header, and this is how they are reassembled.
-/

namespace Ns3.Internet.Ipv6ExtensionFragment

open List Function Ipv6ExtensionFragmentHeader Segment
open Ipv6Header hiding serializedSize

/-- A packet that is sent in fragments. -/
structure Datagram where
  nextHeader : UInt8
  headers : List Ipv6ExtensionHeader
  payload : List UInt8
  maxFragmentSize : Nat

/-- The bytes of headers in order. -/
def bytes (headers : List Ipv6ExtensionHeader) : List UInt8 :=
  headers.flatMap Ipv6ExtensionHeader.serialize

/-- The headers follow each other up to the end of the unfragmentable part. -/
def Linked (nextHeader : UInt8) (payload : List UInt8) : List Ipv6ExtensionHeader → Prop
  | [] => moreHeader nextHeader payload = false
  | h :: headers => moreHeader nextHeader (bytes (h :: headers) ++ payload) = true ∧
      h.WellFormed nextHeader ∧ Linked h.nextHeader payload headers

/-- The next header behind the headers. -/
def lastHeader (nextHeader : UInt8) : List Ipv6ExtensionHeader → UInt8
  | [] => nextHeader
  | h :: headers => lastHeader h.nextHeader headers

/-- The last header leads to the fragment header. -/
def marked : List Ipv6ExtensionHeader → List Ipv6ExtensionHeader
  | [] => []
  | [h] => [{ h with nextHeader := extFragmentation }]
  | h :: headers => h :: marked headers

namespace Datagram

def packet (d : Datagram) : List UInt8 := bytes d.headers ++ d.payload

/-- Where the fragment header stands. -/
def position (d : Datagram) : Nat := (bytes d.headers).length

/-- What stands before the fragment header. -/
def unfragmentable (d : Datagram) : List UInt8 := bytes (marked d.headers).reverse

/-- Room for 8 bytes of the payload, and a position that `Process` is told in 8 bits. -/
structure WellFormed (d : Datagram) : Prop where
  linked : Linked d.nextHeader d.payload d.headers
  size : d.packet.length < 2 ^ 16
  room : Ipv6Header.serializedSize + d.position + serializedSize + 8 ≤ d.maxFragmentSize
  maxFragmentSize : d.maxFragmentSize < 2 ^ 32
  position : d.position < 2 ^ 8

end Datagram

/-! ## Headers -/

variable {nextHeader : UInt8} {payload : List UInt8} {headers : List Ipv6ExtensionHeader}

theorem bytes_cons (h : Ipv6ExtensionHeader) (headers : List Ipv6ExtensionHeader) :
    bytes (h :: headers) = h.serialize ++ bytes headers := flatMap_cons

theorem marked_cons (h : Ipv6ExtensionHeader) (nonempty : headers ≠ []) :
    marked (h :: headers) = h :: marked headers := by
  cases headers with
  | nil => exact absurd rfl nonempty
  | cons => rfl

theorem addHeaders_eq (headers : List Ipv6ExtensionHeader)
    (fragmentHeader : Ipv6ExtensionFragmentHeader) (fragment : List UInt8) :
    addHeaders headers fragmentHeader fragment =
      bytes headers.reverse ++ (fragmentHeader.serialize ++ fragment) := by
  unfold addHeaders
  generalize fragmentHeader.serialize ++ fragment = tail
  induction headers generalizing tail with
  | nil => rfl
  | cons h headers ih =>
    rw [foldl_cons, ih, reverse_cons, bytes, bytes, flatMap_append]
    simp

theorem length_bytes_reverse (headers : List Ipv6ExtensionHeader) :
    (bytes headers.reverse).length = (bytes headers).length := by
  exact (headers.reverse_perm.flatMap_right _).length_eq

theorem length_bytes_marked (headers : List Ipv6ExtensionHeader) :
    (bytes (marked headers)).length = (bytes headers).length := by
  induction headers with
  | nil => rfl
  | cons h headers ih =>
    cases headers with
    | nil =>
      obtain ⟨nextHeader, length, body⟩ := h
      cases body with
      | options => rfl
      | looseRouting => rfl
    | cons next headers =>
      simp [marked_cons h (cons_ne_nil _ _), bytes_cons, bytes_cons, ih]

theorem Linked.size (linked : Linked nextHeader payload headers) :
    ((marked headers).map Ipv6ExtensionHeader.getLength).sum = (bytes headers).length := by
  induction headers generalizing nextHeader with
  | nil => rfl
  | cons h headers ih =>
    obtain ⟨-, wellFormed, rest⟩ := linked
    rw [bytes_cons, length_append, (Ipv6ExtensionHeader.length_serialize wellFormed).1]
    cases headers with
    | nil => rfl
    | cons next headers =>
      simp [marked_cons h (cons_ne_nil _ _), ih rest]

theorem unfragmentablePart_eq (linked : Linked nextHeader payload headers) (nonempty : headers ≠ [])
    (rounds : Nat) (enough : headers.length < rounds) :
    unfragmentablePart rounds nextHeader (bytes headers ++ payload) =
      some (marked headers, lastHeader nextHeader headers, payload) := by
  induction headers generalizing nextHeader rounds with
  | nil => exact absurd rfl nonempty
  | cons h headers ih =>
    obtain ⟨-, wellFormed, rest⟩ := linked
    cases rounds with
    | zero => exact absurd enough (Nat.not_lt_zero _)
    | succ rounds =>
      rw [unfragmentablePart, bytes_cons, append_assoc,
        Ipv6ExtensionHeader.removeHeader_serialize wellFormed]
      dsimp only [Option.bind_eq_bind, Option.bind_some]
      cases headers with
      | nil =>
        rw [show bytes [] = [] from rfl, nil_append, if_neg (Bool.eq_false_iff.mp rest)]
        rfl
      | cons next headers =>
        have more := ih rest (cons_ne_nil _ _) rounds (Nat.lt_of_succ_lt_succ enough)
        rw [if_pos rest.1, more]
        rfl

/-! ## Fragments -/

namespace Datagram

/-- The header of the fragment with a piece of the payload. -/
def fragmentHeader (d : Datagram) (identification : UInt32) (x : Segment UInt8) :
    Ipv6ExtensionFragmentHeader :=
  (setOffset
    { nextHeader := lastHeader d.nextHeader d.headers, identification } x.offset).setMoreFragment
      (x.stop < d.payload.length)

def fragment (d : Datagram) (identification : UInt32) (x : Segment UInt8) : List UInt8 :=
  d.unfragmentable ++ ((d.fragmentHeader identification x).serialize ++ x.data)

/-- The pieces of the payload that the fragments carry. -/
structure Cut (d : Datagram) (pieces : List (Segment UInt8)) : Prop where
  chain : Chain 0 pieces d.payload.length
  of : ∀ x ∈ pieces, Of d.payload x
  aligned : ∀ x ∈ pieces, x.offset % 8 = 0
  filled : d.payload ≠ [] → Filled pieces
  nonempty : pieces ≠ []
  single : d.payload = [] → pieces.length = 1

end Datagram

theorem fragmentsFrom_eq (d : Datagram) (identification : UInt32)
    (small : d.payload.length < 2 ^ 16) (size : Nat) (room : 8 ≤ size) (bound : size < 2 ^ 32)
    (rounds offset : Nat) (enough : d.payload.length < offset + rounds)
    (inside : offset ≤ d.payload.length) (aligned : offset % 8 = 0)
    (split : offset = 0 ∨ size < d.payload.length) :
    ∃ pieces, fragmentsFrom (marked d.headers) (lastHeader d.nextHeader d.headers) identification
        d.payload size rounds offset = some (pieces.map (d.fragment identification)) ∧
      Chain offset pieces d.payload.length ∧
      (∀ x ∈ pieces, Of d.payload x ∧ x.offset % 8 = 0) ∧
      (offset < d.payload.length → Filled pieces) ∧ pieces ≠ [] ∧
      (d.payload.length ≤ offset + size → pieces.length = 1) := by
  induction rounds generalizing offset with
  | zero => omega
  | succ rounds ih =>
    rw [fragmentsFrom]
    by_cases more : offset + size < d.payload.length
    · have flag : decide ((offset + size) % 2 ^ 32 < d.payload.length) = true := by
        rw [decide_eq_true_iff]
        omega
      have step : (offset + (size - size % 8)) % 2 ^ 16 = offset + (size - size % 8) := by omega
      obtain ⟨pieces, done, chain, of, filled, -, -⟩ :=
        ih (offset + (size - size % 8)) (by omega) (by omega) (by omega) (.inr (by omega))
      let x : Segment UInt8 := part ⟨0, d.payload⟩ offset (size - size % 8)
      have x_inside : offset + (size - size % 8) ≤ d.payload.length := by omega
      have x_offset : x.offset = offset := Nat.zero_add _
      have x_length : x.data.length = size - size % 8 := length_part x_inside
      have x_stop : x.stop = offset + (size - size % 8) := by rw [stop, x_offset, x_length]
      refine ⟨x :: pieces, ?_, ⟨x_offset, ?_⟩, ?_, ?_, cons_ne_nil _ _, by omega⟩
      · rw [flag, if_pos rfl, if_pos rfl, step, done, addHeaders_eq, map_cons,
          Datagram.fragment, Datagram.fragmentHeader, x_stop, x_offset,
          decide_eq_true (show offset + (size - size % 8) < d.payload.length by omega)]
        rfl
      · rw [x_stop]
        exact chain
      · intro y mem
        cases mem with
        | head => exact ⟨Of.all.part x_inside, x_offset ▸ aligned⟩
        | tail _ mem => exact of y mem
      · intro _ y mem
        cases mem with
        | head =>
          rw [x_length]
          omega
        | tail _ mem => exact filled (by omega) y mem
    · have flag : decide ((offset + size) % 2 ^ 32 < d.payload.length) = false := by
        rw [decide_eq_false_iff_not]
        omega
      let x : Segment UInt8 := part ⟨0, d.payload⟩ offset (d.payload.length - offset)
      have x_inside : offset + (d.payload.length - offset) ≤ d.payload.length := by omega
      have x_offset : x.offset = offset := Nat.zero_add _
      have x_length : x.data.length = d.payload.length - offset := length_part x_inside
      have x_stop : x.stop = d.payload.length := by
        rw [stop, x_offset, x_length]
        omega
      refine ⟨[x], ?_, ⟨x_offset, x_stop⟩, ?_, ?_, cons_ne_nil _ _, fun _ => rfl⟩
      · rw [flag, if_neg Bool.false_ne_true, if_neg Bool.false_ne_true, addHeaders_eq,
          map_singleton, Datagram.fragment, Datagram.fragmentHeader, x_stop, x_offset,
          decide_eq_false (Nat.lt_irrefl _)]
        rfl
      · intro y mem
        obtain rfl := mem_singleton.mp mem
        exact ⟨Of.all.part x_inside, x_offset ▸ aligned⟩
      · intro before y mem
        obtain rfl := mem_singleton.mp mem
        rw [x_length]
        omega

theorem length_le_bytes (linked : Linked nextHeader payload headers) :
    headers.length ≤ (bytes headers).length := by
  induction headers generalizing nextHeader with
  | nil => exact Nat.zero_le _
  | cons h headers ih =>
    obtain ⟨-, wellFormed, rest⟩ := linked
    have here := (Ipv6ExtensionHeader.length_serialize wellFormed).1
    have below := ih rest
    rw [bytes_cons, length_append, length_cons]
    unfold Ipv6ExtensionHeader.getLength at here
    omega

theorem splitPacket_eq (linked : Linked nextHeader payload headers) :
    splitPacket (bytes headers ++ payload) nextHeader =
      some (marked headers, lastHeader nextHeader headers, payload) := by
  have rounds := length_le_bytes linked
  unfold splitPacket
  cases headers with
  | nil =>
    rw [show bytes [] = [] from rfl, nil_append, if_neg (Bool.eq_false_iff.mp linked)]
    rfl
  | cons h headers =>
    rw [if_pos linked.1]
    apply unfragmentablePart_eq linked (cons_ne_nil _ _)
    rw [length_append]
    omega

theorem getFragments_eq {d : Datagram} (wellFormed : d.WellFormed) (ipv6Header : Ipv6Header)
    (next : ipv6Header.nextHeader = d.nextHeader) (identification : UInt32) :
    ∃ pieces fragments, d.Cut pieces ∧
      getFragments d.packet ipv6Header d.maxFragmentSize identification = some fragments ∧
      fragments.map (·.packet) = pieces.map (d.fragment identification) ∧
      ∀ f ∈ fragments, f.header.source = ipv6Header.source := by
  have room := wellFormed.room
  have size := wellFormed.size
  have linked := wellFormed.linked
  have bound := wellFormed.maxFragmentSize
  unfold Datagram.position at room
  unfold Datagram.packet at *
  rw [length_append] at size
  have fragmentable : (d.maxFragmentSize + 2 ^ 33 - Ipv6Header.serializedSize -
      (bytes d.headers).length - serializedSize) % 2 ^ 32 =
      d.maxFragmentSize - (bytes d.headers).length - 48 := by
    unfold Ipv6Header.serializedSize serializedSize at *
    omega
  unfold Ipv6Header.serializedSize serializedSize at room
  obtain ⟨pieces, done, chain, of, filled, nonempty, single⟩ := fragmentsFrom_eq d identification
    (by omega) (d.maxFragmentSize - (bytes d.headers).length - 48) (by omega) (by omega)
    (d.payload.length + 1) 0 (by omega) (by omega) rfl (.inl rfl)
  have cut : d.Cut pieces := by
    refine ⟨chain, fun x mem => (of x mem).1, fun x mem => (of x mem).2, ?_, nonempty, ?_⟩
    · exact fun some_bytes => filled (length_pos_of_ne_nil some_bytes)
    · intro empty
      apply single
      rw [empty]
      exact Nat.zero_le _
  unfold getFragments
  dsimp only
  rw [next, splitPacket_eq linked, Option.bind_eq_bind, Option.bind_some]
  dsimp only
  rw [linked.size, fragmentable, done]
  refine ⟨pieces, _, cut, rfl, ?_, ?_⟩
  · rw [map_map]
    exact map_id _
  · intro f mem
    obtain ⟨packet, -, rfl⟩ := mem_map.mp mem
    rfl

/-! ## What has arrived -/

variable {d : Datagram} {pieces xs : List (Segment UInt8)} {x : Segment UInt8}

/-- A piece is added, the first with what stands before it. -/
def addPiece (d : Datagram) (fs : Fragments) (x : Segment UInt8) : Fragments :=
  (if x.offset = 0 then fs.setUnfragmentablePart d.unfragmentable else fs).addFragment x
    (x.stop < d.payload.length)

def added (d : Datagram) (xs : List (Segment UInt8)) : Fragments := xs.foldl (addPiece d) {}

theorem added_append : added d (xs ++ [x]) = addPiece d (added d xs) x := by
  unfold added
  rw [foldl_append]
  rfl

theorem addPiece_packetFragments (fs : Fragments) :
    (addPiece d fs x).packetFragments = insert x fs.packetFragments := by
  unfold addPiece Fragments.addFragment Fragments.setUnfragmentablePart
  split
  · rfl
  · rfl

theorem addPiece_moreFragment (fs : Fragments) : (addPiece d fs x).moreFragment =
      if fs.packetFragments.all (·.offset ≤ x.offset) then decide (x.stop < d.payload.length)
      else fs.moreFragment := by
  unfold addPiece Fragments.addFragment Fragments.setUnfragmentablePart
  split
  · rfl
  · rfl

theorem addPiece_unfragmentable (fs : Fragments) : (addPiece d fs x).unfragmentable =
      if x.offset = 0 then some d.unfragmentable else fs.unfragmentable := by
  unfold addPiece Fragments.addFragment Fragments.setUnfragmentablePart
  split
  · rfl
  · rfl

theorem added_perm : (added d xs).packetFragments.Perm xs := by
  induction xs using List.reverseRecOn with
  | nil => exact .refl _
  | append_singleton xs x ih =>
    rw [added_append, addPiece_packetFragments]
    apply (perm_insert _ _).trans
    exact (ih.cons _).trans (perm_append_singleton _ _).symm

theorem added_ordered : Ordered (added d xs).packetFragments := by
  induction xs using List.reverseRecOn with
  | nil => exact .nil
  | append_singleton xs x ih =>
    rw [added_append, addPiece_packetFragments]
    exact ih.insert x

theorem added_unfragmentable (mem : x ∈ xs) (first : x.offset = 0) :
    (added d xs).unfragmentable = some d.unfragmentable := by
  induction xs using List.reverseRecOn with
  | nil => cases mem
  | append_singleton xs y ih =>
    rw [added_append, addPiece_unfragmentable]
    split
    case isTrue => rfl
    case isFalse later =>
      cases mem_append.mp mem with
      | inl held => exact ih held
      | inr is =>
        obtain rfl := mem_singleton.mp is
        exact absurd first later

theorem checkOffsets_iff {e : Nat} (fits : ∀ x ∈ xs, x.stop < 2 ^ 16) :
    Fragments.checkOffsets e xs ↔ ∃ b, Chain e xs b := by
  induction xs generalizing e with
  | nil => exact iff_of_true rfl ⟨e, rfl⟩
  | cons x xs ih =>
    have x_fits := fits x mem_cons_self
    have rest := fun e => ih (e := e) fun y mem => fits y (mem_cons_of_mem _ mem)
    unfold stop at x_fits
    rw [Fragments.checkOffsets]
    by_cases joins : e = x.offset
    · rw [if_neg (not_not_intro joins), joins, Nat.mod_eq_of_lt x_fits]
      exact (rest x.stop).trans ⟨fun ⟨b, chain⟩ => ⟨b, rfl, chain⟩, fun ⟨b, chain⟩ => ⟨b, chain.2⟩⟩
    · rw [if_pos joins]
      exact iff_of_false Bool.false_ne_true fun ⟨b, chain⟩ => joins chain.1.symm

namespace Datagram.Cut

variable (cut : d.Cut pieces)
include cut

theorem stop_mono {y : Segment UInt8} (mem : x ∈ pieces) (other : y ∈ pieces)
    (le : x.offset ≤ y.offset) : x.stop ≤ y.stop := by
  by_cases empty : d.payload = []
  · have x_stop := (cut.of x mem).stop_le
    have length : d.payload.length = 0 := by
      rw [empty]
      rfl
    omega
  · exact cut.chain.stop_mono (cut.filled empty) mem other le

/-- The flag is cleared by the piece that ends the payload, and by no other. -/
theorem moreFragment (sub : ∀ x ∈ xs, x ∈ pieces) (nonempty : xs ≠ []) :
    (added d xs).moreFragment = false ↔ ∃ x ∈ xs, x.stop = d.payload.length := by
  induction xs using List.reverseRecOn with
  | nil => exact absurd rfl nonempty
  | append_singleton xs x ih =>
    have x_mem := sub x (mem_append_right _ (mem_singleton_self x))
    have x_stop := (cut.of x x_mem).stop_le
    have held : ∀ y ∈ xs, y ∈ pieces := fun y mem => sub y (mem_append_left _ mem)
    rw [added_append, addPiece_moreFragment]
    split
    case isTrue highest =>
      rw [decide_eq_false_iff_not]
      constructor
      · intro ends
        exact ⟨x, mem_append_right _ (mem_singleton_self x), by omega⟩
      · rintro ⟨y, mem, ends⟩
        cases mem_append.mp mem with
        | inl mem =>
          have le := all_eq_true.mp highest y (added_perm.mem_iff.mpr mem)
          have below := cut.stop_mono (held y mem) x_mem (of_decide_eq_true le)
          omega
        | inr is =>
          obtain rfl := mem_singleton.mp is
          omega
    case isFalse below =>
      simp only [all_eq_true, not_forall, decide_eq_true_iff, Nat.not_le] at below
      obtain ⟨y, stored, lower⟩ := below
      have y_mem := added_perm.mem_iff.mp stored
      rw [ih held (ne_nil_of_mem y_mem)]
      constructor
      · rintro ⟨z, mem, ends⟩
        exact ⟨z, mem_append_left _ mem, ends⟩
      · rintro ⟨z, mem, ends⟩
        cases mem_append.mp mem with
        | inl mem => exact ⟨z, mem, ends⟩
        | inr is =>
          obtain rfl := mem_singleton.mp is
          have above := cut.stop_mono x_mem (held y y_mem) (Nat.le_of_lt lower)
          have y_stop := (cut.of y (held y y_mem)).stop_le
          exact ⟨y, y_mem, by omega⟩

/-- The pieces stand in order exactly when each has arrived once. -/
theorem isEntire_iff (small : d.payload.length < 2 ^ 16) (sub : ∀ x ∈ xs, x ∈ pieces)
    (nonempty : xs ≠ []) (single : d.payload = [] → xs.length = 1) :
    (added d xs).isEntire ↔ xs.Perm pieces := by
  have fits : ∀ x ∈ (added d xs).packetFragments, x.stop < 2 ^ 16 := fun x mem =>
    Nat.lt_of_le_of_lt (cut.of x (sub x (added_perm.mem_iff.mp mem))).stop_le small
  have stored : (added d xs).packetFragments.isEmpty = false := by
    rw [isEmpty_eq_false_iff]
    intro none_stored
    exact nonempty (perm_nil.mp (none_stored ▸ added_perm.symm))
  unfold Fragments.isEntire
  rw [stored, Bool.not_false, Bool.and_true, Bool.and_eq_true, Bool.not_eq_true',
    cut.moreFragment sub nonempty, checkOffsets_iff fits]
  by_cases empty : d.payload = []
  · -- one piece, and it is the only one there is
    obtain ⟨x, rfl⟩ := length_eq_one_iff.mp (single empty)
    obtain ⟨y, rfl⟩ := length_eq_one_iff.mp (cut.single empty)
    obtain rfl := mem_singleton.mp (sub x (mem_singleton_self x))
    have only : (added d [x]).packetFragments = [x] := addPiece_packetFragments _
    apply iff_of_true _ (.refl _)
    rw [only]
    exact ⟨⟨x, mem_singleton_self x, cut.chain.2⟩, _, cut.chain⟩
  · have filled := cut.filled empty
    constructor
    · rintro ⟨⟨x, mem, ends⟩, b, chain⟩
      have b_eq : b = d.payload.length := by
        obtain ⟨y, held, stop⟩ := chain.exists_stop (isEmpty_eq_false_iff.mp stored)
        have above := (chain.bounds.2 x (added_perm.mem_iff.mpr mem)).2
        have y_stop := (cut.of y (sub y (added_perm.mem_iff.mp held))).stop_le
        omega
      rw [b_eq] at chain
      rw [← cut.chain.eq_of_subset filled chain fun x held => sub x (added_perm.mem_iff.mp held)]
      exact added_perm.symm
    · intro perm
      have arranged : (added d xs).packetFragments.Perm pieces := added_perm.trans perm
      have same := cut.chain.eq_of_perm filled added_ordered arranged
      obtain ⟨x, mem, ends⟩ := cut.chain.exists_stop cut.nonempty
      refine ⟨⟨x, perm.mem_iff.mpr mem, ends⟩, d.payload.length, ?_⟩
      rw [same]
      exact cut.chain

/-- The pieces join to the payload behind the headers of the fragments. -/
theorem getPacket (perm : xs.Perm pieces) :
    (added d xs).getPacket = some (d.unfragmentable ++ d.payload) := by
  have same : (added d xs).packetFragments = pieces := by
    by_cases empty : d.payload = []
    · obtain ⟨y, rfl⟩ := length_eq_one_iff.mp (cut.single empty)
      exact perm_singleton.mp (added_perm.trans perm)
    · exact cut.chain.eq_of_perm (cut.filled empty) added_ordered (added_perm.trans perm)
  have first : ∃ x ∈ pieces, x.offset = 0 := by
    have chain := cut.chain
    cases pieces with
    | nil => exact absurd rfl cut.nonempty
    | cons x pieces => exact ⟨x, mem_cons_self, chain.1⟩
  obtain ⟨x, mem, start⟩ := first
  unfold Fragments.getPacket
  rw [added_unfragmentable (perm.mem_iff.mpr mem) start, same]
  have joined := cut.chain.join cut.of d.unfragmentable (Nat.zero_le _)
  rw [take_zero, append_nil, take_length] at joined
  exact congrArg some joined

end Datagram.Cut

/-! ## Processing -/

theorem fragmentHeader_fields (identification : UInt32) (aligned : x.offset % 8 = 0) :
    (d.fragmentHeader identification x).offset =
      x.offset + (decide (x.stop < d.payload.length)).toNat ∧
    (d.fragmentHeader identification x).getOffset = x.offset ∧
    (d.fragmentHeader identification x).getMoreFragment = decide (x.stop < d.payload.length) := by
  unfold Datagram.fragmentHeader getOffset
    getMoreFragment setMoreFragment
    setOffset
  dsimp only
  cases decide (x.stop < d.payload.length) with
  | true =>
    rw [Bool.toNat_true]
    refine ⟨by omega, by omega, ?_⟩
    rw [decide_eq_true_iff]
    omega
  | false =>
    rw [Bool.toNat_false]
    refine ⟨by omega, by omega, ?_⟩
    rw [decide_eq_false_iff_not]
    omega

theorem length_unfragmentable (d : Datagram) : d.unfragmentable.length = d.position := by
  unfold Datagram.unfragmentable Datagram.position
  rw [length_bytes_reverse, length_bytes_marked]

theorem process_fragment (cut : d.Cut pieces) (small : d.payload.length < 2 ^ 16)
    (mem : x ∈ pieces) (m : FragmentMap) (key : FragmentKey) {ipv6Header : Ipv6Header}
    (source : ipv6Header.source = key.source) :
    process m (d.fragment key.identification x) d.position ipv6Header =
      if (addPiece d ((m key).getD {}) x).isEntire then
        (addPiece d ((m key).getD {}) x).getPacket.map fun packet =>
          (⟨some packet, lastHeader d.nextHeader d.headers⟩, Function.update m key none)
      else some (⟨none, lastHeader d.nextHeader d.headers⟩,
        Function.update m key (some (addPiece d ((m key).getD {}) x))) := by
  obtain ⟨offset, getOffset, getMoreFragment⟩ :=
    fragmentHeader_fields (d := d) key.identification (cut.aligned x mem)
  have x_stop := (cut.of x mem).stop_le
  have aligned := cut.aligned x mem
  have small_offset : (d.fragmentHeader key.identification x).offset < 2 ^ 16 := by
    have flag := Bool.toNat_le (decide (x.stop < d.payload.length))
    unfold stop at x_stop
    omega
  unfold process Datagram.fragment
  rw [← length_unfragmentable, drop_left, take_left, removeHeader_serialize small_offset]
  dsimp only [Option.bind_eq_bind, Option.bind_some]
  rw [getOffset, getMoreFragment, source]
  change (if (addPiece d ((m key).getD {}) x).isEntire then
    (addPiece d ((m key).getD {}) x).getPacket.bind _ else _) = _
  split
  · cases (addPiece d ((m key).getD {}) x).getPacket with
    | none => rfl
    | some packet => rfl
  · rfl

theorem fragment_injective (cut : d.Cut pieces) (small : d.payload.length < 2 ^ 16)
    {identification : UInt32} {y : Segment UInt8} (mem : x ∈ pieces) (other : y ∈ pieces)
    (same : d.fragment identification x = d.fragment identification y) : x = y := by
  have small_offset : ∀ z ∈ pieces, (d.fragmentHeader identification z).offset < 2 ^ 16 := by
    intro z held
    have fields := fragmentHeader_fields (d := d) identification (cut.aligned z held)
    have flag := Bool.toNat_le (decide (z.stop < d.payload.length))
    have z_stop := (cut.of z held).stop_le
    have aligned := cut.aligned z held
    unfold stop at z_stop
    omega
  have tails := append_cancel_left same
  have left := removeHeader_serialize (small_offset x mem) x.data
  have right := removeHeader_serialize (small_offset y other) y.data
  rw [tails, right] at left
  obtain ⟨header, data⟩ := Prod.mk.inj (Option.some.inj left)
  have x_offset := (fragmentHeader_fields (d := d) identification (cut.aligned x mem)).2.1
  have y_offset := (fragmentHeader_fields (d := d) identification (cut.aligned y other)).2.1
  rw [header, x_offset] at y_offset
  obtain ⟨offset, bytes⟩ := x
  obtain ⟨offset', bytes'⟩ := y
  dsimp only at y_offset data
  rw [y_offset, data]

/-! ## The order of the headers -/

/-- No header, or one that led to a fragment header before. -/
def Datagram.Kept (d : Datagram) : Prop :=
  d.headers = [] ∨ ∃ h, d.headers = [h] ∧ h.nextHeader = extFragmentation

theorem serialize_head (h : Ipv6ExtensionHeader) : ∃ tail, h.serialize = h.nextHeader :: tail := by
  unfold Ipv6ExtensionHeader.serialize
  split
  · exact ⟨_, rfl⟩
  · exact ⟨_, rfl⟩

theorem marked_last (nonempty : headers ≠ []) :
    ∃ before h, marked headers = before ++ [h] ∧ h.nextHeader = extFragmentation := by
  induction headers with
  | nil => exact absurd rfl nonempty
  | cons h headers ih =>
    cases headers with
    | nil => exact ⟨[], _, rfl, rfl⟩
    | cons next headers =>
      obtain ⟨before, last, is, leads⟩ := ih (cons_ne_nil _ _)
      exact ⟨h :: before, last, by rw [marked_cons h (cons_ne_nil _ _), is]; rfl, leads⟩

/-- The first byte of the fragments is that of the last header. -/
theorem unfragmentable_head (nonempty : d.headers ≠ []) :
    ∃ tail, d.unfragmentable = extFragmentation :: tail := by
  obtain ⟨before, h, is, leads⟩ := marked_last nonempty
  obtain ⟨tail, head⟩ := serialize_head h
  refine ⟨tail ++ bytes before.reverse, ?_⟩
  unfold Datagram.unfragmentable
  rw [is, reverse_append, reverse_singleton, singleton_append, bytes_cons, head, leads]
  rfl

theorem moreHeader_ne {p : List UInt8} (more : moreHeader nextHeader p = true) :
    nextHeader ≠ extFragmentation := by
  rintro rfl
  unfold moreHeader at more
  rw [decide_eq_true_iff] at more
  revert more
  simp [extFragmentation, extHopByHop, extRouting,
    extDestination]

/-- The headers are the original ones only when their order and their links are kept. -/
theorem unfragmentable_eq_iff (linked : Linked d.nextHeader d.payload d.headers) :
    d.unfragmentable = bytes d.headers ↔ d.Kept := by
  by_cases none_before : d.headers = []
  · apply iff_of_true _ (.inl none_before)
    unfold Datagram.unfragmentable
    rw [none_before]
    rfl
  · obtain ⟨tail, head⟩ := unfragmentable_head none_before
    obtain ⟨h, headers, is⟩ := exists_cons_of_ne_nil none_before
    rw [is] at linked
    obtain ⟨-, -, rest⟩ := linked
    constructor
    · intro same
      obtain ⟨own, first⟩ := serialize_head h
      rw [head, is, bytes_cons, first] at same
      have leads := (List.cons.inj same).1
      cases headers with
      | nil => exact .inr ⟨h, is, leads.symm⟩
      | cons next headers => exact absurd leads.symm (moreHeader_ne rest.1)
    · rintro (none_there | ⟨only, one, leads⟩)
      · exact absurd none_there none_before
      · unfold Datagram.unfragmentable
        rw [one]
        obtain ⟨nextHeader, length, body⟩ := only
        obtain rfl : nextHeader = extFragmentation := leads
        rfl

/-! ## Runs -/

/-- The packet of each key. -/
abbrev Datagrams := FragmentKey → Datagram

/-- The packets of fragments that came since a packet was last reassembled or given up. -/
abbrev Arrivals := FragmentKey → List (List UInt8)

/-- The IPv6 header before fragmentation. -/
def Datagrams.header (datagrams : Datagrams) (key : FragmentKey) : Ipv6Header :=
  ⟨key.source, (datagrams key).nextHeader, (datagrams key).packet.length⟩

/-- The fragments of all packets arrive in any order, again and again, among timeouts. -/
inductive Run (datagrams : Datagrams) (fragments : FragmentKey → List Ipv6PayloadHeaderPair) :
    FragmentMap → Arrivals → Prop
  | start : Run datagrams fragments (fun _ => none) (fun _ => [])
  | arrive {m m' : FragmentMap} {received : Arrivals} {key : FragmentKey}
      {f : Ipv6PayloadHeaderPair} {outcome : Outcome} : Run datagrams fragments m received →
      f ∈ fragments key →
      process m f.packet (datagrams key).position f.header = some (outcome, m') →
      Run datagrams fragments m' (Function.update received key
        (if outcome.packet.isSome then [] else received key ++ [f.packet]))
  | timeout {m : FragmentMap} {received : Arrivals} (key : FragmentKey) :
      Run datagrams fragments m received →
      Run datagrams fragments (handleFragmentsTimeout m key) (Function.update received key [])

/-- How the packets are cut into fragments. -/
structure Sent (datagrams : Datagrams) (fragments : FragmentKey → List Ipv6PayloadHeaderPair)
    (pieces : FragmentKey → List (Segment UInt8)) : Prop where
  cut : ∀ key, (datagrams key).Cut (pieces key)
  small : ∀ key, (datagrams key).payload.length < 2 ^ 16
  packets : ∀ key, (fragments key).map (·.packet) =
    (pieces key).map ((datagrams key).fragment key.identification)
  source : ∀ key, ∀ f ∈ fragments key, f.header.source = key.source

/-- What is stored are the pieces that arrived. -/
structure Stored (datagrams : Datagrams) (pieces : FragmentKey → List (Segment UInt8))
    (m : FragmentMap) (received : Arrivals) : Prop where
  fragments : ∀ key, ∃ xs, received key = xs.map ((datagrams key).fragment key.identification) ∧
    (∀ x ∈ xs, x ∈ pieces key) ∧ (m key).getD {} = added (datagrams key) xs
  fresh : ∀ key, (datagrams key).payload = [] → received key = []

variable {datagrams : Datagrams} {fragments : FragmentKey → List Ipv6PayloadHeaderPair}
  {pieces : FragmentKey → List (Segment UInt8)} {m : FragmentMap} {received : Arrivals}

theorem Stored.clear (stored : Stored datagrams pieces m received) (key : FragmentKey) :
    Stored datagrams pieces (Function.update m key none) (Function.update received key []) := by
  constructor
  · intro other
    by_cases same : other = key
    · rw [same, update_self, update_self]
      exact ⟨[], rfl, (fun x mem => nomatch mem), rfl⟩
    · rw [update_of_ne same, update_of_ne same]
      exact stored.fragments other
  · intro other empty
    by_cases same : other = key
    · rw [same, update_self]
    · rw [update_of_ne same]
      exact stored.fresh other empty

/-- What an arrival finds and what it leaves. -/
structure Arrival (datagrams : Datagrams) (pieces : FragmentKey → List (Segment UInt8))
    (m : FragmentMap) (received : Arrivals) (key : FragmentKey) (packet : List UInt8)
    (xs : List (Segment UInt8)) (outcome : Outcome) (m' : FragmentMap) : Prop where
  arrived : received key ++ [packet] = xs.map ((datagrams key).fragment key.identification)
  sub : ∀ x ∈ xs, x ∈ pieces key
  nextHeader : outcome.nextHeader = lastHeader (datagrams key).nextHeader (datagrams key).headers
  done : xs.Perm (pieces key) →
    outcome.packet = some ((datagrams key).unfragmentable ++ (datagrams key).payload)
  open_ : ¬ xs.Perm (pieces key) → outcome.packet = none
  stored : Stored datagrams pieces m' (Function.update received key
    (if outcome.packet.isSome then [] else received key ++ [packet]))

theorem Stored.arrive (stored : Stored datagrams pieces m received)
    (sent : Sent datagrams fragments pieces) {key : FragmentKey} {f : Ipv6PayloadHeaderPair}
    (mem : f ∈ fragments key) : ∃ xs outcome m',
      process m f.packet (datagrams key).position f.header = some (outcome, m') ∧
      Arrival datagrams pieces m received key f.packet xs outcome m' := by
  have cut := sent.cut key
  obtain ⟨x, x_mem, is⟩ : ∃ x ∈ pieces key,
      (datagrams key).fragment key.identification x = f.packet := by
    have held := mem_map_of_mem (f := (·.packet)) mem
    rw [sent.packets key] at held
    exact mem_map.mp held
  obtain ⟨xs, before, sub, here⟩ := stored.fragments key
  have arrived : received key ++ [f.packet] =
      (xs ++ [x]).map ((datagrams key).fragment key.identification) := by
    rw [before, map_append, ← is]
    rfl
  have all : ∀ y ∈ xs ++ [x], y ∈ pieces key := by
    intro y y_mem
    cases mem_append.mp y_mem with
    | inl held => exact sub y held
    | inr last =>
      obtain rfl := mem_singleton.mp last
      exact x_mem
  have single : (datagrams key).payload = [] → (xs ++ [x]).length = 1 := by
    intro empty
    have none_before := before.symm.trans (stored.fresh key empty)
    rw [map_eq_nil_iff.mp none_before]
    rfl
  have entire := cut.isEntire_iff (sent.small key) all (append_ne_nil_of_right_ne_nil _
    (cons_ne_nil x [])) single
  refine ⟨xs ++ [x], ?_⟩
  rw [← is, process_fragment cut (sent.small key) x_mem m key (sent.source key f mem), here,
    ← added_append]
  by_cases perm : (xs ++ [x]).Perm (pieces key)
  · rw [if_pos (entire.mpr perm), cut.getPacket perm]
    refine ⟨_, _, rfl, ⟨is ▸ arrived, all, rfl, fun _ => rfl, fun other => absurd perm other, ?_⟩⟩
    exact stored.clear key
  · rw [if_neg fun now => perm (entire.mp now)]
    refine ⟨_, _, rfl, ⟨is ▸ arrived, all, rfl, fun now => absurd now perm, fun _ => rfl, ?_⟩⟩
    rw [if_neg (by simp), is, arrived]
    constructor
    · intro other
      by_cases same : other = key
      · rw [same, update_self, update_self]
        exact ⟨xs ++ [x], rfl, all, rfl⟩
      · rw [update_of_ne same, update_of_ne same]
        exact stored.fragments other
    · intro other empty
      by_cases same : other = key
      · -- the only fragment of an empty payload completes it
        rw [same] at empty
        obtain ⟨y, only⟩ := length_eq_one_iff.mp (cut.single empty)
        obtain ⟨z, one⟩ := length_eq_one_iff.mp (single empty)
        rw [one, only] at all perm
        obtain rfl := mem_singleton.mp (all z (mem_singleton_self z))
        exact absurd (.refl _) perm
      · rw [update_of_ne same]
        exact stored.fresh other empty

theorem Run.stored (sent : Sent datagrams fragments pieces)
    (run : Run datagrams fragments m received) : Stored datagrams pieces m received := by
  induction run with
  | start => exact ⟨fun _ => ⟨[], rfl, (fun x mem => nomatch mem), rfl⟩, fun _ _ => rfl⟩
  | arrive _ mem done ih =>
    obtain ⟨xs, outcome, m', is, arrival⟩ := ih.arrive sent mem
    rw [done] at is
    cases is
    exact arrival.stored
  | timeout key _ ih => exact ih.clear key

/-- Whether all the fragments of a packet are among the arrivals. -/
def Complete (listFragments : List Ipv6PayloadHeaderPair) (arrived : List (List UInt8)) : Prop :=
  ∀ g ∈ listFragments, g.packet ∈ arrived

section

variable (sent : Sent datagrams fragments pieces)
include sent

theorem complete_iff {key : FragmentKey}
    {xs : List (Segment UInt8)} (sub : ∀ x ∈ xs, x ∈ pieces key) :
    Complete (fragments key) (xs.map ((datagrams key).fragment key.identification)) ↔
      ∀ x ∈ pieces key, x ∈ xs := by
  constructor
  · intro complete x mem
    have held := mem_map_of_mem (f := (datagrams key).fragment key.identification) mem
    rw [← sent.packets key] at held
    obtain ⟨g, g_mem, is⟩ := mem_map.mp held
    have came := complete g g_mem
    rw [is] at came
    obtain ⟨y, y_mem, same⟩ := mem_map.mp came
    obtain rfl := fragment_injective (sent.cut key) (sent.small key) (sub y y_mem) mem same
    exact y_mem
  · intro all g mem
    have held := mem_map_of_mem (f := (·.packet)) mem
    rw [sent.packets key] at held
    obtain ⟨x, x_mem, is⟩ := mem_map.mp held
    exact mem_map.mpr ⟨x, all x x_mem, is⟩

theorem nodup_iff {key : FragmentKey}
    {xs : List (Segment UInt8)} (sub : ∀ x ∈ xs, x ∈ pieces key) :
    (xs.map ((datagrams key).fragment key.identification)).Nodup ↔ xs.Nodup := by
  constructor
  · exact Nodup.of_map _
  · intro nodup
    apply nodup.map_on
    intro x mem y other
    exact fragment_injective (sent.cut key) (sent.small key) (sub x mem) (sub y other)

theorem pieces_nodup (key : FragmentKey) : (pieces key).Nodup := by
  by_cases empty : (datagrams key).payload = []
  · obtain ⟨x, is⟩ := length_eq_one_iff.mp ((sent.cut key).single empty)
    rw [is]
    exact nodup_singleton x
  · exact (sent.cut key).chain.nodup ((sent.cut key).filled empty)

end

def twentyBytes : List UInt8 := (List.range 20).map UInt8.ofNat

def plain : Datagram := ⟨17, [], twentyBytes, 64⟩

/-- A hop-by-hop header and a routing header. -/
def twoHeaders : Datagram where
  nextHeader := 0
  headers := [⟨43, 0, .options [1, 4, 0, 0, 0, 0]⟩, ⟨17, 0, .looseRouting 0 0 []⟩]
  payload := twentyBytes
  maxFragmentSize := 80

/-- Every packet the same. -/
def everywhere (d : Datagram) : Datagrams := fun _ => d

def headPiece : Segment UInt8 := ⟨0, twentyBytes.take 16⟩

def tailPiece : Segment UInt8 := ⟨16, twentyBytes.drop 16⟩

/-- The fragment with a piece, behind an IPv6 header that leads to `nextHeader`. -/
def sentWith (d : Datagram) (nextHeader : UInt8) (key : FragmentKey) (x : Segment UInt8) :
    Ipv6PayloadHeaderPair :=
  ⟨d.fragment key.identification x, key.source, nextHeader,
    (d.fragment key.identification x).length % 2 ^ 16⟩

def twoFragments (d : Datagram) (nextHeader : UInt8) (key : FragmentKey) :
    List Ipv6PayloadHeaderPair :=
  [sentWith d nextHeader key headPiece, sentWith d nextHeader key tailPiece]

theorem plain_wellFormed : plain.WellFormed where
  linked := rfl
  size := by decide
  room := by decide
  maxFragmentSize := by decide
  position := by decide

set_option maxRecDepth 4000 in
theorem plain_fragments (key : FragmentKey) :
    getFragments plain.packet ((everywhere plain).header key) 64 key.identification =
      some (twoFragments plain 44 key) := rfl

set_option maxRecDepth 4000 in
theorem twoHeaders_fragments (key : FragmentKey) :
    getFragments twoHeaders.packet ((everywhere twoHeaders).header key) 80 key.identification =
      some (twoFragments twoHeaders 0 key) := rfl

/-- What is left to its caller by the last of some fragments. -/
def processAll (d : Datagram) : FragmentMap → List Ipv6PayloadHeaderPair → Option (List UInt8)
  | _, [] => none
  | m, [f] => (process m f.packet d.position f.header).bind (·.1.packet)
  | m, f :: g :: rest =>
    (process m f.packet d.position f.header).bind fun next => processAll d next.2 (g :: rest)

end Ns3.Internet.Ipv6ExtensionFragment
