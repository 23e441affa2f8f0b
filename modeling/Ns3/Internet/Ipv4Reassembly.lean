import Ns3.Internet.Ipv4Fragments

/-!
# Reassembly of IPv4 datagrams

A datagram is fragmented again and again on its way, each copy in its own way.
Whether the end is known depends on the fragment that came last among those
with the highest offset.
-/

namespace Ns3.Internet.Ipv4L3Protocol

open List Ipv4Header Fragments Segment Nat

/-- The place of a fragment in its datagram. -/
def segment (f : Ipv4PayloadHeaderPair) : Segment UInt8 := ⟨f.header.fragmentOffset, f.packet⟩

/-- What arrives of the datagrams, of which each has its own key. -/
inductive Travels (payload : FragmentKey → List UInt8) : Ipv4PayloadHeaderPair → Prop
  | sent {h : Ipv4Header} : h.fragmentOffset = 0 → h.moreFragments = false →
      Travels payload ⟨payload (fragmentKey h), h⟩
  | fragmented {p f : Ipv4PayloadHeaderPair} {outIfaceMtu : Nat}
      {listFragments : List Ipv4PayloadHeaderPair} : Travels payload p → 68 ≤ outIfaceMtu →
      outIfaceMtu < 2 ^ 32 → doFragmentation p outIfaceMtu = some listFragments →
      f ∈ listFragments → Travels payload f

/-- A piece of the datagram that knows whether it ends it. -/
structure Genuine (payload : FragmentKey → List UInt8) (f : Ipv4PayloadHeaderPair) : Prop where
  of : (segment f).Of (payload (fragmentKey f.header))
  aligned : f.header.fragmentOffset % 8 = 0
  more : f.header.moreFragments = true ↔ (segment f).stop < (payload (fragmentKey f.header)).length

/-- The payloads of all datagrams that fit into the length of a header. -/
def Small (payload : FragmentKey → List UInt8) : Prop := ∀ key, (payload key).length ≤ 65515

/-! ## Fragmentation -/

/-- A fragment of a packet that goes over a link. -/
structure FragmentOf (p : Ipv4PayloadHeaderPair) (outIfaceMtu : Nat) (f : Ipv4PayloadHeaderPair) :
    Prop where
  key : fragmentKey f.header = fragmentKey p.header
  fits : f.packet.length + serializedSize ≤ outIfaceMtu
  payloadSize : f.header.payloadSize = f.packet.length

variable {payload : FragmentKey → List UInt8} {p : Ipv4PayloadHeaderPair} {outIfaceMtu : Nat}

theorem fragmentSize_bounds (large : 68 ≤ outIfaceMtu) (small : outIfaceMtu < 2 ^ 32) :
    0 < fragmentSize outIfaceMtu ∧ fragmentSize outIfaceMtu % 8 = 0 ∧
      fragmentSize outIfaceMtu + serializedSize ≤ outIfaceMtu := by
  unfold fragmentSize serializedSize
  omega

section

variable (genuine : Genuine payload p)
include genuine

theorem Genuine.offset_le (small : Small payload) :
    p.header.fragmentOffset + p.packet.length ≤ 65515 :=
  le_trans genuine.of.stop_le (small _)

theorem createFragment_genuine (small : Small payload)
    {offset size : Nat} (inside : offset + size ≤ p.packet.length) (aligned : offset % 8 = 0)
    (fits : size + serializedSize ≤ outIfaceMtu) (moreFragments : Bool)
    (more : moreFragments = true ↔ offset + size < p.packet.length ∨ p.header.moreFragments) :
    ∃ f, createFragment p offset size moreFragments = some f ∧ Genuine payload f ∧
      FragmentOf p outIfaceMtu f ∧ segment f = (segment p).part offset size := by
  have bound := genuine.offset_le small
  have place : (offset + p.header.fragmentOffset) % 2 ^ 16 = p.header.fragmentOffset + offset := by
    omega
  have p_aligned := genuine.aligned
  have length : ((p.packet.drop offset).take size).length = size := by
    rw [length_take, length_drop]
    omega
  unfold createFragment setFragmentOffset
  rw [place, if_pos (by omega)]
  refine ⟨_, rfl, ?_, ?_, rfl⟩
  · constructor
    · exact genuine.of.part inside
    · dsimp only
      omega
    · rw [more, genuine.more]
      dsimp only [segment, Segment.stop]
      rw [length]
      have stop := genuine.of.stop_le
      dsimp only [segment, Segment.stop, fragmentKey] at stop ⊢
      omega
  · constructor
    · rfl
    · dsimp only
      omega
    · dsimp only
      omega

theorem fragmentsFrom_genuine (small : Small payload)
    {size : Nat} (pos : 0 < size) (size_aligned : size % 8 = 0)
    (fits : size + serializedSize ≤ outIfaceMtu) (mtu : outIfaceMtu < 2 ^ 32)
    (rounds offset : Nat) (enough : p.packet.length < offset + rounds)
    (inside : offset ≤ p.packet.length) (aligned : offset % 8 = 0)
    (split : offset = 0 ∨ size < p.packet.length) :
    ∃ listFragments, fragmentsFrom p size rounds offset = some listFragments ∧
      (∀ f ∈ listFragments, Genuine payload f ∧ FragmentOf p outIfaceMtu f) ∧
      ∀ i, offset ≤ i → i < p.packet.length →
        Segment.Covers (listFragments.map segment) (p.header.fragmentOffset + i) := by
  have bound := genuine.offset_le small
  induction rounds generalizing offset with
  | zero => omega
  | succ rounds ih =>
    rw [fragmentsFrom]
    unfold serializedSize at fits
    by_cases more : offset + size < p.packet.length
    · rw [if_pos (by omega), mod_eq_of_lt (by omega)]
      obtain ⟨f, created, f_genuine, f_of, place⟩ :=
        createFragment_genuine genuine small (le_of_lt more) aligned fits true
          (iff_of_true rfl (.inl more))
      obtain ⟨rest, done, of, covers⟩ := ih (offset + size) (by omega) (by omega) (by omega)
        (.inr (by omega))
      rw [created, Option.bind_eq_bind, Option.bind_some, done]
      refine ⟨f :: rest, rfl, ?_, ?_⟩
      · intro g mem
        cases mem with
        | head => exact ⟨f_genuine, f_of⟩
        | tail _ mem => exact of g mem
      · intro i after before
        by_cases here : i < offset + size
        · refine ⟨segment f, mem_map_of_mem mem_cons_self, ?_⟩
          rw [place, stop, length_part (le_of_lt more)]
          dsimp only [part, segment]
          omega
        · obtain ⟨x, mem, at_i⟩ := covers i (by omega) before
          exact ⟨x, mem_cons_of_mem _ mem, at_i⟩
    · rw [if_neg (by omega)]
      have last_fits : p.packet.length - offset + serializedSize ≤ outIfaceMtu := by
        unfold serializedSize
        omega
      have all : offset + (p.packet.length - offset) = p.packet.length := by omega
      obtain ⟨f, created, f_genuine, f_of, place⟩ :=
        createFragment_genuine genuine small (le_of_eq all) aligned last_fits
          p.header.moreFragments
          (by rw [all]; exact ⟨.inr, (·.resolve_left (lt_irrefl _))⟩)
      rw [created]
      refine ⟨[f], rfl, ?_, ?_⟩
      · intro g mem
        obtain rfl := mem_singleton.mp mem
        exact ⟨f_genuine, f_of⟩
      · intro i after before
        refine ⟨segment f, mem_cons_self, ?_⟩
        rw [place, stop, length_part (le_of_eq all)]
        dsimp only [part, segment]
        omega

/-- Every link gets fragments that fit and cover the packet. -/
theorem doFragmentation_genuine (small : Small payload)
    (large : 68 ≤ outIfaceMtu) (mtu : outIfaceMtu < 2 ^ 32) :
    ∃ listFragments, doFragmentation p outIfaceMtu = some listFragments ∧
      (∀ f ∈ listFragments, Genuine payload f ∧ FragmentOf p outIfaceMtu f) ∧
      ∀ i < p.packet.length,
        Segment.Covers (listFragments.map segment) (p.header.fragmentOffset + i) := by
  obtain ⟨pos, aligned, fits⟩ := fragmentSize_bounds large mtu
  obtain ⟨listFragments, done, of, covers⟩ := fragmentsFrom_genuine genuine small pos aligned fits
    mtu (p.packet.length + 1) 0 (by omega) (zero_le _) rfl (.inl rfl)
  exact ⟨listFragments, done, of, fun i => covers i (zero_le _)⟩

end

theorem Travels.genuine (small : Small payload) {f : Ipv4PayloadHeaderPair}
    (travels : Travels payload f) : Genuine payload f := by
  induction travels with
  | @sent h first last =>
    constructor
    · dsimp only [segment]
      rw [first]
      exact Segment.Of.all
    · exact congrArg (· % 8) first
    · dsimp only [segment, stop]
      rw [first, last]
      simp
  | fragmented _ large mtu done mem ih =>
    obtain ⟨listFragments, is, of, -⟩ := doFragmentation_genuine ih small large mtu
    rw [done] at is
    cases is
    exact (of _ mem).1

/-! ## What has arrived -/

/-- The fragments of one datagram, put in as they arrived. -/
def added (received : List Ipv4PayloadHeaderPair) : Fragments :=
  received.foldl (fun fs f => fs.addFragment (segment f) (!f.header.isLastFragment)) {}

/-- The fragment that came last among those with the highest offset ends the datagram. -/
def EndKnown (received : List Ipv4PayloadHeaderPair) : Prop :=
  ∃ before f after, received = before ++ f :: after ∧ f.header.isLastFragment ∧
    (∀ g ∈ before, g.header.fragmentOffset ≤ f.header.fragmentOffset) ∧
    ∀ g ∈ after, g.header.fragmentOffset < f.header.fragmentOffset

/-- The fragments cover the payload with its end. -/
def Complete (payload : List UInt8) (received : List Ipv4PayloadHeaderPair) : Prop :=
  (∀ i < payload.length, Segment.Covers (received.map segment) i) ∧
    ∃ f ∈ received, f.header.isLastFragment

variable {received : List Ipv4PayloadHeaderPair} {f : Ipv4PayloadHeaderPair}

theorem added_append : added (received ++ [f]) =
    (added received).addFragment (segment f) (!f.header.isLastFragment) := by
  unfold added
  rw [foldl_append]
  rfl

theorem added_perm : (added received).fragments.Perm (received.map segment) := by
  induction received using List.reverseRecOn with
  | nil => exact .refl _
  | append_singleton received f ih =>
    rw [added_append, map_append]
    apply (perm_insert _ _).trans
    exact (ih.cons _).trans (perm_append_singleton _ _).symm

theorem added_ordered : Segment.Ordered (added received).fragments := by
  induction received using List.reverseRecOn with
  | nil => exact .nil
  | append_singleton received f ih =>
    rw [added_append]
    exact ih.insert (segment f)

theorem mem_added {x : Segment UInt8} :
    x ∈ (added received).fragments ↔ ∃ f ∈ received, segment f = x :=
  added_perm.mem_iff.trans mem_map

/-- Highest and latest of all, the new fragment tells whether the end is known. -/
theorem endKnown_append_of_le
    (highest : ∀ g ∈ received, g.header.fragmentOffset ≤ f.header.fragmentOffset) :
    EndKnown (received ++ [f]) ↔ f.header.isLastFragment := by
  constructor
  · rintro ⟨before, g, after, split, last, -, lower⟩
    cases after using List.reverseRecOn with
    | nil =>
      obtain ⟨-, is⟩ := append_inj' split rfl
      obtain rfl := singleton_inj.mp is
      exact last
    | append_singleton after h =>
      rw [← cons_append, ← append_assoc] at split
      obtain ⟨rfl, is⟩ := append_inj' split rfl
      obtain rfl := singleton_inj.mp is
      have above := highest g (mem_append_right _ mem_cons_self)
      have below := lower f (mem_append_right _ mem_cons_self)
      omega
  · intro last
    exact ⟨received, f, [], rfl, last, highest, fun g mem => nomatch mem⟩

theorem endKnown_append_of_lt {g : Ipv4PayloadHeaderPair} (mem : g ∈ received)
    (below : f.header.fragmentOffset < g.header.fragmentOffset) :
    EndKnown (received ++ [f]) ↔ EndKnown received := by
  constructor
  · rintro ⟨before, h, after, split, last, higher, lower⟩
    cases after using List.reverseRecOn with
    | nil =>
      obtain ⟨rfl, is⟩ := append_inj' split rfl
      obtain rfl := singleton_inj.mp is
      have above := higher g mem
      omega
    | append_singleton after last_one =>
      rw [← cons_append, ← append_assoc] at split
      obtain ⟨rfl, -⟩ := append_inj' split rfl
      exact ⟨before, h, after, rfl, last, higher,
        fun k mem => lower k (mem_append_left _ mem)⟩
  · rintro ⟨before, h, after, rfl, last, higher, lower⟩
    refine ⟨before, h, after ++ [f], by simp, last, higher, ?_⟩
    intro k mem_k
    cases mem_append.mp mem_k with
    | inl mem_k => exact lower k mem_k
    | inr is =>
      obtain rfl := mem_singleton.mp is
      have g_below : g.header.fragmentOffset ≤ h.header.fragmentOffset := by
        cases mem_append.mp mem with
        | inl mem => exact higher g mem
        | inr mem =>
          cases mem with
          | head => exact le_refl _
          | tail _ mem => exact le_of_lt (lower g mem)
      omega

theorem added_moreFragment (nonempty : received ≠ []) :
    (added received).moreFragment = false ↔ EndKnown received := by
  induction received using List.reverseRecOn with
  | nil => exact absurd rfl nonempty
  | append_singleton received f ih =>
    rw [added_append]
    unfold addFragment
    by_cases highest : ∀ g ∈ received, g.header.fragmentOffset ≤ f.header.fragmentOffset
    · rw [if_pos, endKnown_append_of_le highest, Bool.not_eq_false']
      apply all_eq_true.mpr
      intro x mem
      obtain ⟨g, held, rfl⟩ := mem_added.mp mem
      exact decide_eq_true (highest g held)
    · rw [if_neg]
      · simp only [not_forall, not_le] at highest
        obtain ⟨g, mem, below⟩ := highest
        rw [endKnown_append_of_lt mem below]
        exact ih (ne_nil_of_mem mem)
      · intro all
        apply highest
        intro g mem
        exact of_decide_eq_true (all_eq_true.mp all _ (mem_added.mpr ⟨g, mem, rfl⟩))

/-! ## The whole datagram -/

section Whole

variable {whole : List UInt8} {xs : List (Segment UInt8)}

theorem checkOverlaps_iff {e : Nat} (fits : ∀ x ∈ xs, x.stop < 2 ^ 16) :
    checkOverlaps e xs ↔ Segment.NoGap e xs := by
  induction xs generalizing e with
  | nil => exact iff_of_true rfl trivial
  | cons x xs ih =>
    have x_fits := fits x mem_cons_self
    unfold stop at x_fits
    rw [checkOverlaps, Segment.NoGap, mod_eq_of_lt (by omega), add_comm]
    rw [← ih fun y mem => fits y (mem_cons_of_mem _ mem)]
    split
    case isTrue gap => exact iff_of_false Bool.false_ne_true fun both => by omega
    case isFalse joins => exact ⟨fun rest => ⟨Nat.le_of_not_lt joins, rest⟩, And.right⟩

/-- Without a gap a round of `GetPacket` adds what is new. -/
theorem appendFragment_eq {p : List UInt8} {x : Segment UInt8} (joins : x.offset ≤ p.length)
    (fits : p.length < 2 ^ 16) : appendFragment p x = extend p x := by
  unfold appendFragment extend
  dsimp only
  rw [mod_eq_of_lt fits]
  split
  · split
    case isTrue =>
      congr 1
      apply take_of_length_le
      exact le_of_eq length_drop
    case isFalse inside =>
      simp [drop_eq_nil_of_le (Nat.le_of_not_lt inside)]
  · simp [show p.length - x.offset = 0 by omega]

theorem appendFragments_eq {e : Nat} (noGap : Segment.NoGap e xs)
    (of : ∀ x ∈ xs, Segment.Of whole x) (inside : e ≤ whole.length)
    (small : whole.length < 2 ^ 16) :
    xs.foldl appendFragment (whole.take e) = whole.take (reach e xs) := by
  induction xs generalizing e with
  | nil => rfl
  | cons x xs ih =>
    have x_of := of x mem_cons_self
    have length : (whole.take e).length = e := length_take_of_le inside
    rw [foldl_cons, appendFragment_eq (by rw [length]; exact noGap.1) (by rw [length]; omega)]
    rw [x_of.extend noGap.1 inside, reach_cons]
    apply ih noGap.2
    · exact fun y mem => of y (mem_cons_of_mem _ mem)
    · exact Nat.max_le.mpr ⟨inside, x_of.stop_le⟩

theorem getPacket_eq {fs : Fragments} (nonempty : fs.fragments ≠ [])
    (noGap : Segment.NoGap 0 fs.fragments) (of : ∀ x ∈ fs.fragments, Segment.Of whole x)
    (small : whole.length < 2 ^ 16) :
    fs.getPacket = some (whole.take (reach 0 fs.fragments)) := by
  unfold getPacket
  match here : fs.fragments with
  | [] => exact absurd here nonempty
  | x :: xs =>
    rw [here] at noGap of
    have x_of := of x mem_cons_self
    have first := x_of.extend noGap.1 (zero_le _)
    rw [extend, take_zero, nil_append, length_nil, Nat.zero_sub, drop_zero] at first
    dsimp only
    rw [first, appendFragments_eq noGap.2 (fun y mem => of y (mem_cons_of_mem _ mem)) _ small]
    · rfl
    · exact Nat.max_le.mpr ⟨Nat.zero_le _, x_of.stop_le⟩

end Whole

/-- Fragments that are all of the datagram. -/
def AllOf (payload : FragmentKey → List UInt8) (key : FragmentKey)
    (received : List Ipv4PayloadHeaderPair) : Prop :=
  ∀ f ∈ received, fragmentKey f.header = key ∧ Genuine payload f

variable {key : FragmentKey}

theorem AllOf.of (all : AllOf payload key received) :
    ∀ x ∈ (added received).fragments, Segment.Of (payload key) x := by
  intro x mem
  obtain ⟨f, held, rfl⟩ := mem_added.mp mem
  obtain ⟨rfl, genuine⟩ := all f held
  exact genuine.of

theorem AllOf.reach (all : AllOf payload key received) (mem : f ∈ received)
    (last : f.header.isLastFragment) :
    reach 0 (added received).fragments = (payload key).length := by
  apply le_antisymm
  · exact reach_le (zero_le _) fun x mem => (all.of x mem).stop_le
  · obtain ⟨rfl, genuine⟩ := all f mem
    have ends : ¬ (segment f).stop < (payload (fragmentKey f.header)).length := by
      rw [← genuine.more]
      exact Bool.eq_false_iff.mp ((Bool.not_eq_true' _).mp last)
    apply Nat.le_trans (Nat.le_of_not_lt ends)
    exact stop_le_reach 0 (mem_added.mpr ⟨f, mem, rfl⟩)

theorem EndKnown.last (known : EndKnown received) : ∃ f ∈ received, f.header.isLastFragment := by
  obtain ⟨before, f, after, rfl, last, -⟩ := known
  exact ⟨f, mem_append_right _ mem_cons_self, last⟩

theorem AllOf.noGap_iff (all : AllOf payload key received)
    (last : ∃ f ∈ received, f.header.isLastFragment) :
    Segment.NoGap 0 (added received).fragments ↔ Complete (payload key) received := by
  obtain ⟨f, mem, is_last⟩ := last
  have ends := all.reach mem is_last
  constructor
  · intro noGap
    refine ⟨?_, f, mem, is_last⟩
    intro i inside
    obtain ⟨x, held, here⟩ := noGap.covers (zero_le _) (ends ▸ inside)
    exact ⟨x, added_perm.mem_iff.mp held, here⟩
  · rintro ⟨covers, -⟩
    apply added_ordered.noGap
    · intro i _ inside
      obtain ⟨x, held, here⟩ := covers i (ends ▸ inside)
      exact ⟨x, added_perm.mem_iff.mpr held, here⟩
    · intro x held
      exact le_trans (le_add_right _ _) (stop_le_reach 0 held)

theorem isEntire_iff (small : Small payload) (all : AllOf payload key received) :
    (added received).isEntire ↔ EndKnown received ∧ Complete (payload key) received := by
  have fits : ∀ x ∈ (added received).fragments, x.stop < 2 ^ 16 := fun x mem =>
    lt_of_le_of_lt (le_trans (all.of x mem).stop_le (small key)) (by decide)
  cases received with
  | nil =>
    apply iff_of_false
    · exact Bool.false_ne_true
    · rintro ⟨known, -⟩
      obtain ⟨f, mem, -⟩ := known.last
      cases mem
  | cons f fs =>
    have held : segment f ∈ (added (f :: fs)).fragments := mem_added.mpr ⟨f, mem_cons_self, rfl⟩
    have nonempty : (added (f :: fs)).fragments.isEmpty = false :=
      isEmpty_eq_false_iff.mpr (ne_nil_of_mem held)
    unfold isEntire
    rw [nonempty, Bool.not_false, Bool.and_true, Bool.and_eq_true, Bool.not_eq_true',
      added_moreFragment (cons_ne_nil f fs), checkOverlaps_iff fits]
    constructor
    · rintro ⟨known, noGap⟩
      exact ⟨known, (all.noGap_iff known.last).mp noGap⟩
    · rintro ⟨known, complete⟩
      exact ⟨known, (all.noGap_iff known.last).mpr complete⟩

theorem getPacket_payload (small : Small payload) (all : AllOf payload key received)
    (entire : (added received).isEntire) : (added received).getPacket = some (payload key) := by
  obtain ⟨known, complete⟩ := (isEntire_iff small all).mp entire
  obtain ⟨f, mem, last⟩ := known.last
  rw [getPacket_eq _ ((all.noGap_iff known.last).mpr complete) all.of, all.reach mem last,
    take_length]
  · exact lt_of_le_of_lt (small key) (by decide)
  · exact ne_nil_of_mem (mem_added.mpr ⟨f, mem, rfl⟩)

/-! ## Runs -/

/-- The fragments of each datagram since it was last delivered or given up. -/
abbrev Arrivals := FragmentKey → List Ipv4PayloadHeaderPair

/-- What has arrived when `f` came and `delivered` went up. -/
def Arrivals.arrive (received : Arrivals) (f : Ipv4PayloadHeaderPair)
    (delivered : Option (List UInt8)) : Arrivals :=
  if isFragment f.header then Function.update received (fragmentKey f.header)
    (if delivered.isSome then [] else received (fragmentKey f.header) ++ [f])
  else received

/-- Arrivals and timeouts in any order. -/
inductive Run (payload : FragmentKey → List UInt8) : FragmentMap → Arrivals → Prop
  | start : Run payload (fun _ => none) (fun _ => [])
  | arrive {m : FragmentMap} {received : Arrivals} {f : Ipv4PayloadHeaderPair} :
      Run payload m received → Travels payload f →
      Run payload (localDeliver m f).2 (received.arrive f (localDeliver m f).1)
  | timeout {m : FragmentMap} {received : Arrivals} (key : FragmentKey) : Run payload m received →
      Run payload (handleFragmentsTimeout m key) (Function.update received key [])

/-- The fragments of each datagram are stored as they arrived. -/
structure Stored (payload : FragmentKey → List UInt8) (m : FragmentMap) (received : Arrivals) :
    Prop where
  fragments : ∀ key, (m key).getD {} = added (received key)
  all : ∀ key, AllOf payload key (received key)

variable {m : FragmentMap} {received : Arrivals}

section

variable (stored : Stored payload m received)
include stored

theorem Stored.update (key : FragmentKey)
    {fs : Option Fragments} {arrived : List Ipv4PayloadHeaderPair}
    (fragments : fs.getD {} = added arrived) (all : AllOf payload key arrived) :
    Stored payload (Function.update m key fs) (Function.update received key arrived) := by
  constructor
  · intro other
    by_cases same : other = key
    · rw [same, Function.update_self, Function.update_self]
      exact fragments
    · rw [Function.update_of_ne same, Function.update_of_ne same]
      exact stored.fragments other
  · intro other
    by_cases same : other = key
    · rw [same, Function.update_self]
      exact all
    · rw [Function.update_of_ne same]
      exact stored.all other

theorem Stored.clear (key : FragmentKey) :
    Stored payload (Function.update m key none) (Function.update received key []) :=
  stored.update key rfl fun _ mem => nomatch mem

theorem Stored.append (genuine : Genuine payload f) :
    AllOf payload (fragmentKey f.header) (received (fragmentKey f.header) ++ [f]) := by
  intro g mem
  cases mem_append.mp mem with
  | inl held => exact stored.all _ g held
  | inr is =>
    obtain rfl := mem_singleton.mp is
    exact ⟨rfl, genuine⟩

theorem Stored.localDeliver (fragment : isFragment f.header) : localDeliver m f =
      if (added (received (fragmentKey f.header) ++ [f])).isEntire then
        ((added (received (fragmentKey f.header) ++ [f])).getPacket,
          Function.update m (fragmentKey f.header) none)
      else (none, Function.update m (fragmentKey f.header)
        (some (added (received (fragmentKey f.header) ++ [f])))) := by
  unfold Ipv4L3Protocol.localDeliver
  rw [if_pos fragment, processFragment, added_append, ← stored.fragments]
  rfl

theorem Stored.arrive (small : Small payload) (genuine : Genuine payload f) :
    Stored payload (Ipv4L3Protocol.localDeliver m f).2
      (received.arrive f (Ipv4L3Protocol.localDeliver m f).1) := by
  unfold Arrivals.arrive
  by_cases fragment : isFragment f.header
  · have all := stored.append genuine
    rw [if_pos fragment, stored.localDeliver fragment]
    split
    case isTrue entire =>
      rw [getPacket_payload small all entire]
      exact stored.clear _
    case isFalse => exact stored.update _ rfl all
  · rw [if_neg fragment, Ipv4L3Protocol.localDeliver, if_neg fragment]
    exact stored

end

theorem Run.stored (small : Small payload) (run : Run payload m received) :
    Stored payload m received := by
  induction run with
  | start => exact ⟨fun _ => rfl, fun _ _ mem => nomatch mem⟩
  | arrive _ travels ih => exact ih.arrive small (travels.genuine small)
  | timeout key _ ih => exact ih.clear key

theorem Genuine.whole (genuine : Genuine payload f) (whole : ¬ isFragment f.header) :
    f.packet = payload (fragmentKey f.header) := by
  unfold isFragment at whole
  rw [Bool.or_eq_true, not_or, Bool.not_eq_true', Bool.not_eq_false, decide_eq_true_iff,
    not_not] at whole
  obtain ⟨last, first⟩ := whole
  have ends : ¬ (segment f).stop < (payload (fragmentKey f.header)).length := by
    rw [← genuine.more]
    exact Bool.eq_false_iff.mp ((Bool.not_eq_true' _).mp last)
  have data := genuine.of.data
  dsimp only [segment, stop] at data ends
  rw [first, drop_zero] at data
  rw [data]
  exact take_of_length_le (by omega)

def numbered : FragmentKey → List UInt8 := fun _ => (List.range 120).map UInt8.ofNat

/-- The fragment that starts at `fragmentOffset`. -/
def fragmentAt (fragmentOffset size : Nat) (moreFragments : Bool) : Ipv4PayloadHeaderPair :=
  ⟨((numbered ⟨1, 2, 3, 17⟩).drop fragmentOffset).take size,
    1, 2, 17, 3, size, fragmentOffset, moreFragments⟩

theorem numbered_length (key : FragmentKey) : (numbered key).length = 120 := rfl

theorem numbered_small : Small numbered := fun key => by
  rw [numbered_length]
  decide

theorem travels_first_link {f : Ipv4PayloadHeaderPair}
    (mem : f ∈ [fragmentAt 0 64 true, fragmentAt 64 56 false]) : Travels numbered f :=
  .fragmented (.sent (h := ⟨1, 2, 17, 3, 120, 0, false⟩) rfl rfl) (by decide)
    (show 84 < 2 ^ 32 by decide) rfl mem

/-- The end over a link with a MTU of 68 after it. -/
theorem travels_second_link {f : Ipv4PayloadHeaderPair}
    (mem : f ∈ [fragmentAt 64 48 true, fragmentAt 112 8 false]) : Travels numbered f :=
  .fragmented (travels_first_link (.tail _ (.head _))) (by decide)
    (show 68 < 2 ^ 32 by decide) rfl mem

end Ns3.Internet.Ipv4L3Protocol
