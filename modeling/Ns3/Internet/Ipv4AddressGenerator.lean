import Ns3.Internet.Ipv4Address
import Mathlib.Data.Vector.Basic

/-!
# The generator of IPv4 addresses

Networks and addresses in sequence, and the ranges of the addresses that are allocated.
`none` is an abort.
-/

namespace Ns3.Internet

open List UInt32 Ipv4Address

/-- `NetworkState`; the mask is not read. -/
structure NetworkState where
  shift : UInt32
  network : UInt32
  addr : UInt32
  addrMax : UInt32

/-- Allocated addresses, both ends included. -/
structure Entry where
  addrLow : UInt32
  addrHigh : UInt32
  deriving DecidableEq

structure Ipv4AddressGeneratorImpl where
  netTable : Fin 32 → NetworkState
  entries : List Entry
  test : Bool

namespace Ipv4AddressGeneratorImpl

variable (g : Ipv4AddressGeneratorImpl)

/-- The loop of `MaskToIndex`, with `i` shifts done. -/
def indexLoop : (rounds : Nat) → (i : Nat) → (maskBits : UInt32) → Option (Fin 32)
  | 0, _, _ => none
  | rounds + 1, i, maskBits =>
    if maskBits &&& 1 ≠ 0 then
      if h : 0 < 32 - i ∧ 32 - i < 32 then some ⟨32 - i, h.2⟩ else none
    else indexLoop rounds (i + 1) (maskBits >>> 1)

def maskToIndex (mask : Ipv4Mask) : Option (Fin 32) := indexLoop 32 0 mask

def setNetwork (index : Fin 32) (state : NetworkState) : Ipv4AddressGeneratorImpl :=
  { g with netTable := Function.update g.netTable index state }

def init (net : Ipv4Address) (mask : Ipv4Mask) (addr : Ipv4Address) :
    Option Ipv4AddressGeneratorImpl := do
  if net &&& ~~~mask ≠ 0 then none
  if addr &&& mask ≠ 0 then none
  let index ← maskToIndex mask
  let state := g.netTable index
  if ¬ addr ≤ state.addrMax then none
  some (g.setNetwork index { state with network := net >>> state.shift, addr := addr })

def nextNetwork (mask : Ipv4Mask) : Option (Ipv4Address × Ipv4AddressGeneratorImpl) := do
  let index ← maskToIndex mask
  let state := g.netTable index
  let network := state.network + 1
  some (network <<< state.shift, g.setNetwork index { state with network })

def initAddress (addr : Ipv4Address) (mask : Ipv4Mask) : Option Ipv4AddressGeneratorImpl := do
  let index ← maskToIndex mask
  let state := g.netTable index
  if ¬ addr ≤ state.addrMax then none
  some (g.setNetwork index { state with addr })

/-- The scan of `AddAllocated`; `none` is a collision. -/
def addEntry (addr : UInt32) : List Entry → Option (List Entry)
  | [] => some [⟨addr, addr⟩]
  | i :: rest =>
    if i.addrLow ≤ addr ∧ addr ≤ i.addrHigh then none
    else if addr < i.addrLow - 1 then some (⟨addr, addr⟩ :: i :: rest)
    else if addr = i.addrHigh + 1 then
      -- look ahead to the next block
      match rest with
      | j :: _ =>
        if addr = j.addrLow then none else some ({ i with addrHigh := addr } :: rest)
      | [] => some ({ i with addrHigh := addr } :: rest)
    else if addr = i.addrLow - 1 then some ({ i with addrLow := addr } :: rest)
    else (addEntry addr rest).map (i :: ·)

/-- In test mode a collision is no fatal error. -/
def addAllocated (address : Ipv4Address) : Option (Bool × Ipv4AddressGeneratorImpl) :=
  if address = 0 then none
  else
    match addEntry address g.entries with
    | some entries => some (true, { g with entries })
    | none => if g.test then some (false, g) else none

def nextAddress (mask : Ipv4Mask) : Option (Ipv4Address × Ipv4AddressGeneratorImpl) := do
  let index ← maskToIndex mask
  let state := g.netTable index
  if ¬ state.addr ≤ state.addrMax then none
  let addr := state.network <<< state.shift ||| state.addr
  let (_, g) ← (g.setNetwork index { state with addr := state.addr + 1 }).addAllocated addr
  some (addr, g)

def isAddressAllocated (address : Ipv4Address) : Option Bool :=
  if address = 0 then none
  else some (g.entries.any fun i => i.addrLow ≤ address && address ≤ i.addrHigh)

def isNetworkAllocated (address : Ipv4Address) (mask : Ipv4Mask) : Option Bool :=
  if address ≠ address.combineMask mask then none
  else some (!g.entries.any fun i =>
    address == combineMask i.addrLow mask || address == combineMask i.addrHigh mask)

end Ipv4AddressGeneratorImpl

/-! ## The ranges -/

def Entry.Has (e : Entry) (a : Ipv4Address) : Prop := e.addrLow ≤ a ∧ a ≤ e.addrHigh

/-- The address is in a range. -/
def Allocated (entries : List Entry) (a : Ipv4Address) : Prop := ∃ e ∈ entries, e.Has a

/-- Non-empty ranges in order, none of which has the address 0. -/
structure Ranges (entries : List Entry) : Prop where
  ordered : entries.Pairwise fun e f => e.addrHigh < f.addrLow
  filled : ∀ e ∈ entries, e.addrLow ≤ e.addrHigh
  positive : ∀ e ∈ entries, 0 < e.addrLow

/-- What the scan makes of the ranges. -/
def Adds (addr : UInt32) (entries : List Entry) : Option (List Entry) → Prop
  | none => Allocated entries addr
  | some entries' =>
    ¬ Allocated entries addr ∧ Ranges entries' ∧
      (∀ a, Allocated entries' a ↔ Allocated entries a ∨ a = addr) ∧
      ∀ low < addr, (∀ e ∈ entries, low < e.addrLow) → ∀ e ∈ entries', low < e.addrLow

theorem Ranges.tail {e : Entry} {rest : List Entry} (ranges : Ranges (e :: rest)) :
    Ranges rest where
  ordered := ranges.ordered.of_cons
  filled f mem := ranges.filled f (mem_cons_of_mem e mem)
  positive f mem := ranges.positive f (mem_cons_of_mem e mem)

theorem allocated_cons {e : Entry} {rest : List Entry} {a : Ipv4Address} :
    Allocated (e :: rest) a ↔ e.Has a ∨ Allocated rest a := by
  unfold Allocated
  simp

theorem Entry.has_single {addr a : UInt32} : Entry.Has ⟨addr, addr⟩ a ↔ a = addr := by
  unfold Entry.Has
  dsimp only
  rw [le_iff_toNat_le, le_iff_toNat_le, ← UInt32.toNat_inj]
  omega

theorem toNat_pred {a : UInt32} (positive : 0 < a) : (a - 1).toNat = a.toNat - 1 := by
  rw [lt_iff_toNat_lt] at positive
  apply UInt32.toNat_sub_of_le
  rw [le_iff_toNat_le]
  exact positive

theorem toNat_succ {a b : UInt32} (positive : 0 < b) (same : b = a + 1) :
    b.toNat = a.toNat + 1 := by
  have a_lt := a.toNat_lt
  have sum := UInt32.toNat_add a 1
  rw [← same, toNat_one] at sum
  rw [lt_iff_toNat_lt, UInt32.toNat_zero] at positive
  omega

section

variable {addr : UInt32} {i : Entry} {rest : List Entry} (ranges : Ranges (i :: rest))
include ranges

/-- The ranges are behind the lower end of the first one. -/
theorem Ranges.low_le {f : Entry} (mem : f ∈ i :: rest) : i.addrLow ≤ f.addrLow := by
  rcases mem_cons.mp mem with rfl | later
  · exact UInt32.le_refl _
  · have filled := ranges.filled i mem_cons_self
    have apart := rel_of_pairwise_cons ranges.ordered later
    exact UInt32.le_of_lt (UInt32.lt_of_le_of_lt filled apart)

theorem Ranges.not_allocated {a : UInt32} (before : a < i.addrLow) : ¬ Allocated (i :: rest) a := by
  rintro ⟨f, mem, low, -⟩
  exact UInt32.not_le.mpr (UInt32.lt_of_lt_of_le before (ranges.low_le mem)) low

theorem Ranges.insert (addr_pos : 0 < addr) (before : addr < i.addrLow) :
    Adds addr (i :: rest) (some (⟨addr, addr⟩ :: i :: rest)) := by
  refine ⟨ranges.not_allocated before, ⟨?_, ?_, ?_⟩, ?_, ?_⟩
  · apply pairwise_cons.mpr ⟨fun f mem => ?_, ranges.ordered⟩
    exact UInt32.lt_of_lt_of_le before (ranges.low_le mem)
  · intro f mem
    rcases mem_cons.mp mem with rfl | old
    · exact UInt32.le_refl addr
    · exact ranges.filled f old
  · intro f mem
    rcases mem_cons.mp mem with rfl | old
    · exact addr_pos
    · exact ranges.positive f old
  · intro a
    rw [allocated_cons, Entry.has_single, or_comm]
  · intro low low_lt all f mem
    rcases mem_cons.mp mem with rfl | old
    · exact low_lt
    · exact all f old

/-- The first range grows upwards, if the next one leaves room. -/
theorem Ranges.extendHigh (addr_pos : 0 < addr) (next : addr = i.addrHigh + 1)
    (room : ∀ f ∈ rest, addr < f.addrLow) :
    Adds addr (i :: rest) (some ({ i with addrHigh := addr } :: rest)) := by
  have value := toNat_succ addr_pos next
  have filled := ranges.filled i mem_cons_self
  rw [le_iff_toNat_le] at filled
  refine ⟨?_, ⟨?_, ?_, ?_⟩, ?_, ?_⟩
  · rintro ⟨f, mem, low, high⟩
    rcases mem_cons.mp mem with rfl | later
    · rw [le_iff_toNat_le] at high
      omega
    · exact UInt32.not_le.mpr (room f later) low
  · exact pairwise_cons.mpr ⟨room, ranges.ordered.of_cons⟩
  · intro f mem
    rcases mem_cons.mp mem with rfl | old
    · rw [le_iff_toNat_le]
      dsimp only
      omega
    · exact ranges.filled f (mem_cons_of_mem i old)
  · intro f mem
    rcases mem_cons.mp mem with rfl | old
    · exact ranges.positive i mem_cons_self
    · exact ranges.positive f (mem_cons_of_mem i old)
  · intro a
    rw [allocated_cons, allocated_cons, or_right_comm]
    apply or_congr_left
    unfold Entry.Has
    dsimp only
    rw [le_iff_toNat_le, le_iff_toNat_le, le_iff_toNat_le, ← UInt32.toNat_inj]
    omega
  · intro low low_lt all f mem
    rcases mem_cons.mp mem with rfl | old
    · exact all i mem_cons_self
    · exact all f (mem_cons_of_mem i old)

theorem Ranges.extendLow (addr_pos : 0 < addr) (previous : addr = i.addrLow - 1) :
    Adds addr (i :: rest) (some ({ i with addrLow := addr } :: rest)) := by
  have value := congrArg UInt32.toNat previous
  rw [toNat_pred (ranges.positive i mem_cons_self)] at value
  have low_pos := ranges.positive i mem_cons_self
  have filled := ranges.filled i mem_cons_self
  rw [le_iff_toNat_le] at filled
  rw [lt_iff_toNat_lt, UInt32.toNat_zero] at low_pos
  refine ⟨?_, ⟨?_, ?_, ?_⟩, ?_, ?_⟩
  · apply ranges.not_allocated
    rw [lt_iff_toNat_lt]
    omega
  · exact pairwise_cons.mpr (pairwise_cons.mp ranges.ordered)
  · intro f mem
    rcases mem_cons.mp mem with rfl | old
    · rw [le_iff_toNat_le]
      dsimp only
      omega
    · exact ranges.filled f (mem_cons_of_mem i old)
  · intro f mem
    rcases mem_cons.mp mem with rfl | old
    · exact addr_pos
    · exact ranges.positive f (mem_cons_of_mem i old)
  · intro a
    rw [allocated_cons, allocated_cons, or_right_comm]
    apply or_congr_left
    unfold Entry.Has
    dsimp only
    rw [le_iff_toNat_le, le_iff_toNat_le, le_iff_toNat_le, ← UInt32.toNat_inj]
    omega
  · intro low low_lt all f mem
    rcases mem_cons.mp mem with rfl | old
    · exact low_lt
    · exact all f (mem_cons_of_mem i old)

theorem Ranges.pass (behind : i.addrHigh < addr) {result : Option (List Entry)}
    (adds : Adds addr rest result) : Adds addr (i :: rest) (result.map (i :: ·)) := by
  have outside : ¬ i.Has addr := fun has => UInt32.not_le.mpr behind has.2
  cases result with
  | none => exact allocated_cons.mpr (.inr adds)
  | some entries' =>
    obtain ⟨fresh, ranges', union, bounds⟩ := adds
    have apart := bounds i.addrHigh behind fun f mem =>
      rel_of_pairwise_cons ranges.ordered mem
    refine ⟨?_, ⟨pairwise_cons.mpr ⟨apart, ranges'.ordered⟩, ?_, ?_⟩, ?_, ?_⟩
    · rw [allocated_cons]
      exact fun held => held.elim outside fresh
    · intro f mem
      rcases mem_cons.mp mem with rfl | old
      · exact ranges.filled f mem_cons_self
      · exact ranges'.filled f old
    · intro f mem
      rcases mem_cons.mp mem with rfl | old
      · exact ranges.positive f mem_cons_self
      · exact ranges'.positive f old
    · intro a
      rw [allocated_cons, allocated_cons, union, or_assoc]
    · intro low low_lt all f mem
      rcases mem_cons.mp mem with rfl | old
      · exact all f mem_cons_self
      · exact bounds low low_lt (fun e held => all e (mem_cons_of_mem i held)) f old

end

/-- **One allocation.** The scan finds the address, or adds it to the ranges. -/
theorem addEntry_adds {addr : UInt32} (addr_pos : 0 < addr) {entries : List Entry}
    (ranges : Ranges entries) :
    Adds addr entries (Ipv4AddressGeneratorImpl.addEntry addr entries) := by
  induction entries with
  | nil =>
    refine ⟨nofun, ⟨pairwise_singleton _ _, ?_, ?_⟩, ?_, ?_⟩
    · intro e mem
      obtain rfl := mem_singleton.mp mem
      exact UInt32.le_refl addr
    · intro e mem
      obtain rfl := mem_singleton.mp mem
      exact addr_pos
    · intro a
      rw [allocated_cons, Entry.has_single, or_comm]
    · intro low low_lt _ e mem
      obtain rfl := mem_singleton.mp mem
      exact low_lt
  | cons i rest ih =>
    have low_pos := ranges.positive i mem_cons_self
    have low_value := toNat_pred low_pos
    rw [lt_iff_toNat_lt, UInt32.toNat_zero] at low_pos
    unfold Ipv4AddressGeneratorImpl.addEntry
    by_cases inside : i.addrLow ≤ addr ∧ addr ≤ i.addrHigh
    · rw [if_pos inside]
      exact allocated_cons.mpr (.inl inside)
    rw [if_neg inside]
    by_cases before : addr < i.addrLow - 1
    · rw [if_pos before]
      apply ranges.insert addr_pos
      rw [lt_iff_toNat_lt] at before ⊢
      omega
    rw [if_neg before]
    by_cases next : addr = i.addrHigh + 1
    · rw [if_pos next]
      have value := toNat_succ addr_pos next
      cases rest with
      | nil => exact ranges.extendHigh addr_pos next nofun
      | cons j rest =>
        have apart := rel_of_pairwise_cons ranges.ordered (mem_cons_self (a := j))
        dsimp only
        by_cases taken : addr = j.addrLow
        · rw [if_pos taken]
          have j_filled := ranges.filled j (mem_cons_of_mem i mem_cons_self)
          rw [← taken] at j_filled
          exact ⟨j, mem_cons_of_mem i mem_cons_self, taken ▸ UInt32.le_refl _, j_filled⟩
        rw [if_neg taken]
        apply ranges.extendHigh addr_pos next
        intro f mem
        apply UInt32.lt_of_lt_of_le _ (ranges.tail.low_le mem)
        rw [← UInt32.toNat_inj] at taken
        rw [lt_iff_toNat_lt] at apart ⊢
        omega
    rw [if_neg next]
    by_cases previous : addr = i.addrLow - 1
    · rw [if_pos previous]
      exact ranges.extendLow addr_pos previous
    rw [if_neg previous]
    apply ranges.pass _ (ih ranges.tail)
    rw [← UInt32.toNat_inj] at previous
    rw [le_iff_toNat_le, le_iff_toNat_le] at inside
    rw [lt_iff_toNat_lt] at before ⊢
    omega

theorem Ranges.apart {entries : List Entry} (ranges : Ranges entries) {e f : Entry}
    (e_mem : e ∈ entries) (f_mem : f ∈ entries) :
    e = f ∨ e.addrHigh < f.addrLow ∨ f.addrHigh < e.addrLow := by
  exact List.Pairwise.forall_of_forall_of_flip (R := fun e f : Entry =>
      e = f ∨ e.addrHigh < f.addrLow ∨ f.addrHigh < e.addrLow)
    (fun _ _ => .inl rfl) (ranges.ordered.imp fun before => .inr (.inl before))
    (ranges.ordered.imp fun before => .inr (.inr before)) e_mem f_mem

/-! ## Runs in test mode -/

namespace Ipv4AddressGeneratorImpl

/-- The generator after some calls that did not abort, and the addresses added by them. -/
inductive Reached : Ipv4AddressGeneratorImpl → List Ipv4Address → Prop
  | start (netTable : Fin 32 → NetworkState) : Reached ⟨netTable, [], true⟩ []
  | init {g g' added net mask addr} :
    Reached g added → g.init net mask addr = some g' → Reached g' added
  | nextNetwork {g g' added mask network} :
    Reached g added → g.nextNetwork mask = some (network, g') → Reached g' added
  | initAddress {g g' added addr mask} :
    Reached g added → g.initAddress addr mask = some g' → Reached g' added
  | addAllocated {g g' added address fresh} :
    Reached g added → g.addAllocated address = some (fresh, g') → Reached g' (address :: added)
  | nextAddress {g g' added mask address} :
    Reached g added → g.nextAddress mask = some (address, g') → Reached g' (address :: added)

/-- The ranges are those of the addresses that were added. -/
structure Tracks (g : Ipv4AddressGeneratorImpl) (added : List Ipv4Address) : Prop where
  test : g.test = true
  ranges : Ranges g.entries
  exact : ∀ a, Allocated g.entries a ↔ a ∈ added

variable {g g' : Ipv4AddressGeneratorImpl} {added : List Ipv4Address}

theorem Tracks.addAllocated (tracks : g.Tracks added) {address : Ipv4Address}
    (nonzero : address ≠ 0) :
    ∃ g', g.addAllocated address = some (decide (address ∉ added), g') ∧
      g'.Tracks (address :: added) := by
  have adds := addEntry_adds (UInt32.pos_iff_ne_zero.mpr nonzero) tracks.ranges
  unfold Ipv4AddressGeneratorImpl.addAllocated
  rw [if_neg nonzero]
  cases scanned : addEntry address g.entries with
  | none =>
    rw [scanned] at adds
    have known := (tracks.exact address).mp adds
    refine ⟨g, ?_, tracks.test, tracks.ranges, ?_⟩
    · simp [tracks.test, known]
    · intro a
      rw [tracks.exact, mem_cons]
      exact ⟨.inr, fun mem => mem.elim (fun same => same ▸ known) id⟩
  | some entries =>
    rw [scanned] at adds
    obtain ⟨fresh, ranges, union, -⟩ := adds
    rw [tracks.exact] at fresh
    refine ⟨{ g with entries }, ?_, tracks.test, ranges, ?_⟩
    · simp [fresh]
    · intro a
      simp [union, tracks.exact, or_comm]

theorem Tracks.setNetwork (tracks : g.Tracks added) (index : Fin 32) (state : NetworkState) :
    (g.setNetwork index state).Tracks added := ⟨tracks.test, tracks.ranges, tracks.exact⟩

theorem init_table {net mask addr} (stepped : g.init net mask addr = some g') :
    ∃ index state, g' = g.setNetwork index state := by
  unfold init at stepped
  split at stepped
  · simp at stepped
  split at stepped
  · simp at stepped
  obtain ⟨index, -, rest⟩ := Option.bind_eq_some_iff.mp stepped
  dsimp only at rest
  split at rest
  · simp at rest
  · exact ⟨index, _, (Option.some.inj rest).symm⟩

theorem nextNetwork_table {mask network} (stepped : g.nextNetwork mask = some (network, g')) :
    ∃ index state, g' = g.setNetwork index state := by
  obtain ⟨index, -, rest⟩ := Option.bind_eq_some_iff.mp stepped
  exact ⟨index, _, (Prod.mk.inj (Option.some.inj rest)).2.symm⟩

theorem initAddress_table {addr mask} (stepped : g.initAddress addr mask = some g') :
    ∃ index state, g' = g.setNetwork index state := by
  obtain ⟨index, -, rest⟩ := Option.bind_eq_some_iff.mp stepped
  dsimp only at rest
  split at rest
  · simp at rest
  · exact ⟨index, _, (Option.some.inj rest).symm⟩

theorem nextAddress_adds {mask address} (stepped : g.nextAddress mask = some (address, g')) :
    ∃ index state fresh, (g.setNetwork index state).addAllocated address = some (fresh, g') := by
  obtain ⟨index, -, rest⟩ := Option.bind_eq_some_iff.mp stepped
  dsimp only at rest
  split at rest
  · simp at rest
  obtain ⟨⟨fresh, g''⟩, added, ends⟩ := Option.bind_eq_some_iff.mp rest
  cases ends
  exact ⟨index, _, fresh, added⟩

theorem Tracks.step (tracks : g.Tracks added) {address : Ipv4Address} {fresh : Bool}
    (stepped : g.addAllocated address = some (fresh, g')) : g'.Tracks (address :: added) := by
  have nonzero : address ≠ 0 := by
    rintro rfl
    simp [Ipv4AddressGeneratorImpl.addAllocated] at stepped
  obtain ⟨g'', done, tracks'⟩ := tracks.addAllocated nonzero
  rw [done] at stepped
  cases stepped
  exact tracks'

theorem Reached.tracks (reached : Reached g added) : g.Tracks added := by
  induction reached with
  | start netTable =>
    refine ⟨rfl, ⟨.nil, nofun, nofun⟩, fun a => ?_⟩
    simp [Allocated]
  | init _ stepped ih =>
    obtain ⟨index, state, rfl⟩ := init_table stepped
    exact ih.setNetwork index state
  | nextNetwork _ stepped ih =>
    obtain ⟨index, state, rfl⟩ := nextNetwork_table stepped
    exact ih.setNetwork index state
  | initAddress _ stepped ih =>
    obtain ⟨index, state, rfl⟩ := initAddress_table stepped
    exact ih.setNetwork index state
  | addAllocated _ stepped ih => exact ih.step stepped
  | nextAddress _ stepped ih =>
    obtain ⟨index, state, fresh, noted⟩ := nextAddress_adds stepped
    exact (ih.setNetwork index state).step noted

theorem Tracks.isAddressAllocated (tracks : g.Tracks added) {a : Ipv4Address} (nonzero : a ≠ 0) :
    g.isAddressAllocated a = some (decide (a ∈ added)) := by
  unfold Ipv4AddressGeneratorImpl.isAddressAllocated
  rw [if_neg nonzero]
  apply congrArg some
  rw [Bool.eq_iff_iff, any_eq_true, decide_eq_true_eq, ← tracks.exact]
  simp [Allocated, Entry.Has]

/-- **Allocation is exact.** The ranges are apart and hold what was added; an allocation is
refused exactly where the address was added before, and the check knows the same. -/
theorem allocation_exact (reached : Reached g added) :
    Ranges g.entries ∧ (∀ a, Allocated g.entries a ↔ a ∈ added) ∧
      (∀ a ≠ 0, ∃ g', g.addAllocated a = some (decide (a ∉ added), g')) ∧
      ∀ a ≠ 0, g.isAddressAllocated a = some (decide (a ∈ added)) := by
  have tracks := reached.tracks
  refine ⟨tracks.ranges, tracks.exact, fun a nonzero => ?_,
    fun a nonzero => tracks.isAddressAllocated nonzero⟩
  obtain ⟨g', done, -⟩ := tracks.addAllocated nonzero
  exact ⟨g', done⟩

/-- 0.0.0.5, then 0.0.0.4 -/
theorem allocation_exact_descending :
    isAddressAllocated ⟨fun _ => ⟨0, 0, 0, 0⟩, [⟨4, 5⟩], true⟩ 4 = some true := by
  have first : Reached ⟨fun _ => ⟨0, 0, 0, 0⟩, [⟨5, 5⟩], true⟩ [5] :=
    (Reached.start _).addAllocated rfl
  have second : Reached ⟨fun _ => ⟨0, 0, 0, 0⟩, [⟨4, 5⟩], true⟩ [4, 5] := first.addAllocated rfl
  exact (allocation_exact second).2.2.2 4 (by decide)

/-! ## Networks -/

/-- A range holds addresses of the network, but no range ends in it. -/
def Straddled (entries : List Entry) (network : Ipv4Address) (mask : Ipv4Mask) : Prop :=
  (∃ e ∈ entries, ∃ a : Ipv4Address, e.addrLow < a ∧ a < e.addrHigh ∧
    a.combineMask mask = network) ∧
  ∀ e ∈ entries, combineMask e.addrLow mask ≠ network ∧ combineMask e.addrHigh mask ≠ network

theorem isNetworkAllocated_free {network : Ipv4Address} {mask : Ipv4Mask}
    (aligned : network = network.combineMask mask) :
    g.isNetworkAllocated network mask = some true ↔
      ∀ e ∈ g.entries, combineMask e.addrLow mask ≠ network ∧
        combineMask e.addrHigh mask ≠ network := by
  unfold isNetworkAllocated
  rw [if_neg (not_not_intro aligned), Option.some.injEq, Bool.not_eq_true', any_eq_false]
  apply forall₂_congr
  intro e _
  rw [Bool.or_eq_true, beq_iff_eq, beq_iff_eq, not_or]
  exact and_congr ne_comm ne_comm

/-- For a mask of leading ones: a range begins before the network and ends behind it. -/
theorem straddled_iff {entries : List Entry} (ranges : Ranges entries) {network : Ipv4Address}
    {mask : Ipv4Mask} (aligned : network.combineMask mask = network) {hostBits : Nat}
    (leading : mask.Leading hostBits) :
    Straddled entries network mask ↔
      ∃ e ∈ entries, e.addrLow < network ∧ network.toNat + 2 ^ hostBits ≤ e.addrHigh.toNat := by
  have inside := leading.combineMask_iff aligned
  have positive := Nat.two_pow_pos hostBits
  constructor
  · rintro ⟨⟨e, mem, a, low, high, held⟩, ends⟩
    obtain ⟨low_out, high_out⟩ := ends e mem
    rw [ne_eq, inside] at low_out high_out
    rw [inside] at held
    rw [lt_iff_toNat_lt] at low high
    refine ⟨e, mem, ?_, ?_⟩
    · rw [lt_iff_toNat_lt]
      omega
    · omega
  · rintro ⟨e, mem, low, high⟩
    rw [lt_iff_toNat_lt] at low
    refine ⟨⟨e, mem, network, ?_, ?_, aligned⟩, fun f f_mem => ?_⟩
    · rwa [lt_iff_toNat_lt]
    · rw [lt_iff_toNat_lt]
      omega
    rw [ne_eq, ne_eq, inside, inside]
    have filled := ranges.filled f f_mem
    have apart := ranges.apart mem f_mem
    rw [le_iff_toNat_le] at filled
    rw [lt_iff_toNat_lt, lt_iff_toNat_lt] at apart
    rcases apart with rfl | apart
    · omega
    · omega

/-- **The check of a network** is exact, unless the network is straddled: only the ends of the
ranges are compared. -/
theorem isNetworkAllocated_iff (reached : Reached g added) {network : Ipv4Address}
    {mask : Ipv4Mask} (aligned : network = network.combineMask mask) :
    ((g.isNetworkAllocated network mask = some true ↔ ∀ a ∈ added, a.combineMask mask ≠ network) ↔
      ¬ Straddled g.entries network mask) ∧
    ∀ hostBits, mask.Leading hostBits → (Straddled g.entries network mask ↔
      ∃ e ∈ g.entries, e.addrLow < network ∧ network.toNat + 2 ^ hostBits ≤ e.addrHigh.toNat) := by
  have tracks := reached.tracks
  refine ⟨?_, fun hostBits leading => straddled_iff tracks.ranges aligned.symm leading⟩
  rw [isNetworkAllocated_free aligned]
  constructor
  · rintro exact ⟨⟨e, mem, a, low, high, held⟩, ends⟩
    have allocated : Allocated g.entries a := ⟨e, mem, UInt32.le_of_lt low, UInt32.le_of_lt high⟩
    exact exact.mp ends a ((tracks.exact a).mp allocated) held
  · intro clear
    constructor
    · intro ends a known held
      obtain ⟨e, mem, low, high⟩ := (tracks.exact a).mpr known
      obtain ⟨low_out, high_out⟩ := ends e mem
      refine clear ⟨⟨e, mem, a, ?_, ?_, held⟩, ends⟩
      · exact UInt32.lt_of_le_of_ne low fun same => low_out (same ▸ held)
      · exact UInt32.lt_of_le_of_ne high fun same => high_out (same ▸ held)
    · intro none e mem
      have filled := tracks.ranges.filled e mem
      exact ⟨none _ ((tracks.exact _).mp ⟨e, mem, UInt32.le_refl _, filled⟩),
        none _ ((tracks.exact _).mp ⟨e, mem, filled, UInt32.le_refl _⟩)⟩

/-- 0.0.0.5 is in 0.0.0.4/30. -/
theorem isNetworkAllocated_iff_single :
    isNetworkAllocated ⟨fun _ => ⟨0, 0, 0, 0⟩, [⟨5, 5⟩], true⟩ 4 0xfffffffc = some true ↔
      ∀ a ∈ [5], combineMask a 0xfffffffc ≠ 4 := by
  have reached : Reached ⟨fun _ => ⟨0, 0, 0, 0⟩, [⟨5, 5⟩], true⟩ [5] :=
    (Reached.start _).addAllocated rfl
  have aligned : (4 : Ipv4Address) = combineMask 4 0xfffffffc := by decide
  have exact := isNetworkAllocated_iff reached aligned
  have leading : Ipv4Mask.Leading 0xfffffffc 2 := ⟨by decide, by decide⟩
  apply exact.1.mpr
  rw [exact.2 2 leading]
  simp

/-- The addresses from 0.0.0.3 to 0.0.0.8 cover 0.0.0.4/30. -/
theorem isNetworkAllocated_covered :
    ∃ g added, Reached g added ∧ g.isNetworkAllocated 4 0xfffffffc = some true ∧
      ∃ a ∈ added, combineMask a 0xfffffffc = 4 := by
  have table : Fin 32 → NetworkState := fun _ => ⟨0, 0, 0, 0⟩
  have three : Reached ⟨table, [⟨3, 3⟩], true⟩ [3] := (Reached.start table).addAllocated rfl
  have four : Reached ⟨table, [⟨3, 4⟩], true⟩ [4, 3] := three.addAllocated rfl
  have five : Reached ⟨table, [⟨3, 5⟩], true⟩ [5, 4, 3] := four.addAllocated rfl
  have six : Reached ⟨table, [⟨3, 6⟩], true⟩ [6, 5, 4, 3] := five.addAllocated rfl
  have seven : Reached ⟨table, [⟨3, 7⟩], true⟩ [7, 6, 5, 4, 3] := six.addAllocated rfl
  have eight : Reached ⟨table, [⟨3, 8⟩], true⟩ [8, 7, 6, 5, 4, 3] := seven.addAllocated rfl
  exact ⟨_, _, eight, rfl, 4, by decide, rfl⟩

end Ipv4AddressGeneratorImpl

end Ns3.Internet
