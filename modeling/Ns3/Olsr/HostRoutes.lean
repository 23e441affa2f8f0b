import Ns3.Library.Layers
import Ns3.Olsr.RoutingTable

/-!
# The host routes

Neighbors come first, then what is behind a willing neighbor, then the topology
layer by layer. Interface addresses follow their main address.
-/

namespace Ns3.Olsr

open Layers List

namespace OlsrState

variable (s : OlsrState)

/-! ## What the repositories say -/

/-- A live link to a symmetric neighbor leads to one of its addresses. -/
def LinkTo (next : Address) (interface : Nat) (d : Address) : Prop :=
  ∃ nb ∈ s.neighborSet, nb.status = .sym ∧ ∃ link ∈ s.linkSet, s.linkMatches nb link = true ∧
    (d = link.neighborIfaceAddr ∨ d = nb.neighborMainAddr) ∧ next = link.neighborIfaceAddr ∧
    interface = s.interfaceOf link.localIfaceAddr

/-- A symmetric neighbor over a live link. -/
def Near (d : Address) : Prop := ∃ next interface, s.LinkTo next interface d

/-- A tuple for a node that is neither a neighbor nor the node itself, through a willing one. -/
def Accepted (tuple : TwoHopNeighborTuple) : Prop :=
  s.isSymNeighbor tuple.twoHopNeighborAddr = false ∧ tuple.twoHopNeighborAddr ≠ s.mainAddress ∧
    s.isWilling tuple.neighborMainAddr = true

/-- A two-hop neighbor through a willing neighbor. -/
def TwoHop (d : Address) : Prop :=
  ∃ tuple ∈ s.twoHopNeighborSet, s.Accepted tuple ∧ s.Near tuple.neighborMainAddr ∧
    tuple.twoHopNeighborAddr = d

/-- A topology tuple from one address to another. -/
def Advertised (last d : Address) : Prop :=
  ∃ tuple ∈ s.topologySet, tuple.lastAddr = last ∧ tuple.destAddr = d

/-- The distances that the repositories say. -/
abbrev AtDistance : Nat → Address → Prop := Layer s.Near s.TwoHop s.Advertised

/-- A next hop and an interface that start a path to an address, over the distances. -/
inductive Starts (at_ : Nat → Address → Prop) (next : Address) (interface : Nat) :
    Nat → Address → Prop where
  | link {d : Address} : s.LinkTo next interface d → Starts at_ next interface 1 d
  | twoHop {tuple : TwoHopNeighborTuple} : tuple ∈ s.twoHopNeighborSet → s.Accepted tuple →
      Starts at_ next interface 1 tuple.neighborMainAddr →
      Starts at_ next interface 2 tuple.twoHopNeighborAddr
  | topology {tuple : TopologyTuple} {h : Nat} : tuple ∈ s.topologySet → 2 ≤ h →
      at_ h tuple.lastAddr → Starts at_ next interface h tuple.lastAddr →
      Starts at_ next interface (h + 1) tuple.destAddr

/-- `RoutingTableEntry::distance` for each destination. -/
def distances (table : Table) (d : Address) : Option Nat :=
  (table d).map RoutingTableEntry.distance

/-- The destinations have the least distances and the start of such a path; each other route is for
an interface of a main address that has one, and copies it; none leads to the node itself. -/
structure HostRoutes (table : Table) : Prop where
  routed : ∃ dests : Table, IsDistance s.Near s.TwoHop s.Advertised (distances dests) ∧
    (∀ d e, dests d = some e → e.destAddr = d ∧
      s.Starts (fun h a => distances dests a = some h) e.nextAddr e.interface e.distance d) ∧
    (∀ d e, dests d = some e → table d = some e) ∧
    (∀ d e, dests d = none → table d = some e → ∃ tuple ∈ s.ifaceAssocSet,
      tuple.ifaceAddr = d ∧ ∃ m, table tuple.mainAddr = some m ∧ e = { m with destAddr := d }) ∧
    ∀ tuple ∈ s.ifaceAssocSet, dests tuple.mainAddr ≠ none → table tuple.ifaceAddr ≠ none
  other : table s.mainAddress = none

/-! ## When the table is right -/

/-- No two-hop neighbor has an address of a neighbor, and none is behind another two-hop neighbor
that came before it. -/
structure Apart : Prop where
  addresses : ∀ tuple ∈ s.twoHopNeighborSet, s.Accepted tuple → s.Near tuple.neighborMainAddr →
    ¬ s.Near tuple.twoHopNeighborAddr
  order : s.twoHopNeighborSet.Pairwise fun before tuple =>
    s.Accepted before → s.Near before.neighborMainAddr → s.Accepted tuple →
      tuple.neighborMainAddr = before.twoHopNeighborAddr → s.Near tuple.neighborMainAddr

/-- The addresses that have a route after the interface associations, in their order. -/
def named : (Address → Prop) → List IfaceAssocTuple → Address → Prop
  | routed, [] => routed
  | routed, tuple :: rest =>
    named (fun d => routed d ∨ (d = tuple.ifaceAddr ∧ routed tuple.mainAddr)) rest

/-- The node is no neighbor of itself, no topology tuple leads to it from a distance of two or
more, and no interface association names it for an address that has a route by then. -/
structure NotItself : Prop where
  neighbor : ¬ s.Near s.mainAddress
  topology : ∀ tuple ∈ s.topologySet, tuple.destAddr = s.mainAddress →
    ∀ h, 2 ≤ h → ¬ s.AtDistance h tuple.lastAddr
  iface : ∀ before tuple after, s.ifaceAssocSet = before ++ tuple :: after →
    tuple.ifaceAddr = s.mainAddress → ¬ named (fun d => ∃ h, s.AtDistance h d) before tuple.mainAddr

/-! ## Neighbors -/

variable {s}

/-- Entries of neighbors only. -/
def OnlyNear (s : OlsrState) (table : Table) : Prop :=
  ∀ d e, table d = some e → e.destAddr = d ∧ e.distance = 1 ∧ s.LinkTo e.nextAddr e.interface d

/-- Nothing loses its route. -/
def Grows (table table' : Table) : Prop := ∀ d, table d ≠ none → table' d ≠ none

theorem Grows.addEntry (table : Table) (dest next : Address) (interface distance : Nat) :
    Grows table (table.addEntry dest next interface distance) := by
  intro d there
  unfold Table.addEntry
  split
  · exact Option.some_ne_none _
  · exact there

theorem OnlyNear.addEntry {table : Table} (near : s.OnlyNear table) {dest next : Address}
    {interface : Nat} (leads : s.LinkTo next interface dest) :
    s.OnlyNear (table.addEntry dest next interface 1) := by
  intro d e given
  obtain ⟨rfl, rfl⟩ | old := Table.of_addEntry given
  · exact ⟨rfl, rfl, leads⟩
  · exact near d e old

/-- What the loop over the links keeps and adds. -/
structure LinkLoop (s : OlsrState) (nb : NeighborTuple) (state : Table × Bool × Option LinkTuple) :
    Prop where
  near : s.OnlyNear state.1
  flag : state.2.1 = true → state.1 nb.neighborMainAddr ≠ none
  last : ∀ link, state.2.2 = some link → link ∈ s.linkSet ∧ s.linkMatches nb link = true

theorem LinkLoop.run {nb : NeighborTuple} (mem : nb ∈ s.neighborSet) (sym : nb.status = .sym)
    {links : List LinkTuple} (inside : ∀ link ∈ links, link ∈ s.linkSet)
    {state : Table × Bool × Option LinkTuple} (before : LinkLoop s nb state) :
    LinkLoop s nb (s.linkLoop nb links state) ∧ Grows state.1 (s.linkLoop nb links state).1 ∧
      (state.2.2 ≠ none → (s.linkLoop nb links state).2.2 ≠ none) ∧
      ∀ link ∈ links, s.linkMatches nb link = true →
        (s.linkLoop nb links state).1 link.neighborIfaceAddr ≠ none ∧
          (s.linkLoop nb links state).2.2 ≠ none := by
  induction links generalizing state with
  | nil => exact ⟨before, fun _ there => there, id, nofun⟩
  | cons link links ih =>
    obtain ⟨table, nbMainAddr, lt⟩ := state
    have here := inside link mem_cons_self
    have later := fun link mem => inside link (mem_cons_of_mem _ mem)
    unfold linkLoop
    split
    · rename_i good
      have leads : s.LinkTo link.neighborIfaceAddr (s.interfaceOf link.localIfaceAddr)
          link.neighborIfaceAddr := ⟨nb, mem, sym, link, here, good, Or.inl rfl, rfl, rfl⟩
      have grows := Grows.addEntry table link.neighborIfaceAddr link.neighborIfaceAddr
        (s.interfaceOf link.localIfaceAddr) 1
      have next : LinkLoop s nb (table.addEntry link.neighborIfaceAddr link.neighborIfaceAddr
          (s.interfaceOf link.localIfaceAddr) 1,
          nbMainAddr || decide (link.neighborIfaceAddr = nb.neighborMainAddr), some link) := by
        refine ⟨before.near.addEntry leads, ?_, ?_⟩
        · intro flagged
          rcases Bool.or_eq_true_iff.mp flagged with old | new
          · exact grows _ (before.flag old)
          · rw [← of_decide_eq_true new]
            exact Table.addEntry_ne_none table _ _ _ _
        · rintro _ ⟨⟩
          exact ⟨here, good⟩
      obtain ⟨loop, more, kept, all⟩ := ih later next
      refine ⟨loop, fun d there => more d (grows d there),
        fun _ => kept (Option.some_ne_none _), ?_⟩
      intro other mem matching
      rcases mem_cons.mp mem with rfl | mem
      · exact ⟨more _ (Table.addEntry_ne_none table _ _ _ _), kept (Option.some_ne_none _)⟩
      · exact all other mem matching
    · rename_i bad
      obtain ⟨loop, more, kept, all⟩ := ih later before
      refine ⟨loop, more, kept, fun other mem matching => ?_⟩
      rcases mem_cons.mp mem with rfl | mem
      · exact absurd matching bad
      · exact all other mem matching

theorem addNeighbor_spec {table : Table} (near : s.OnlyNear table) {nb : NeighborTuple}
    (mem : nb ∈ s.neighborSet) :
    s.OnlyNear (s.addNeighbor table nb) ∧ Grows table (s.addNeighbor table nb) ∧
      (nb.status = .sym → ∀ link ∈ s.linkSet, s.linkMatches nb link = true →
        s.addNeighbor table nb link.neighborIfaceAddr ≠ none ∧
          s.addNeighbor table nb nb.neighborMainAddr ≠ none) := by
  unfold addNeighbor
  by_cases sym : nb.status = .sym
  · rw [if_pos sym]
    have start : LinkLoop s nb (table, false, none) := ⟨near, nofun, nofun⟩
    obtain ⟨loop, more, _, all⟩ := start.run mem sym (fun _ => id)
    generalize s.linkLoop nb s.linkSet (table, false, none) = state at *
    obtain ⟨table', flag, lt⟩ := state
    cases flag with
    | true =>
      exact ⟨loop.near, more, fun _ link mem good => ⟨(all link mem good).1, loop.flag rfl⟩⟩
    | false =>
      cases lt with
      | none =>
        exact ⟨loop.near, more, fun _ link mem good => absurd rfl (all link mem good).2⟩
      | some last =>
        obtain ⟨here, good⟩ := loop.last last rfl
        have leads : s.LinkTo last.neighborIfaceAddr (s.interfaceOf last.localIfaceAddr)
            nb.neighborMainAddr := ⟨nb, mem, sym, last, here, good, Or.inr rfl, rfl, rfl⟩
        have grows := Grows.addEntry table' nb.neighborMainAddr last.neighborIfaceAddr
          (s.interfaceOf last.localIfaceAddr) 1
        exact ⟨loop.near.addEntry leads, fun d there => grows d (more d there),
          fun _ link mem good => ⟨grows _ (all link mem good).1,
            Table.addEntry_ne_none table' _ _ _ _⟩⟩
  · rw [if_neg sym]
    exact ⟨near, fun _ there => there, fun yes => absurd yes sym⟩

/-- **The neighbors** are the addresses at distance one. -/
theorem neighbors_spec : s.OnlyNear (s.neighborSet.foldl s.addNeighbor fun _ => none) ∧
      ∀ d, (s.neighborSet.foldl s.addNeighbor fun _ => none) d ≠ none ↔ s.Near d := by
  have loop : ∀ (later : List NeighborTuple), (∀ nb ∈ later, nb ∈ s.neighborSet) →
      ∀ table, s.OnlyNear table → s.OnlyNear (later.foldl s.addNeighbor table) ∧
        Grows table (later.foldl s.addNeighbor table) ∧
        ∀ nb ∈ later, nb.status = .sym → ∀ link ∈ s.linkSet, s.linkMatches nb link = true →
          later.foldl s.addNeighbor table link.neighborIfaceAddr ≠ none ∧
            later.foldl s.addNeighbor table nb.neighborMainAddr ≠ none := by
    intro later
    induction later with
    | nil => exact fun _ table near => ⟨near, fun _ there => there, nofun⟩
    | cons nb later ih =>
      intro inside table near
      obtain ⟨near', more, all⟩ := addNeighbor_spec near (inside nb mem_cons_self)
      obtain ⟨near'', more', all'⟩ := ih (fun nb mem => inside nb (mem_cons_of_mem _ mem)) _ near'
      refine ⟨near'', fun d there => more' d (more d there), ?_⟩
      intro other mem sym link link_mem good
      rcases mem_cons.mp mem with rfl | mem
      · have both := all sym link link_mem good
        exact ⟨more' _ both.1, more' _ both.2⟩
      · exact all' other mem sym link link_mem good
  obtain ⟨near, _, all⟩ := loop s.neighborSet (fun _ => id) (fun _ => none) nofun
  refine ⟨near, fun d => ⟨fun there => ?_, ?_⟩⟩
  · obtain ⟨e, given⟩ := Option.ne_none_iff_exists'.mp there
    exact ⟨_, _, (near d e given).2.2⟩
  · rintro ⟨_, _, nb, mem, sym, link, link_mem, good, rfl | rfl, _, _⟩
    · exact (all nb mem sym link link_mem good).1
    · exact (all nb mem sym link link_mem good).2

/-! ## Two-hop neighbors -/

/-- The neighbors, and the two-hop neighbors of the tuples so far. -/
structure TwoHopLoop (s : OlsrState) (done : List TwoHopNeighborTuple) (table : Table) : Prop where
  near : ∀ d, s.Near d → table d ≠ none
  reached : ∀ tuple ∈ done, s.Accepted tuple → s.Near tuple.neighborMainAddr →
    table tuple.twoHopNeighborAddr ≠ none
  entry : ∀ d e, table d = some e → e.destAddr = d ∧
    ((e.distance = 1 ∧ s.LinkTo e.nextAddr e.interface d) ∨
      (e.distance = 2 ∧ ¬ s.Near d ∧ ∃ tuple ∈ done, s.Accepted tuple ∧
        tuple.twoHopNeighborAddr = d ∧ s.LinkTo e.nextAddr e.interface tuple.neighborMainAddr))

theorem addTwoHop_eq (table : Table) (tuple : TwoHopNeighborTuple) (accepted : s.Accepted tuple) :
    s.addTwoHop table tuple = match table tuple.neighborMainAddr with
      | some entry => table.addEntry tuple.twoHopNeighborAddr entry.nextAddr entry.interface 2
      | none => table := by
  apply (if_neg (by rw [accepted.1]; exact Bool.false_ne_true)).trans
  apply (if_neg accepted.2.1).trans
  exact if_neg (by rw [accepted.2.2]; decide)

theorem addTwoHop_skips (table : Table) (tuple : TwoHopNeighborTuple)
    (skipped : ¬ s.Accepted tuple) : s.addTwoHop table tuple = table := by
  unfold addTwoHop
  split
  · rfl
  · rename_i stranger
    split
    · rfl
    · rename_i other
      split
      · rfl
      · rename_i willing
        exact absurd ⟨by simpa using stranger, other, by simpa using willing⟩ skipped

theorem TwoHopLoop.next {done later : List TwoHopNeighborTuple} {tuple : TwoHopNeighborTuple}
    {table : Table} (apart : s.Apart) (split_ : s.twoHopNeighborSet = done ++ tuple :: later)
    (loop : TwoHopLoop s done table) :
    TwoHopLoop s (done ++ [tuple]) (s.addTwoHop table tuple) := by
  have mem : tuple ∈ s.twoHopNeighborSet := by
    rw [split_]
    exact mem_append_right _ mem_cons_self
  have wider : ∀ t ∈ done, t ∈ done ++ [tuple] := fun t mem => mem_append_left _ mem
  by_cases accepted : s.Accepted tuple
  · rw [addTwoHop_eq table tuple accepted]
    cases given : table tuple.neighborMainAddr with
    | none =>
      refine ⟨loop.near, fun t mem accepted near => ?_, fun d e there => ?_⟩
      · rcases mem_append.mp mem with mem | mem
        · exact loop.reached t mem accepted near
        · rw [mem_singleton.mp mem] at near
          exact absurd given (loop.near _ near)
      · obtain ⟨dest, near | ⟨two, far, t, mem, rest⟩⟩ := loop.entry d e there
        · exact ⟨dest, Or.inl near⟩
        · exact ⟨dest, Or.inr ⟨two, far, t, wider t mem, rest⟩⟩
    | some entry =>
      have leads : s.LinkTo entry.nextAddr entry.interface tuple.neighborMainAddr := by
        obtain ⟨_, near | ⟨_, far, before, before_mem, accepted', reached, leads⟩⟩ :=
          loop.entry _ _ given
        · exact near.2
        · have order := apart.order
          rw [split_, pairwise_append] at order
          have near := order.2.2 before before_mem tuple mem_cons_self accepted'
            ⟨_, _, leads⟩ accepted reached.symm
          exact absurd near far
      have grows := Grows.addEntry table tuple.twoHopNeighborAddr entry.nextAddr entry.interface 2
      refine ⟨fun d near => grows d (loop.near d near), fun t mem accepted near => ?_,
        fun d e there => ?_⟩
      · rcases mem_append.mp mem with mem | mem
        · exact grows _ (loop.reached t mem accepted near)
        · rw [mem_singleton.mp mem]
          exact Table.addEntry_ne_none table _ _ _ _
      · obtain ⟨rfl, rfl⟩ | there := Table.of_addEntry there
        · exact ⟨rfl, Or.inr ⟨rfl, apart.addresses tuple mem accepted ⟨_, _, leads⟩, tuple,
            mem_append_right _ (mem_singleton_self tuple), accepted, rfl, leads⟩⟩
        · obtain ⟨dest, near | ⟨two, far, t, mem, rest⟩⟩ := loop.entry d e there
          · exact ⟨dest, Or.inl near⟩
          · exact ⟨dest, Or.inr ⟨two, far, t, wider t mem, rest⟩⟩
  · rw [addTwoHop_skips table tuple accepted]
    refine ⟨loop.near, fun t mem accepted' near => ?_, fun d e there => ?_⟩
    · rcases mem_append.mp mem with mem | mem
      · exact loop.reached t mem accepted' near
      · exact absurd (mem_singleton.mp mem ▸ accepted') accepted
    · obtain ⟨dest, near | ⟨two, far, t, mem, rest⟩⟩ := loop.entry d e there
      · exact ⟨dest, Or.inl near⟩
      · exact ⟨dest, Or.inr ⟨two, far, t, wider t mem, rest⟩⟩

theorem nearTable_spec (apart : s.Apart) : TwoHopLoop s s.twoHopNeighborSet s.nearTable := by
  have loop : ∀ later done, s.twoHopNeighborSet = done ++ later → ∀ table, TwoHopLoop s done table →
      TwoHopLoop s s.twoHopNeighborSet (later.foldl s.addTwoHop table) := by
    intro later
    induction later with
    | nil =>
      intro done split_ table start
      rw [append_nil] at split_
      rw [split_]
      exact start
    | cons tuple later ih =>
      intro done split_ table start
      exact ih (done ++ [tuple]) (by rw [split_, append_assoc]; rfl) _ (start.next apart split_)
  obtain ⟨near, all⟩ := neighbors_spec (s := s)
  exact loop s.twoHopNeighborSet [] rfl _ ⟨fun d => (all d).mpr, nofun, fun d e there =>
    ⟨(near d e there).1, Or.inl (near d e there).2⟩⟩

theorem atDistance_one (d : Address) : s.AtDistance 1 d ↔ s.Near d := by
  exact (layer_succ 0 d).trans ⟨fun both => both.1, fun near => ⟨near, id⟩⟩

theorem atDistance_two (d : Address) : s.AtDistance 2 d ↔ s.TwoHop d ∧ ¬ s.Near d := by
  have within : Within s.Near s.TwoHop s.Advertised 1 d ↔ s.Near d := by
    rw [← atDistance_one]
    exact (within_succ 0 d).trans ⟨fun one => one.resolve_left id, Or.inr⟩
  exact (layer_succ 1 d).trans (and_congr_right fun _ => not_congr within)

/-- The table has the distances up to `h`, each with the start of a path. -/
structure UpTo (s : OlsrState) (h : Nat) (table : Table) : Prop where
  distance : ∀ d k, distances table d = some k ↔ k ≤ h ∧ s.AtDistance k d
  starts : ∀ d e, table d = some e →
    e.destAddr = d ∧ s.Starts s.AtDistance e.nextAddr e.interface e.distance d

theorem nearTable_upTo (apart : s.Apart) : UpTo s 2 s.nearTable := by
  have spec := nearTable_spec apart
  constructor
  · intro d k
    unfold distances
    constructor
    · intro given
      obtain ⟨e, there, rfl⟩ := Option.map_eq_some_iff.mp given
      obtain ⟨_, near | ⟨two, far, tuple, mem, accepted, rfl, leads⟩⟩ := spec.entry d e there
      · rw [near.1, atDistance_one]
        exact ⟨by omega, _, _, near.2⟩
      · rw [two, atDistance_two]
        exact ⟨Nat.le_refl 2, ⟨tuple, mem, accepted, ⟨_, _, leads⟩, rfl⟩, far⟩
    · rintro ⟨below, inside⟩
      have routed : ∃ e, s.nearTable d = some e := by
        rw [← Option.ne_none_iff_exists']
        obtain rfl | rfl | rfl : k = 0 ∨ k = 1 ∨ k = 2 := by omega
        · exact inside.elim
        · exact spec.near d ((atDistance_one d).mp inside)
        · obtain ⟨⟨tuple, mem, accepted, near, rfl⟩, _⟩ := (atDistance_two d).mp inside
          exact spec.reached tuple mem accepted near
      obtain ⟨e, there⟩ := routed
      rw [there, Option.map_some]
      obtain ⟨_, near | ⟨two, far, tuple, mem, accepted, rfl, leads⟩⟩ := spec.entry d e there
      · have one : s.AtDistance 1 d := (atDistance_one d).mpr ⟨_, _, near.2⟩
        rw [near.1, layer_unique one inside]
      · have two' := (atDistance_two _).mpr ⟨⟨tuple, mem, accepted, ⟨_, _, leads⟩, rfl⟩, far⟩
        rw [two, layer_unique two' inside]
  · intro d e there
    obtain ⟨dest, near | ⟨two, _, tuple, mem, accepted, rfl, leads⟩⟩ := spec.entry d e there
    · rw [near.1]
      exact ⟨dest, .link near.2⟩
    · rw [two]
      exact ⟨dest, .twoHop mem accepted (.link leads)⟩

end OlsrState

end Ns3.Olsr
