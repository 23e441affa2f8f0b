import Ns3.Olsr.TopologyRoutes
import Mathlib.Data.List.Nodup
import Mathlib.Data.List.TakeDrop

/-!
# The routes to announced networks

Clearing the table by index while it shrinks leaves the second half of it. What
is left stays unless a nearer gateway replaces it.
-/

namespace Ns3.Olsr

open List

namespace OlsrState

variable (s : OlsrState)

/-- A gateway that announces the network, unless the node does, with its host route. -/
def Announced (table : Table) (network mask : Address) (entry : RoutingTableEntry) : Prop :=
  ∃ tuple ∈ s.associationSet, tuple.networkAddr = network ∧ tuple.netmask = mask ∧
    s.isLocal tuple = false ∧ table tuple.gatewayAddr = some entry

/-- The route through a nearest gateway of its network. -/
def Nearest (table : Table) (route : HnaRoute) : Prop :=
  ∃ entry, s.Announced table route.network route.mask entry ∧
    route = ⟨route.network, route.mask, entry.nextAddr, entry.interface, entry.distance⟩ ∧
    ∀ other, s.Announced table route.network route.mask other → entry.distance ≤ other.distance

def HnaRoute.key (route : HnaRoute) : Address × Address := (route.network, route.mask)

/-- No two routes to one network. -/
def Once (routes : List HnaRoute) : Prop := (routes.map HnaRoute.key).Nodup

/-- One route for each announced network, through a nearest gateway, and no other one. -/
structure HnaRoutes (table : Table) (routes : List HnaRoute) : Prop where
  once : Once routes
  nearest : ∀ route ∈ routes, s.Nearest table route
  all : ∀ network mask entry, s.Announced table network mask entry →
    ∃ route ∈ routes, route.key = (network, mask)

/-- Each route that is left is right, or farther than a gateway that announces its network. -/
def LeftRight (table : Table) (left : List HnaRoute) : Prop :=
  ∀ route ∈ left, s.Nearest table route ∨
    ∃ entry, s.Announced table route.network route.mask entry ∧ entry.distance < route.metric

/-- The HNA tables of earlier computations. -/
inductive Computed : List HnaRoute → Prop where
  | new : Computed []
  | again (s : OlsrState) (table : Table) {routes : List HnaRoute} : Computed routes →
      Computed (s.hnaTable table routes)

/-! ## Clearing -/

theorem clearLoop_eq (rounds i : Nat) (routes : List HnaRoute)
    (enough : routes.length ≤ i + rounds) :
    clearLoop rounds i routes = routes.drop ((routes.length - i + 1) / 2) := by
  induction rounds generalizing i routes with
  | zero =>
    have done : (routes.length - i + 1) / 2 = 0 := by omega
    rw [done]
    rfl
  | succ rounds ih =>
    unfold clearLoop
    split
    · rename_i more
      have half : (routes.length - i + 1) / 2 = 1 + ((routes.drop 1).length - (i + 1) + 1) / 2 := by
        rw [length_drop]
        omega
      rw [ih (i + 1) _ (by rw [length_drop]; omega), drop_drop, half]
    · have done : (routes.length - i + 1) / 2 = 0 := by omega
      rw [done]
      rfl

/-- **Half of the routes** are left. -/
theorem clearHna_eq (routes : List HnaRoute) :
    clearHna routes = routes.drop ((routes.length + 1) / 2) :=
  clearLoop_eq routes.length 0 routes (Nat.le_add_left _ 0)

/-! ## Adding -/

variable {s}

variable {tuple : AssociationTuple} {table : Table} {done : List AssociationTuple}
  {entry : RoutingTableEntry} {left routes : List HnaRoute}

theorem key_eq_iff {route : HnaRoute} :
    isRouteTo tuple route = true ↔ route.key = (tuple.networkAddr, tuple.netmask) := by
  unfold isRouteTo HnaRoute.key
  rw [Bool.and_eq_true, decide_eq_true_iff, decide_eq_true_iff, Prod.mk.injEq]

/-- A gateway's tuple among those so far. -/
def From (s : OlsrState) (table : Table) (done : List AssociationTuple)
    (key : Address × Address) (entry : RoutingTableEntry) : Prop :=
  ∃ tuple ∈ done, (tuple.networkAddr, tuple.netmask) = key ∧ s.isLocal tuple = false ∧
    table tuple.gatewayAddr = some entry

/-- The routes after the tuples so far, from those that were left. -/
structure HnaLoop (s : OlsrState) (table : Table) (left : List HnaRoute)
    (done : List AssociationTuple) (routes : List HnaRoute) : Prop where
  once : Once routes
  least : ∀ route ∈ routes, ∀ entry, From s table done route.key entry →
    route.metric ≤ entry.distance
  origin : ∀ route ∈ routes, route ∈ left ∨ ∃ entry, From s table done route.key entry ∧
    route = ⟨route.network, route.mask, entry.nextAddr, entry.interface, entry.distance⟩
  stays : ∀ route ∈ left, route ∈ routes ∨
    ∃ entry, From s table done route.key entry ∧ entry.distance < route.metric
  all : ∀ key entry, From s table done key entry → ∃ route ∈ routes, route.key = key

theorem From.mono {key : Address × Address} (from_ : From s table done key entry)
    (tuple : AssociationTuple) :
    From s table (done ++ [tuple]) key entry := by
  obtain ⟨t, mem, rest⟩ := from_
  exact ⟨t, mem_append_left _ mem, rest⟩

theorem From.of_snoc {key : Address × Address} (from_ : From s table (done ++ [tuple]) key entry) :
    From s table done key entry ∨ (tuple.networkAddr, tuple.netmask) = key ∧
      s.isLocal tuple = false ∧ table tuple.gatewayAddr = some entry := by
  obtain ⟨t, mem, rest⟩ := from_
  rcases mem_append.mp mem with mem | mem
  · exact Or.inl ⟨t, mem, rest⟩
  · rw [mem_singleton.mp mem] at rest
    exact Or.inr rest

section

variable (loop : HnaLoop s table left done routes)
include loop

/-- A tuple that changes nothing, as the table has a route that is near enough. -/
theorem HnaLoop.skip
    (skipped : ∀ entry, s.isLocal tuple = false → table tuple.gatewayAddr = some entry →
      ∃ route ∈ routes, route.key = (tuple.networkAddr, tuple.netmask) ∧
        route.metric ≤ entry.distance) :
    HnaLoop s table left (done ++ [tuple]) routes := by
  refine ⟨loop.once, fun route mem entry from_ => ?_, fun route mem => ?_, fun route mem => ?_,
    fun key entry from_ => ?_⟩
  · obtain from_ | ⟨same, foreign, given⟩ := from_.of_snoc
    · exact loop.least route mem entry from_
    · obtain ⟨near, near_mem, key, short⟩ := skipped entry foreign given
      have equal : near = route := inj_on_of_nodup_map loop.once near_mem mem (key.trans same)
      exact equal ▸ short
  · obtain old | ⟨entry, from_, same⟩ := loop.origin route mem
    · exact Or.inl old
    · exact Or.inr ⟨entry, from_.mono tuple, same⟩
  · obtain here | ⟨entry, from_, nearer⟩ := loop.stays route mem
    · exact Or.inl here
    · exact Or.inr ⟨entry, from_.mono tuple, nearer⟩
  · obtain from_ | ⟨same, foreign, given⟩ := from_.of_snoc
    · exact loop.all key entry from_
    · obtain ⟨near, near_mem, near_key, _⟩ := skipped entry foreign given
      exact ⟨near, near_mem, near_key.trans same⟩

/-- A tuple whose route comes after the routes to other networks, for a farther one or for none. -/
theorem HnaLoop.add {others : List HnaRoute} (foreign : s.isLocal tuple = false)
    (given : table tuple.gatewayAddr = some entry) (once : Once others)
    (fewer : ∀ r ∈ others, r ∈ routes)
    (missing : ∀ r ∈ others, r.key ≠ (tuple.networkAddr, tuple.netmask))
    (replaced : ∀ r ∈ routes, r ∈ others ∨
      r.key = (tuple.networkAddr, tuple.netmask) ∧ entry.distance < r.metric) :
    HnaLoop s table left (done ++ [tuple]) (addNetworkRouteTo others
      ⟨tuple.networkAddr, tuple.netmask, entry.nextAddr, entry.interface, entry.distance⟩) := by
  have from_ : From s table (done ++ [tuple]) (tuple.networkAddr, tuple.netmask) entry :=
    ⟨tuple, mem_append_right _ (mem_singleton_self tuple), rfl, foreign, given⟩
  unfold addNetworkRouteTo
  rw [if_neg fun mem => missing _ mem rfl]
  refine ⟨?_, fun route mem e source => ?_, fun route mem => ?_, fun route mem => ?_,
    fun key e source => ?_⟩
  · unfold Once
    rw [map_append, nodup_append]
    refine ⟨once, nodup_singleton _, ?_⟩
    rintro _ old _ new rfl
    obtain ⟨r, mem, same⟩ := mem_map.mp old
    exact missing r mem (same.trans (mem_singleton.mp new))
  · rcases mem_append.mp mem with mem | mem
    · obtain source | ⟨same, _, _⟩ := source.of_snoc
      · exact loop.least route (fewer route mem) e source
      · exact absurd same.symm (missing route mem)
    · rw [mem_singleton.mp mem] at source ⊢
      obtain source | ⟨_, _, given'⟩ := source.of_snoc
      · obtain ⟨r, r_mem, key⟩ := loop.all _ e source
        obtain other | ⟨_, nearer⟩ := replaced r r_mem
        · exact absurd key (missing r other)
        · exact Nat.le_trans (Nat.le_of_lt nearer) (loop.least r r_mem e (key ▸ source))
      · rw [given] at given'
        exact (Option.some.inj given' ▸ Nat.le_refl _)
  · rcases mem_append.mp mem with mem | mem
    · obtain old | ⟨e, source, same⟩ := loop.origin route (fewer route mem)
      · exact Or.inl old
      · exact Or.inr ⟨e, source.mono tuple, same⟩
    · rw [mem_singleton.mp mem]
      exact Or.inr ⟨entry, from_, rfl⟩
  · obtain here | ⟨e, source, nearer⟩ := loop.stays route mem
    · obtain other | ⟨key, nearer⟩ := replaced route here
      · exact Or.inl (mem_append_left _ other)
      · exact Or.inr ⟨entry, key ▸ from_, nearer⟩
    · exact Or.inr ⟨e, source.mono tuple, nearer⟩
  · obtain source | ⟨same, _, _⟩ := source.of_snoc
    · obtain ⟨r, mem, rfl⟩ := loop.all key e source
      obtain other | ⟨key, _⟩ := replaced r mem
      · exact ⟨r, mem_append_left _ other, rfl⟩
      · exact ⟨_, mem_append_right _ (mem_singleton_self _), key.symm⟩
    · exact ⟨_, mem_append_right _ (mem_singleton_self _), same⟩

theorem HnaLoop.next (tuple : AssociationTuple) :
    HnaLoop s table left (done ++ [tuple]) (s.addAssociation table routes tuple) := by
  unfold addAssociation
  split
  · rename_i own
    exact loop.skip fun _ foreign _ => absurd (own.symm.trans foreign) (by decide)
  · rename_i foreign
    have foreign : s.isLocal tuple = false := by simpa using foreign
    split
    · rename_i none
      exact loop.skip fun entry _ given => by
        rw [none] at given
        cases given
    · rename_i entry given
      split
      · rename_i none
        have missing : ∀ r ∈ routes, r.key ≠ (tuple.networkAddr, tuple.netmask) := by
          intro r mem same
          have no := findIdx?_eq_none_iff.mp none r mem
          rw [key_eq_iff.mpr same] at no
          cases no
        exact loop.add foreign given loop.once (fun _ => id) missing fun _ => Or.inl
      · rename_i index found
        obtain ⟨inside, here, _⟩ := findIdx?_eq_some_iff_getElem.mp found
        have key := key_eq_iff.mp here
        have split_ : routes = routes.take index ++ routes[index] :: routes.drop (index + 1) := by
          rw [cons_getElem_drop_succ, take_append_drop]
        have once := loop.once
        rw [getElem?_eq_getElem inside, eraseIdx_eq_take_drop_succ]
        generalize routes[index] = route at *
        generalize routes.take index = front at *
        generalize routes.drop (index + 1) = back at *
        subst split_
        unfold Once at once
        rw [map_append, map_cons, nodup_middle, nodup_cons] at once
        split
        · rename_i nearer
          refine loop.add foreign given ?_ ?_ ?_ ?_
          · unfold Once
            rw [map_append]
            exact once.2
          · intro r mem
            rcases mem_append.mp mem with mem | mem
            · exact mem_append_left _ mem
            · exact mem_append_right _ (mem_cons_of_mem _ mem)
          · intro r mem same
            apply once.1
            rw [← map_append, key, ← same]
            exact mem_map_of_mem mem
          · intro r mem
            rcases mem_append.mp mem with mem | mem
            · exact Or.inl (mem_append_left _ mem)
            · rcases mem_cons.mp mem with rfl | mem
              · exact Or.inr ⟨key, nearer⟩
              · exact Or.inl (mem_append_right _ mem)
        · rename_i near
          refine loop.skip fun e _ given' => ?_
          rw [given] at given'
          cases given'
          exact ⟨route, mem_append_right _ mem_cons_self, key, Nat.le_of_not_lt near⟩

end

theorem addAssociations_spec (s : OlsrState) (table : Table) (once : Once left)
    (tuples : List AssociationTuple) :
    HnaLoop s table left tuples (tuples.foldl (s.addAssociation table) left) := by
  induction tuples using List.reverseRecOn with
  | nil =>
    exact ⟨once, fun _ _ _ from_ => absurd from_.choose_spec.1 not_mem_nil,
      fun _ => Or.inl, fun _ => Or.inl,
      fun _ _ from_ => absurd from_.choose_spec.1 not_mem_nil⟩
  | append_singleton done tuple ih =>
    rw [foldl_append]
    exact ih.next tuple

/-! ## The HNA table -/

theorem once_clearHna (once : Once routes) : Once (clearHna routes) := by
  rw [clearHna_eq]
  unfold Once
  rw [map_drop]
  exact once.sublist (drop_sublist _ _)

theorem Computed.once (computed : Computed routes) : Once routes := by
  induction computed with
  | new => exact nodup_nil
  | again s table _ ih => exact (addAssociations_spec s table (once_clearHna ih) _).once

theorem announced_iff {network mask : Address} :
    s.Announced table network mask entry ↔ From s table s.associationSet (network, mask) entry := by
  unfold Announced From
  simp [and_assoc]

/-- **The HNA table** is right when what was left of it is. -/
theorem hnaTable_iff (computed : Computed routes) :
    s.HnaRoutes table (s.hnaTable table routes) ↔ s.LeftRight table (clearHna routes) := by
  have loop := addAssociations_spec s table (once_clearHna computed.once) s.associationSet
  constructor
  · intro right route mem
    obtain here | ⟨entry, from_, nearer⟩ := loop.stays route mem
    · exact Or.inl (right.nearest route here)
    · exact Or.inr ⟨entry, announced_iff.mpr from_, nearer⟩
  · intro right
    refine ⟨loop.once, fun route mem => ?_, fun network mask entry announced =>
      loop.all _ entry (announced_iff.mp announced)⟩
    have least : ∀ entry, s.Announced table route.network route.mask entry →
        route.metric ≤ entry.distance :=
      fun entry announced => loop.least route mem entry (announced_iff.mp announced)
    obtain left | ⟨entry, from_, same⟩ := loop.origin route mem
    · obtain near | ⟨entry, announced, nearer⟩ := right route left
      · exact near
      · exact absurd (least entry announced) (Nat.not_le_of_lt nearer)
    · refine ⟨entry, announced_iff.mpr from_, same, fun other announced => ?_⟩
      have metric : route.metric = entry.distance := congrArg HnaRoute.metric same
      exact metric ▸ least other announced

/-- **OLSR routes.** Where no two-hop tuple overtakes another one or a neighbor, the host table and
the HNA table are right exactly when nothing leads to the node itself and what the clearing leaves
is right. -/
theorem olsr_routes_iff (apart : s.Apart) {routes : List HnaRoute} (computed : Computed routes) :
    ∃ table hna, s.routingTableComputation (s.topologySet.length + 1) routes = some (table, hna) ∧
      (s.HostRoutes table ∧ s.HnaRoutes table hna ↔
        s.NotItself ∧ s.LeftRight table (routes.drop ((routes.length + 1) / 2))) := by
  obtain ⟨table, done, host⟩ := hostTable_spec apart
  refine ⟨table, s.hnaTable table routes, ?_, ?_⟩
  · rw [routingTableComputation, done]
    rfl
  · rw [host, hnaTable_iff computed, clearHna_eq]

/-- A node with a neighbor, a two-hop neighbor, and a gateway behind it. -/
def chain (networks : List Address) : OlsrState where
  mainAddress := 1
  now := 0
  interfaces := [[1]]
  neighborSet := [⟨2, .sym, .default⟩]
  linkSet := [⟨1, 2, 10⟩]
  twoHopNeighborSet := [⟨2, 3⟩]
  topologySet := [⟨4, 3⟩]
  ifaceAssocSet := [⟨5, 4⟩]
  associationSet := networks.map fun network => ⟨4, network, 255⟩
  associations := []

theorem chain_near {networks : List Address} {d : Address} (near : (chain networks).Near d) :
    d = 2 := by
  obtain ⟨_, _, nb, mem, _, link, link_mem, _, rfl | rfl, _, _⟩ := near
  · cases mem_singleton.mp link_mem
    rfl
  · cases mem_singleton.mp mem
    rfl

theorem chain_apart (networks : List Address) : (chain networks).Apart := by
  refine ⟨fun tuple mem _ _ near => ?_, pairwise_singleton _ _⟩
  cases mem_singleton.mp mem
  exact absurd (chain_near near) (by decide)

theorem chain_notItself (networks : List Address) : (chain networks).NotItself := by
  refine ⟨fun near => absurd (chain_near near) (show (1 : Address) ≠ 2 by decide),
    fun tuple mem dest => ?_, fun before tuple after split_ dest => ?_⟩
  · cases mem_singleton.mp mem
    exact absurd dest (show (4 : Address) ≠ 1 by decide)
  · have mem : tuple ∈ (chain networks).ifaceAssocSet := by
      rw [split_]
      exact mem_append_right _ mem_cons_self
    cases mem_singleton.mp mem
    exact absurd dest (show (5 : Address) ≠ 1 by decide)

/-- From an empty HNA table the two networks of the gateway are routed. -/
theorem chain_routes : ∃ table hna,
    (chain [100, 101]).routingTableComputation 2 [] = some (table, hna) ∧
      (chain [100, 101]).HostRoutes table ∧ (chain [100, 101]).HnaRoutes table hna := by
  obtain ⟨table, hna, done, right⟩ := olsr_routes_iff (chain_apart [100, 101]) .new
  exact ⟨table, hna, done, right.mpr ⟨chain_notItself _, nofun⟩⟩

/-- The gateway announces its two networks no more, and one of the routes stays. -/
theorem withdrawn_network : ∃ routes table hna, Computed routes ∧
    (chain []).routingTableComputation 2 routes = some (table, hna) ∧
      ¬ ((chain []).HostRoutes table ∧ (chain []).HnaRoutes table hna) := by
  refine ⟨[⟨100, 255, 2, 0, 3⟩, ⟨101, 255, 2, 0, 3⟩], _, _, ?_, rfl, fun right => ?_⟩
  · exact .again (chain [100, 101]) (fun a => if a = 4 then some ⟨4, 2, 0, 3⟩ else none) .new
  · obtain ⟨entry, ⟨tuple, mem, _⟩, _⟩ := right.2.nearest ⟨101, 255, 2, 0, 3⟩ (by decide)
    exact absurd mem not_mem_nil

end OlsrState

end Ns3.Olsr
