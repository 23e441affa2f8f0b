import Ns3.Library.Cover
import Ns3.Library.Loops
import Ns3.Olsr.RoutingTable

/-!
# `MprComputation` of OLSR

The multipoint relays: the neighbors that are always willing, those that alone reach some
two-hop neighbor, and then one neighbor after another until nothing is left to cover.
-/

namespace Ns3.Olsr

open List TwoHopNeighborTuple

/-! ## The neighbor set -/

def insertTuple (tuple : NeighborTuple) : List NeighborTuple → List NeighborTuple
  | [] => [tuple]
  | nb :: rest =>
    if nb.neighborMainAddr = tuple.neighborMainAddr then tuple :: rest
    else nb :: insertTuple tuple rest

theorem mainAddr_insertTuple {tuple : NeighborTuple} {tuples : List NeighborTuple} {a : Address}
    (mem : a ∈ (insertTuple tuple tuples).map NeighborTuple.neighborMainAddr) :
    a = tuple.neighborMainAddr ∨ a ∈ tuples.map NeighborTuple.neighborMainAddr := by
  induction tuples with
  | nil => exact Or.inl (by simpa [insertTuple] using mem)
  | cons nb rest ih =>
    unfold insertTuple at mem
    split at mem
    case isTrue same =>
      rcases mem_cons.mp mem with first | later
      · exact Or.inl first
      · exact Or.inr (mem_cons_of_mem _ later)
    case isFalse =>
      rcases mem_cons.mp mem with first | later
      · exact Or.inr (mem_cons.mpr (Or.inl first))
      · exact (ih later).imp_right (mem_cons_of_mem _)

theorem unique_insertTuple (tuple : NeighborTuple) (tuples : List NeighborTuple)
    (unique : (tuples.map NeighborTuple.neighborMainAddr).Nodup) :
    ((insertTuple tuple tuples).map NeighborTuple.neighborMainAddr).Nodup := by
  induction tuples with
  | nil => simp [insertTuple]
  | cons nb rest ih =>
    obtain ⟨new, unique⟩ := nodup_cons.mp unique
    unfold insertTuple
    split
    case isTrue same => exact nodup_cons.mpr ⟨same ▸ new, unique⟩
    case isFalse other =>
      refine nodup_cons.mpr ⟨fun mem => ?_, ih unique⟩
      rcases mainAddr_insertTuple mem with same | mem
      · exact other same
      · exact new mem

/-- `m_neighborSet`, with one tuple for each main address. -/
structure NeighborSet where
  tuples : List NeighborTuple
  unique : (tuples.map NeighborTuple.neighborMainAddr).Nodup

namespace NeighborSet

/-- `FindNeighborTuple`. -/
def findNeighborTuple (set : NeighborSet) (mainAddr : Address) : Option NeighborTuple :=
  set.tuples.find? fun nb => nb.neighborMainAddr == mainAddr

/-- `InsertNeighborTuple`: a tuple of this main address is updated in place. -/
def insertNeighborTuple (set : NeighborSet) (tuple : NeighborTuple) : NeighborSet :=
  ⟨insertTuple tuple set.tuples, unique_insertTuple tuple set.tuples set.unique⟩

/-- `EraseNeighborTuple`. -/
def eraseNeighborTuple (set : NeighborSet) (mainAddr : Address) : NeighborSet :=
  ⟨set.tuples.eraseP fun nb => nb.neighborMainAddr == mainAddr,
    set.unique.sublist (eraseP_sublist.map _)⟩

theorem eq_of_mainAddr {set : NeighborSet} {a b : NeighborTuple} (first : a ∈ set.tuples)
    (second : b ∈ set.tuples) (same : a.neighborMainAddr = b.neighborMainAddr) : a = b :=
  inj_on_of_nodup_map set.unique first second same

end NeighborSet

/-! ## The computation -/

/-- What `MprComputation` reads: the main address and the repositories of both kinds of
neighbors. -/
structure Neighborhood where
  mainAddress : Address
  neighbors : NeighborSet
  twoHopNeighbors : List TwoHopNeighborTuple

namespace Neighborhood

variable (s : Neighborhood)

/-- `Degree`. It looks up the neighbor of each tuple, not the two-hop neighbor. -/
def degree (tuple : NeighborTuple) : Nat :=
  s.twoHopNeighbors.countP fun t => t.neighborMainAddr == tuple.neighborMainAddr &&
    (s.neighbors.findNeighborTuple t.neighborMainAddr).isNone

/-- `N`. -/
def symNeighbors : List NeighborTuple := s.neighbors.tuples.filter fun nb => nb.status == .sym

/-- Whether a tuple belongs to `N2`. -/
def counts (t : TwoHopNeighborTuple) : Bool :=
  t.twoHopNeighborAddr != s.mainAddress &&
    (match s.symNeighbors.find? fun nb => nb.neighborMainAddr == t.neighborMainAddr with
      | some nb => nb.willingness != .never
      | none => false) &&
    !s.symNeighbors.any fun nb => nb.neighborMainAddr == t.twoHopNeighborAddr

/-- `N2`. -/
def twoHops : List TwoHopNeighborTuple := s.twoHopNeighbors.filter s.counts

end Neighborhood

/-- `CoverTwoHopNeighbors`. -/
def coverTwoHopNeighbors (neighborMainAddr : Address) (n2 : List TwoHopNeighborTuple) :
    List TwoHopNeighborTuple :=
  let toRemove := (n2.filter fun t => t.neighborMainAddr == neighborMainAddr).map
    twoHopNeighborAddr
  n2.filter fun t => !toRemove.contains t.twoHopNeighborAddr

/-- What is left of `N2`, and `mprSet`. -/
abbrev Cover := List TwoHopNeighborTuple × List Address

/-- A neighbor becomes a relay. -/
def select (mainAddr : Address) (c : Cover) : Cover :=
  (coverTwoHopNeighbors mainAddr c.1, c.2.insert mainAddr)

/-- Step 1: the neighbors that are always willing. -/
def alwaysStep (c : Cover) (nb : NeighborTuple) : Cover :=
  if nb.willingness = .always then select nb.neighborMainAddr c else c

/-- A tuple of step 3, with the relays and `coveredTwoHopNeighbors` so far. -/
def onlyStep (n2 : List TwoHopNeighborTuple) (state : List Address × List Address)
    (t : TwoHopNeighborTuple) : List Address × List Address :=
  if n2.any fun other => other.twoHopNeighborAddr == t.twoHopNeighborAddr &&
      other.neighborMainAddr != t.neighborMainAddr then state
  else (state.1.insert t.neighborMainAddr,
    ((n2.filter fun other => other.neighborMainAddr == t.neighborMainAddr).map
      twoHopNeighborAddr) ∪ state.2)

/-- Step 3: the neighbors that alone reach some node. -/
def onlyProviders (c : Cover) : Cover :=
  let state := c.1.foldl (onlyStep c.1) (c.2, [])
  (c.1.filter fun t => !state.2.contains t.twoHopNeighborAddr, state.1)

/-- The reachability of a neighbor. -/
def reachability (n2 : List TwoHopNeighborTuple) (nb : NeighborTuple) : Nat :=
  n2.countP fun t => nb.neighborMainAddr == t.neighborMainAddr

namespace Neighborhood

variable (s : Neighborhood)

/-- `max` and `max_r` after another neighbor. -/
def better (best : Option (NeighborTuple × Nat)) (next : NeighborTuple × Nat) :
    Option (NeighborTuple × Nat) :=
  match best with
  | none => some next
  | some (max, maxR) =>
    if next.1.willingness.value > max.willingness.value then some next
    else if next.1.willingness = max.willingness then
      if next.2 > maxR then some next
      else if next.2 = maxR then
        if s.degree next.1 > s.degree max then some next else some (max, maxR)
      else some (max, maxR)
    else some (max, maxR)

/-- The neighbors of non-zero reachability, by the values of `rs` in their order. -/
def candidates (n2 : List TwoHopNeighborTuple) : List (NeighborTuple × Nat) :=
  let rs := (s.symNeighbors.map (reachability n2)).dedup.insertionSort (· ≤ ·)
  (rs.filter (· != 0)).flatMap fun r =>
    (s.symNeighbors.filter fun nb => reachability n2 nb == r).map fun nb => (nb, r)

/-- Step 4.2. -/
def greatest (n2 : List TwoHopNeighborTuple) : Option NeighborTuple :=
  ((s.candidates n2).foldl s.better none).map Prod.fst

/-- A round of step 4. -/
def greedyRound (c : Cover) : Option Cover :=
  match s.greatest c.1 with
  | some max => some (select max.neighborMainAddr c)
  | none => some c

/-- What steps 1 and 3 leave for step 4. -/
def start : Cover := onlyProviders (s.symNeighbors.foldl alwaysStep (s.twoHops, []))

/-- `MprComputation`, with a bound on the rounds of step 4. -/
def mprComputation (rounds : Nat) : Option (List Address) :=
  (WhileLoop.loop (fun c : Cover => !c.1.isEmpty) s.greedyRound rounds s.start).map Prod.snd

end Neighborhood

/-! ## Deleting what a relay reaches -/

/-- A relay reaches the node. -/
abbrev Covered (listed : List TwoHopNeighborTuple) (mprs : List Address) (node : Address) : Prop :=
  Reached neighborMainAddr twoHopNeighborAddr listed mprs node

/-- `N2` while it shrinks. -/
abbrev Covers (listed : List TwoHopNeighborTuple) (c : Cover) : Prop :=
  Covering neighborMainAddr twoHopNeighborAddr listed c.1 c.2

theorem mem_select {c : Cover} {mainAddr a : Address} :
    a ∈ (select mainAddr c).2 ↔ a = mainAddr ∨ a ∈ c.2 :=
  mem_insert_iff

theorem Covers.select {listed : List TwoHopNeighborTuple} {c : Cover} (covers : Covers listed c)
    (mainAddr : Address) : Covers listed (select mainAddr c) := by
  refine covers.delete (fun a mem => mem_select.mpr (Or.inr mem))
    (fun a => ((c.1.filter fun t => t.neighborMainAddr == mainAddr).map
      twoHopNeighborAddr).contains a) fun a gone => ?_
  obtain ⟨t, mem, rfl⟩ := mem_map.mp (contains_iff_mem.mp gone)
  obtain ⟨mem, through⟩ := mem_filter.mp mem
  exact ⟨t, mem, rfl, mem_select.mpr (Or.inl (beq_iff_eq.mp through))⟩

/-- A relay that reaches something takes it away. -/
theorem select_length {c : Cover} {mainAddr : Address} {t : TwoHopNeighborTuple} (mem : t ∈ c.1)
    (through : t.neighborMainAddr = mainAddr) : (select mainAddr c).1.length < c.1.length := by
  refine length_filter_lt_length_iff_exists.mpr ⟨t, mem, ?_⟩
  have removed : t.twoHopNeighborAddr ∈ (c.1.filter fun t => t.neighborMainAddr == mainAddr).map
      twoHopNeighborAddr :=
    mem_map_of_mem (mem_filter.mpr ⟨mem, beq_iff_eq.mpr through⟩)
  simpa [and_assoc] using removed

/-! ## The three kinds of relays -/

namespace Neighborhood

variable {s : Neighborhood}

/-- A neighbor that may be a relay. -/
structure Willing (s : Neighborhood) (nb : NeighborTuple) : Prop where
  neighbor : nb ∈ s.neighbors.tuples
  sym : nb.status = .sym
  willing : nb.willingness ≠ .never

/-- A node that the relays have to reach: listed through a neighbor that is willing, and
neither the node itself nor a neighbor. -/
structure Target (s : Neighborhood) (t : TwoHopNeighborTuple) : Prop where
  listed : t ∈ s.twoHopNeighbors
  through : ∃ nb, s.Willing nb ∧ nb.neighborMainAddr = t.neighborMainAddr
  other : t.twoHopNeighborAddr ≠ s.mainAddress
  stranger : ∀ nb ∈ s.neighbors.tuples, nb.status = .sym →
    nb.neighborMainAddr ≠ t.twoHopNeighborAddr

variable {nb : NeighborTuple} {t : TwoHopNeighborTuple} {c : Cover} {n2 : List TwoHopNeighborTuple}

theorem mem_symNeighbors : nb ∈ s.symNeighbors ↔ nb ∈ s.neighbors.tuples ∧ nb.status = .sym := by
  simp [symNeighbors]

theorem find_symNeighbors (mem : nb ∈ s.symNeighbors) :
    s.symNeighbors.find? (fun other => other.neighborMainAddr == nb.neighborMainAddr) =
      some nb := by
  cases found : s.symNeighbors.find? fun other => other.neighborMainAddr == nb.neighborMainAddr with
  | none => simpa using find?_eq_none.mp found nb mem
  | some other =>
    have same : other.neighborMainAddr = nb.neighborMainAddr := by simpa using find?_some found
    have other_mem := mem_symNeighbors.mp (mem_of_find?_eq_some found)
    rw [NeighborSet.eq_of_mainAddr other_mem.1 (mem_symNeighbors.mp mem).1 same]

theorem mem_twoHops : t ∈ s.twoHops ↔ s.Target t := by
  unfold twoHops
  rw [mem_filter]
  constructor
  · rintro ⟨listed, counted⟩
    unfold counts at counted
    simp only [Bool.and_eq_true, bne_iff_ne, Bool.not_eq_true'] at counted
    obtain ⟨⟨other, through⟩, stranger⟩ := counted
    refine ⟨listed, ?_, other, fun nb mem sym same => ?_⟩
    · split at through
      case h_1 nb found =>
        have mem := mem_symNeighbors.mp (mem_of_find?_eq_some found)
        exact ⟨nb, ⟨mem.1, mem.2, by simpa using through⟩, by simpa using find?_some found⟩
      case h_2 => cases through
    · exact any_eq_false.mp stranger nb (mem_symNeighbors.mpr ⟨mem, sym⟩) (beq_iff_eq.mpr same)
  · rintro ⟨listed, ⟨nb, willing, through⟩, other, stranger⟩
    have mem := mem_symNeighbors.mpr ⟨willing.neighbor, willing.sym⟩
    have nobody : s.symNeighbors.any
        (fun nb => nb.neighborMainAddr == t.twoHopNeighborAddr) = false :=
      any_eq_false.mpr fun nb mem same =>
        stranger nb (mem_symNeighbors.mp mem).1 (mem_symNeighbors.mp mem).2 (beq_iff_eq.mp same)
    refine ⟨listed, ?_⟩
    unfold counts
    rw [← through, find_symNeighbors mem, nobody]
    simp [other, willing.willing]

/-- What the computation keeps: what is left or covered, and who may be a relay. -/
structure Kept (s : Neighborhood) (c : Cover) : Prop where
  covers : Covers s.twoHops c
  willing : ∀ a ∈ c.2, ∃ nb, s.Willing nb ∧ nb.neighborMainAddr = a

theorem Kept.selects (kept : s.Kept c) (willing : s.Willing nb) :
    s.Kept (select nb.neighborMainAddr c) where
  covers := kept.covers.select nb.neighborMainAddr
  willing a mem := by
    rcases mem_select.mp mem with rfl | mem
    · exact ⟨nb, willing, rfl⟩
    · exact kept.willing a mem

/-- Every tuple that is left leads through a neighbor that may be a relay. -/
theorem Kept.through (kept : s.Kept c) (left : t ∈ c.1) :
    ∃ nb, s.Willing nb ∧ nb.neighborMainAddr = t.neighborMainAddr :=
  (mem_twoHops.mp (kept.covers.sub.mem left)).through

theorem Kept.always {neighbors : List NeighborTuple} (kept : s.Kept c)
    (sym : ∀ nb ∈ neighbors, nb ∈ s.symNeighbors) :
    s.Kept (neighbors.foldl alwaysStep c) ∧ (∀ a ∈ c.2, a ∈ (neighbors.foldl alwaysStep c).2) ∧
      ∀ nb ∈ neighbors, nb.willingness = .always →
        nb.neighborMainAddr ∈ (neighbors.foldl alwaysStep c).2 := by
  induction neighbors generalizing c with
  | nil => exact ⟨kept, fun _ mem => mem, nofun⟩
  | cons nb rest ih =>
    have later : ∀ nb ∈ rest, nb ∈ s.symNeighbors := fun nb mem =>
      sym nb (mem_cons_of_mem _ mem)
    rw [foldl_cons]
    unfold alwaysStep
    split
    case isTrue always =>
      have mem := mem_symNeighbors.mp (sym nb mem_cons_self)
      have willing : s.Willing nb := ⟨mem.1, mem.2, by rw [always]; decide⟩
      obtain ⟨kept, grows, all⟩ := ih (kept.selects willing) later
      refine ⟨kept, fun a mem => grows a (mem_select.mpr (Or.inr mem)), fun other mem always => ?_⟩
      rcases mem_cons.mp mem with rfl | mem
      · exact grows _ (mem_select.mpr (Or.inl rfl))
      · exact all other mem always
    case isFalse not_always =>
      obtain ⟨kept, grows, all⟩ := ih kept later
      refine ⟨kept, grows, fun other mem always => ?_⟩
      rcases mem_cons.mp mem with rfl | mem
      · exact absurd always not_always
      · exact all other mem always

/-- The relays of step 3 and what they cover, over the tuples so far. -/
structure OnlyLoop (n2 : List TwoHopNeighborTuple) (mprs : List Address)
    (state : List Address × List Address) : Prop where
  grows : ∀ a ∈ mprs, a ∈ state.1
  provides : ∀ a ∈ state.1, a ∈ mprs ∨ ∃ t ∈ n2, t.neighborMainAddr = a
  covered : ∀ node ∈ state.2, Covered n2 state.1 node

theorem OnlyLoop.step {mprs : List Address} {state : List Address × List Address}
    (loop : OnlyLoop n2 mprs state) (mem : t ∈ n2) : OnlyLoop n2 mprs (onlyStep n2 state t) := by
  unfold onlyStep
  split
  case isTrue => exact loop
  case isFalse =>
    refine ⟨fun a mem => mem_insert_of_mem (loop.grows a mem), fun a chosen => ?_,
      fun node covered => ?_⟩
    · rcases mem_insert_iff.mp chosen with rfl | chosen
      · exact Or.inr ⟨t, mem, rfl⟩
      · exact loop.provides a chosen
    · rcases mem_union_iff.mp covered with now | before
      · obtain ⟨other, here, rfl⟩ := mem_map.mp now
        obtain ⟨here, same⟩ := mem_filter.mp here
        exact ⟨other, here, rfl, mem_insert_iff.mpr (Or.inl (beq_iff_eq.mp same))⟩
      · obtain ⟨other, here, same, chosen⟩ := loop.covered node before
        exact ⟨other, here, same, mem_insert_of_mem chosen⟩

theorem OnlyLoop.fold {mprs : List Address} {state : List Address × List Address}
    (loop : OnlyLoop n2 mprs state) (tuples : List TwoHopNeighborTuple)
    (mem : ∀ t ∈ tuples, t ∈ n2) :
    OnlyLoop n2 mprs (tuples.foldl (onlyStep n2) state) := by
  induction tuples generalizing state with
  | nil => exact loop
  | cons t rest ih =>
    exact ih (loop.step (mem t mem_cons_self)) fun t later =>
      mem t (mem_cons_of_mem _ later)

theorem Kept.only (kept : s.Kept c) :
    s.Kept (onlyProviders c) ∧ ∀ a ∈ c.2, a ∈ (onlyProviders c).2 := by
  have first : OnlyLoop c.1 c.2 (c.2, []) :=
    ⟨fun _ mem => mem, fun _ mem => Or.inl mem, fun _ mem => absurd mem not_mem_nil⟩
  have loop := first.fold c.1 fun _ mem => mem
  refine ⟨⟨kept.covers.delete loop.grows _ fun node gone =>
    loop.covered node (contains_iff_mem.mp gone), fun a mem => ?_⟩, loop.grows⟩
  rcases loop.provides a mem with before | ⟨t, left, rfl⟩
  · exact kept.willing a before
  · exact kept.through left

theorem kept_start (s : Neighborhood) : s.Kept s.start ∧
    ∀ nb ∈ s.symNeighbors, nb.willingness = .always → nb.neighborMainAddr ∈ s.start.2 := by
  have first : s.Kept (s.twoHops, []) :=
    ⟨Covering.start s.twoHops [], fun _ mem => absurd mem not_mem_nil⟩
  obtain ⟨kept, -, all⟩ := first.always fun nb mem => mem
  obtain ⟨kept, grows⟩ := kept.only
  exact ⟨kept, fun nb sym always => grows _ (all nb sym always)⟩

/-! ## The greedy rounds -/

theorem mem_candidates {next : NeighborTuple × Nat} :
    next ∈ s.candidates n2 ↔ next.1 ∈ s.symNeighbors ∧ reachability n2 next.1 = next.2 ∧
      next.2 ≠ 0 := by
  obtain ⟨nb, r⟩ := next
  simp only [candidates, mem_flatMap, mem_filter, mem_insertionSort, mem_dedup,
    mem_map, bne_iff_ne, beq_iff_eq, Prod.mk.injEq]
  constructor
  · rintro ⟨r, ⟨_, positive⟩, nb, ⟨mem, reach⟩, rfl, rfl⟩
    exact ⟨mem, reach, positive⟩
  · rintro ⟨mem, reach, positive⟩
    exact ⟨r, ⟨⟨nb, mem, reach⟩, positive⟩, nb, ⟨mem, reach⟩, rfl, rfl⟩

theorem better_eq (max next : NeighborTuple × Nat) :
    s.better (some max) next = some max ∨ s.better (some max) next = some next := by
  unfold better
  dsimp only
  split_ifs <;> simp

/-- The fold over the candidates returns one of them. -/
theorem foldl_better (next : NeighborTuple × Nat) (rest : List (NeighborTuple × Nat)) :
    ∃ max ∈ next :: rest, rest.foldl s.better (some next) = some max := by
  induction rest generalizing next with
  | nil => exact ⟨next, mem_singleton_self _, rfl⟩
  | cons other rest ih =>
    rw [foldl_cons]
    rcases s.better_eq next other with same | same
    all_goals
      rw [same]
      obtain ⟨max, mem, eq⟩ := ih _
      exact ⟨max, by grind, eq⟩

theorem greatest_spec (left : t ∈ n2) (sym : nb ∈ s.symNeighbors)
    (through : nb.neighborMainAddr = t.neighborMainAddr) :
    ∃ max ∈ s.symNeighbors, s.greatest n2 = some max ∧
      ∃ t ∈ n2, t.neighborMainAddr = max.neighborMainAddr := by
  have positive : 0 < reachability n2 nb := countP_pos_iff.mpr ⟨t, left, by simpa using through⟩
  have candidate : (nb, reachability n2 nb) ∈ s.candidates n2 := 
    mem_candidates.mpr ⟨sym, rfl, positive.ne'⟩
  unfold greatest
  cases all : s.candidates n2 with
  | nil => simp [all] at candidate
  | cons next rest =>
    obtain ⟨max, mem, eq⟩ := s.foldl_better next rest
    obtain ⟨sym, reach, positive⟩ := mem_candidates.mp (all ▸ mem)
    have positive : 0 < reachability n2 max.1 := by omega
    obtain ⟨t, left, same⟩ := countP_pos_iff.mp positive
    refine ⟨max.1, sym, ?_, t, left, by simpa using Eq.symm (beq_iff_eq.mp same)⟩
    rw [foldl_cons]
    exact congrArg (Option.map Prod.fst) eq

/-- A round of step 4 selects a neighbor and leaves less to cover. -/
theorem Kept.round (kept : s.Kept c) (left : c.1 ≠ []) :
    ∃ next, s.greedyRound c = some next ∧ next.1.length < c.1.length ∧ s.Kept next ∧
      ∀ a ∈ c.2, a ∈ next.2 := by
  obtain ⟨t, mem⟩ := exists_mem_of_ne_nil c.1 left
  obtain ⟨nb, willing, through⟩ := kept.through mem
  obtain ⟨max, sym, eq, t, mem, same⟩ := s.greatest_spec mem
    (mem_symNeighbors.mpr ⟨willing.neighbor, willing.sym⟩) through
  obtain ⟨nb, willing, through⟩ := kept.through mem
  have only : nb = max := NeighborSet.eq_of_mainAddr willing.neighbor (mem_symNeighbors.mp sym).1
    (through.trans same)
  refine ⟨select max.neighborMainAddr c, ?_, select_length mem same, kept.selects (only ▸ willing),
    fun a before => mem_select.mpr (Or.inr before)⟩
  unfold greedyRound
  rw [eq]

/-- Three neighbors, and three nodes that two of them reach each. -/
def triangle : Neighborhood where
  mainAddress := 1
  neighbors := ⟨[⟨2, .sym, .default⟩, ⟨3, .sym, .low⟩, ⟨4, .sym, .default⟩], by decide⟩
  twoHopNeighbors := [⟨2, 5⟩, ⟨2, 6⟩, ⟨3, 6⟩, ⟨3, 7⟩, ⟨4, 7⟩, ⟨4, 5⟩]

example : triangle.mprComputation 7 = some [4, 2] := by decide +kernel

end Neighborhood

end Ns3.Olsr
