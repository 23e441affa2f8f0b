import Ns3.Olsr.HostRoutes
import Mathlib.Data.List.Induction

/-!
# The topology, layer by layer, and the interface associations
-/

namespace Ns3.Olsr

open Layers List Option

namespace OlsrState

variable {s : OlsrState}

/-- A round over the topology tuples so far, from a table. -/
structure TopologyLoop (h : Nat) (table : Table) (done : List TopologyTuple)
    (state : Table × Bool) : Prop where
  kept : ∀ d e, table d = some e → state.1 d = some e
  entry : ∀ d e, state.1 d = some e → table d = some e ∨
    table d = none ∧ e.destAddr = d ∧ e.distance = h + 1 ∧ ∃ tuple ∈ done, tuple.destAddr = d ∧
      ∃ last, table tuple.lastAddr = some last ∧ last.distance = h ∧
        e.nextAddr = last.nextAddr ∧ e.interface = last.interface
  reached : ∀ tuple ∈ done, ∀ last, table tuple.lastAddr = some last → last.distance = h →
    state.1 tuple.destAddr ≠ none
  added : state.2 = true ↔ ∃ d, table d = none ∧ state.1 d ≠ none

theorem TopologyLoop.start (h : Nat) (table : Table) : TopologyLoop h table [] (table, false) :=
  ⟨fun _ _ given => given, fun _ _ given => Or.inl given, nofun,
    ⟨nofun, fun ⟨_, before, after⟩ => absurd before after⟩⟩

variable {h : Nat} {table : Table} {state : Table × Bool}

theorem TopologyLoop.skip {done : List TopologyTuple}
    (loop : TopologyLoop h table done state) {tuple : TopologyTuple}
    (skipped : ∀ last, table tuple.lastAddr = some last → last.distance = h →
      state.1 tuple.destAddr ≠ none) :
    TopologyLoop h table (done ++ [tuple]) state := by
  refine ⟨loop.kept, fun d e given => ?_, fun t mem => ?_, loop.added⟩
  · obtain same | ⟨none, dest, far, t, mem, rest⟩ := loop.entry d e given
    · exact Or.inl same
    · exact Or.inr ⟨none, dest, far, t, mem_append_left _ mem, rest⟩
  · rcases mem_append.mp mem with mem | mem
    · exact loop.reached t mem
    · rw [mem_singleton.mp mem]
      exact skipped

theorem TopologyLoop.next {done : List TopologyTuple} (loop : TopologyLoop h table done state)
    (tuple : TopologyTuple) :
    TopologyLoop h table (done ++ [tuple]) (addTopology h state tuple) := by
  cases dest : state.1 tuple.destAddr with
  | some e =>
    have same : addTopology h state tuple = state := by
      unfold addTopology
      rw [dest]
    rw [same]
    exact loop.skip fun _ _ _ => dest ▸ some_ne_none e
  | none =>
    cases from_ : state.1 tuple.lastAddr with
    | none =>
      have same : addTopology h state tuple = state := by
        unfold addTopology
        rw [dest, from_]
      rw [same]
      refine loop.skip fun last given _ => ?_
      rw [loop.kept _ _ given] at from_
      cases from_
    | some last =>
      by_cases at_ : last.distance = h
      · have added : addTopology h state tuple =
            (state.1.addEntry tuple.destAddr last.nextAddr last.interface (h + 1), true) := by
          unfold addTopology
          rw [dest, from_]
          exact if_pos at_
        have old : table tuple.lastAddr = some last := by
          obtain old | ⟨_, _, far, _⟩ := loop.entry _ _ from_
          · exact old
          · omega
        have new : table tuple.destAddr = none := by
          cases given : table tuple.destAddr with
          | none => rfl
          | some e =>
            rw [loop.kept _ _ given] at dest
            cases dest
        rw [added]
        refine ⟨fun d e given => ?_, fun d e given => ?_, fun t mem l given far => ?_,
          fun _ => ⟨tuple.destAddr, new, Table.addEntry_ne_none state.1 _ _ _ _⟩, fun _ => rfl⟩
        · have other : d ≠ tuple.destAddr := by
            rintro rfl
            rw [new] at given
            cases given
          exact (Table.addEntry_of_ne state.1 other _ _ _).trans (loop.kept d e given)
        · obtain ⟨rfl, rfl⟩ | given := Table.of_addEntry given
          · exact Or.inr ⟨new, rfl, rfl, tuple,
              mem_append_right _ (mem_singleton_self tuple), rfl, last, old, at_, rfl,
              rfl⟩
          · obtain same | ⟨none, dest, far, t, mem, rest⟩ := loop.entry d e given
            · exact Or.inl same
            · exact Or.inr ⟨none, dest, far, t, mem_append_left _ mem, rest⟩
        · rcases mem_append.mp mem with mem | mem
          · exact Grows.addEntry state.1 _ _ _ _ _ (loop.reached t mem l given far)
          · rw [mem_singleton.mp mem]
            exact Table.addEntry_ne_none state.1 _ _ _ _
      · have same : addTopology h state tuple = state := by
          unfold addTopology
          rw [dest, from_]
          exact if_neg at_
        rw [same]
        refine loop.skip fun l given far => ?_
        rw [loop.kept _ _ given] at from_
        cases from_
        exact absurd far at_

theorem topologyRound_spec (h : Nat) (table : Table) :
    TopologyLoop h table s.topologySet (s.topologySet.foldl (addTopology h) (table, false)) := by
  induction s.topologySet using List.reverseRecOn with
  | nil => exact .start h table
  | append_singleton done tuple ih =>
    rw [foldl_append]
    exact ih.next tuple

theorem UpTo.next (upTo : UpTo s h table) (from_ : 2 ≤ h)
    (loop : TopologyLoop h table s.topologySet state) :
    UpTo s (h + 1) state.1 ∧ (state.2 = true ↔ ∃ d, s.AtDistance (h + 1) d) := by
  have at_last : ∀ tuple : TopologyTuple, s.AtDistance h tuple.lastAddr ↔
      ∃ last, table tuple.lastAddr = some last ∧ last.distance = h := by
    intro tuple
    rw [← map_eq_some_iff]
    exact ⟨fun inside => (upTo.distance _ _).mpr ⟨Nat.le_refl h, inside⟩,
      fun given => ((upTo.distance _ _).mp given).2⟩
  have within : ∀ d, Within s.Near s.TwoHop s.Advertised h d ↔ table d ≠ none := by
    intro d
    rw [within_iff]
    constructor
    · rintro ⟨k, below, inside⟩ none
      have given := (upTo.distance d k).mpr ⟨below, inside⟩
      rw [distances, none] at given
      cases given
    · intro some_
      obtain ⟨e, given⟩ := ne_none_iff_exists'.mp some_
      have := (upTo.distance d e.distance).mp (by rw [distances, given]; rfl)
      exact ⟨e.distance, this⟩
  have new : ∀ d, s.AtDistance (h + 1) d ↔ table d = none ∧ state.1 d ≠ none := by
    intro d
    obtain ⟨i, rfl⟩ : ∃ i, h = i + 2 := ⟨h - 2, by omega⟩
    refine (layer_succ (i + 2) d).trans ?_
    rw [within, not_not, and_comm]
    apply and_congr_right
    intro none
    constructor
    · rintro ⟨a, inside, tuple, mem, rfl, rfl⟩
      obtain ⟨last, given, far⟩ := (at_last tuple).mp inside
      exact loop.reached tuple mem last given far
    · intro some_
      obtain ⟨e, given⟩ := ne_none_iff_exists'.mp some_
      obtain same | ⟨_, _, _, tuple, mem, dest, last, from_, far, _⟩ := loop.entry d e given
      · rw [none] at same
        cases same
      · exact ⟨tuple.lastAddr, (at_last tuple).mpr ⟨last, from_, far⟩, tuple, mem, rfl, dest⟩
  refine ⟨⟨fun d k => ?_, fun d e given => ?_⟩, ?_⟩
  · cases before : table d with
    | some e =>
      have same : distances state.1 d = distances table d := by
        rw [distances, distances, before, loop.kept d e before]
      rw [same, upTo.distance d k]
      constructor
      · exact fun ⟨below, inside⟩ => ⟨Nat.le_succ_of_le below, inside⟩
      · rintro ⟨below, inside⟩
        rcases Nat.le_succ_iff.mp below with below | rfl
        · exact ⟨below, inside⟩
        · rw [((new d).mp inside).1] at before
          cases before
    | none =>
      constructor
      · intro given
        obtain ⟨e, there, rfl⟩ := map_eq_some_iff.mp given
        obtain same | ⟨_, _, far, _⟩ := loop.entry d e there
        · rw [before] at same
          cases same
        · rw [far]
          exact ⟨Nat.le_refl _, (new d).mpr ⟨before, there ▸ some_ne_none e⟩⟩
      · rintro ⟨below, inside⟩
        rcases Nat.le_succ_iff.mp below with below | rfl
        · exact absurd before ((within d).mp ((within_iff h d).mpr ⟨k, below, inside⟩))
        · obtain ⟨e, there⟩ := ne_none_iff_exists'.mp ((new d).mp inside).2
          obtain same | ⟨_, _, far, _⟩ := loop.entry d e there
          · rw [before] at same
            cases same
          · simp [distances, there, far]
  · obtain same | ⟨_, dest, far, tuple, mem, rfl, last, from_, at_, next, interface⟩ :=
      loop.entry d e given
    · exact upTo.starts d e same
    · rw [next, interface, far]
      have starts := (upTo.starts tuple.lastAddr last from_).2
      rw [at_] at starts
      exact ⟨dest, .topology mem ‹2 ≤ h› ((at_last tuple).mpr ⟨last, from_, at_⟩) starts⟩
  · rw [loop.added]
    exact exists_congr fun d => (new d).symm

/-! ## The rounds end -/

/-- The topology tuples whose end has no route. -/
def unrouted (s : OlsrState) (table : Table) : Nat :=
  s.topologySet.countP fun tuple => (table tuple.destAddr).isNone

theorem countP_lt {α : Type} {p q : α → Bool} {l : List α} (weaker : ∀ a ∈ l, p a → q a)
    {a : α} (mem : a ∈ l) (apart : p a = false) (there : q a = true) :
    l.countP p < l.countP q := by
  obtain ⟨front, back, rfl⟩ := append_of_mem mem
  have front_le := countP_mono_left fun b mem => weaker b (mem_append_left _ mem)
  have back_le := countP_mono_left fun b mem =>
    weaker b (mem_append_right front (mem_cons_of_mem a mem))
  rw [countP_append, countP_append, countP_cons_of_pos there,
    countP_cons_of_neg (by rw [apart]; exact Bool.false_ne_true)]
  omega

theorem unrouted_lt (loop : TopologyLoop h table s.topologySet state) (added : state.2 = true) :
    s.unrouted state.1 < s.unrouted table := by
  obtain ⟨d, before, after⟩ := loop.added.mp added
  obtain ⟨e, there⟩ := ne_none_iff_exists'.mp after
  obtain same | ⟨_, _, _, tuple, mem, rfl, _⟩ := loop.entry d e there
  · rw [before] at same
    cases same
  · refine countP_lt (fun t _ => ?_) mem (by rw [there]; rfl) (by rw [before]; rfl)
    cases given : table t.destAddr with
    | none => exact fun _ => rfl
    | some e =>
      rw [loop.kept _ _ given]
      exact id

/-- **Every layer** is in the table when the rounds end, and they do. -/
theorem topologyRounds_spec {rounds : Nat} (from_ : 2 ≤ h) (upTo : UpTo s h table)
    (enough : s.unrouted table < rounds) :
    ∃ table', s.topologyRounds rounds h table = some table' ∧
      (∀ d k, distances table' d = some k ↔ s.AtDistance k d) ∧
      ∀ d e, table' d = some e →
        e.destAddr = d ∧ s.Starts s.AtDistance e.nextAddr e.interface e.distance d := by
  induction rounds generalizing h table with
  | zero => exact absurd enough (Nat.not_lt_zero _)
  | succ rounds ih =>
    have loop := topologyRound_spec (s := s) h table
    obtain ⟨upTo', more⟩ := upTo.next from_ loop
    unfold topologyRounds
    dsimp only
    split
    · rename_i added
      have fewer := unrouted_lt loop added
      exact ih (Nat.le_succ_of_le from_) upTo' (by omega)
    · rename_i ended
      refine ⟨_, rfl, fun d k => ?_, upTo'.starts⟩
      rw [upTo'.distance]
      constructor
      · exact And.right
      · intro inside
        refine ⟨?_, inside⟩
        apply Nat.le_of_not_lt
        intro beyond
        have none : ∀ d, ¬ s.AtDistance (h + 1) d := fun d there => ended (more.mpr ⟨d, there⟩)
        exact layer_empty (by omega) none (Nat.le_of_lt beyond) d inside

/-! ## Interface associations -/

theorem named_append (routed : Address → Prop) (done : List IfaceAssocTuple)
    (tuple : IfaceAssocTuple) (d : Address) :
    named routed (done ++ [tuple]) d ↔
      named routed done d ∨ (d = tuple.ifaceAddr ∧ named routed done tuple.mainAddr) := by
  induction done generalizing routed with
  | nil => exact Iff.rfl
  | cons first done ih => exact ih _

theorem named_iff (routed : Address → Prop) (tuples : List IfaceAssocTuple) (d : Address) :
    named routed tuples d ↔ routed d ∨ ∃ before tuple after, tuples = before ++ tuple :: after ∧
      tuple.ifaceAddr = d ∧ named routed before tuple.mainAddr := by
  induction tuples using List.reverseRecOn with
  | nil => simp [named]
  | append_singleton done last ih =>
    rw [named_append, ih]
    constructor
    · rintro ((here | ⟨before, tuple, after, rfl, names⟩) | ⟨rfl, there⟩)
      · exact Or.inl here
      · exact Or.inr ⟨before, tuple, after ++ [last], by simp, names⟩
      · exact Or.inr ⟨done, last, [], rfl, rfl, there⟩
    · rintro (here | ⟨before, tuple, after, split_, names⟩)
      · exact Or.inl (Or.inl here)
      · rcases eq_nil_or_concat' after with rfl | ⟨front, final, rfl⟩
        · obtain ⟨rfl, same⟩ := append_inj' split_ rfl
          cases same
          exact Or.inr ⟨names.1.symm, names.2⟩
        · have same : done ++ [last] = (before ++ tuple :: front) ++ [final] := by simp [split_]
          obtain ⟨rfl, _⟩ := append_inj' same rfl
          exact Or.inl (Or.inr ⟨before, tuple, front, rfl, names⟩)

/-- The interface associations so far, after a table. -/
structure IfaceLoop (table : Table) (done : List IfaceAssocTuple) (table' : Table) : Prop where
  kept : ∀ d e, table d = some e → table' d = some e
  entry : ∀ d e, table d = none → table' d = some e → ∃ tuple ∈ done, tuple.ifaceAddr = d ∧
    ∃ m, table' tuple.mainAddr = some m ∧ e = { m with destAddr := d }
  routed : ∀ d, table' d ≠ none ↔ named (fun a => table a ≠ none) done d

theorem IfaceLoop.skip {table' : Table} {done : List IfaceAssocTuple}
    (loop : IfaceLoop table done table') {tuple : IfaceAssocTuple}
    (skipped : table' tuple.mainAddr ≠ none → table' tuple.ifaceAddr ≠ none) :
    IfaceLoop table (done ++ [tuple]) table' := by
  refine ⟨loop.kept, fun d e before after => ?_, fun d => ?_⟩
  · obtain ⟨t, mem, rest⟩ := loop.entry d e before after
    exact ⟨t, mem_append_left _ mem, rest⟩
  · rw [named_append, ← loop.routed, ← loop.routed]
    constructor
    · exact Or.inl
    · rintro (there | ⟨rfl, main⟩)
      · exact there
      · exact skipped main

theorem IfaceLoop.next {table' : Table} {done : List IfaceAssocTuple}
    (loop : IfaceLoop table done table') (tuple : IfaceAssocTuple) :
    IfaceLoop table (done ++ [tuple]) (addIfaceAssoc table' tuple) := by
  cases main : table' tuple.mainAddr with
  | none =>
    have same : addIfaceAssoc table' tuple = table' := by
      unfold addIfaceAssoc
      rw [main]
    rw [same]
    exact loop.skip fun there => absurd main there
  | some entry =>
    cases iface : table' tuple.ifaceAddr with
    | some e =>
      have same : addIfaceAssoc table' tuple = table' := by
        unfold addIfaceAssoc
        rw [main, iface]
      rw [same]
      exact loop.skip fun _ => iface ▸ some_ne_none e
    | none =>
      have added : addIfaceAssoc table' tuple =
          table'.addEntry tuple.ifaceAddr entry.nextAddr entry.interface entry.distance := by
        unfold addIfaceAssoc
        rw [main, iface]
      have others : ∀ {d e}, table' d = some e →
          table'.addEntry tuple.ifaceAddr entry.nextAddr entry.interface entry.distance d =
            some e := by
        intro d e given
        have other : d ≠ tuple.ifaceAddr := by
          rintro rfl
          rw [iface] at given
          cases given
        exact (Table.addEntry_of_ne table' other _ _ _).trans given
      rw [added]
      refine ⟨fun d e given => others (loop.kept d e given), fun d e before after => ?_,
        fun d => ?_⟩
      · obtain ⟨rfl, rfl⟩ | after := Table.of_addEntry after
        · exact ⟨tuple, mem_append_right _ (mem_singleton_self tuple), rfl, entry, others main, rfl⟩
        · obtain ⟨t, mem, dest, m, given, copy⟩ := loop.entry d e before after
          exact ⟨t, mem_append_left _ mem, dest, m, others given, copy⟩
      · rw [named_append, ← loop.routed, ← loop.routed]
        constructor
        · intro there
          obtain ⟨e, given⟩ := ne_none_iff_exists'.mp there
          obtain ⟨rfl, _⟩ | old := Table.of_addEntry given
          · exact Or.inr ⟨rfl, main ▸ some_ne_none entry⟩
          · exact Or.inl (old ▸ some_ne_none e)
        · rintro (there | ⟨rfl, _⟩)
          · exact Grows.addEntry table' _ _ _ _ d there
          · exact Table.addEntry_ne_none table' _ _ _ _

theorem ifaceAssoc_spec (table : Table) (tuples : List IfaceAssocTuple) :
    IfaceLoop table tuples (tuples.foldl addIfaceAssoc table) := by
  induction tuples using List.reverseRecOn with
  | nil => exact ⟨fun _ _ given => given, fun _ _ before after => (some_ne_none _
      (after.symm.trans before)).elim, fun _ => Iff.rfl⟩
  | append_singleton done tuple ih =>
    rw [foldl_append]
    exact ih.next tuple

/-! ## The host table -/

/-- Where a route to the node itself would come from. -/
theorem notItself_iff :
    s.NotItself ↔ ¬ named (fun d => ∃ h, s.AtDistance h d) s.ifaceAssocSet s.mainAddress := by
  rw [named_iff]
  have routed : (∃ h, s.AtDistance h s.mainAddress) ↔ s.Near s.mainAddress ∨
      ∃ tuple ∈ s.topologySet, tuple.destAddr = s.mainAddress ∧
        ∃ h, 2 ≤ h ∧ s.AtDistance h tuple.lastAddr := by
    constructor
    · rintro ⟨h, inside⟩
      match h, inside with
      | 1, inside => exact Or.inl ((atDistance_one _).mp inside)
      | 2, inside =>
        obtain ⟨⟨tuple, _, accepted, _, same⟩, _⟩ := (atDistance_two _).mp inside
        exact absurd same accepted.2.1
      | i + 3, inside =>
        obtain ⟨⟨a, last, tuple, mem, rfl, dest⟩, _⟩ := (layer_succ (i + 2) _).mp inside
        exact Or.inr ⟨tuple, mem, dest, i + 2, by omega, last⟩
    · rintro (near | ⟨tuple, mem, dest, h, from_, last⟩)
      · exact ⟨1, (atDistance_one _).mpr near⟩
      · obtain ⟨i, rfl⟩ : ∃ i, h = i + 2 := ⟨h - 2, by omega⟩
        have within : Within s.Near s.TwoHop s.Advertised (i + 3) s.mainAddress :=
          (within_iff_ends _ _).mpr ⟨i + 2, by omega, tuple.lastAddr, last, tuple, mem, rfl, dest⟩
        obtain ⟨k, _, inside⟩ := (within_iff _ _).mp within
        exact ⟨k, inside⟩
  rw [routed]
  constructor
  · rintro not ((near | ⟨tuple, mem, dest, h, from_, last⟩) | ⟨before, tuple, after, split_, names⟩)
    · exact not.neighbor near
    · exact not.topology tuple mem dest h from_ last
    · exact not.iface before tuple after split_ names.1 names.2
  · intro not
    exact ⟨fun near => not (Or.inl (Or.inl near)),
      fun tuple mem dest h from_ last => not (Or.inl (Or.inr ⟨tuple, mem, dest, h, from_, last⟩)),
      fun before tuple after split_ dest names =>
        not (Or.inr ⟨before, tuple, after, split_, dest, names⟩)⟩

/-- **The host table** is right when no two-hop tuple overtakes and nothing leads to the node. -/
theorem hostTable_spec (apart : s.Apart) :
    ∃ table, s.hostTable (s.topologySet.length + 1) = some table ∧
      (s.HostRoutes table ↔ s.NotItself) := by
  have few : s.unrouted s.nearTable < s.topologySet.length + 1 := Nat.lt_succ_of_le countP_le_length
  obtain ⟨dests, done, layered, starts⟩ :=
    topologyRounds_spec (Nat.le_refl 2) (nearTable_upTo apart) few
  have loop := ifaceAssoc_spec dests s.ifaceAssocSet
  refine ⟨s.ifaceAssocSet.foldl addIfaceAssoc dests, ?_, ?_⟩
  · rw [hostTable, done]
    rfl
  have routed : (fun d => dests d ≠ none) = fun d => ∃ h, s.AtDistance h d := by
    funext d
    apply propext
    constructor
    · intro there
      obtain ⟨e, given⟩ := ne_none_iff_exists'.mp there
      exact ⟨e.distance, (layered d _).mp (by rw [distances, given]; rfl)⟩
    · rintro ⟨h, inside⟩ none
      have given := (layered d h).mpr inside
      rw [distances, none] at given
      cases given
  have itself := loop.routed s.mainAddress
  rw [routed] at itself
  rw [notItself_iff, ← itself, not_not]
  constructor
  · exact HostRoutes.other
  · intro other
    refine ⟨⟨dests, isDistance_of_layers layered, ?_, loop.kept, loop.entry, ?_⟩, other⟩
    · have same : (fun h a => distances dests a = some h) = s.AtDistance :=
        funext fun h => funext fun a => propext (layered a h)
      rw [same]
      exact starts
    · intro tuple mem main
      rw [loop.routed, named_iff]
      obtain ⟨before, after, split_⟩ := append_of_mem mem
      refine Or.inr ⟨before, tuple, after, split_, rfl, ?_⟩
      rw [named_iff]
      exact Or.inl main

end OlsrState

end Ns3.Olsr
