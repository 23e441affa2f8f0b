import Ns3.Library.Machine
import Ns3.Network.PacketTagList

/-!
# The memory of packet tag lists as stacks with shared tails
-/

namespace Ns3.Network

open SharedStacks Links List Option Function

theorem increment_eq {count : Nat} (room : count + 1 < 2 ^ 32) : increment count = count + 1 :=
  Nat.mod_eq_of_lt room

theorem decrement_eq {count : Nat} (positive : 0 < count) (room : count < 2 ^ 32) :
    decrement count = count - 1 := by
  unfold decrement
  omega

namespace Memory

/-- The memory without its counts. -/
def links (m : Memory) : Links Nat Addr Tag where
  head := m.head
  view a := (m.get a).map fun node => (⟨node.tid, node.data⟩, node.next)

def count (m : Memory) (a : Addr) : Nat := ((m.get a).map TagData.count).getD 0

variable {m m' : Memory} {a b : Addr} {node : TagData} {l : Nat} {p : Option Addr}

theorem get_put : (m.put a node).get b = if b = a then some node else m.get b := by
  by_cases same : b = a
  · subst same
    rw [if_pos rfl]
    exact AList.lookup_insert _
  · rw [if_neg same]
    exact AList.lookup_insert_ne same

theorem get_free : (m.free a).get b = if b = a then none else m.get b := by
  by_cases same : b = a
  · subst same
    rw [if_pos rfl]
    exact AList.lookup_erase _ _
  · rw [if_neg same]
    exact AList.lookup_erase_ne same

theorem links_put : (m.put a node).links =
    m.links.setView a (some (⟨node.tid, node.data⟩, node.next)) := by
  unfold links setView
  congr 1
  funext b
  rw [get_put]
  by_cases same : b = a <;> simp [same]

theorem count_put : (m.put a node).count = Function.update m.count a node.count := by
  funext b
  unfold count
  rw [get_put]
  by_cases same : b = a <;> simp [same]

theorem links_free : (m.free a).links = m.links.setView a none := by
  unfold links setView
  congr 1
  funext b
  rw [get_free]
  by_cases same : b = a <;> simp [same]

theorem count_free : (m.free a).count = Function.update m.count a 0 := by
  funext b
  unfold count
  rw [get_free]
  by_cases same : b = a <;> simp [same]

theorem head_setHead {l' : Nat} :
    (m.setHead l p).head l' = if l' = l then some p else m.head l' := by
  by_cases same : l' = l
  · subst same
    rw [if_pos rfl]
    exact AList.lookup_insert _
  · rw [if_neg same]
    exact AList.lookup_insert_ne same

theorem links_setHead : (m.setHead l p).links = m.links.setNext (.list l) p := by
  have heads : (m.setHead l p).head = Function.update m.head l (some p) := by
    funext l'
    rw [head_setHead, update_apply]
  unfold links Links.setNext
  rw [heads]
  rfl

theorem view_of_get (here : m.get a = some node) :
    m.links.view a = some (⟨node.tid, node.data⟩, node.next) := by simp [links, here]

theorem count_of_get (here : m.get a = some node) : m.count a = node.count := by simp [count, here]

theorem get_of_view {tag : Tag} (here : m.links.view a = some (tag, p)) :
    ∃ node, m.get a = some node ∧ tag = ⟨node.tid, node.data⟩ ∧ p = node.next := by
  obtain ⟨node, get, item⟩ := map_eq_some_iff.mp here
  cases item
  exact ⟨node, get, rfl, rfl⟩

theorem setCount_eq (here : m.get a = some node) (f : Nat → Nat) :
    ∃ m', m.setCount a f = some m' ∧ m'.links = m.links ∧
      (∀ b, m'.count b = if b = a then f (m.count a) else m.count b) ∧
      ∀ b other, m.get b = some other → ∃ k, m'.get b = some { other with count := k } := by
  refine ⟨m.put a { node with count := f node.count }, ?_, ?_, ?_, ?_⟩
  · simp [setCount, here]
  · rw [links_put]
    have view := view_of_get here
    exact congrArg (Links.mk m.links.head) (update_eq_self_iff.mpr view.symm)
  · intro b
    rw [count_put, count_of_get here, update_apply]
  · intro b other get
    rw [get_put]
    by_cases same : b = a
    · subst same
      cases here.symm.trans get
      exact ⟨_, if_pos rfl⟩
    · exact ⟨other.count, by rw [if_neg same, get]⟩

theorem addReference_eq (live : ∀ b, p = some b → (m.get b).isSome = true)
    (room : ∀ b, p = some b → m.count b + 1 < 2 ^ 32) :
    ∃ m', m.addReference p = some m' ∧ m'.links = m.links ∧
      (∀ b, m'.count b = m.count b + if p = some b then 1 else 0) ∧
      ∀ b other, m.get b = some other → ∃ k, m'.get b = some { other with count := k } := by
  cases p with
  | none => exact ⟨m, rfl, rfl, fun b => rfl, fun b other get => ⟨other.count, get⟩⟩
  | some a =>
    obtain ⟨node, get⟩ := isSome_iff_exists.mp (live a rfl)
    obtain ⟨m', done, links, counts, others⟩ := setCount_eq get increment
    refine ⟨m', done, links, ?_, others⟩
    intro b
    rw [counts]
    by_cases same : b = a
    · subst same
      simp [increment_eq (room b rfl)]
    · have differs : ¬ some a = some b := fun eq => same (Option.some.inj eq).symm
      rw [if_neg same, if_neg differs, add_zero]

theorem setNext_eq {c : Cell Nat Addr} (live : m.links.Live c) (p : Option Addr) :
    ∃ m', m.setNext c p = some m' ∧ m'.links = m.links.setNext c p ∧ m'.count = m.count ∧
      ∀ b other, m.get b = some other → ∃ q, m'.get b = some { other with next := q } := by
  cases c with
  | list l => exact ⟨m.setHead l p, rfl, links_setHead, rfl, fun b other get => ⟨other.next, get⟩⟩
  | node a =>
    obtain ⟨⟨tag, q⟩, view⟩ := isSome_iff_exists.mp live
    obtain ⟨node, here, rfl, rfl⟩ := get_of_view view
    refine ⟨m.put a { node with next := p }, by simp [setNext, here], ?_, ?_, ?_⟩
    · rw [links_put]
      simp [Links.setNext, setView, view]
    · rw [count_put]
      exact update_eq_self_iff.mpr (count_of_get here).symm
    · intro b other get
      rw [get_put]
      by_cases same : b = a
      · subst same
        cases here.symm.trans get
        exact ⟨_, if_pos rfl⟩
      · exact ⟨other.next, by rw [if_neg same, get]⟩

/-- The heap is well counted and the lists hold their stacks. -/
structure Sound (m : Memory) (held : TagStacks) : Prop where
  counted : m.links.Counted m.count
  represents : m.links.Represents held

/-- No count is about to wrap. -/
def Room (m : Memory) : Prop := ∀ a, m.count a + 1 < 2 ^ 32

variable {as : List Addr} {tid fuel : Nat}

theorem length_le_rounds (chain : m.links.Chain p as) : as.length ≤ m.rounds := by
  apply Subperm.length_le
  apply chain.nodup.subperm
  intro a mem
  have live := Segment.live chain mem
  have known : (m.get a).isSome = true := by simpa [links] using live
  exact AList.mem_keys.mp (AList.lookup_isSome.mp known)

theorem segment_cons {q : Option Addr} (segment : m.links.Segment p (a :: as) q) :
    p = some a ∧ ∃ node, m.get a = some node ∧ m.links.Segment node.next as q := by
  obtain ⟨here, tag, next, view, rest⟩ := segment
  obtain ⟨node, get, -, rfl⟩ := get_of_view view
  exact ⟨here, node, get, rest⟩

theorem reach {l : Nat} {pre post : List Addr} {cur : Addr} {node : TagData}
    (path : m.links.Path l pre (cur :: post)) (get : m.get cur = some node) :
    m.links.Segment (m.links.next (.list l)) pre (some cur) ∧ m.links.Chain node.next post := by
  obtain ⟨r, segment, after⟩ := segment_append.mp path.chain
  obtain ⟨rfl, node', get', onward⟩ := segment_cons after
  cases get.symm.trans get'
  exact ⟨segment, onward⟩

/-- No node of the list has the type. -/
def Lacks (m : Memory) (tid : Nat) (as : List Addr) : Prop :=
  ∀ a ∈ as, ∀ node, m.get a = some node → node.tid ≠ tid

theorem Lacks.values (lacks : m.Lacks tid as) : ∀ tag ∈ m.links.values as, tag.tid ≠ tid := by
  intro tag mem
  obtain ⟨a, inside, mapped⟩ := mem_filterMap.mp mem
  obtain ⟨⟨_, q⟩, view, rfl⟩ := map_eq_some_iff.mp mapped
  obtain ⟨node, get, rfl, -⟩ := get_of_view view
  exact lacks a inside node get

/-- What the search of `COWTraverse` finds behind a path that lacks the type. -/
inductive Finds (m : Memory) (l tid : Nat) (as : List Addr) : Found → Prop where
  | ended : m.Lacks tid as → Finds m l tid as .ended
  | here {pre post : List Addr} {cur : Addr} {node : TagData} : as = pre ++ cur :: post →
      m.Lacks tid pre → m.links.Path l (pre ++ [cur]) post → m.get cur = some node →
      node.tid = tid → Finds m l tid as (.here cur (lastCell (.list l) pre))
  | merge {pre post : List Addr} {cur : Addr} : as = pre ++ cur :: post →
      m.Lacks tid pre → m.links.Path l pre (cur :: post) → 1 < m.count cur →
      Finds m l tid as (.merge cur (lastCell (.list l) pre))

theorem search_finds (counted : m.links.Counted m.count) {pre rest : List Addr}
    (path : m.links.Path l pre rest) (lacks : m.Lacks tid pre) (enough : rest.length ≤ fuel)
    (from_ : m.links.Chain p rest) :
    ∃ found, m.search tid fuel p (lastCell (.list l) pre) = some found ∧
      m.Finds l tid (pre ++ rest) found := by
  induction rest generalizing pre fuel p with
  | nil =>
    obtain rfl : p = none := from_
    refine ⟨.ended, ?_, .ended ?_⟩
    · cases fuel <;> rfl
    · simpa using lacks
  | cons cur rest ih =>
    obtain ⟨rfl, node, get, after⟩ := segment_cons from_
    cases fuel with
    | zero => cases enough
    | succ fuel =>
      by_cases merged : node.count > 1
      · refine ⟨.merge cur (lastCell (.list l) pre), ?_, .merge rfl lacks path ?_⟩
        · simp [search, get, merged]
        · rw [count_of_get get]
          exact merged
      · have alone : Links.Path m.links l (pre ++ [cur]) rest := by
          refine ⟨path.live, ?_, ?_⟩
          · rw [append_assoc]
            exact path.chain
          · intro a mem
            rcases mem_append.mp mem with before | same
            · exact path.exclusive a before
            · obtain rfl := mem_singleton.mp same
              have used := (counted.used a).mp (by simp [view_of_get get])
              rw [← counted.counts]
              rw [count_of_get get] at used ⊢
              omega
        by_cases same : node.tid = tid
        · refine ⟨.here cur (lastCell (.list l) pre), ?_, .here rfl lacks alone get same⟩
          simp [search, get, merged, same]
        · have lacks' : m.Lacks tid (pre ++ [cur]) := by
            intro a mem node' get'
            rcases mem_append.mp mem with before | is_cur
            · exact lacks a before node' get'
            · obtain rfl := mem_singleton.mp is_cur
              cases get.symm.trans get'
              exact same
          obtain ⟨found, done, finds⟩ := ih alone lacks' (Nat.le_of_succ_le_succ enough) after
          rw [append_assoc] at finds
          rw [lastCell_concat] at done
          refine ⟨found, ?_, finds⟩
          simpa [search, get, merged, same] using done

theorem contains_spec (tid : Nat) (chain : m.links.Chain p as) (enough : as.length ≤ fuel) :
    ∃ there, m.contains tid fuel p = some there ∧ (there = false ↔ m.Lacks tid as) := by
  induction as generalizing p fuel with
  | nil =>
    obtain rfl : p = none := chain
    exact ⟨false, by cases fuel <;> rfl, fun _ => nofun, fun _ => rfl⟩
  | cons a as ih =>
    obtain ⟨rfl, node, get, after⟩ := segment_cons chain
    cases fuel with
    | zero => cases enough
    | succ fuel =>
      by_cases same : node.tid = tid
      · refine ⟨true, by simp [contains, get, same], nofun, ?_⟩
        intro lacks
        exact absurd same (lacks a (mem_cons_self ..) node get)
      · obtain ⟨there, done, iff⟩ := ih after (Nat.le_of_succ_le_succ enough)
        refine ⟨there, by simpa [contains, get, same] using done, iff.trans ?_⟩
        constructor
        · rintro lacks b (_ | ⟨_, later⟩) node' get'
          · cases get.symm.trans get'
            exact same
          · exact lacks b later node' get'
        · intro lacks b later
          exact lacks b (mem_cons_of_mem a later)

variable {held : TagStacks} {pre post rest : List Addr} {cur : Addr}

theorem Sound.held_eq (sound : m.Sound held) (path : m.links.Path l pre rest) :
    held l = some (m.links.values (pre ++ rest)) := by
  obtain ⟨dead, alive⟩ := sound.represents l
  obtain ⟨p, head⟩ := isSome_iff_exists.mp path.live
  cases held_l : held l with
  | none => exact nomatch (dead held_l).symm.trans head
  | some tags =>
    obtain ⟨p', as, head', chain, rfl⟩ := alive tags held_l
    cases head.symm.trans head'
    have from_ : m.links.next (.list l) = p := by simp [Links.next, head]
    rw [Links.Chain.unique chain (from_ ▸ path.chain)]

/-- Only the count of one node may be about to wrap. -/
structure RoomBut (m : Memory) (p : Option Addr) : Prop where
  others : ∀ a, p ≠ some a → m.count a + 1 < 2 ^ 32
  all : ∀ a, m.count a < 2 ^ 32

/-- No address of the path or behind it is that of a new node. -/
theorem absent_of_fresh {malloc : Malloc} (same : m'.links = m.links)
    (is_copy : a = malloc.address m'.heap) : m.links.view a = none := by
  have unused : m'.get a = none := AList.lookup_eq_none.mpr (is_copy ▸ malloc.fresh m'.heap)
  rw [← same]
  simp [Memory.links, unused]

theorem exchange_run (counted : m.links.Counted m.count)
    (path : m.links.Path l pre (cur :: post)) (get : m.get cur = some node)
    (merged : 1 < m.count cur) (room : m.RoomBut (some cur)) (malloc : Malloc) (tag : Tag) :
    ∃ unmerged merged linked copy, m.setCount cur decrement = some unmerged ∧
      copy = malloc.address unmerged.heap ∧ m.links.view copy = none ∧
      (unmerged.put copy ⟨node.next, 1, tag.tid, tag.data⟩).addReference node.next = some merged ∧
      merged.setNext (lastCell (.list l) pre) (some copy) = some linked ∧
      linked.links = (m.links.setView copy (some (tag, node.next))).setNext
        (lastCell (.list l) pre) (some copy) ∧
      (∀ b, linked.count b = (if b = copy then 1 else if b = cur then m.count b - 1
        else m.count b) + if node.next = some b then 1 else 0) ∧
      (∃ other, linked.get copy = some other ∧ other.tid = tag.tid) ∧
      ∀ b other, m.get b = some other → ∃ other', linked.get b = some other' ∧
        other'.tid = other.tid := by
  obtain ⟨unmerged, dec, links₁, counts₁, kept₁⟩ := setCount_eq get decrement
  generalize is_copy : malloc.address unmerged.heap = copy
  have absent := absent_of_fresh links₁ is_copy.symm
  have not_copy : ∀ b other, m.get b = some other → b ≠ copy := by
    rintro b other get' rfl
    exact nomatch absent.symm.trans (view_of_get get')
  have live_next : ∀ b, node.next = some b → ∃ other, m.get b = some other := by
    intro b points
    have live := counted.live (c := .node cur) (a := b)
      (by simp [Links.next, view_of_get get, points])
    obtain ⟨⟨_, q⟩, view⟩ := isSome_iff_exists.mp live
    obtain ⟨other, get', -, -⟩ := get_of_view view
    exact ⟨other, get'⟩
  generalize copied_eq : unmerged.put copy ⟨node.next, 1, tag.tid, tag.data⟩ = copied
  have links₂ : copied.links = m.links.setView copy (some (tag, node.next)) := by
    rw [← copied_eq, links_put, links₁]
  have counts₂ : ∀ b, copied.count b = if b = copy then 1 else if b = cur then m.count b - 1
      else m.count b := by
    intro b
    rw [← copied_eq, count_put, update_apply, counts₁]
    by_cases same : b = cur
    · subst same
      simp [decrement_eq (Nat.zero_lt_of_lt merged) (room.all b)]
    · simp [if_neg same]
  have kept₂ : ∀ b other, m.get b = some other → ∃ other', copied.get b = some other' ∧
      other'.tid = other.tid := by
    intro b other get'
    obtain ⟨k, get''⟩ := kept₁ b other get'
    refine ⟨{ other with count := k }, ?_, rfl⟩
    rw [← copied_eq, get_put, if_neg (not_copy b other get'), get'']
  have at_copy : copied.get copy = some ⟨node.next, 1, tag.tid, tag.data⟩ := by
    simp [← copied_eq, get_put]
  obtain ⟨merged', inc, links₃, counts₃, kept₃⟩ := addReference_eq (m := copied) (p := node.next)
    (by
      intro b points
      obtain ⟨other, get'⟩ := live_next b points
      obtain ⟨other', get'', -⟩ := kept₂ b other get'
      rw [get'']
      rfl)
    (by
      intro b points
      obtain ⟨other, get'⟩ := live_next b points
      rw [counts₂, if_neg (not_copy b other get')]
      by_cases same : b = cur
      · rw [if_pos same]
        have := room.all b
        omega
      · rw [if_neg same]
        exact room.others b fun eq => same (Option.some.inj eq).symm)
  obtain ⟨segment, -⟩ := reach path get
  have live : merged'.links.Live (lastCell (.list l) pre) := by
    rw [links₃, links₂]
    exact (segment.live_lastCell (c := .list l) trivial).setView _
  obtain ⟨linked, done, links₄, counts₄, kept₄⟩ := setNext_eq live (some copy)
  refine ⟨unmerged, merged', linked, copy, dec, is_copy.symm, absent, ?_, done, ?_, ?_, ?_, ?_⟩
  · rw [copied_eq]
    exact inc
  · rw [links₄, links₃, links₂]
  · intro b
    rw [counts₄, counts₃, counts₂]
  · obtain ⟨k, third⟩ := kept₃ copy _ at_copy
    obtain ⟨q, fourth⟩ := kept₄ copy _ third
    exact ⟨_, fourth, rfl⟩
  · intro b other get'
    obtain ⟨other', second, same⟩ := kept₂ b other get'
    obtain ⟨k, third⟩ := kept₃ b other' second
    obtain ⟨q, fourth⟩ := kept₄ b _ third
    exact ⟨_, fourth, same⟩

/-- A node behind a path is exchanged for a new one that goes on like it. -/
theorem exchange_spec (sound : m.Sound held) (path : m.links.Path l pre (cur :: post))
    (get : m.get cur = some node) (merged : 1 < m.count cur) (room : m.RoomBut (some cur))
    (malloc : Malloc) (tag : Tag) :
    ∃ unmerged merged linked copy, m.setCount cur decrement = some unmerged ∧
      copy = malloc.address unmerged.heap ∧
      (unmerged.put copy ⟨node.next, 1, tag.tid, tag.data⟩).addReference node.next = some merged ∧
      merged.setNext (lastCell (.list l) pre) (some copy) = some linked ∧
      linked.Sound (Function.update held l
        (some (m.links.values pre ++ tag :: m.links.values post))) ∧
      linked.links.Path l (pre ++ [copy]) post ∧ linked.RoomBut node.next ∧
      (∃ other, linked.get copy = some other ∧ other.tid = tag.tid) ∧
      (∀ b other, m.get b = some other → ∃ other', linked.get b = some other' ∧
        other'.tid = other.tid) ∧
      ∀ b, node.next = some b → linked.count b = m.count b + 1 := by
  obtain ⟨unmerged, merged', linked, copy, dec, is_copy, absent, inc, done, links, counts,
    at_copy, kept⟩ := exchange_run sound.counted path get merged room malloc tag
  refine ⟨unmerged, merged', linked, copy, dec, is_copy, inc, done, ?_⟩
  obtain ⟨segment, onward⟩ := reach path get
  have zero : m.count copy = 0 := by
    have unused := sound.counted.used copy
    rw [absent] at unused
    simpa using unused
  have not_copy : copy ≠ cur := by
    rintro rfl
    rw [zero] at merged
    cases merged
  have live_last := segment.live_lastCell (c := .list l) trivial
  have from_last : (m.links.setView copy (some (tag, node.next))).next
      (lastCell (.list l) pre) = some cur := by
    rw [next_setView, update_of_ne (live_last.ne_absent absent)]
    exact segment.next_lastCell
  have from_copy : m.links.next (.node copy) = none := by simp [Links.next, absent]
  have from_cur : m.links.next (.node cur) = node.next := by simp [Links.next, view_of_get get]
  obtain ⟨represents, alive, chain⟩ := Path.insert [cur] path sound.represents absent onward tag
  have counted : linked.links.Counted linked.count := by
    rw [links]
    refine sound.counted.splice (live_last.setView _) ?_ ?_
    · intro b
      rw [from_copy, from_last, counts]
      simp only [bind_some, Option.some.injEq, reduceCtorEq, if_false]
      by_cases is_copy : b = copy
      · subst is_copy
        simp only [if_true, if_neg not_copy.symm]
        omega
      · by_cases is_cur : b = cur
        · subst is_cur
          simp only [if_true, if_neg is_copy, if_neg (Ne.symm is_copy)]
          omega
        · simp [if_neg is_copy, if_neg is_cur, if_neg (Ne.symm is_copy), if_neg (Ne.symm is_cur)]
    · intro b
      rw [isSome_setNext, counts]
      by_cases is_copy : b = copy
      · subst is_copy
        simp [setView]
      · have same_view : (m.links.setView copy (some (tag, node.next))).view b =
            m.links.view b := update_of_ne is_copy _ _
        have used := sound.counted.used b
        rw [same_view, used, if_neg is_copy]
        by_cases points : node.next = some b
        · have positive := used.mp (sound.counted.live (points ▸ from_cur))
          simp [points, positive]
        · rw [if_neg points, add_zero]
          by_cases is_cur : b = cur
          · subst is_cur
            rw [if_pos rfl]
            omega
          · rw [if_neg is_cur]
  rw [← links] at represents alive chain
  have once := nodup_append.mp path.chain.nodup
  have behind : ∀ a, node.next = some a → a ∈ post ∧ a ≠ copy ∧ a ≠ cur := by
    intro a points
    have in_post : a ∈ post := Links.Chain.first_mem (points ▸ onward)
    refine ⟨in_post, ?_, ?_⟩
    · rintro rfl
      have live := Segment.live onward in_post
      rw [absent] at live
      cases live
    · rintro rfl
      exact (nodup_cons.mp once.2.1).1 in_post
  have inside : ∀ a ∈ pre, a ≠ copy ∧ a ≠ cur ∧ node.next ≠ some a := by
    intro a mem
    refine ⟨?_, once.2.2 a mem cur (mem_cons_self ..), ?_⟩
    · rintro rfl
      have live := Segment.live segment mem
      rw [absent] at live
      cases live
    · intro points
      exact once.2.2 a mem a (mem_cons_of_mem _ (behind a points).1) rfl
  refine ⟨⟨counted, represents⟩, ⟨alive, ?_, ?_⟩, ⟨?_, ?_⟩, at_copy, kept, ?_⟩
  · rw [append_assoc]
    exact chain
  · intro a mem
    rw [← counted.counts, counts]
    rcases mem_append.mp mem with before | is_copy
    · obtain ⟨other, differs, unpointed⟩ := inside a before
      rw [if_neg other, if_neg differs, if_neg unpointed, sound.counted.counts]
      exact path.exclusive a before
    · obtain rfl := mem_singleton.mp is_copy
      simp [if_neg fun points => (behind a points).2.1 rfl]
  · intro a unpointed
    rw [counts, if_neg unpointed]
    have small := room.all a
    by_cases is_copy : a = copy
    · rw [if_pos is_copy]
      decide
    · by_cases is_cur : a = cur
      · subst is_cur
        rw [if_neg is_copy, if_pos rfl]
        omega
      · rw [if_neg is_copy, if_neg is_cur]
        exact room.others a fun same => is_cur (Option.some.inj same).symm
  · intro a
    have small := room.all a
    rw [counts]
    by_cases points : node.next = some a
    · obtain ⟨-, other, differs⟩ := behind a points
      rw [if_neg other, if_neg differs, if_pos points]
      exact room.others a fun same => differs (Option.some.inj same).symm
    · rw [if_neg points]
      split_ifs
      · decide
      · omega
      · exact small
  · intro b points
    obtain ⟨-, other, differs⟩ := behind b points
    rw [counts, if_neg other, if_neg differs, if_pos points]

/-- The nodes keep their types. -/
def SameTypes (m m' : Memory) : Prop :=
  ∀ b other, m.get b = some other → ∃ other', m'.get b = some other' ∧ other'.tid = other.tid

theorem SameTypes.lacks_iff (same : m.SameTypes m') {q : Option Addr}
    (segment : m.links.Segment p as q) : m'.Lacks tid as ↔ m.Lacks tid as := by
  have known : ∀ a ∈ as, ∃ node node', m.get a = some node ∧ m'.get a = some node' ∧
      node'.tid = node.tid := by
    intro a mem
    obtain ⟨⟨_, q'⟩, view⟩ := isSome_iff_exists.mp (Segment.live segment mem)
    obtain ⟨node, get, -, -⟩ := get_of_view view
    obtain ⟨node', get', eq⟩ := same a node get
    exact ⟨node, node', get, get', eq⟩
  constructor
  · intro lacks a mem other here
    obtain ⟨node, node', get, get', eq⟩ := known a mem
    cases get.symm.trans here
    exact eq ▸ lacks a mem node' get'
  · intro lacks a mem other here
    obtain ⟨node, node', get, get', eq⟩ := known a mem
    cases get'.symm.trans here
    exact eq ▸ lacks a mem node get

theorem lacks_cons (get : m.get a = some node) :
    m.Lacks tid (a :: as) ↔ node.tid ≠ tid ∧ m.Lacks tid as := by
  constructor
  · intro lacks
    refine ⟨lacks a (mem_cons_self ..) node get, ?_⟩
    intro b mem
    exact lacks b (mem_cons_of_mem a mem)
  · rintro ⟨differs, lacks⟩ b (_ | ⟨_, mem⟩) other here
    · cases get.symm.trans here
      exact differs
    · exact lacks b mem other here

/-- The merge comes to the type, and every list still holds the same. -/
theorem copyUntil_spec (malloc : Malloc) (sound : m.Sound held)
    (path : m.links.Path l pre (cur :: post)) (lacks : m.Lacks tid pre)
    (there : ¬ m.Lacks tid (cur :: post)) (merged : 1 < m.count cur) (room : m.RoomBut (some cur))
    (enough : post.length < fuel) :
    ∃ m' cur' pre' post' node', copyUntil malloc tid fuel m cur (lastCell (.list l) pre) =
        some (m', cur', lastCell (.list l) pre') ∧ m'.Sound held ∧
      m'.links.Path l pre' (cur' :: post') ∧ m'.Lacks tid pre' ∧ m'.get cur' = some node' ∧
      node'.tid = tid ∧ 1 < m'.count cur' ∧ m'.RoomBut (some cur') := by
  induction fuel generalizing m pre post cur with
  | zero => cases enough
  | succ fuel ih =>
    obtain ⟨r, segment, after⟩ := segment_append.mp path.chain
    obtain ⟨rfl, node, get, onward⟩ := segment_cons after
    by_cases same : node.tid = tid
    · exact ⟨m, cur, pre, post, node, by simp [copyUntil, get, same], sound, path, lacks, get, same,
        merged, room⟩
    · obtain ⟨unmerged, merged', linked, copy, dec, is_copy, inc, done, sound', path', room',
        at_copy, kept, counts⟩ :=
          exchange_spec sound path get merged room malloc ⟨node.tid, node.data⟩
      have unchanged : Function.update held l (some (m.links.values pre ++
          ⟨node.tid, node.data⟩ :: m.links.values post)) = held := by
        have holds := sound.held_eq path
        rw [values_append, values_cons (view_of_get get)] at holds
        exact update_eq_self_iff.mpr holds.symm
      rw [unchanged] at sound'
      have still := mt (lacks_cons get).mpr there
      cases post with
      | nil => exact absurd ⟨same, nofun⟩ still
      | cons next post =>
        have points : node.next = some next := onward.1
        have live := sound.counted.live (c := .node cur) (a := next)
          (by simp [Links.next, view_of_get get, points])
        have more : 1 < linked.count next := by
          rw [counts next points]
          have positive := (sound.counted.used next).mp live
          omega
        have lacks' : linked.Lacks tid (pre ++ [copy]) := by
          intro b mem other here
          rcases mem_append.mp mem with before | is_copy
          · exact (SameTypes.lacks_iff kept segment).mpr lacks b before other here
          · obtain rfl := mem_singleton.mp is_copy
            obtain ⟨other', here', eq⟩ := at_copy
            cases here.symm.trans here'
            exact eq ▸ same
        have there' : ¬ linked.Lacks tid (next :: post) := by
          rw [SameTypes.lacks_iff kept onward]
          exact fun lacks => still ⟨same, lacks⟩
        obtain ⟨m', cur', pre', post', node', run, rest⟩ :=
          ih sound' path' lacks' there' more (points ▸ room') (Nat.lt_of_succ_lt_succ enough)
        refine ⟨m', cur', pre', post', node', ?_, rest⟩
        rw [lastCell_concat] at run
        have inc' : (unmerged.put copy ⟨some next, 1, node.tid, node.data⟩).setCount next
            increment = some merged' := by
          rw [points] at inc
          exact inc
        simp only [copyUntil, get, dec, bind_eq_bind, bind_some, if_neg same,
          ← is_copy, points, inc', done]
        exact run

end Memory

end Ns3.Network
