import Mathlib
import Ns3.Network.TagSharing

/-!
# The operations of packet tag lists on stacks
-/

namespace Ns3.Network.Memory

open SharedStacks Links List Function

variable {m m' : Memory} {held : TagStacks} {l o tid : Nat} {cur : Addr} {node : TagData}
  {pre post as : List Addr} {p next : Option Addr} {tag : Tag}

/-! ## Nodes that are left out -/

section

variable (sound : m.Sound held)
include sound

/-- A node that only one list reaches is left out and freed. -/
theorem unlink_sound (path : m.links.Path l (pre ++ [cur]) post) (get : m.get cur = some node)
    (links : m'.links = (m.links.setView cur none).setNext (lastCell (.list l) pre) node.next)
    (counts : ∀ b, m'.count b = if b = cur then 0 else m.count b) :
    m'.Sound (Function.update held l (some (m.links.values pre ++ m.links.values post))) := by
  have alone := path.exclusive cur (by simp)
  rw [← sound.counted.counts] at alone
  have shorter := path.shorten
  obtain ⟨segment, onward⟩ := reach shorter get
  have elsewhere : ∀ b, b ≠ cur → (m.links.setView cur none).view b = m.links.view b := by
    intro b other
    exact update_of_ne other _ _
  have last := shorter.last_ne
  have live : (m.links.setView cur none).Live (lastCell (.list l) pre) := by
    cases at_ : lastCell (.list l) pre with
    | list l' => exact trivial
    | node b =>
      have before : m.links.Live (.node b) := at_ ▸ segment.live_lastCell (c := .list l) trivial
      have other : b ≠ cur := fun same => last (at_.trans (congrArg Cell.node same))
      simpa [Live, elsewhere b other] using before
  constructor
  · rw [links]
    refine sound.counted.splice live ?_ ?_
    · intro b
      have from_cur : m.links.next (.node cur) = node.next := by simp [Links.next, view_of_get get]
      rw [from_cur, next_setView, update_of_ne last, segment.next_lastCell, counts]
      by_cases is_cur : b = cur
      · subst is_cur
        simp [alone]
        omega
      · simp [is_cur, Ne.symm is_cur]
    · intro b
      rw [isSome_setNext, counts]
      by_cases is_cur : b = cur
      · simp [is_cur, setView]
      · rw [elsewhere b is_cur, if_neg is_cur]
        exact sound.counted.used b
  · rw [links]
    exact shorter.cut sound.represents onward rfl elsewhere (.inr path)

/-- A node that others reach too is left out and keeps the other referrers. -/
theorem skip_sound (path : m.links.Path l pre (cur :: post))
    (get : m.get cur = some node) (merged : 1 < m.count cur)
    (links : m'.links = m.links.setNext (lastCell (.list l) pre) node.next)
    (counts : ∀ b, m'.count b = (if b = cur then m.count b - 1 else m.count b) +
      if node.next = some b then 1 else 0) :
    m'.Sound (Function.update held l (some (m.links.values pre ++ m.links.values post))) := by
  obtain ⟨segment, onward⟩ := reach path get
  have unwritten : m.links.setView cur (m.links.view cur) = m.links :=
    congrArg (Links.mk m.links.head ·) (update_eq_self ..)
  have live := segment.live_lastCell (c := .list l) trivial
  have from_cur : m.links.next (.node cur) = node.next := by simp [Links.next, view_of_get get]
  constructor
  · rw [links, ← unwritten]
    refine sound.counted.splice (by rwa [unwritten]) ?_ ?_
    · intro b
      rw [unwritten, from_cur, segment.next_lastCell, counts, view_of_get get]
      by_cases is_cur : b = cur
      · subst is_cur
        simp
        omega
      · simp [is_cur, Ne.symm is_cur]
    · intro b
      rw [isSome_setNext, unwritten, counts]
      have used := sound.counted.used b
      rw [used]
      by_cases points : node.next = some b
      · have positive := used.mp (sound.counted.live (points ▸ from_cur))
        simp [points, positive]
      · by_cases is_cur : b = cur
        · subst is_cur
          rw [if_pos rfl, if_neg points]
          omega
        · simp [if_neg is_cur, if_neg points]
  · rw [links]
    exact path.cut sound.represents onward rfl (fun _ _ => rfl) (.inl rfl)

/-! ## Writers -/

theorem removeWriter_here (path : m.links.Path l (pre ++ [cur]) post)
    (get : m.get cur = some node) :
    ∃ m', removeWriter m true cur (lastCell (.list l) pre) = some (m', node.data) ∧
      m'.Sound (Function.update held l (some (m.links.values pre ++ m.links.values post))) := by
  obtain ⟨segment, -⟩ := reach path.shorten get
  have live := segment.live_lastCell (c := .list l) trivial
  obtain ⟨linked, done, links, counts, -⟩ := setNext_eq live node.next
  have last := path.shorten.last_ne
  refine ⟨linked.free cur, by simp [removeWriter, get, done], unlink_sound sound path get ?_ ?_⟩
  · rw [links_free, links, setNext_setView last]
  · intro b
    rw [count_free, update_apply, counts]

theorem removeWriter_merge (path : m.links.Path l pre (cur :: post))
    (get : m.get cur = some node) (merged : 1 < m.count cur) (room : m.RoomBut (some cur)) :
    ∃ m', removeWriter m false cur (lastCell (.list l) pre) = some (m', node.data) ∧
      m'.Sound (Function.update held l (some (m.links.values pre ++ m.links.values post))) := by
  obtain ⟨segment, onward⟩ := reach path get
  have live := segment.live_lastCell (c := .list l) trivial
  obtain ⟨linked, done, links₁, counts₁, kept₁⟩ := setNext_eq live node.next
  obtain ⟨q, get₁⟩ := kept₁ cur node get
  obtain ⟨unmerged, dec, links₂, counts₂, kept₂⟩ := setCount_eq get₁ decrement
  have behind : ∀ b, node.next = some b → b ≠ cur ∧ (unmerged.get b).isSome = true := by
    intro b points
    have mem : b ∈ post := Links.Chain.first_mem (points ▸ onward)
    constructor
    · rintro rfl
      exact (nodup_cons.mp (nodup_append.mp path.chain.nodup).2.1).1 mem
    · obtain ⟨⟨_, q⟩, view⟩ := Option.isSome_iff_exists.mp (Segment.live onward mem)
      obtain ⟨other, get, -, -⟩ := get_of_view view
      obtain ⟨q, get₁⟩ := kept₁ b other get
      obtain ⟨k, get₂⟩ := kept₂ b _ get₁
      rw [get₂]
      rfl
  have counted : ∀ b, unmerged.count b = if b = cur then m.count b - 1 else m.count b := by
    intro b
    rw [counts₂, counts₁, decrement_eq (Nat.zero_lt_of_lt merged) (room.all cur)]
    by_cases is_cur : b = cur
    · rw [if_pos is_cur, if_pos is_cur, is_cur]
    · rw [if_neg is_cur, if_neg is_cur]
  obtain ⟨merged', inc, links₃, counts₃, -⟩ := addReference_eq (m := unmerged)
    (fun b points => (behind b points).2) (by
      intro b points
      rw [counted, if_neg (behind b points).1]
      exact room.others b fun same => (behind b points).1 (Option.some.inj same).symm)
  refine ⟨merged', by simp [removeWriter, get, done, dec, inc],
    skip_sound sound path get merged ?_ ?_⟩
  · rw [links₃, links₂, links₁]
  · intro b
    rw [counts₃, counted]

theorem replaceWriter_here {malloc : Malloc}
    (path : m.links.Path l (pre ++ [cur]) post) (get : m.get cur = some node)
    (same_type : node.tid = tag.tid) (same_size : node.data.length = tag.data.length) :
    ∃ m', replaceWriter malloc tag m true cur (lastCell (.list l) pre) = some (m', []) ∧
      m'.Sound (Function.update held l
        (some (m.links.values pre ++ tag :: m.links.values post))) := by
  have shorter := path.shorten
  obtain ⟨segment, onward⟩ := reach shorter get
  have once := nodup_append.mp shorter.chain.nodup
  have written : serialize tag.data node.data = some tag.data := by simp [serialize, same_size]
  refine ⟨m.put cur { node with data := tag.data }, by simp [replaceWriter, get, written], ?_⟩
  have elsewhere : ∀ b, b ≠ cur →
      (m.links.setView cur (some (tag, node.next))).view b = m.links.view b := by
    intro b other
    exact update_of_ne other _ _
  have here : (m.links.setView cur (some (tag, node.next))).view cur = some (tag, node.next) :=
    update_self ..
  have last := shorter.last_ne
  have live := (segment.live_lastCell (c := .list l) trivial).setView (a := cur) (tag, node.next)
  have from_last : (m.links.setView cur (some (tag, node.next))).next (lastCell (.list l) pre) =
      some cur := by
    rw [next_setView, update_of_ne last]
    exact segment.next_lastCell
  have alive : ∀ l', lastCell (.list l) pre = Cell.list l' → (m.links.head l').isSome = true := by
    intro l' at_list
    have mem : Cell.list l' ∈ Cell.list l :: pre.map Cell.node := at_list ▸ lastCell_mem (.list l)
    rcases mem_cons.mp mem with same | in_path
    · cases same
      exact path.live
    · simp at in_path
  have stays := setNext_self (s := m.links.setView cur (some (tag, node.next))) alive live
  rw [from_last] at stays
  have links : (m.put cur { node with data := tag.data }).links =
      (m.links.setView cur (some (tag, node.next))).setNext (lastCell (.list l) pre)
        (some cur) := by rw [links_put, stays, same_type]
  have counts : (m.put cur { node with data := tag.data }).count = m.count := by
    rw [count_put]
    exact update_eq_self_iff.mpr (count_of_get get).symm
  have from_cur : m.links.next (.node cur) = node.next := by simp [Links.next, view_of_get get]
  constructor
  · rw [links, counts]
    refine sound.counted.splice live ?_ ?_
    · intro b
      rw [from_cur, from_last]
      rfl
    · intro b
      rw [isSome_setNext, ← sound.counted.used b]
      by_cases is_cur : b = cur
      · subst is_cur
        simp [here, view_of_get get]
      · rw [elsewhere b is_cur]
  · have behind : ∀ b ∈ post,
        (m.links.setView cur (some (tag, node.next))).view b = m.links.view b := by
      intro b mem
      refine elsewhere b ?_
      rintro rfl
      exact (nodup_cons.mp once.2.1).1 mem
    have chain : ((m.links.setView cur (some (tag, node.next))).setNext (lastCell (.list l) pre)
        (some cur)).Chain (some cur) (cur :: post) := by
      rw [stays]
      exact ⟨rfl, tag, node.next, here, Segment.congr onward behind⟩
    have spliced := shorter.splice (t := m.links.setView cur (some (tag, node.next)))
      sound.represents rfl
      (fun b mem => elsewhere b (once.2.2 b mem cur (mem_cons_self ..)))
      (fun l' p as other head chain' b mem => elsewhere b (by
        rintro rfl
        exact path.apart other head chain' b (by simp) mem)) chain
    rw [links]
    rw [values_cons here, values_congr behind] at spliced
    exact spliced.1

theorem replaceWriter_merge {malloc : Malloc}
    (path : m.links.Path l pre (cur :: post)) (get : m.get cur = some node)
    (merged : 1 < m.count cur) (room : m.RoomBut (some cur)) :
    ∃ m', replaceWriter malloc tag m false cur (lastCell (.list l) pre) = some (m', []) ∧
      m'.Sound (Function.update held l
        (some (m.links.values pre ++ tag :: m.links.values post))) := by
  obtain ⟨unmerged, merged', linked, copy, dec, is_copy, inc, done, sound', -⟩ :=
    exchange_spec sound path get merged room malloc tag
  refine ⟨linked, ?_, sound'⟩
  simp [replaceWriter, get, dec, ← is_copy, inc, done]

end

/-! ## `COWTraverse` -/

/-- What a writer does to the topmost tag of the type. -/
structure Writes (writer : Writer) (tid : Nat) (m : Memory) (l : Nat) (held : TagStacks)
    (write : Tag → List Tag) (answer : Tag → List UInt8) : Prop where
  here : ∀ pre cur node post, m.links.Path l (pre ++ [cur]) post → m.get cur = some node →
    node.tid = tid → m.Lacks tid pre →
    ∃ m', writer m true cur (lastCell (.list l) pre) = some (m', answer ⟨node.tid, node.data⟩) ∧
      m'.Sound (Function.update held l
        (some (m.links.values pre ++ (write ⟨node.tid, node.data⟩ ++ m.links.values post))))
  merge : ∀ m, m.Sound held → ∀ pre cur node post, m.links.Path l pre (cur :: post) →
    m.get cur = some node → node.tid = tid → 1 < m.count cur → m.RoomBut (some cur) →
    ∃ m', writer m false cur (lastCell (.list l) pre) = some (m', answer ⟨node.tid, node.data⟩) ∧
      m'.Sound (Function.update held l
        (some (m.links.values pre ++ (write ⟨node.tid, node.data⟩ ++ m.links.values post))))

/-- The traversal finds nothing, or the writer writes on the topmost tag. -/
theorem cowTraverse_spec (malloc : Malloc) {writer : Writer} {write : Tag → List Tag}
    {answer : Tag → List UInt8} {tags : List Tag} (sound : m.Sound held)
    (holds : held l = some tags) (room : m.Room)
    (writes : Writes writer tid m l held write answer) :
    (m.cowTraverse malloc l tid writer = some (m, none) ∧ ∀ tag ∈ tags, tag.tid ≠ tid) ∨
    ∃ m' before tag after, m.cowTraverse malloc l tid writer = some (m', some (answer tag)) ∧
      tags = before ++ tag :: after ∧ tag.tid = tid ∧ (∀ tag ∈ before, tag.tid ≠ tid) ∧
      m'.Sound (Function.update held l (some (before ++ (write tag ++ after)))) := by
  obtain ⟨p, as, head, chain, rfl⟩ := (sound.represents l).2 tags holds
  have head' : m.head l = some p := head
  have from_ : m.links.next (.list l) = p := by simp [Links.next, head]
  have path : m.links.Path l [] as := ⟨by rw [head]; rfl, from_ ▸ chain, by simp⟩
  obtain ⟨found, search, finds⟩ :=
    search_finds sound.counted path (by simp [Lacks]) (length_le_rounds chain) chain
  rw [nil_append] at finds
  have found_is : m.search tid m.rounds p (.list l) = some found := search
  cases finds with
  | ended lacks =>
    left
    exact ⟨by simp [cowTraverse, head', found_is], lacks.values⟩
  | @here pre post cur node split lacks alone get same =>
    right
    obtain ⟨m', done, sound'⟩ := writes.here pre cur node post alone get same lacks
    refine ⟨m', m.links.values pre, ⟨node.tid, node.data⟩, m.links.values post, ?_, ?_, same,
      lacks.values, sound'⟩
    · simp [cowTraverse, head', found_is, done]
    · rw [split, values_append, values_cons (view_of_get get)]
  | @merge pre post cur split lacks path' merged =>
    have behind : m.links.Chain (some cur) (cur :: post) := Links.Chain.tail path'.chain
    obtain ⟨there, seen, lacks_iff⟩ := contains_spec tid behind (length_le_rounds behind)
    cases there with
    | false =>
      left
      refine ⟨by simp [cowTraverse, head', found_is, seen], ?_⟩
      intro tag mem
      rw [split, values_append] at mem
      rcases mem_append.mp mem with before | after
      · exact lacks.values tag before
      · exact (lacks_iff.mp rfl).values tag after
    | true =>
      right
      have there : ¬ m.Lacks tid (cur :: post) := fun lacks => Bool.noConfusion (lacks_iff.mpr lacks)
      have enough : post.length < m.rounds := length_le_rounds behind
      obtain ⟨m', cur', pre', post', node', run, sound', path'', lacks', get', same, merged',
        room'⟩ := copyUntil_spec malloc sound path' lacks there merged
          ⟨fun a _ => room a, fun a => Nat.lt_of_succ_lt (room a)⟩ enough
      obtain ⟨m'', done, sound''⟩ :=
        writes.merge m' sound' pre' cur' node' post' path'' get' same merged' room'
      have same_tags := holds.symm.trans (sound'.held_eq path'')
      refine ⟨m'', m'.links.values pre', ⟨node'.tid, node'.data⟩, m'.links.values post', ?_, ?_,
        same, lacks'.values, sound''⟩
      · simp [cowTraverse, head', found_is, seen, run, done]
      · rw [Option.some.inj same_tags, values_append, values_cons (view_of_get get')]

end Ns3.Network.Memory
