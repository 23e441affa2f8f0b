import Ns3.Network.TagOperations

/-!
# Packet tag lists are independent stacks
-/

namespace Ns3.Network

open SharedStacks Links List Option Function

section

variable {tags before after : List Tag} {tag : Tag} {tid : Nat}

section

variable (lacks : ∀ tag ∈ tags, tag.tid ≠ tid)
include lacks

theorem lacks_find : topmost tags tid = none := by
  rw [topmost, find?_eq_none.mpr, map_none]
  intro tag mem
  simpa using lacks tag mem

theorem lacks_erase : tags.eraseP (·.tid = tid) = tags := by
  apply eraseP_of_forall_not
  intro tag mem
  simpa using lacks tag mem

theorem lacks_any : tags.any (·.tid = tid) = false := by
  rw [List.any_eq_false]
  intro tag mem
  simpa using lacks tag mem

end

theorem split_find (lacks : ∀ tag ∈ before, tag.tid ≠ tid) (same : tag.tid = tid) :
    topmost (before ++ tag :: after) tid = some tag.data := by
  have first := lacks_find lacks
  rw [topmost, map_eq_none_iff] at first
  simp [topmost, find?_append, first, same]

theorem split_erase (lacks : ∀ tag ∈ before, tag.tid ≠ tid) (same : tag.tid = tid) :
    (before ++ tag :: after).eraseP (·.tid = tid) = before ++ after := by
  rw [eraseP_append_right, eraseP_cons_of_pos]
  · simpa using same
  · intro tag mem
    simpa using lacks tag mem

theorem split_exchange {new : Tag} (lacks : ∀ tag ∈ before, tag.tid ≠ new.tid)
    (same : tag.tid = new.tid) :
    exchange (before ++ tag :: after) new = before ++ new :: after := by
  have there : (before ++ tag :: after).any (·.tid = new.tid) = true := by simp [same]
  have passes : ∀ tag ∈ before, decide (tag.tid ≠ new.tid) = true := by
    intro tag mem
    simpa using lacks tag mem
  rw [exchange, if_pos there, takeWhile_append_of_pos passes,
    dropWhile_append_of_pos passes, takeWhile_cons_of_neg (by simpa using same),
    dropWhile_cons_of_neg (by simpa using same), append_nil, tail_cons]

end

namespace Memory

variable {m m' : Memory} {held : TagStacks} {l o tid : Nat} {tag : Tag} {tags : List Tag}
  {pre post as : List Addr} {p next : Option Addr} {malloc : Malloc}

theorem Sound.chain (sound : m.Sound held) (holds : held l = some tags) :
    ∃ p as, m.head l = some p ∧ m.links.next (.list l) = p ∧ m.links.Chain p as ∧
      m.links.values as = tags ∧ m.links.Path l [] as := by
  obtain ⟨p, as, head, chain, values⟩ := (sound.represents l).2 tags holds
  have from_ : m.links.next (.list l) = p := by simp [Links.next, head]
  exact ⟨p, as, head, from_, chain, values, by rw [head]; rfl, from_ ▸ chain, by simp⟩

theorem remove_spec (malloc : Malloc) (sound : m.Sound held) (holds : held l = some tags)
    (room : m.Room) :
    ∃ m', m.remove malloc l tid = some (m', topmost tags tid) ∧
      m'.Sound (update held l (some (tags.eraseP (·.tid = tid)))) := by
  have writes : Writes removeWriter tid m l held (fun _ => []) Tag.data := by
    constructor
    · intro pre cur node post path get _ _
      exact removeWriter_here sound path get
    · intro m sound pre cur node post path get _ merged room
      exact removeWriter_merge sound path get merged room
  rcases cowTraverse_spec malloc sound holds room writes with
    ⟨done, lacks⟩ | ⟨m', before, tag, after, done, rfl, same, lacks, sound'⟩
  · refine ⟨m, by rw [lacks_find lacks]; exact done, ?_⟩
    rwa [lacks_erase lacks, update_eq_self_iff.mpr holds.symm]
  · refine ⟨m', by rw [split_find lacks same]; exact done, ?_⟩
    rwa [split_erase lacks same]

theorem peekFrom_spec (tid : Nat) {fuel : Nat} (chain : m.links.Chain p as)
    (enough : as.length ≤ fuel) :
    m.peekFrom tid fuel p = some (topmost (m.links.values as) tid) := by
  induction as generalizing p fuel with
  | nil =>
    obtain rfl : p = none := chain
    cases fuel <;> rfl
  | cons a as ih =>
    obtain ⟨rfl, node, get, after⟩ := segment_cons chain
    cases fuel with
    | zero => cases enough
    | succ fuel =>
      rw [values_cons (view_of_get get)]
      by_cases same : node.tid = tid
      · simp [peekFrom, get, same, topmost]
      · have later := ih after (Nat.le_of_succ_le_succ enough)
        rw [topmost, find?_cons_of_neg (by simpa using same)]
        simpa [peekFrom, get, same, topmost] using later

theorem add_spec (malloc : Malloc) (tag : Tag) (sound : m.Sound held) (holds : held l = some tags) :
    ∃ m', m.add malloc l tag = some m' ∧
      m'.Sound (update held l (some (tag :: tags))) := by
  obtain ⟨p, as, head, from_, chain, rfl, path⟩ := sound.chain holds
  generalize is_head : malloc.address m.heap = first
  have absent : m.links.view first = none := absent_of_fresh rfl is_head.symm
  refine ⟨(m.put first ⟨p, 1, tag.tid, tag.data⟩).setHead l (some first), ?_, ?_⟩
  · simp [add, head, is_head]
  · have links : ((m.put first ⟨p, 1, tag.tid, tag.data⟩).setHead l (some first)).links =
        (m.links.setView first (some (tag, p))).setNext (lastCell (.list l) []) (some first) := by
      rw [links_setHead, links_put]
      rfl
    have zero : m.count first = 0 := by
      have unused := sound.counted.used first
      rw [absent] at unused
      simpa using unused
    have counts : ∀ b, ((m.put first ⟨p, 1, tag.tid, tag.data⟩).setHead l (some first)).count b =
        if b = first then 1 else m.count b := by
      intro b
      exact (congrFun count_put b).trans (update_apply ..)
    constructor
    · rw [links]
      refine sound.counted.splice trivial ?_ ?_
      · intro b
        have from_first : m.links.next (.node first) = none := by simp [Links.next, absent]
        have from_list : (m.links.setView first (some (tag, p))).next (.list l) = p := from_
        rw [from_first, lastCell, from_list, counts]
        by_cases is_first : b = first
        · subst is_first
          simp [zero]
          omega
        · simp [is_first, Ne.symm is_first]
      · intro b
        rw [isSome_setNext, counts]
        by_cases is_first : b = first
        · simp [is_first, setView]
        · rw [if_neg is_first, ← sound.counted.used b]
          simp [setView, is_first]
    · rw [links]
      exact (Path.insert [] path sound.represents absent chain tag).1

/-- A tag of the type that only this list reaches has the size of the new one. -/
def SameSize (m : Memory) (l : Nat) (tag : Tag) : Prop :=
  ∀ pre cur post node, m.links.Path l (pre ++ [cur]) post → m.Lacks tag.tid pre →
    m.get cur = some node → node.tid = tag.tid → node.data.length = tag.data.length

theorem replace_spec (malloc : Malloc) (sound : m.Sound held) (holds : held l = some tags)
    (room : m.Room) (same_size : m.SameSize l tag) :
    ∃ m', m.replace malloc l tag = some (m', tags.any (·.tid = tag.tid)) ∧
      m'.Sound (update held l (some (exchange tags tag))) := by
  have writes : Writes (replaceWriter malloc tag) tag.tid m l held (fun _ => [tag])
      (fun _ => []) := by
    constructor
    · intro pre cur node post path get same lacks
      exact replaceWriter_here sound path get same (same_size pre cur post node path lacks get same)
    · intro m sound pre cur node post path get _ merged room
      exact replaceWriter_merge sound path get merged room
  rcases cowTraverse_spec malloc sound holds room writes with
    ⟨done, lacks⟩ | ⟨m', before, old, after, done, rfl, same, lacks, sound'⟩
  · obtain ⟨added, run, sound'⟩ := add_spec malloc tag sound holds
    have none_there := lacks_any lacks
    refine ⟨added, ?_, ?_⟩
    · rw [none_there]
      simp [replace, done, run]
    · rwa [exchange, if_neg (by rw [none_there]; exact nofun)]
  · refine ⟨m', ?_, ?_⟩
    · simp [replace, done, same]
    · rwa [split_exchange lacks same]

/-! ## `RemoveAll` -/

theorem get_freePrev {prev : Option Addr} {b : Addr} :
    (m.freePrev prev).get b = if prev = some b then none else m.get b := by
  cases prev with
  | none => rfl
  | some a =>
    rw [freePrev, get_free]
    by_cases same : b = a
    · rw [if_pos same, if_pos (congrArg some same.symm)]
    · rw [if_neg same, if_neg fun eq => same (Option.some.inj eq).symm]

theorem head_freePrev {prev : Option Addr} : (m.freePrev prev).head = m.head := by
  cases prev <;> rfl

theorem links_recount (m' : Memory) {cur : Addr} {node : TagData} {k : Nat}
    (get : m.get cur = some node)
    (gets : ∀ b, m'.get b = if b = cur then some { node with count := k } else m.get b)
    (heads : ∀ l', m'.head l' = if l' = l then some p else m.head l') :
    m'.links = m.links.setNext (.list l) p ∧
      ∀ b, m'.count b = if b = cur then k else m.count b := by
  constructor
  · unfold links Links.setNext
    congr 1
    · funext l'
      rw [heads, update_apply]
    · funext b
      rw [gets]
      by_cases is_cur : b = cur
      · simp [is_cur, get]
      · simp [is_cur]
  · intro b
    unfold count
    rw [gets]
    by_cases is_cur : b = cur <;> simp [is_cur]

theorem links_without (m' : Memory) {cur : Addr}
    (gets : ∀ b, m'.get b = if b = cur then none else m.get b)
    (heads : ∀ l', m'.head l' = if l' = l then some p else m.head l') :
    m'.links = (m.links.setView cur none).setNext (.list l) p ∧
      ∀ b, m'.count b = if b = cur then 0 else m.count b := by
  constructor
  · unfold links Links.setNext setView
    congr 1
    · funext l'
      rw [heads, update_apply]
    · funext b
      rw [gets]
      by_cases is_cur : b = cur <;> simp [is_cur]
  · intro b
    unfold count
    rw [gets]
    by_cases is_cur : b = cur <;> simp [is_cur]

/-- A list lets go of its first node, which others reach too. -/
theorem letGo_sound {cur : Addr} (sound : m.Sound held)
    (first : m.links.next (.list l) = some cur) (merged : 1 < m.count cur)
    (links : m'.links = m.links.setNext (.list l) none)
    (counts : ∀ b, m'.count b = if b = cur then m.count b - 1 else m.count b) :
    m'.Sound (update held l (some [])) := by
  have unwritten : m.links.setView cur (m.links.view cur) = m.links :=
    congrArg (Links.mk m.links.head ·) (update_eq_self ..)
  constructor
  · rw [links, ← unwritten]
    refine sound.counted.splice trivial ?_ ?_
    · intro b
      have same_link : (m.links.view cur).bind Prod.snd = m.links.next (.node cur) := rfl
      rw [unwritten, same_link, first, counts]
      by_cases is_cur : b = cur
      · subst is_cur
        simp
        omega
      · simp [is_cur, Ne.symm is_cur]
    · intro b
      rw [isSome_setNext, unwritten, counts, sound.counted.used b]
      by_cases is_cur : b = cur
      · subst is_cur
        rw [if_pos rfl]
        omega
      · rw [if_neg is_cur]
  · rw [links]
    refine sound.represents.change ?_ (fun _ _ _ _ _ _ _ _ => rfl) ?_
    · intro l' other
      exact update_of_ne other _ _
    · exact ⟨none, [], update_self .., rfl, rfl⟩

theorem release_spec {fuel : Nat} (prev : Option Addr)
    (sound : ((m.freePrev prev).setHead l p).Sound (update held l (some tags)))
    (small : ∀ b, ((m.freePrev prev).setHead l p).count b < 2 ^ 32)
    (chain : ((m.freePrev prev).setHead l p).links.Chain p as) (enough : as.length ≤ fuel) :
    ∃ m', release fuel m prev p = some m' ∧
      (m'.setHead l none).Sound (update held l (some [])) ∧
      ∀ b, (m'.setHead l none).count b ≤ ((m.freePrev prev).setHead l p).count b := by
  induction as generalizing m prev p fuel tags with
  | nil =>
    obtain rfl : p = none := chain
    have alone : Links.Path ((m.freePrev prev).setHead l none).links l [] [] := by
      refine ⟨by simp [links, head_setHead], ?_, nofun⟩
      simp [Links.next, links, head_setHead]
      rfl
    have empty := sound.held_eq alone
    rw [update_self] at empty
    cases empty
    refine ⟨m.freePrev prev, by cases fuel <;> rfl, sound, fun b => le_rfl⟩
  | cons cur as ih =>
    obtain ⟨rfl, node, get, onward⟩ := segment_cons chain
    cases fuel with
    | zero => cases enough
    | succ fuel =>
      have there : (m.freePrev prev).get cur = some node := get
      rw [get_freePrev] at there
      have kept : prev ≠ some cur := by
        intro same
        rw [if_pos same] at there
        cases there
      rw [if_neg kept] at there
      have positive := (sound.counted.used cur).mp (by simp [view_of_get get])
      have fewer := decrement_eq positive (small cur)
      rw [count_of_get get] at fewer positive
      have run : release (fuel + 1) m prev (some cur) =
          if decrement node.count > 0 then
            some ((m.put cur { node with count := decrement node.count }).freePrev prev)
          else release fuel ((m.put cur { node with count := decrement node.count }).freePrev prev)
            (some cur) node.next := by
        rw [release, there, bind_eq_bind, bind_some]
        -- the kernel must not compute with the modulus
        generalize decrement node.count = k
        rfl
      generalize decrement node.count = k at run fewer
      generalize dropped_eq : m.put cur { node with count := k } = dropped at run
      have gets : ∀ b, (dropped.freePrev prev).get b =
          if b = cur then some { node with count := k } else (m.freePrev prev).get b := by
        intro b
        rw [get_freePrev, get_freePrev, ← dropped_eq, get_put]
        by_cases is_cur : b = cur
        · subst is_cur
          simp [if_neg kept]
        · rw [if_neg is_cur, if_neg is_cur]
      have heads : (dropped.freePrev prev).head = (m.freePrev prev).head := by
        rw [head_freePrev, head_freePrev, ← dropped_eq]
        rfl
      have first : ((m.freePrev prev).setHead l (some cur)).links.next (.list l) = some cur := by
        simp [Links.next, links, head_setHead]
      rw [run]
      by_cases others : k > 0
      · obtain ⟨links, counts⟩ := links_recount ((dropped.freePrev prev).setHead l none)
          (p := none) (l := l) get gets (by
            intro l'
            rw [head_setHead, head_setHead, heads]
            by_cases same : l' = l <;> simp [same])
        have fewer_counts : ∀ b, ((dropped.freePrev prev).setHead l none).count b =
            if b = cur then ((m.freePrev prev).setHead l (some cur)).count b - 1
            else ((m.freePrev prev).setHead l (some cur)).count b := by
          intro b
          rw [counts]
          by_cases is_cur : b = cur
          · rw [if_pos is_cur, if_pos is_cur, is_cur, count_of_get get, fewer]
          · rw [if_neg is_cur, if_neg is_cur]
        have more : 1 < ((m.freePrev prev).setHead l (some cur)).count cur := by
          rw [count_of_get get]
          omega
        refine ⟨dropped.freePrev prev, if_pos others, ?_, ?_⟩
        · have let_go := letGo_sound sound first more links fewer_counts
          rwa [update_idem] at let_go
        · intro b
          rw [fewer_counts]
          split_ifs
          · exact Nat.sub_le _ _
          · exact le_rfl
      · obtain ⟨links, counts⟩ := links_without (m := (m.freePrev prev).setHead l (some cur))
          (((dropped.freePrev prev).freePrev (some cur)).setHead l node.next)
          (p := node.next) (l := l)
          (fun b => (get_free (m := dropped.freePrev prev) (a := cur)).trans (by
            rw [gets]
            by_cases is_cur : b = cur
            · rw [if_pos is_cur, if_pos is_cur]
            · rw [if_neg is_cur, if_neg is_cur, if_neg is_cur]
              rfl))
          (by
            intro l'
            rw [head_setHead, head_setHead, head_freePrev, heads]
            by_cases same : l' = l <;> simp [same])
        have one : ((m.freePrev prev).setHead l (some cur)).count cur = 1 := by
          rw [count_of_get get]
          omega
        have path : Links.Path ((m.freePrev prev).setHead l (some cur)).links l
            ([] ++ [cur]) as := by
          refine ⟨by simp [Memory.links, head_setHead], by rw [first]; exact chain, ?_⟩
          intro a mem
          obtain rfl := mem_singleton.mp mem
          rw [← sound.counted.counts, one]
        have popped := unlink_sound sound path get links counts
        rw [update_idem] at popped
        have lower : ∀ b,
            (((dropped.freePrev prev).freePrev (some cur)).setHead l node.next).count b ≤
            ((m.freePrev prev).setHead l (some cur)).count b := by
          intro b
          rw [counts]
          split_ifs
          · exact Nat.zero_le _
          · exact le_rfl
        have rest : (((dropped.freePrev prev).freePrev (some cur)).setHead l node.next).links.Chain
            node.next as := by
          refine Segment.congr onward ?_
          intro a mem
          have other : a ≠ cur := by
            rintro rfl
            exact (nodup_cons.mp chain.nodup).1 mem
          rw [links]
          exact update_of_ne other _ _
        obtain ⟨m', done, sound', below⟩ := ih (some cur) popped
          (fun b => lt_of_le_of_lt (lower b) (small b)) rest (Nat.le_of_succ_le_succ enough)
        exact ⟨m', (if_neg others).trans done, sound', fun b => (below b).trans (lower b)⟩

section

variable (sound : m.Sound held)
include sound

theorem removeAll_spec (holds : held l = some tags) (room : m.Room) :
    ∃ m', m.removeAll l = some m' ∧ m'.Sound (update held l (some [])) ∧
      (∀ b, m'.count b ≤ m.count b) ∧ m'.head l = some none := by
  obtain ⟨p, as, head, from_, chain, rfl, path⟩ := sound.chain holds
  have same : (m.setHead l p).links = m.links ∧ (m.setHead l p).count = m.count := by
    refine ⟨?_, rfl⟩
    rw [links_setHead]
    exact congrArg (Links.mk · m.links.view) (update_eq_self_iff.mpr head.symm)
  have alone : ((m.freePrev none).setHead l p).Sound
      (update held l (some (m.links.values as))) := by
    rw [update_eq_self_iff.mpr holds.symm, freePrev]
    constructor
    · rw [same.1, same.2]
      exact sound.counted
    · rw [same.1]
      exact sound.represents
  obtain ⟨m', done, sound', below⟩ := release_spec (m := m) (p := p) (l := l) none alone
    (fun b => Nat.lt_of_succ_lt (room b)) (by rw [freePrev, same.1]; exact chain)
    (length_le_rounds chain)
  refine ⟨m'.setHead l none, by simp [removeAll, head, done], sound', below, ?_⟩
  simp [head_setHead]

/-! ## Lists that begin and end -/

theorem point_sound (no_first : m.links.next (.list l) = none)
    (chain : m.links.Chain p as) (links : m'.links = m.links.setNext (.list l) p)
    (counts : ∀ b, m'.count b = m.count b + if p = some b then 1 else 0) :
    m'.Sound (update held l (some (m.links.values as))) := by
  have live : ∀ b, p = some b → (m.links.view b).isSome = true := by
    rintro b rfl
    exact Segment.live chain (Links.Chain.first_mem chain)
  constructor
  · rw [links]
    refine ⟨?_, ?_, ?_⟩
    · rw [next_setNext (c := .list l) trivial]
      exact sound.counted.finite.update _ _
    · intro b
      have balance := Referrers.refs_update sound.counted.finite (.list l) p b
      rw [next_setNext (c := .list l) trivial, counts, sound.counted.counts]
      rw [no_first, if_neg nofun] at balance
      omega
    · intro b
      rw [isSome_setNext, counts]
      have used := sound.counted.used b
      by_cases points : p = some b
      · simp [live b points, points]
      · simp [used, if_neg points]
  · rw [links]
    refine sound.represents.change ?_ (fun _ _ _ _ _ _ _ _ => rfl) ?_
    · intro l' other
      exact update_of_ne other _ _
    · refine ⟨p, as, update_self .., Segment.congr chain fun _ _ => rfl, ?_⟩
      exact values_congr fun _ _ => rfl

theorem share_spec (no_first : m.links.next (.list l) = none)
    (holds : held o = some tags) (room : m.Room) :
    ∃ p m', m.head o = some p ∧ (m.setHead l p).addReference p = some m' ∧
      m'.Sound (update held l (some tags)) := by
  obtain ⟨p, as, head, from_, chain, rfl, -⟩ := sound.chain holds
  have live : ∀ b, p = some b → ((m.setHead l p).get b).isSome = true := by
    rintro b rfl
    have here : (m.links.view b).isSome = true := Segment.live chain (Links.Chain.first_mem chain)
    have known : (m.get b).isSome = true := by simpa [links] using here
    exact known
  obtain ⟨m', done, links, counts, -⟩ := addReference_eq live fun b _ => room b
  exact ⟨p, m', head, done, point_sound sound no_first chain (links.trans links_setHead) counts⟩

theorem Sound.head_none (dead : held l = none) :
    m.head l = none ∧ m.links.next (.list l) = none := by
  have head := (sound.represents l).1 dead
  exact ⟨head, by simp [Links.next, head]⟩

theorem create_spec (dead : held l = none) :
    ∃ m', m.create l = some m' ∧ m'.Sound (update held l (some [])) := by
  obtain ⟨head, no_first⟩ := sound.head_none dead
  refine ⟨m.setHead l none, if_pos head, ?_⟩
  have nothing : m.links.Chain none [] := rfl
  exact point_sound sound no_first nothing links_setHead fun _ => rfl

theorem copy_spec (holds : held o = some tags) (dead : held l = none) (room : m.Room) :
    ∃ m', m.copy l o = some m' ∧ m'.Sound (update held l (some tags)) := by
  obtain ⟨head, no_first⟩ := sound.head_none dead
  obtain ⟨p, m', head', done, sound'⟩ := share_spec sound no_first holds room
  exact ⟨m', by simp [copy, head, head', done], sound'⟩

theorem assign_spec {mine : List Tag} (alive : held l = some mine)
    (holds : held o = some tags) (room : m.Room) :
    ∃ m', m.assign l o = some m' ∧ m'.Sound (update held l (some tags)) := by
  obtain ⟨p, as, head, from_, chain, rfl, -⟩ := sound.chain alive
  obtain ⟨q, bs, head', from', chain', rfl, -⟩ := sound.chain holds
  by_cases same : p = q
  · subst same
    refine ⟨m, by simp [assign, head, head'], ?_⟩
    rwa [Links.Chain.unique chain' chain, update_eq_self_iff.mpr alive.symm]
  · obtain ⟨removed, done, sound', below, gone⟩ := removeAll_spec sound alive room
    have other : o ≠ l := by
      rintro rfl
      exact same (Option.some.inj (head.symm.trans head'))
    have holds' : update held l (some []) o = some (m.links.values bs) := by
      rw [update_of_ne other, holds]
    have no_first : removed.links.next (.list l) = none := by simp [Links.next, links, gone]
    obtain ⟨r, m', head'', run, sound''⟩ := share_spec sound' no_first holds'
      fun b => lt_of_le_of_lt (Nat.succ_le_succ (below b)) (room b)
    rw [update_idem] at sound''
    exact ⟨m', by simp [assign, head, head', same, done, head'', run], sound''⟩

end

theorem erase_sound (sound : m.Sound (update held l (some [])))
    (gone : m.head l = some none) :
    Sound { m with lists := m.lists.erase l } (update held l none) := by
  have heads : ∀ l', ({ m with lists := m.lists.erase l } : Memory).head l' =
      if l' = l then none else m.head l' := by
    intro l'
    by_cases same : l' = l
    · subst same
      rw [if_pos rfl]
      exact AList.lookup_erase _ _
    · rw [if_neg same]
      exact AList.lookup_erase_ne same
  have same_next : ({ m with lists := m.lists.erase l } : Memory).links.next = m.links.next := by
    funext c
    cases c with
    | node a => rfl
    | list l' =>
      simp only [Links.next, links, heads]
      by_cases same : l' = l
      · rw [if_pos same, same, gone]
        rfl
      · rw [if_neg same]
  constructor
  · refine ⟨?_, ?_, sound.counted.used⟩
    · rw [same_next]
      exact sound.counted.finite
    · rw [same_next]
      exact sound.counted.counts
  · intro l'
    by_cases same : l' = l
    · subst same
      rw [update_self]
      refine ⟨fun _ => ?_, by simp⟩
      exact (heads l').trans (if_pos rfl)
    · have before := sound.represents l'
      rw [update_of_ne same] at before ⊢
      have head := (heads l').trans (if_neg same)
      refine ⟨fun dead => head.trans (before.1 dead), ?_⟩
      intro vs holds
      obtain ⟨p, as, head', chain, values⟩ := before.2 vs holds
      exact ⟨p, as, head.trans head', Segment.congr chain fun _ _ => rfl, values⟩

theorem destroy_spec (sound : m.Sound held) (alive : held l = some tags) (room : m.Room) :
    ∃ m', m.destroy l = some m' ∧ m'.Sound (update held l none) := by
  obtain ⟨removed, done, sound', below, gone⟩ := removeAll_spec sound alive room
  refine ⟨{ removed with lists := removed.lists.erase l }, by simp [destroy, done], ?_⟩
  exact erase_sound sound' gone

/-! ## Programs -/

/-- No count is about to wrap, and a tag that is replaced where only one list
reaches it has the size of the new one. -/
def Fits (m : Memory) (e : TagEvent) : Prop :=
  m.Room ∧ ∀ l tag malloc, e = .replace l tag malloc → m.SameSize l tag

theorem step_refines : Machine.Refines Memory.step TagStacks.step Fits Sound := by
  rintro m held e held' out sound ⟨room, same_size⟩ h
  cases e with
  | create l =>
    by_cases dead : held l = none
    · rw [TagStacks.step, if_pos dead] at h
      cases h
      obtain ⟨m', done, sound'⟩ := create_spec sound dead
      exact ⟨m', by simp [step, done], sound'⟩
    · rw [TagStacks.step, if_neg dead] at h
      cases h
  | copy l o =>
    simp only [TagStacks.step, bind_eq_bind, bind_eq_some_iff] at h
    obtain ⟨tags, holds, here⟩ := h
    by_cases dead : held l = none
    · rw [if_pos dead] at here
      cases here
      obtain ⟨m', done, sound'⟩ := copy_spec sound holds dead room
      exact ⟨m', by simp [step, done], sound'⟩
    · rw [if_neg dead] at here
      cases here
  | assign l o =>
    simp only [TagStacks.step, bind_eq_bind, bind_eq_some_iff] at h
    obtain ⟨mine, alive, tags, holds, here⟩ := h
    cases here
    obtain ⟨m', done, sound'⟩ := assign_spec sound alive holds room
    exact ⟨m', by simp [step, done], sound'⟩
  | add l tag malloc =>
    simp only [TagStacks.step, bind_eq_bind, bind_eq_some_iff] at h
    obtain ⟨tags, holds, here⟩ := h
    cases here
    obtain ⟨m', done, sound'⟩ := add_spec malloc tag sound holds
    exact ⟨m', by simp [step, done], sound'⟩
  | peek l tid =>
    simp only [TagStacks.step, bind_eq_bind, bind_eq_some_iff] at h
    obtain ⟨tags, holds, here⟩ := h
    cases here
    obtain ⟨p, as, head, -, chain, rfl, -⟩ := sound.chain holds
    have done := peekFrom_spec tid chain (length_le_rounds chain)
    exact ⟨m, by simp [step, peek, head, done], sound⟩
  | remove l tid malloc =>
    simp only [TagStacks.step, bind_eq_bind, bind_eq_some_iff] at h
    obtain ⟨tags, holds, here⟩ := h
    cases here
    obtain ⟨m', done, sound'⟩ := remove_spec malloc sound holds room
    exact ⟨m', by simp [step, done], sound'⟩
  | replace l tag malloc =>
    simp only [TagStacks.step, bind_eq_bind, bind_eq_some_iff] at h
    obtain ⟨tags, holds, here⟩ := h
    cases here
    obtain ⟨m', done, sound'⟩ := replace_spec malloc sound holds room (same_size l tag malloc rfl)
    exact ⟨m', by simp [step, done], sound'⟩
  | removeAll l =>
    simp only [TagStacks.step, bind_eq_bind, bind_eq_some_iff] at h
    obtain ⟨tags, holds, here⟩ := h
    cases here
    obtain ⟨m', done, sound', -⟩ := removeAll_spec sound holds room
    exact ⟨m', by simp [step, done], sound'⟩
  | destroy l =>
    simp only [TagStacks.step, bind_eq_bind, bind_eq_some_iff] at h
    obtain ⟨tags, holds, here⟩ := h
    cases here
    obtain ⟨m', done, sound'⟩ := destroy_spec sound holds room
    exact ⟨m', by simp [step, done], sound'⟩

theorem empty_sound : Sound empty fun _ => none := by
  have nothing : ∀ c, empty.links.next c = none := by
    intro c
    cases c <;> rfl
  constructor
  · refine ⟨?_, ?_, ?_⟩
    · have none_points : {c | empty.links.next c ≠ none} = ∅ :=
        Set.eq_empty_of_forall_notMem fun c points => points (nothing c)
      rw [Referrers.Finitely, none_points]
      exact Set.finite_empty
    · intro a
      exact (Referrers.refs_eq_zero fun c points => nomatch (nothing c).symm.trans points).symm
    · intro a
      exact ⟨nofun, nofun⟩
  · intro l
    exact ⟨fun _ => rfl, nofun⟩

/-- What a program can rely on: the answers and stacks of independent lists,
and for each node the number of its referrers, of which there is one as long as
the node is there. -/
structure ValueSemantics (m : Memory) (held : TagStacks) : Prop where
  represents : m.links.Represents held
  counts : ∀ a node, m.get a = some node → node.count = Referrers.refs m.links.next a
  freed : ∀ a, (m.get a).isSome = true ↔ ∃ c, m.links.next c = some a

theorem Sound.valueSemantics (sound : m.Sound held) : m.ValueSemantics held := by
  refine ⟨sound.represents, ?_, ?_⟩
  · intro a node get
    rw [← sound.counted.counts, count_of_get get]
  · intro a
    have used := sound.counted.used a
    have same : (m.links.view a).isSome = (m.get a).isSome := by simp [links]
    rw [same, sound.counted.counts] at used
    rw [used]
    constructor
    · exact Referrers.exists_of_refs
    · rintro ⟨c, points⟩
      exact Referrers.refs_pos sound.counted.finite points

/-- **Value semantics.** A program over packet tag lists gets the answers of
independent stacks, and leaves the memory with these stacks in it and every
node counted, unless a count wraps or a tag is overwritten by one of another
size. -/
theorem value_semantics {events : List TagEvent} {held : TagStacks} {out : List TagAnswer}
    (fits : Machine.Meets Memory.step Fits empty events)
    (run : Machine.run TagStacks.step (fun _ => none) events = some (held, out)) :
    ∃ m, Machine.run Memory.step empty events = some (m, out) ∧ m.ValueSemantics held := by
  obtain ⟨m, done, sound⟩ := step_refines.run empty_sound fits run
  exact ⟨m, done, sound.valueSemantics⟩

/-- The node is not about to wrap and has the size of a tag of its type that
replaces one. -/
def fitsNode (node : TagData) : TagEvent → Bool
  | .replace _ tag _ =>
    node.count + 1 < 2 ^ 32 && (node.tid ≠ tag.tid || node.data.length = tag.data.length)
  | _ => node.count + 1 < 2 ^ 32

/-- The condition read off all the nodes of the heap. -/
def fitsAll (m : Memory) (e : TagEvent) : Bool :=
  m.heap.entries.all fun node => fitsNode node.2 e

theorem fits_of_fitsAll (m : Memory) (e : TagEvent) (h : m.fitsAll e = true) : m.Fits e := by
  have every : ∀ a node, m.get a = some node → fitsNode node e = true := by
    intro a node get
    exact List.all_eq_true.mp h ⟨a, node⟩ (AList.mem_lookup_iff.mp get)
  constructor
  · intro a
    unfold count
    cases get : m.get a with
    | none => exact (by decide : 0 + 1 < 2 ^ 32)
    | some node =>
      have fits := every a node get
      cases e <;> simp [fitsNode] at fits ⊢ <;> omega
  · rintro l tag malloc rfl pre cur post node - - get same
    have fits := every cur node get
    simp [fitsNode, same] at fits
    exact fits.2

/-- The address after the highest one in use. -/
def bump : Malloc where
  address heap := heap.keys.foldr max 0 + 1
  fresh heap := by
    have below : ∀ keys : List Addr, ∀ a ∈ keys, a ≤ keys.foldr max 0 := by
      intro keys
      induction keys with
      | nil => exact nofun
      | cons b keys ih =>
        rintro a (_ | ⟨_, mem⟩)
        · exact le_max_left _ _
        · exact (ih a mem).trans (le_max_right _ _)
    intro mem
    exact Nat.not_succ_le_self _ (below heap.keys _ (AList.mem_keys.mp mem))

/-- Two lists share two nodes; one loses the second and the other gets a new
one in its place. -/
def sharing : List TagEvent :=
  [.create 0, .add 0 ⟨1, [7]⟩ bump, .add 0 ⟨2, [8]⟩ bump, .copy 1 0, .remove 1 1 bump,
    .replace 0 ⟨1, [9]⟩ bump, .peek 1 2, .peek 0 1, .assign 1 0, .destroy 0, .peek 1 1]

theorem sharing_semantics : ∃ m held, Machine.run Memory.step empty sharing = some (m,
    [.found (some [7]), .replaced true, .found (some [8]), .found (some [9]),
      .found (some [9])]) ∧ m.ValueSemantics held := by
  have fits : Machine.Meets Memory.step Fits empty sharing :=
    .of_checks fits_of_fitsAll (by decide +kernel)
  obtain ⟨m, run, semantics⟩ := value_semantics fits rfl
  exact ⟨m, _, run, semantics⟩

/-- A tag of two bytes that only one list reaches is replaced by one of one
byte, and keeps its second byte. -/
theorem overwritten_size : ¬ ∀ events held out,
    Machine.run TagStacks.step (fun _ => none) events = some (held, out) →
      ∃ m, Machine.run Memory.step empty events = some (m, out) ∧ m.ValueSemantics held := by
  intro semantics
  let program : List TagEvent :=
    [.create 0, .add 0 ⟨1, [1, 2]⟩ bump, .replace 0 ⟨1, [3]⟩ bump, .peek 0 1]
  obtain ⟨m, run, -⟩ := semantics program _ [.replaced true, .found (some [3])] rfl
  have seen : (Machine.run Memory.step empty program).map Prod.snd =
      some [.replaced true, .found (some [3, 2])] := by decide +kernel
  rw [run] at seen
  simp at seen

end Memory

end Ns3.Network
