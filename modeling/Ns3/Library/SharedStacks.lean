import Ns3.Library.Referrers

/-!
# Stacks with shared tails

Nodes have a value and a link, lists point to their first node, and lists may
share the nodes they end in. A node that only one path reaches can be changed
without another list noticing.
-/

namespace SharedStacks

open Referrers List Function

variable {L A V : Type}

/-- What has a link: a list or a node. -/
inductive Cell (L A : Type) where
  | list (l : L)
  | node (a : A)
  deriving DecidableEq

structure Links (L A V : Type) where
  head : L → Option (Option A)
  view : A → Option (V × Option A)

namespace Links

variable {s s' : Links L A V} {p q r : Option A} {a : A} {as bs pre : List A} {l : L}

def next (s : Links L A V) : Cell L A → Option A
  | .list l => (s.head l).join
  | .node a => (s.view a).bind Prod.snd

/-- The nodes from one link to another. -/
def Segment (s : Links L A V) : Option A → List A → Option A → Prop
  | p, [], q => p = q
  | p, a :: as, q => p = some a ∧ ∃ v r, s.view a = some (v, r) ∧ s.Segment r as q

/-- The nodes from a link to the end. -/
def Chain (s : Links L A V) (p : Option A) (as : List A) : Prop := s.Segment p as none

def values (s : Links L A V) (as : List A) : List V :=
  as.filterMap fun a => (s.view a).map Prod.fst

theorem segment_append : s.Segment p (as ++ bs) q ↔ ∃ r, s.Segment p as r ∧ s.Segment r bs q := by
  induction as generalizing p with
  | nil => simp [Segment]
  | cons a as ih =>
    simp only [cons_append, Segment, ih]
    constructor
    · rintro ⟨here, v, next, view, r, left, right⟩
      exact ⟨r, ⟨here, v, next, view, left⟩, right⟩
    · rintro ⟨r, ⟨here, v, next, view, left⟩, right⟩
      exact ⟨here, v, next, view, r, left, right⟩

theorem Chain.unique (first : s.Chain p as) (second : s.Chain p bs) : as = bs := by
  induction as generalizing p bs with
  | nil =>
    cases bs with
    | nil => rfl
    | cons b bs => exact nomatch first.symm.trans second.1
  | cons a as ih =>
    obtain ⟨here, v, r, view, rest⟩ := first
    cases bs with
    | nil => exact nomatch here.symm.trans second
    | cons b bs =>
      obtain ⟨here', v', r', view', rest'⟩ := second
      cases here.symm.trans here'
      cases view.symm.trans view'
      rw [ih rest rest']

theorem Chain.tail (chain : s.Chain p (as ++ a :: bs)) : s.Chain (some a) (a :: bs) := by
  obtain ⟨r, -, rest⟩ := segment_append.mp chain
  obtain ⟨rfl, here⟩ := rest
  exact ⟨rfl, here⟩

theorem Chain.first_mem (chain : s.Chain (some a) as) : a ∈ as := by
  cases as with
  | nil => exact nomatch chain
  | cons b as => exact Option.some.inj chain.1 ▸ mem_cons_self ..

theorem Chain.nodup (chain : s.Chain p as) : as.Nodup := by
  induction as generalizing p with
  | nil => exact nodup_nil
  | cons a as ih =>
    obtain ⟨here, v, r, view, rest⟩ := chain
    refine nodup_cons.mpr ⟨?_, ih rest⟩
    intro again
    obtain ⟨before, after, rfl⟩ := append_of_mem again
    have whole : s.Chain (some a) (a :: (before ++ a :: after)) := ⟨rfl, v, r, view, rest⟩
    have same := congrArg List.length (whole.unique (Chain.tail rest))
    simp at same
    omega

theorem Segment.live (segment : s.Segment p as q) (mem : a ∈ as) : (s.view a).isSome = true := by
  induction as generalizing p with
  | nil => exact nomatch mem
  | cons b as ih =>
    obtain ⟨-, v, r, view, rest⟩ := segment
    rcases mem_cons.mp mem with rfl | later
    · rw [view]
      rfl
    · exact ih rest later

theorem Segment.congr (segment : s.Segment p as q) (same : ∀ a ∈ as, s'.view a = s.view a) :
    s'.Segment p as q := by
  induction as generalizing p with
  | nil => exact segment
  | cons a as ih =>
    obtain ⟨here, v, r, view, rest⟩ := segment
    refine ⟨here, v, r, (same a (mem_cons_self ..)).trans view, ih rest ?_⟩
    intro b mem
    exact same b (mem_cons_of_mem a mem)

theorem values_congr (same : ∀ a ∈ as, s'.view a = s.view a) : s'.values as = s.values as := by
  apply filterMap_congr
  intro a mem
  rw [same a mem]

theorem values_append : s.values (as ++ bs) = s.values as ++ s.values bs := filterMap_append

theorem values_cons {v : V} (view : s.view a = some (v, q)) :
    s.values (a :: as) = v :: s.values as := by simp [values, view]

/-! ## The last cell of a segment -/

/-- The cell whose link goes on after a segment that starts at a cell's link. -/
def lastCell (c : Cell L A) : List A → Cell L A
  | [] => c
  | a :: as => lastCell (.node a) as

theorem lastCell_concat (c : Cell L A) : lastCell c (as ++ [a]) = .node a := by
  induction as generalizing c with
  | nil => rfl
  | cons b as ih => exact ih (.node b)

theorem lastCell_mem (c : Cell L A) : lastCell c as ∈ c :: as.map Cell.node := by
  induction as generalizing c with
  | nil => exact mem_cons_self ..
  | cons a as ih => exact mem_cons_of_mem c (ih (.node a))

/-- The last cell of a list's path is no node off the path. -/
theorem lastCell_ne (outside : a ∉ pre) : lastCell (Cell.list l : Cell L A) pre ≠ .node a := by
  intro same
  have mem : Cell.node a ∈ Cell.list l :: pre.map Cell.node := same ▸ lastCell_mem (.list l)
  obtain ⟨b, inside, eq⟩ := mem_map.mp ((mem_cons.mp mem).resolve_left nofun)
  cases eq
  exact outside inside

variable {c : Cell L A} {rest : List A} {t : Links L A V}

theorem Segment.next_lastCell (segment : s.Segment (s.next c) as q) :
    s.next (lastCell c as) = q := by
  induction as generalizing c with
  | nil => exact segment
  | cons a as ih =>
    obtain ⟨-, v, r, view, rest⟩ := segment
    apply ih
    simpa [next, view] using rest

theorem Segment.pointed (segment : s.Segment (s.next c) as q) (mem : a ∈ as) :
    ∃ c', s.next c' = some a ∧ (c' = c ∨ ∃ b ∈ as, c' = .node b) := by
  induction as generalizing c with
  | nil => exact nomatch mem
  | cons b as ih =>
    obtain ⟨here, v, r, view, rest⟩ := segment
    rcases mem_cons.mp mem with rfl | later
    · exact ⟨c, here, .inl rfl⟩
    · have from_b : s.next (.node b) = r := by simp [next, view]
      obtain ⟨c', points, rfl | ⟨b', mem', rfl⟩⟩ := ih (c := .node b) (from_b ▸ rest) later
      · exact ⟨_, points, .inr ⟨b, mem_cons_self .., rfl⟩⟩
      · exact ⟨_, points, .inr ⟨b', mem_cons_of_mem b mem', rfl⟩⟩

/-- A path of nodes with one referrer each is on no chain of a list it does
not start from. -/
theorem exclusive_apart (path : s.Segment (s.next c) pre q)
    (exclusive : ∀ a ∈ pre, refs s.next a = 1) (chain : s.Chain (s.next (.list l)) as)
    (other : c ≠ .list l) (outside : ∀ b ∈ as, c ≠ .node b) : ∀ a ∈ pre, a ∉ as := by
  induction pre generalizing c with
  | nil =>
    intro a mem
    exact nomatch mem
  | cons a pre ih =>
    obtain ⟨here, v, r, view, rest⟩ := path
    have from_a : s.next (.node a) = r := by simp [next, view]
    have alone := exclusive a (mem_cons_self ..)
    have first : a ∉ as := by
      intro mem
      obtain ⟨c', points, rfl | ⟨b, mem', rfl⟩⟩ := Segment.pointed chain mem
      · exact other (unique_of_refs alone here points)
      · exact outside b mem' (unique_of_refs alone here points)
    rintro b (_ | ⟨_, later⟩)
    · exact first
    · refine ih (c := .node a) (from_a ▸ rest) ?_ nofun ?_ b later
      · intro a' mem
        exact exclusive a' (mem_cons_of_mem a mem)
      · rintro b' mem same
        cases same
        exact first mem

/-- The link of the cell can be set. -/
def Live (s : Links L A V) : Cell L A → Prop
  | .list _ => True
  | .node a => (s.view a).isSome = true

theorem Segment.live_lastCell (segment : s.Segment p as q) (live : s.Live c) :
    s.Live (lastCell c as) := by
  rcases mem_cons.mp (lastCell_mem c ) with same | mem
  · rw [same]
    exact live
  · obtain ⟨a, mem, same⟩ := mem_map.mp mem
    rw [← same]
    exact segment.live mem

theorem Live.ne_absent (live : s.Live c) (absent : s.view a = none) : c ≠ .node a := by
  rintro rfl
  simp [Live, absent] at live

/-! ## Changing a link -/

variable [DecidableEq L] [DecidableEq A]

def setNext (s : Links L A V) (c : Cell L A) (p : Option A) : Links L A V :=
  match c with
  | .list l => { s with head := Function.update s.head l (some p) }
  | .node a =>
    { s with view := Function.update s.view a ((s.view a).map fun n => (n.1, p)) }

theorem next_setNext (live : s.Live c) : (s.setNext c p).next = Function.update s.next c p := by
  funext c'
  cases c with
  | list l =>
    cases c' with
    | list l' => by_cases same : l' = l <;> simp [setNext, next, same]
    | node a => simp [setNext, next]
  | node a =>
    obtain ⟨n, view⟩ := Option.isSome_iff_exists.mp live
    cases c' with
    | list l' => simp [setNext, next]
    | node b =>
      by_cases same : b = a <;> simp [setNext, next, same, view]

theorem view_setNext (other : c ≠ .node a) : (s.setNext c p).view a = s.view a := by
  cases c with
  | list l => rfl
  | node b => exact update_of_ne (fun same => other (congrArg Cell.node same.symm)) _ _

theorem setNext_self (alive : ∀ l, c = .list l → (s.head l).isSome = true) (live : s.Live c) :
    s.setNext c (s.next c) = s := by
  cases c with
  | list l =>
    obtain ⟨p, head⟩ := Option.isSome_iff_exists.mp (alive l rfl)
    have same : Function.update s.head l (some (s.next (.list l))) = s.head := by
      rw [update_eq_self_iff, next, head]
      rfl
    exact congrArg (Links.mk · s.view) same
  | node a =>
    obtain ⟨⟨v, p⟩, view⟩ := Option.isSome_iff_exists.mp live
    have same : Function.update s.view a
        ((s.view a).map fun n => (n.1, s.next (.node a))) = s.view := by
      rw [update_eq_self_iff, next, view]
      rfl
    exact congrArg (Links.mk s.head ·) same

theorem values_setNext (c : Cell L A) (p : Option A) (as : List A) :
    (s.setNext c p).values as = s.values as := by
  apply filterMap_congr
  intro a _
  cases c with
  | list l => rfl
  | node b =>
    by_cases same : a = b
    · cases here : s.view b <;> simp [setNext, same, here]
    · simp [setNext, same]

theorem keeps_value {v : V} (view : s.view a = some (v, q)) (c : Cell L A) (p : Option A) :
    (s.setNext c p).view a = some (v, (s.setNext c p).next (.node a)) := by
  cases c with
  | list l => simp [setNext, next, view]
  | node b =>
    by_cases same : a = b
    · subst same
      simp [setNext, next, view]
    · simp [setNext, next, view, same]

/-- A segment whose last link is changed leads to the new link. -/
theorem Segment.setNext (segment : s.Segment (s.next c) as q) (live : s.Live c)
    (once : (c :: as.map Cell.node).Nodup) (p : Option A) :
    (s.setNext (lastCell c as) p).Segment ((s.setNext (lastCell c as) p).next c) as p := by
  induction as generalizing c with
  | nil =>
    rw [lastCell, next_setNext live]
    exact update_self ..
  | cons a as ih =>
    obtain ⟨here, v, r, view, rest⟩ := segment
    have from_a : s.next (.node a) = r := by simp [next, view]
    have live_a : s.Live (.node a) := by simp [Live, view]
    have inner := ih (c := .node a) (from_a ▸ rest) live_a once.of_cons
    have differs : c ≠ lastCell (.node a) as := by
      intro same
      exact (nodup_cons.mp once).1 (same ▸ lastCell_mem (.node a))
    have still : (s.setNext (lastCell (.node a) as) p).next c = s.next c := by
      rw [next_setNext (rest.live_lastCell live_a), update_of_ne differs]
    exact ⟨still.trans here, v, _, keeps_value view _ _, inner⟩

/-- What a node is, or that there is none. -/
def setView (s : Links L A V) (a : A) (n : Option (V × Option A)) : Links L A V :=
  { s with view := Function.update s.view a n }

theorem next_setView (n : Option (V × Option A)) :
    (s.setView a n).next = Function.update s.next (.node a) (n.bind Prod.snd) := by
  funext c
  cases c with
  | list l => simp [setView, next]
  | node b => by_cases same : b = a <;> simp [setView, next, same]

/-- Another node's view does not matter to a link. -/
theorem setNext_setView (other : c ≠ .node a) (n : Option (V × Option A)) :
    (s.setNext c p).setView a n = (s.setView a n).setNext c p := by
  cases c with
  | list l => rfl
  | node b =>
    have differs : b ≠ a := fun same => other (congrArg Cell.node same)
    simp [setNext, setView, differs, update_comm differs.symm]

omit [DecidableEq L] in
theorem Live.setView (live : s.Live c) (n : V × Option A) : (s.setView a (some n)).Live c := by
  cases c with
  | list l => exact live
  | node b =>
    by_cases same : b = a
    · simp [Live, Links.setView, same]
    · simpa [Live, Links.setView, same] using live

/-! ## Stacks -/

def Stack (s : Links L A V) (l : L) (vs : List V) : Prop :=
  ∃ p as, s.head l = some p ∧ s.Chain p as ∧ s.values as = vs

/-- Every list holds its stack, and there is no other list. -/
def Represents (s : Links L A V) (held : L → Option (List V)) : Prop :=
  ∀ l, (held l = none → s.head l = none) ∧ ∀ vs, held l = some vs → s.Stack l vs

variable {held : L → Option (List V)} {vs : List V}

omit [DecidableEq A] in
/-- A change that the chains of the other lists do not meet. -/
theorem Represents.change (represents : s.Represents held)
    (heads : ∀ l', l' ≠ l → s'.head l' = s.head l')
    (kept : ∀ l' p as, l' ≠ l → s.head l' = some p → s.Chain p as → ∀ a ∈ as, s'.view a = s.view a)
    (changed : s'.Stack l vs) : s'.Represents (Function.update held l (some vs)) := by
  intro l'
  by_cases same : l' = l
  · subst same
    rw [update_self]
    refine ⟨nofun, ?_⟩
    rintro _ ⟨⟩
    exact changed
  · rw [update_of_ne same, heads l' same]
    refine ⟨(represents l').1, ?_⟩
    intro vs' holds
    obtain ⟨p, as, head, chain, values⟩ := (represents l').2 vs' holds
    have views := kept l' p as same head chain
    exact ⟨p, as, (heads l' same).trans head, Segment.congr chain views,
      (values_congr views).trans values⟩

/-- The nodes of a list up to a place have one referrer each. -/
structure Path (s : Links L A V) (l : L) (pre rest : List A) : Prop where
  live : (s.head l).isSome = true
  chain : s.Chain (s.next (.list l)) (pre ++ rest)
  exclusive : ∀ a ∈ pre, refs s.next a = 1

omit [DecidableEq L] [DecidableEq A] in
theorem Path.shorten (path : s.Path l (pre ++ [a]) rest) : s.Path l pre (a :: rest) :=
  ⟨path.live, append_assoc pre [a] rest ▸ path.chain,
    fun b mem => path.exclusive b (mem_append_left _ mem)⟩

omit [DecidableEq L] [DecidableEq A] in
theorem Path.last_ne (path : s.Path l pre (a :: rest)) :
    lastCell (Cell.list l : Cell L A) pre ≠ .node a :=
  lastCell_ne fun mem => (nodup_append.mp path.chain.nodup).2.2 a mem a mem_cons_self rfl

omit [DecidableEq L] [DecidableEq A] in
theorem Path.apart (path : s.Path l pre rest) {l' : L} (other : l' ≠ l) (head : s.head l' = some p)
    (chain : s.Chain p as) : ∀ a ∈ pre, a ∉ as := by
  obtain ⟨r, segment, -⟩ := segment_append.mp path.chain
  have from_ : s.next (.list l') = p := by simp [next, head]
  refine exclusive_apart segment path.exclusive (from_ ▸ chain) ?_ nofun
  rintro ⟨⟩
  exact other rfl

/-- **Splice.** The nodes behind the path are exchanged, and nodes that no
other list meets may change. -/
theorem Path.splice {rest' : List A} (path : s.Path l pre rest) (represents : s.Represents held)
    (heads : t.head = s.head) (inside : ∀ a ∈ pre, t.view a = s.view a)
    (kept : ∀ l' p as, l' ≠ l → s.head l' = some p → s.Chain p as → ∀ a ∈ as, t.view a = s.view a)
    (chain : (t.setNext (lastCell (.list l) pre) q).Chain q rest') :
    (t.setNext (lastCell (.list l) pre) q).Represents
        (Function.update held l (some (s.values pre ++ t.values rest'))) ∧
      ((t.setNext (lastCell (.list l) pre) q).head l).isSome = true ∧
      (t.setNext (lastCell (.list l) pre) q).Chain
        ((t.setNext (lastCell (.list l) pre) q).next (.list l)) (pre ++ rest') := by
  obtain ⟨r, segment, -⟩ := segment_append.mp path.chain
  have same_start : t.next (.list l) = s.next (.list l) := by simp [next, heads]
  have live : t.Live (.list l) := trivial
  have alive : (t.head l).isSome = true := heads ▸ path.live
  have once : (Cell.list l :: pre.map Cell.node : List (Cell L A)).Nodup := by
    refine nodup_cons.mpr ⟨by simp, ?_⟩
    exact (Nodup.of_append_left path.chain.nodup).map fun _ _ same => Cell.node.inj same
  have moved := ((same_start ▸ segment.congr inside :
    t.Segment (t.next (.list l)) pre r).setNext live once q)
  generalize last_eq : lastCell (.list l) pre = c at moved chain ⊢
  have last : c ∈ Cell.list l :: pre.map Cell.node := last_eq ▸ lastCell_mem _
  have whole : (t.setNext c q).Chain ((t.setNext c q).next (.list l)) (pre ++ rest') :=
    segment_append.mpr ⟨q, moved, chain⟩
  have starts : (t.setNext c q).head l = some ((t.setNext c q).next (.list l)) := by
    obtain ⟨p, head⟩ := Option.isSome_iff_exists.mp alive
    cases c with
    | list l'' =>
      by_cases same : l = l''
      · simp [setNext, next, same]
      · simp [setNext, next, same, head]
    | node b => simp [setNext, next, head]
  refine ⟨represents.change ?_ ?_ ?_, by rw [starts]; rfl, whole⟩
  · intro l' other
    have differs : c ≠ .list l' := by
      rintro rfl
      rcases mem_cons.mp last with same | mem
      · exact other (Cell.list.inj same)
      · simp at mem
    rw [← heads]
    cases c with
    | list l'' => exact update_of_ne (fun same => differs (congrArg _ same.symm)) _ _
    | node b => rfl
  · intro l' p as other head chain' a mem
    rw [view_setNext, kept l' p as other head chain' a mem]
    rintro rfl
    rcases mem_cons.mp last with same | mem'
    · cases same
    · obtain ⟨b, mem', same⟩ := mem_map.mp mem'
      cases same
      exact path.apart other head chain' a mem' mem
  · refine ⟨_, pre ++ rest', starts, whole, ?_⟩
    rw [values_append, values_setNext, values_setNext, values_congr inside]

theorem Path.behind (skip : List A) (path : s.Path l pre (skip ++ rest)) (chain : s.Chain r rest)
    (kept : ∀ a ∈ rest, t.view a = s.view a) (q : Option A) :
    (t.setNext (lastCell (.list l) pre) q).Chain r rest := by
  refine Segment.congr chain ?_
  intro a mem
  rw [view_setNext, kept a mem]
  apply lastCell_ne
  intro inside
  exact (nodup_append.mp path.chain.nodup).2.2 a inside a (mem_append_right _ mem) rfl

/-- A new node behind a path, which goes on with the end of the chain. -/
theorem Path.insert {b : A} (skip : List A) (path : s.Path l pre (skip ++ rest))
    (represents : s.Represents held) (absent : s.view b = none) (onward : s.Chain r rest) (v : V) :
    ((s.setView b (some (v, r))).setNext (lastCell (.list l) pre) (some b)).Represents
        (Function.update held l (some (s.values pre ++ v :: s.values rest))) ∧
      (((s.setView b (some (v, r))).setNext (lastCell (.list l) pre) (some b)).head l).isSome =
        true ∧
      ((s.setView b (some (v, r))).setNext (lastCell (.list l) pre) (some b)).Chain
        (((s.setView b (some (v, r))).setNext (lastCell (.list l) pre) (some b)).next (.list l))
        (pre ++ b :: rest) := by
  have elsewhere : ∀ a, (s.view a).isSome = true →
      (s.setView b (some (v, r))).view a = s.view a := by
    intro a live
    refine update_of_ne ?_ _ _
    rintro rfl
    rw [absent] at live
    cases live
  have here : (s.setView b (some (v, r))).view b = some (v, r) := update_self ..
  have inside : ∀ a ∈ pre, (s.setView b (some (v, r))).view a = s.view a := by
    intro a mem
    exact elsewhere a (Segment.live path.chain (mem_append_left _ mem))
  have behind : ∀ a ∈ rest, (s.setView b (some (v, r))).view a = s.view a := by
    intro a mem
    exact elsewhere a (Segment.live onward mem)
  obtain ⟨_, segment, -⟩ := segment_append.mp path.chain
  have first := (segment.live_lastCell (c := .list l) trivial).ne_absent absent
  have chain : ((s.setView b (some (v, r))).setNext (lastCell (.list l) pre) (some b)).Chain
      (some b) (b :: rest) :=
    ⟨rfl, v, r, (view_setNext first).trans here, path.behind skip onward behind _⟩
  have spliced := path.splice (t := s.setView b (some (v, r))) represents rfl inside
    (fun _ _ _ _ _ chain' a mem => elsewhere a (Segment.live chain' mem)) chain
  rwa [values_cons here, values_congr behind] at spliced

/-- A node behind a path is left out; it may be freed when the path goes up to
it. -/
theorem Path.cut {a : A} (path : s.Path l pre (a :: rest)) (represents : s.Represents held)
    (onward : s.Chain r rest) (heads : t.head = s.head)
    (elsewhere : ∀ b, b ≠ a → t.view b = s.view b)
    (kept : t.view a = s.view a ∨ s.Path l (pre ++ [a]) rest) :
    (t.setNext (lastCell (.list l) pre) r).Represents
      (Function.update held l (some (s.values pre ++ s.values rest))) := by
  have once := path.chain.nodup
  have apart := (nodup_append.mp once).2.2
  have behind : ∀ b ∈ rest, t.view b = s.view b := by
    intro b mem
    refine elsewhere b ?_
    rintro rfl
    exact (nodup_cons.mp (nodup_append.mp once).2.1).1 mem
  have inside : ∀ b ∈ pre, t.view b = s.view b := by
    intro b mem
    exact elsewhere b (apart b mem a (mem_cons_self ..))
  have chain : (t.setNext (lastCell (.list l) pre) r).Chain r rest :=
    Path.behind [a] path onward behind _
  have spliced := path.splice represents heads inside ?_ chain
  · rw [values_congr behind] at spliced
    exact spliced.1
  · intro l' p as other head chain' b mem
    by_cases same : b = a
    · subst same
      rcases kept with same | longer
      · exact same
      · exact absurd mem (longer.apart other head chain' b (by simp))
    · exact elsewhere b same

/-! ## Counts -/

/-- Each node knows how many cells point to it, and there is no node that none
points to. -/
structure Counted (s : Links L A V) (count : A → Nat) : Prop where
  finite : Finitely s.next
  counts : ∀ a, count a = refs s.next a
  used : ∀ a, (s.view a).isSome = true ↔ 0 < count a

variable {count count' : A → Nat}

omit [DecidableEq L] [DecidableEq A] in
theorem Counted.live (counted : s.Counted count) (points : s.next c = some a) :
    (s.view a).isSome = true := by
  rw [counted.used, counted.counts]
  exact refs_pos counted.finite points

theorem Counted.splice (counted : s.Counted count) {n : Option (V × Option A)}
    (live : (s.setView a n).Live c)
    (counts : ∀ b, count' b + (if s.next (.node a) = some b then 1 else 0) +
        (if (s.setView a n).next c = some b then 1 else 0) =
      count b + (if n.bind Prod.snd = some b then 1 else 0) + (if q = some b then 1 else 0))
    (used : ∀ b, (((s.setView a n).setNext c q).view b).isSome = true ↔ 0 < count' b) :
    ((s.setView a n).setNext c q).Counted count' := by
  have written : Finitely (s.setView a n).next := by
    rw [next_setView]
    exact counted.finite.update _ _
  refine ⟨?_, ?_, used⟩
  · rw [next_setNext live]
    exact written.update _ _
  · intro b
    have first := refs_update counted.finite (.node a) (n.bind Prod.snd) b
    have second := refs_update written c q b
    rw [← next_setNext live] at second
    rw [← next_setView, ← counted.counts] at first
    have balance := counts b
    omega

theorem isSome_setNext (c : Cell L A) (p : Option A) (b : A) :
    ((s.setNext c p).view b).isSome = (s.view b).isSome := by
  cases c with
  | list l => rfl
  | node a =>
    by_cases same : b = a
    · subst same
      simp [setNext]
    · simp [setNext, same]

end Links

end SharedStacks
