import Ns3.TrafficControl.QueueDiscLedger

/-!
# A queue disc keeps its packets

When its children do. Every plan of a subclass is a row of moves of its
internal queues and its children.
-/

namespace Ns3.TrafficControl.Tree

open List

/-! ## Moves of one packet -/

namespace Moves

variable {muted : Bool} {before after entered : List TxItem} {traces : List Trace}

theorem replace {left x y : List TxItem} (moves : Moves muted x y traces entered left)
    (part : (after ++ x).Perm (before ++ y)) : Moves muted before after traces entered left := by
  constructor
  · have kept := moves.kept
    rw [perm_iff_count] at kept part ⊢
    intro item
    have := kept item
    have := part item
    simp only [count_append] at *
    omega
  · exact moves.entered
  · exact moves.told

theorem drop {item : TxItem} {b : Base}
    (moves : Moves b.peeked before after traces entered [item]) :
    Moves b.peeked before after (traces ++ (b.dropAfterDequeue item).2) entered [] := by
  have tells := Base.dropAfterDequeue_traces item b
  constructor
  · have kept := moves.kept
    have late : droppedAfter (b.dropAfterDequeue item).2 = [item] := by
      rw [tells]
      cases b.peeked <;> rfl
    have enq : enqueued (b.dropAfterDequeue item).2 = [] := by
      rw [tells]
      cases b.peeked <;> rfl
    rw [enqueued_append, droppedAfter_append, enq, late, append_nil, append_nil, ← append_assoc]
    exact kept
  · have came : enqueued (b.dropAfterDequeue item).2 = [] ∧
        droppedBefore (b.dropAfterDequeue item).2 = [] := by
      rw [tells]
      cases b.peeked <;> exact ⟨rfl, rfl⟩
    rw [enqueued_append, droppedBefore_append, came.1, came.2, append_nil, append_nil]
    exact moves.entered
  · have told := moves.told
    rw [dequeued_append, droppedAfter_append, tells]
    cases held : b.peeked with
    | true =>
      rw [held, if_pos rfl, append_nil] at told
      exact (told.append_right [item]).trans (.of_eq (append_nil _).symm)
    | false =>
      rw [held] at told
      show (dequeued traces ++ []).Perm ((droppedAfter traces ++ [item]) ++ [])
      rw [append_nil, append_nil]
      exact told

end Moves

namespace Base

variable (item : TxItem) (b : Base)

theorem packetDequeued_moves (rest : List TxItem) :
    Moves b.peeked (item :: rest) rest (b.packetDequeued item).2 [] [item] := by
  unfold packetDequeued
  constructor
  · rw [perm_iff_count]
    intro other
    cases b.peeked <;> simp [enqueued, droppedAfter, count_cons]
  · cases b.peeked <;> exact .refl _
  · cases b.peeked <;> exact .refl _

theorem packetEnqueued_moves (queue : List TxItem) :
    Moves b.peeked queue (queue ++ [item]) (b.packetEnqueued item).2 [item] [] := by
  constructor
  · exact .of_eq (by simp [packetEnqueued, enqueued, droppedAfter])
  · exact .refl _
  · cases b.peeked <;> exact .refl _

theorem dropBeforeEnqueue_moves (items : List TxItem) :
    Moves b.peeked items items (b.dropBeforeEnqueue item).2 [item] [] := by
  constructor
  · exact .of_eq (by simp [dropBeforeEnqueue, enqueued, droppedAfter])
  · exact .refl _
  · cases b.peeked <;> exact .refl _

end Base

/-! ## Steps of a node -/

variable {d : Disc} (law : Conserves d)

/-- The packets in the internal queues and the children. -/
def inside (n : Node d.State) : List TxItem := n.queues.flatten ++ n.children.flatMap law.stored

/-- A step of a node: its children stay valid, its base class counts what it tells. -/
structure Works (n n' : Node d.State) (traces : List Trace) (entered left : List TxItem) :
    Prop where
  children : ∀ child ∈ n'.children, law.Valid child
  base : Follows n.base n'.base traces
  moves : Moves n.base.peeked (inside law n) (inside law n') traces entered left

variable {law} {n n' : Node d.State}

theorem Works.refl (valid : ∀ child ∈ n.children, law.Valid child) : Works law n n [] [] [] :=
  ⟨valid, .refl _, .refl _ _⟩

variable {traces log : List Trace} {entered left : List TxItem}

theorem Works.trans {n'' : Node d.State} {more : List Trace} {entered' left' : List TxItem}
    (first : Works law n n' traces entered left) (next : Works law n' n'' more entered' left') :
    Works law n n'' (traces ++ more) (entered ++ entered') (left ++ left') := by
  refine ⟨next.children, first.base.trans next.base, first.moves.trans ?_⟩
  rw [← first.base.peeked]
  exact next.moves

/-- A step in which only the base class changes. -/
theorem Works.of_base (valid : ∀ child ∈ n.children, law.Valid child) {base : Base}
    (follows : Follows n.base base traces)
    (moves : Moves n.base.peeked (inside law n) (inside law n) traces entered left) :
    Works law n { n with base } traces entered left :=
  ⟨valid, follows, moves⟩

theorem Works.of_child (valid : ∀ child ∈ n.children, law.Valid child) {i : Nat}
    {child child' : d.State} (found : n.children[i]? = some child) {fired : List Trace}
    (called : law.Valid child' ∧
      Moves false (law.stored child) (law.stored child') fired entered left) :
    Works law n { n with
      base := (n.base.hearAll fired).1, children := n.children.set i child' }
      (n.base.hearAll fired).2 entered left := by
  refine ⟨?_, n.base.hearAll_follows fired, (n.base.hearAll_moves called.2).replace ?_⟩
  · intro other mem
    cases mem_or_eq_of_mem_set mem with
    | inl held => exact valid other held
    | inr is =>
      rw [is]
      exact called.1
  · have set := flatMap_set_perm law.stored found child'
    unfold inside
    rw [append_assoc, append_assoc]
    exact set.append_left _

theorem Works.of_queue (valid : ∀ child ∈ n.children, law.Valid child) {i : Nat}
    {queue queue' : List TxItem} (found : n.queues[i]? = some queue) {base : Base}
    (follows : Follows n.base base traces)
    (moves : Moves n.base.peeked queue queue' traces entered left) :
    Works law n { n with base, queues := n.queues.set i queue' } traces entered left := by
  refine ⟨valid, follows, moves.replace ?_⟩
  have set := flatMap_set_perm id found queue'
  rw [flatMap_id, flatMap_id] at set
  unfold inside
  rw [perm_iff_count] at set ⊢
  intro item
  have := set item
  simp only [count_append, id] at *
  omega

/-! ## Plans -/

theorem take_works (valid : ∀ child ∈ n.children, law.Valid child) (source : Source d) :
    Works law n (n.take source).2.1 (n.take source).2.2 [] (n.take source).1.toList := by
  cases source with
  | queue i =>
    unfold Node.take
    dsimp only
    split
    case h_1 item rest found =>
      exact .of_queue valid found (n.base.packetDequeued_follows item)
        (n.base.packetDequeued_moves item rest)
    case h_2 => exact .refl valid
  | child i plan =>
    unfold Node.take
    dsimp only
    split
    case h_1 child found =>
      exact .of_child valid found (law.dequeue plan child (valid child (mem_of_getElem? found)))
    case h_2 => exact .refl valid

theorem dropTaken_works {item : Option TxItem} (works : Works law n n' traces [] item.toList) :
    Works law n (Node.dropTaken (item, n', traces)).1 (Node.dropTaken (item, n', traces)).2
      [] [] := by
  cases item with
  | none => exact works
  | some item =>
    have moves := works.moves
    rw [← works.base.peeked] at moves
    have dropped := moves.drop
    rw [works.base.peeked] at dropped
    exact ⟨works.children, works.base.trans (n'.base.dropAfterDequeue_follows item), dropped⟩

section

variable (valid : ∀ child ∈ n.children, law.Valid child)
include valid

theorem act_works (action : Action d) : Works law n (n.act action).1 (n.act action).2 [] [] := by
  cases action with
  | drop source => exact dropTaken_works (take_works valid source)
  | dropInner i queue =>
    unfold Node.act
    dsimp only
    split
    case h_1 child found =>
      have held := valid child (mem_of_getElem? found)
      exact dropTaken_works (.of_child valid found (law.dequeueQueue queue child held))
    case h_2 => exact .refl valid
  | peek i plan =>
    unfold Node.act
    dsimp only
    split
    case h_1 child found =>
      have held := valid child (mem_of_getElem? found)
      exact .of_child valid found (law.peek plan child held)
    case h_2 => exact .refl valid

theorem actAll_works (actions : List (Action d)) :
    Works law n (n.actAll actions).1 (n.actAll actions).2 [] [] := by
  induction actions generalizing n with
  | nil => exact .refl valid
  | cons action actions ih =>
    have first := act_works valid action
    exact first.trans (ih first.children)

theorem put_works (item : TxItem) (target : Target d) :
    Works law n (n.put item target).1 (n.put item target).2 [item] [] := by
  have dropped : Works law n { n with base := (n.base.dropBeforeEnqueue item).1 }
      (n.base.dropBeforeEnqueue item).2 [item] [] :=
    .of_base valid (n.base.dropBeforeEnqueue_follows item) (n.base.dropBeforeEnqueue_moves item _)
  cases target with
  | queue i full =>
    unfold Node.put
    dsimp only
    split
    case h_1 queue found =>
      exact .of_queue valid found (n.base.packetEnqueued_follows item)
        (n.base.packetEnqueued_moves item queue)
    case h_2 => exact dropped
  | child i plan =>
    unfold Node.put
    dsimp only
    split
    case h_1 child found =>
      have held := valid child (mem_of_getElem? found)
      exact .of_child valid found (law.enqueue plan item child held)
    case h_2 => exact dropped
  | drop => exact dropped

theorem doEnqueue_works (plan : NodeEnqueue d) (item : TxItem) :
    Works law n (n.doEnqueue plan item).1 (n.doEnqueue plan item).2 [item] [] := by
  have before := actAll_works valid plan.before
  have given := put_works before.children item plan.target
  exact (before.trans given).trans (actAll_works given.children plan.after)

theorem doDequeue_works (plan : NodeDequeue d) :
    Works law n (n.doDequeue plan).2.1 (n.doDequeue plan).2.2 [] (n.doDequeue plan).1.toList := by
  have first := actAll_works valid plan.actions
  unfold Node.doDequeue
  dsimp only
  split
  · exact first.trans (take_works first.children _)
  · exact first

theorem lookAll_works (looks : List (Look d)) :
    Works law n (n.lookAll looks).2.1 (n.lookAll looks).2.2 [] [] := by
  induction looks generalizing n with
  | nil => exact .refl valid
  | cons look looks ih =>
    cases look with
    | queue i =>
      unfold Node.lookAll
      split
      · exact .refl valid
      · exact ih valid
    | child i plan =>
      unfold Node.lookAll
      split
      case h_1 child found =>
        have held := valid child (mem_of_getElem? found)
        have asked := Works.of_child valid found (law.peek plan child held)
        dsimp only
        split
        · exact asked
        · exact asked.trans (ih asked.children)
      case h_2 => exact ih valid

end

/-! ## A node as a child -/

variable (law)

/-- The packets of a node with the one that it holds. -/
def held (n : Node d.State) : List TxItem := inside law n ++ n.base.requeued.toList

/-- The statistics count the traces, and of the packets that are stored those that were not told
of as dequeued. -/
structure NodeValid (n : Node d.State) (log : List Trace) : Prop where
  children : ∀ child ∈ n.children, law.Valid child
  accounts : Accounts n.base log
  level : (inside law n ++ (if n.base.peeked then n.base.requeued.toList else []) ++
    dequeued log).Perm (enqueued log)
  holds : n.base.peeked = true → n.base.requeued.isSome

/-- A child holds a packet only because it was peeked. -/
def ChildValid (n : Node d.State) : Prop :=
  (∃ log, NodeValid law n log) ∧ (n.base.requeued.isSome → n.base.peeked = true)

variable {law}

theorem NodeValid.step (valid : NodeValid law n log) (works : Works law n n' traces entered []) :
    NodeValid law n' (log ++ traces) := by
  refine ⟨works.children, works.base.accounts log valid.accounts, ?_, ?_⟩
  · have level := valid.level
    have kept := works.moves.kept
    have told := works.moves.told
    rw [ite_self] at told
    rw [works.base.peeked, works.base.requeued]
    rw [perm_iff_count] at level kept told ⊢
    intro item
    have := level item
    have := kept item
    have := told item
    simp only [enqueued_append, dequeued_append, count_append] at *
    omega
  · rw [works.base.peeked, works.base.requeued]
    exact valid.holds

theorem NodeValid.leave (valid : NodeValid law n log) (works : Works law n n' traces [] left)
    (free : n.base.peeked = false) : NodeValid law n' (log ++ traces) := by
  refine ⟨works.children, works.base.accounts log valid.accounts, ?_, ?_⟩
  · have level := valid.level
    have kept := works.moves.kept
    have told := works.moves.told
    rw [free] at level told
    rw [works.base.peeked, free]
    rw [perm_iff_count] at level kept told ⊢
    intro item
    have := level item
    have := kept item
    have := told item
    simp only [enqueued_append, dequeued_append, count_append, count_nil,
      Bool.false_eq_true, if_false] at *
    omega
  · rw [works.base.peeked, free]
    exact nofun

theorem NodeValid.receive {stats : Stats} (valid : NodeValid law n log)
    (enq : stats.nTotalEnqueued = n.base.stats.nTotalEnqueued)
    (deq : stats.nTotalDequeued = n.base.stats.nTotalDequeued)
    (before : stats.nTotalDroppedBeforeEnqueue = n.base.stats.nTotalDroppedBeforeEnqueue)
    (after : stats.nTotalDroppedAfterDequeue = n.base.stats.nTotalDroppedAfterDequeue) :
    NodeValid law { n with base := { n.base with stats } } log :=
  ⟨valid.children, valid.accounts.congr rfl rfl enq deq before after, valid.level, valid.holds⟩

theorem enqueue_works (valid : ∀ child ∈ n.children, law.Valid child) (plan : NodeEnqueue d)
    (item : TxItem) :
    Works law n (n.enqueue plan item).1 (n.enqueue plan item).2 [item] [] := by
  let counted : Node d.State := { n with base := { n.base with stats :=
    { n.base.stats with nTotalReceived := n.base.stats.nTotalReceived.add item } } }
  have works : Works law counted (n.enqueue plan item).1 (n.enqueue plan item).2 [item] [] :=
    doEnqueue_works (show ∀ child ∈ counted.children, law.Valid child from valid) plan item
  refine ⟨works.children, ⟨works.base.requeued, works.base.peeked, ?_⟩, works.moves⟩
  intro log accounts
  exact works.base.accounts log (accounts.congr rfl rfl rfl rfl rfl rfl)

/-- Nothing left, so there is nothing that was not told of. -/
theorem Moves.unmute {muted : Bool} {before after : List TxItem}
    (moves : Moves muted before after traces entered []) :
    Moves false before after traces entered [] := by
  refine ⟨moves.kept, moves.entered, ?_⟩
  have told := moves.told
  rw [ite_self] at told ⊢
  exact told

theorem Works.held (works : Works law n n' traces entered []) :
    Moves false (held law n) (held law n') traces entered [] := by
  unfold Tree.held
  rw [works.base.requeued]
  exact works.moves.unmute.frame _

theorem dequeue_moves (valid : NodeValid law n log)
    (child : n.base.requeued.isSome → n.base.peeked = true) (plan : NodeDequeue d) :
    NodeValid law (n.dequeue plan).2.1 (log ++ (n.dequeue plan).2.2) ∧
      (n.dequeue plan).2.1.base.requeued = none ∧
      Moves false (held law n) (held law (n.dequeue plan).2.1) (n.dequeue plan).2.2 []
        (n.dequeue plan).1.toList := by
  unfold Node.dequeue
  cases requeued : n.base.requeued with
  | some item =>
    have muted := child (by rw [requeued]; rfl)
    dsimp only
    rw [if_pos muted]
    have told := Base.packetDequeued_follows item { n.base with requeued := none, peeked := false }
    have moves := Base.packetDequeued_moves item { n.base with requeued := none, peeked := false }
      []
    refine ⟨⟨valid.children, ?_, ?_, nofun⟩, rfl, ?_⟩
    · exact told.accounts log (valid.accounts.congr rfl rfl rfl rfl rfl rfl)
    · have level := valid.level
      rw [muted, requeued] at level
      rw [perm_iff_count] at level ⊢
      intro other
      have := level other
      simp only [enqueued_append, dequeued_append, count_append, if_true, Option.toList_some] at *
      show List.count other (inside law n) + List.count other [] +
        (List.count other (dequeued log) + List.count other [item]) =
          List.count other (enqueued log) + List.count other []
      rw [count_nil]
      omega
    · have framed := moves.frame (inside law n)
      apply framed.congr
      · unfold held
        rw [requeued]
        exact perm_append_comm
      · unfold held
        exact .of_eq (append_nil _).symm
  | none =>
    have free : n.base.peeked = false := by
      cases peeked : n.base.peeked with
      | false => rfl
      | true =>
        have := valid.holds peeked
        rw [requeued] at this
        cases this
    have works := doDequeue_works valid.children plan
    have none_held := works.base.requeued.trans requeued
    refine ⟨valid.leave works free, none_held, ?_⟩
    have moves := works.moves
    rw [free] at moves
    unfold held
    rw [none_held, requeued]
    exact moves.frame _

theorem doPeek_moves (valid : NodeValid law n log) (plan : NodeDequeue d) :
    NodeValid law (n.doPeek plan).2.1 (log ++ (n.doPeek plan).2.2) ∧
      Moves false (held law n) (held law (n.doPeek plan).2.1) (n.doPeek plan).2.2 [] [] ∧
      (n.base.requeued = none →
        (n.doPeek plan).2.1.base.peeked = (n.doPeek plan).2.1.base.requeued.isSome) := by
  unfold Node.doPeek
  cases requeued : n.base.requeued with
  | some item =>
    rw [append_nil]
    exact ⟨valid, .refl _ _, nofun⟩
  | none =>
    let muted : Node d.State := { n with base := { n.base with peeked := true } }
    have works := doDequeue_works
      (show ∀ child ∈ muted.children, law.Valid child from valid.children) plan
    have is : muted.dequeue plan = muted.doDequeue plan := by
      unfold Node.dequeue
      rw [show muted.base.requeued = none from requeued]
    have free : n.base.peeked = false := by
      cases peeked : n.base.peeked with
      | false => rfl
      | true =>
        have := valid.holds peeked
        rw [requeued] at this
        cases this
    rw [show ({ n with base := { n.base with peeked := true } } : Node d.State) = muted from rfl,
      is]
    generalize muted.doDequeue plan = result at works ⊢
    obtain ⟨item, n', traces⟩ := result
    have kept : (inside law n ++ _).Perm _ := works.moves.kept
    have told := works.moves.told
    rw [show muted.base.peeked = true from rfl, if_pos rfl, append_nil] at told
    have toList : (if item.isSome then item.toList else []) = item.toList := by cases item <;> rfl
    have same : inside law { n' with
        base := { n'.base with requeued := item, peeked := item.isSome } } = inside law n' := rfl
    refine ⟨⟨works.children, ?_, ?_, fun holds => holds⟩, ⟨?_, works.moves.entered, ?_⟩,
      fun _ => rfl⟩
    · exact (works.base.accounts log (valid.accounts.congr rfl rfl rfl rfl rfl rfl)).congr
        rfl rfl rfl rfl rfl rfl
    · have level := valid.level
      rw [free] at level
      rw [toList, same]
      rw [perm_iff_count] at level kept told ⊢
      intro other
      have := kept other
      have := level other
      have := told other
      simp only [enqueued_append, dequeued_append, count_append, count_nil,
        Bool.false_eq_true, if_false] at *
      omega
    · unfold held
      rw [requeued, same, Option.toList_none, append_nil, append_nil]
      rw [perm_iff_count] at kept ⊢
      intro other
      have := kept other
      simp only [count_append] at *
      omega
    · rw [ite_self, append_nil]
      exact told

theorem peek_moves (valid : NodeValid law n log) (plan : NodePeek d) :
    NodeValid law (n.peek plan).2.1 (log ++ (n.peek plan).2.2) ∧
      Moves false (held law n) (held law (n.peek plan).2.1) (n.peek plan).2.2 [] [] ∧
      ((n.peek plan).2.1.base.requeued = n.base.requeued ∧
          (n.peek plan).2.1.base.peeked = n.base.peeked ∨
        n.base.requeued = none ∧
          (n.peek plan).2.1.base.peeked = (n.peek plan).2.1.base.requeued.isSome) := by
  cases plan with
  | hold plan =>
    obtain ⟨valid', moves, holds⟩ := doPeek_moves valid plan
    refine ⟨valid', moves, ?_⟩
    cases requeued : n.base.requeued with
    | none => exact .inr ⟨rfl, holds requeued⟩
    | some item =>
      left
      show (n.doPeek plan).2.1.base.requeued = _ ∧ (n.doPeek plan).2.1.base.peeked = _
      unfold Node.doPeek
      rw [requeued]
      exact ⟨requeued, rfl⟩
  | looks looks =>
    have works := lookAll_works valid.children looks
    exact ⟨valid.step works, works.held, .inl ⟨works.base.requeued, works.base.peeked⟩⟩

section

variable (valid : ChildValid law n)
include valid

theorem ChildValid.enqueue (plan : NodeEnqueue d) (item : TxItem) :
    ChildValid law (n.enqueue plan item).1 ∧
      Moves false (held law n) (held law (n.enqueue plan item).1) (n.enqueue plan item).2
        [item] [] := by
  obtain ⟨⟨log, valid⟩, child⟩ := valid
  have works := enqueue_works valid.children plan item
  refine ⟨⟨⟨_, valid.step works⟩, ?_⟩, works.held⟩
  rw [works.base.requeued, works.base.peeked]
  exact child

theorem ChildValid.dequeue (plan : NodeDequeue d) : ChildValid law (n.dequeue plan).2.1 ∧
      Moves false (held law n) (held law (n.dequeue plan).2.1) (n.dequeue plan).2.2 []
        (n.dequeue plan).1.toList := by
  obtain ⟨⟨log, valid⟩, child⟩ := valid
  obtain ⟨valid', free, moves⟩ := dequeue_moves valid child plan
  refine ⟨⟨⟨_, valid'⟩, ?_⟩, moves⟩
  rw [free]
  exact nofun

theorem ChildValid.peek (plan : NodePeek d) : ChildValid law (n.peek plan).2.1 ∧
      Moves false (held law n) (held law (n.peek plan).2.1) (n.peek plan).2.2 [] [] := by
  obtain ⟨⟨log, valid⟩, child⟩ := valid
  obtain ⟨valid', moves, holds⟩ := peek_moves valid plan
  refine ⟨⟨⟨_, valid'⟩, ?_⟩, moves⟩
  cases holds with
  | inl same =>
    rw [same.1, same.2]
    exact child
  | inr held => exact fun is => held.2.trans is

theorem ChildValid.dequeueQueue (i : Nat) : ChildValid law (n.dequeueQueue i).2.1 ∧
      Moves false (held law n) (held law (n.dequeueQueue i).2.1) (n.dequeueQueue i).2.2 []
        (n.dequeueQueue i).1.toList := by
  obtain ⟨⟨log, valid⟩, child⟩ := valid
  unfold Node.dequeueQueue
  split
  case isTrue => exact ⟨⟨⟨log, valid⟩, child⟩, .refl _ _⟩
  case isFalse free =>
    rw [Bool.not_eq_true] at free
    have works := take_works valid.children (.queue i)
    refine ⟨⟨⟨_, valid.leave works free⟩, ?_⟩, ?_⟩
    · rw [works.base.requeued, works.base.peeked]
      exact child
    · have moves := works.moves
      rw [free] at moves
      unfold held
      rw [works.base.requeued]
      exact moves.frame _

end

/-- A disc over children that keep their packets keeps its own. -/
def Conserves.node (law : Conserves d) : Conserves d.node where
  stored := held law
  Valid := ChildValid law
  enqueue plan item _ valid := valid.enqueue plan item
  dequeue plan _ valid := valid.dequeue plan
  peek plan _ valid := valid.peek plan
  dequeueQueue i _ valid := valid.dequeueQueue i

/-- Every tree of queue discs keeps its packets. -/
def Conserves.tree : (height : Nat) → Conserves (.tree height)
  | 0 => {
      stored := fun s => nomatch s
      Valid := fun s => nomatch s
      enqueue := fun plan => nomatch plan
      dequeue := fun plan => nomatch plan
      peek := fun plan => nomatch plan
      dequeueQueue := fun _ s => nomatch s }
  | height + 1 => (tree height).node

/-! ## Trees without packets -/

/-- No packet was enqueued. -/
def Fresh : (height : Nat) → (Disc.tree height).State → Prop
  | 0, s => nomatch s
  | height + 1, n => n.base = {} ∧ (∀ queue ∈ n.queues, queue = []) ∧
      ∀ child ∈ n.children, Fresh height child

theorem Accounts.start : Accounts {} [] := ⟨rfl, rfl, rfl, rfl, rfl, rfl⟩

theorem NodeValid.fresh {n : Node d.State} (base : n.base = {})
    (queues : ∀ queue ∈ n.queues, queue = [])
    (children : ∀ child ∈ n.children, law.Valid child ∧ law.stored child = []) :
    NodeValid law n [] ∧ held law n = [] := by
  have none_inside : inside law n = [] := by
    unfold inside
    rw [append_eq_nil_iff, flatten_eq_nil_iff, flatMap_eq_nil_iff]
    exact ⟨queues, fun child mem => (children child mem).2⟩
  constructor
  · refine ⟨fun child mem => (children child mem).1, ?_, ?_, ?_⟩
    · rw [base]
      exact .start
    · rw [none_inside, base]
      exact .refl _
    · rw [base]
      exact nofun
  · unfold held
    rw [none_inside, base]
    rfl

theorem Fresh.valid : (height : Nat) → (s : (Disc.tree height).State) → Fresh height s →
    (Conserves.tree height).Valid s ∧ (Conserves.tree height).stored s = []
  | 0, s, _ => nomatch s
  | height + 1, n, fresh => by
    obtain ⟨base, queues, children⟩ := fresh
    have below : ∀ child ∈ n.children, (Conserves.tree height).Valid child ∧
        (Conserves.tree height).stored child = [] :=
      fun child mem => Fresh.valid height child (children child mem)
    obtain ⟨valid, none_held⟩ := NodeValid.fresh base queues below
    refine ⟨⟨⟨_, valid⟩, ?_⟩, none_held⟩
    rw [base]
    exact nofun

end Ns3.TrafficControl.Tree
