import Ns3.Library.Machine
import Ns3.TrafficControl.QueueDiscNode
import Ns3.TrafficControl.QueueDiscRun

/-!
# Conservation of the packets of a root queue disc

A packet that is held was peeked, and is counted as stored, or it was requeued,
and is counted as dequeued. `Run` adds the header of a packet when it dequeues
it, so a packet that was peeked must not be sent by it.
-/

namespace Ns3.TrafficControl.Tree

open List Option Root

variable {d : Disc} (law : Conserves d)

/-- The packet without the header that was added to it. -/
def bare (item : TxItem) : TxItem := { item with headers := 0 }

variable {item : TxItem} {r' : Root d}

theorem bare_of_headers (none_added : item.headers = 0) : bare item = item := by
  unfold bare
  rw [← none_added]

/-- The packet that was requeued. -/
def waiting (r : Root d) : List TxItem :=
  if r.node.base.peeked then [] else r.node.base.requeued.toList

/-- What holds between the calls of a root queue disc, when packets that it gave are out. -/
structure RootValid (r : Root d) (out : List TxItem) : Prop where
  node : NodeValid law r.node r.traced
  entered : (enqueued r.traced ++ droppedBefore r.traced).Perm r.received
  left : (dequeued r.traced).Perm
    (droppedAfter r.traced ++ (r.sent ++ r.taken ++ waiting r ++ out).map bare)
  received : ∀ item ∈ r.received, item.headers = 0
  sent : ∀ item ∈ r.sent, item.headers = 1
  waits : ∀ item ∈ waiting r, item.headers = 1

variable {law} {r : Root d}

theorem waiting_of_none (free : r.node.base.requeued = none) : waiting r = [] := by
  unfold waiting
  simp [free]

theorem NodeValid.unpeeked {n : Node d.State} {log : List Trace} (valid : NodeValid law n log)
    (free : n.base.requeued = none) : n.base.peeked = false := by
  cases peeked : n.base.peeked with
  | false => rfl
  | true =>
    have held := valid.holds peeked
    rw [free] at held
    cases held

theorem entered_append {log traces : List Trace} {received came : List TxItem}
    (before : (enqueued log ++ droppedBefore log).Perm received)
    (entered : (enqueued traces ++ droppedBefore traces).Perm came) :
    (enqueued (log ++ traces) ++ droppedBefore (log ++ traces)).Perm (received ++ came) := by
  rw [enqueued_append, droppedBefore_append]
  rw [perm_iff_count] at *
  intro item
  have := before item
  have := entered item
  simp only [count_append] at *
  omega

theorem left_append {log traces : List Trace} {gone given : List TxItem}
    (left : (dequeued log).Perm (droppedAfter log ++ gone))
    (told : (dequeued traces).Perm (droppedAfter traces ++ given)) :
    (dequeued (log ++ traces)).Perm (droppedAfter (log ++ traces) ++ (gone ++ given)) := by
  rw [dequeued_append, droppedAfter_append]
  rw [perm_iff_count] at *
  intro item
  have := left item
  have := told item
  simp only [count_append] at *
  omega

/-- No header was added to a packet that the disc told of as dequeued. -/
theorem NodeValid.dequeued_bare {n : Node d.State} {log : List Trace} (valid : NodeValid law n log)
    {received : List TxItem} (entered : (enqueued log ++ droppedBefore log).Perm received)
    (plain : ∀ item ∈ received, item.headers = 0) :
    ∀ item ∈ dequeued log, item.headers = 0 := by
  intro item mem
  apply plain
  rw [← entered.mem_iff]
  apply mem_append_left
  rw [← valid.level.mem_iff]
  exact mem_append_right _ mem

theorem dequeue_waiting {out : List TxItem} (valid : RootValid law r out) (plan : NodeDequeue d)
    (held : r.node.base.requeued = some item) (free : r.node.base.peeked = false) :
    (r.dequeue plan).1 = some item ∧ item.headers = 1 ∧
      (r.dequeue plan).2.node.base.requeued = none ∧
        RootValid law (r.dequeue plan).2 (out ++ [item]) := by
  have is : waiting r = [item] := by
    unfold waiting
    rw [free, held]
    rfl
  have once := valid.waits item (by rw [is]; exact mem_singleton_self item)
  have result : r.dequeue plan = (some item, { r with
      node := { r.node with base := { r.node.base with requeued := none } }
      traced := r.traced ++ [] }) := by
    unfold dequeue Node.dequeue
    rw [held]
    dsimp only
    rw [if_neg (by rw [free]; exact Bool.false_ne_true)]
  rw [result, append_nil]
  refine ⟨rfl, once, rfl, ⟨valid.node.children, ?_, ?_, ?_⟩, valid.entered, ?_, valid.received,
    valid.sent, ?_⟩
  · exact valid.node.accounts.congr rfl rfl rfl rfl rfl rfl
  · have level := valid.node.level
    rw [free] at level ⊢
    exact level
  · dsimp only
    rw [free]
    exact nofun
  · have left := valid.left
    have none_waits : waiting { r with
        node := { r.node with base := { r.node.base with requeued := none } } } = [] :=
      waiting_of_none rfl
    rw [none_waits, append_nil]
    rw [is] at left
    apply left.trans
    apply Perm.append_left
    apply Perm.map
    rw [← append_assoc, append_assoc, append_assoc (r.sent ++ r.taken)]
    exact perm_append_comm.append_left _
  · intro other mem
    rw [waiting_of_none rfl] at mem
    cases mem

theorem map_bare_toList {given : Option TxItem} (plain : ∀ item ∈ given, item.headers = 0) :
    given.toList.map bare = given.toList := by
  cases given with
  | none => rfl
  | some item =>
    show [bare item] = [item]
    rw [bare_of_headers (plain item rfl)]

theorem dequeue_stored (valid : RootValid law r []) (plan : NodeDequeue d)
    (none_waits : r.node.base.requeued.isSome → r.node.base.peeked = true) :
    (∀ item ∈ (r.dequeue plan).1, item.headers = 0) ∧ (r.dequeue plan).2.node.base.requeued = none ∧
        RootValid law (r.dequeue plan).2 (r.dequeue plan).1.toList := by
  have waits : waiting r = [] := by
    unfold waiting
    cases requeued : r.node.base.requeued with
    | none => exact ite_self _
    | some item => rw [if_pos (none_waits (by rw [requeued]; rfl))]
  obtain ⟨node, free, moves⟩ := dequeue_moves valid.node none_waits plan
  unfold dequeue
  generalize r.node.dequeue plan = result at node free moves ⊢
  obtain ⟨given, n', traces⟩ := result
  have entered : (enqueued (r.traced ++ traces) ++ droppedBefore (r.traced ++ traces)).Perm
      r.received := append_nil r.received ▸ entered_append valid.entered moves.entered
  have told : (dequeued traces).Perm (droppedAfter traces ++ given.toList) := moves.told
  have plain : ∀ item ∈ given, item.headers = 0 := by
    intro item mem
    apply node.dequeued_bare entered valid.received
    rw [dequeued_append]
    apply mem_append_right
    rw [told.mem_iff]
    exact mem_append_right _ (mem_toList.mpr mem)
  refine ⟨plain, free, node, entered, ?_, valid.received, valid.sent, ?_⟩
  · have left := valid.left
    rw [waits, append_nil, append_nil] at left
    rw [waiting_of_none free, append_nil, map_append, map_bare_toList plain]
    exact left_append left told
  · intro item mem
    rw [waiting_of_none free] at mem
    cases mem

/-! ## `Run` -/

theorem RootValid.of_bare {out out' : List TxItem} (valid : RootValid law r out)
    (same : out'.map bare = out.map bare) : RootValid law r out' := by
  refine ⟨valid.node, valid.entered, ?_, valid.received, valid.sent, valid.waits⟩
  rw [map_append, same, ← map_append]
  exact valid.left

/-- No packet is sent that was only peeked: its queue is stopped. -/
def Ready (r : Root d) : Prop :=
  r.node.base.peeked = true →
    ∀ item ∈ r.node.base.requeued, r.isStopped item.txQueueIndex = some true

theorem dequeuePacket_valid (valid : RootValid law r []) (ready : Ready r) {plan : NodeDequeue d}
    {item : Option TxItem} (h : r.dequeuePacket plan = some (item, r')) :
    RootValid law r' item.toList ∧
      ∀ given ∈ item, given.headers = 1 ∧ r'.node.base.requeued = none := by
  unfold dequeuePacket at h
  cases requeued : r.node.base.requeued with
  | some held =>
    rw [requeued] at h
    obtain ⟨stopped, is, h⟩ := bind_eq_some_iff.mp h
    cases stopped with
    | true =>
      cases h
      exact ⟨valid, nofun⟩
    | false =>
      have free : r.node.base.peeked = false := by
        cases peeked : r.node.base.peeked with
        | false => rfl
        | true =>
          rw [ready peeked held requeued] at is
          cases is
      have taken : r.dequeue plan = (item, r') := Option.some.inj h
      obtain ⟨given, once, none_held, valid'⟩ := dequeue_waiting valid plan requeued free
      rw [taken] at given none_held valid'
      dsimp only at given
      rw [given]
      refine ⟨valid', ?_⟩
      intro other mem
      cases mem
      exact ⟨once, none_held⟩
  | none =>
    rw [requeued] at h
    have given : some ((r.dequeue plan).1.map TxItem.addHeader, (r.dequeue plan).2) =
        some (item, r') → RootValid law r' item.toList ∧
          ∀ given ∈ item, given.headers = 1 ∧ r'.node.base.requeued = none := by
      intro is
      obtain ⟨plain, none_held, valid'⟩ := dequeue_stored valid plan (by rw [requeued]; exact nofun)
      generalize r.dequeue plan = result at is plain none_held valid'
      obtain ⟨taken, after⟩ := result
      cases is
      cases taken with
      | none => exact ⟨valid', nofun⟩
      | some item =>
        refine ⟨valid'.of_bare rfl, ?_⟩
        intro other mem
        cases mem
        exact ⟨congrArg (· + 1) (plain item rfl), none_held⟩
    have either : ∀ goes : Bool, (if goes = true then
          some ((r.dequeue plan).1.map TxItem.addHeader, (r.dequeue plan).2)
        else some (none, r)) = some (item, r') → RootValid law r' item.toList ∧
          ∀ given ∈ item, given.headers = 1 ∧ r'.node.base.requeued = none := by
      intro goes is
      cases goes with
      | true => exact given is
      | false =>
        cases is
        exact ⟨valid, nofun⟩
    obtain ⟨stopped, -, h⟩ := bind_eq_some_iff.mp h
    exact either _ h

theorem transmit_valid (valid : RootValid law r [item]) (once : item.headers = 1)
    (free : r.node.base.requeued = none) {stopped : List Bool} {more : Bool}
    (h : r.transmit item stopped = some (more, r')) :
    RootValid law r' [] ∧ (more = true → r'.node.base.requeued = none) := by
  have unpeeked := valid.node.unpeeked free
  obtain ⟨waits, is, h⟩ := bind_eq_some_iff.mp h
  cases waits with
  | true =>
    cases h
    have requeued : waiting (r.requeue item) = [item] := by
      unfold waiting requeue
      rw [unpeeked]
      rfl
    refine ⟨⟨⟨valid.node.children, ?_, ?_, ?_⟩, valid.entered, ?_, valid.received, valid.sent, ?_⟩,
      nofun⟩
    · exact valid.node.accounts.congr rfl rfl rfl rfl rfl rfl
    · have level := valid.node.level
      rw [unpeeked] at level
      unfold requeue
      rw [unpeeked]
      exact level
    · unfold requeue
      rw [unpeeked]
      exact nofun
    · have left := valid.left
      rw [waiting_of_none free, append_nil] at left
      rw [requeued, append_nil]
      exact left
    · intro other mem
      rw [requeued, mem_singleton] at mem
      rw [mem]
      exact once
  | false =>
    have sent : ∀ device, RootValid law { r with sent := r.sent ++ [item], device } [] := by
      intro device
      refine ⟨valid.node, valid.entered, ?_, valid.received, ?_, valid.waits⟩
      · have left := valid.left
        rw [waiting_of_none free, append_nil] at left
        rw [show waiting { r with sent := r.sent ++ [item], device } = [] from waiting_of_none free,
          append_nil, append_nil]
        apply left.trans
        apply Perm.append_left
        apply Perm.map
        rw [append_assoc, append_assoc]
        exact perm_append_comm.append_left _
      · intro other mem
        cases mem_append.mp mem with
        | inl before => exact valid.sent other before
        | inr last =>
          rw [mem_singleton.mp last]
          exact once
    have sent := sent (r.device.map fun _ => stopped)
    change (if r.node.base.nPackets = 0 then _ else _) = some (more, r') at h
    split at h
    · cases h
      exact ⟨sent, nofun⟩
    · obtain ⟨stops, -, h⟩ := bind_eq_some_iff.mp h
      cases h
      exact ⟨sent, fun _ => free⟩

theorem restart_valid (valid : RootValid law r []) (ready : Ready r) {round : Round d} {more : Bool}
    (h : r.restart round = some (more, r')) :
    RootValid law r' [] ∧ (more = true → r'.node.base.requeued = none) := by
  obtain ⟨⟨item, mid⟩, given, h⟩ := bind_eq_some_iff.mp h
  obtain ⟨valid', once⟩ := dequeuePacket_valid valid ready given
  cases item with
  | none =>
    cases h
    exact ⟨valid', nofun⟩
  | some item =>
    obtain ⟨once, free⟩ := once item rfl
    exact transmit_valid valid' once free h

theorem restartAll_valid (rounds : Nat → Round d) {quota i : Nat} {r : Root d}
    (valid : RootValid law r []) (ready : Ready r)
    (h : restartAll rounds quota i r = some r') : RootValid law r' [] := by
  induction quota generalizing i r with
  | zero =>
    cases h
    exact valid
  | succ quota ih =>
    obtain ⟨⟨more, mid⟩, here, h⟩ := bind_eq_some_iff.mp h
    obtain ⟨valid', free⟩ := restart_valid valid ready here
    cases more with
    | false =>
      cases h
      exact valid'
    | true =>
      apply ih valid' _ h
      intro _ item held
      rw [free rfl] at held
      cases held

/-! ## Runs -/

/-- The packets that are stored and were not counted as dequeued. -/
def counted (law : Conserves d) (r : Root d) : List TxItem :=
  inside law r.node ++ if r.node.base.peeked then r.node.base.requeued.toList else []

/-- The packets that are stored. -/
def stored (law : Conserves d) (r : Root d) : List TxItem :=
  inside law r.node ++ r.node.base.requeued.toList.map bare

/-- The header of a packet that is enqueued was not added. `Run` and `GetStats` are not called
while a packet is held that was only peeked, unless `Run` cannot send it. -/
def Allowed (r : Root d) : Event d → Prop
  | .enqueue _ item => item.headers = 0
  | .run _ => Ready r
  | .getStats => r.node.base.peeked = false
  | _ => True

instance : Decidable (Ready r) :=
  inferInstanceAs (Decidable (_ = true → ∀ item ∈ r.node.base.requeued, _ = _))

instance : (e : Event d) → Decidable (Allowed r e)
  | .enqueue _ item => inferInstanceAs (Decidable (item.headers = 0))
  | .run _ => inferInstanceAs (Decidable (Ready r))
  | .getStats => inferInstanceAs (Decidable (r.node.base.peeked = false))
  | .dequeue _ | .peek _ | .device _ => instDecidableTrue

theorem enqueue_valid (valid : RootValid law r []) (plan : NodeEnqueue d)
    (plain : item.headers = 0) : RootValid law (r.enqueue plan item) [] := by
  have works := enqueue_works valid.node.children plan item
  have moves := works.held
  have node := valid.node.step works
  have requeued := works.base.requeued
  have peeked := works.base.peeked
  unfold enqueue
  generalize r.node.enqueue plan item = result at node moves requeued peeked ⊢
  obtain ⟨n', traces⟩ := result
  have waits : ∀ received traced, waiting { r with node := n', received, traced } = waiting r := by
    intro received traced
    unfold waiting
    rw [requeued, peeked]
  refine ⟨node, ?_, ?_, ?_, valid.sent, ?_⟩
  · exact entered_append valid.entered moves.entered
  · have told := moves.told
    rw [ite_self] at told
    rw [waits]
    exact append_nil (map bare _) ▸ left_append valid.left told
  · intro other mem
    cases mem_append.mp mem with
    | inl before => exact valid.received other before
    | inr last =>
      rw [mem_singleton.mp last]
      exact plain
  · rw [waits]
    exact valid.waits

theorem peek_valid (valid : RootValid law r []) (plan : NodePeek d) :
    RootValid law (r.peek plan).2 [] := by
  obtain ⟨node, moves, holds⟩ := peek_moves valid.node plan
  unfold peek
  generalize r.node.peek plan = result at node moves holds ⊢
  obtain ⟨item, n', traces⟩ := result
  have waits : waiting { r with node := n', traced := r.traced ++ traces } = waiting r := by
    unfold waiting
    cases holds with
    | inl same => rw [same.1, same.2]
    | inr held =>
      rw [held.1, held.2, toList_none, ite_self]
      cases n'.base.requeued <;> rfl
  refine ⟨node, ?_, ?_, valid.received, valid.sent, ?_⟩
  · exact append_nil r.received ▸ entered_append valid.entered moves.entered
  · have told := moves.told
    rw [ite_self] at told
    rw [waits]
    exact append_nil (map bare _) ▸ left_append valid.left told
  · rw [waits]
    exact valid.waits

/-- The packets that were given to the caller of `Dequeue`. -/
theorem RootValid.take {given : List TxItem} (valid : RootValid law r given) :
    RootValid law { r with taken := r.taken ++ given } [] := by
  refine ⟨valid.node, valid.entered, ?_, valid.received, valid.sent, valid.waits⟩
  have left := valid.left
  rw [append_nil]
  apply left.trans
  apply Perm.append_left
  apply Perm.map
  show (r.sent ++ r.taken ++ waiting r ++ given).Perm (r.sent ++ (r.taken ++ given) ++ waiting r)
  rw [perm_iff_count]
  intro item
  simp only [count_append]
  omega

theorem dequeue_valid (valid : RootValid law r []) (plan : NodeDequeue d) :
    RootValid law (r.dequeue plan).2 (r.dequeue plan).1.toList := by
  cases held : r.node.base.requeued with
  | none => exact (dequeue_stored valid plan (by rw [held]; exact nofun)).2.2
  | some item =>
    cases peeked : r.node.base.peeked with
    | true => exact (dequeue_stored valid plan (fun _ => peeked)).2.2
    | false =>
      obtain ⟨given, -, -, valid'⟩ := dequeue_waiting valid plan held peeked
      rw [given]
      exact valid'

theorem getStats_valid (valid : RootValid law r []) : RootValid law r.getStats.2 [] :=
  ⟨valid.node.receive rfl rfl rfl rfl, valid.entered, valid.left, valid.received, valid.sent,
    valid.waits⟩

theorem step_valid (valid : RootValid law r []) {e : Event d} (allowed : Allowed r e)
    (h : r.step e = some r') : RootValid law r' [] := by
  cases e with
  | enqueue plan item =>
    cases h
    exact enqueue_valid valid plan allowed
  | dequeue plan =>
    cases h
    exact (dequeue_valid valid plan).take
  | peek plan =>
    cases h
    exact peek_valid valid plan
  | run rounds => exact restartAll_valid rounds valid allowed h
  | getStats =>
    cases h
    exact getStats_valid valid
  | device stopped =>
    cases h
    exact { valid with }

/-! ## What the statistics say -/

theorem Counter.of_sub (items more : List TxItem) :
    (Counter.of (items ++ more)).sub (Counter.of more) = Counter.of items := by
  unfold Counter.of Counter.sub
  rw [length_append, totalSize_append, UInt32.ofNat_add, UInt64.ofNat_add]
  rw [UInt32.add_sub_cancel, UInt64.add_sub_cancel]

theorem totalSize_bare (items : List TxItem) : totalSize (items.map bare) = totalSize items := by
  unfold totalSize
  rw [List.map_map]
  rfl

theorem Counter.of_bare (items : List TxItem) : Counter.of (items.map bare) = Counter.of items := by
  unfold Counter.of
  simp [totalSize_bare]

section

variable (valid : RootValid law r [])
include valid

/-- `GetStats` tells what was sent, when no packet is held that was only peeked. -/
theorem RootValid.getStats_sent (free : r.node.base.peeked = false) :
    r.getStats.1.nTotalSent = Counter.of (r.sent ++ r.taken) := by
  have left := valid.left
  have is : waiting r = r.node.base.requeued.toList := by
    unfold waiting
    rw [free]
    rfl
  rw [append_nil, map_append] at left
  have order : (dequeued r.traced).Perm (((r.sent ++ r.taken).map bare ++ droppedAfter r.traced) ++
      (waiting r).map bare) := by
    rw [perm_iff_count] at left ⊢
    intro item
    have := left item
    simp only [count_append] at *
    omega
  have held : (r.node.base.requeued.elim {} fun item => ({} : Counter).add item) =
      Counter.of ((waiting r).map bare) := by
    rw [Counter.of_bare, is]
    cases r.node.base.requeued with
    | none => rfl
    | some item => exact (Counter.of_snoc [] item).symm
  unfold getStats
  dsimp only
  rw [held, valid.node.accounts.nTotalDequeued, valid.node.accounts.nTotalDroppedAfterDequeue,
    Counter.of_perm order, Counter.of_sub, Counter.of_sub, Counter.of_bare]

theorem RootValid.nPackets : r.node.base.nPackets = UInt32.ofNat (counted law r).length := by
  have level := valid.node.level.length_eq
  have counts := valid.node.accounts.nPackets
  rw [← level, length_append, UInt32.ofNat_add] at counts
  exact (UInt32.add_left_inj _).mp counts

theorem RootValid.nBytes : r.node.base.nBytes = UInt32.ofNat (totalSize (counted law r)) := by
  have level := totalSize_perm valid.node.level
  have counts := valid.node.accounts.nBytes
  rw [← level, totalSize_append, UInt32.ofNat_add] at counts
  exact (UInt32.add_left_inj _).mp counts

theorem RootValid.places :
    r.received.Perm (droppedBefore r.traced ++ droppedAfter r.traced ++ stored law r ++
      (r.sent ++ r.taken).map bare) := by
  have entered := valid.entered
  have left := valid.left
  have level := valid.node.level
  have held : (if r.node.base.peeked then r.node.base.requeued.toList else []) ++
      (waiting r).map bare = r.node.base.requeued.toList.map bare := by
    unfold waiting
    cases peeked : r.node.base.peeked with
    | false => rfl
    | true =>
      rw [if_pos rfl, if_pos rfl, map_nil, append_nil, map_bare_toList]
      intro item is
      apply valid.received
      rw [← entered.mem_iff]
      apply mem_append_left
      rw [← level.mem_iff, peeked]
      exact mem_append_left _ (mem_append_right _ (mem_toList.mpr is))
  rw [append_nil, map_append] at left
  rw [perm_iff_count] at entered left level ⊢
  intro item
  have := entered item
  have := left item
  have := level item
  have := congrArg (List.count item) held
  simp only [stored, count_append] at *
  omega

end

/-! ## Trees -/

/-- A tree of queue discs before the first call. -/
structure Start {height : Nat} (r : Root (.tree height)) : Prop where
  fresh : Fresh (height + 1) r.node
  received : r.received = []
  traced : r.traced = []
  sent : r.sent = []
  taken : r.taken = []

theorem Start.valid {height : Nat} {r : Root (.tree height)} (start : Start r) :
    RootValid (Conserves.tree height) r [] := by
  obtain ⟨base, queues, children⟩ := start.fresh
  have below : ∀ child ∈ r.node.children, (Conserves.tree height).Valid child ∧
      (Conserves.tree height).stored child = [] :=
    fun child mem => Fresh.valid height child (children child mem)
  have none_waits : waiting r = [] := waiting_of_none (by rw [base])
  constructor
  · rw [start.traced]
    exact (NodeValid.fresh base queues below).1
  · rw [start.traced, start.received]
    exact .refl _
  · rw [start.traced, start.sent, start.taken, none_waits]
    exact .refl _
  · rw [start.received]
    exact nofun
  · rw [start.sent]
    exact nofun
  · rw [none_waits]
    exact nofun

/-- **Conservation.** Every received packet is dropped before it is enqueued, dropped after it was
dequeued, stored, or was handed on. The statistics count each kind, those of the packets that are
stored are the packets that were not counted as dequeued, and a packet that was sent had its
header added once. -/
theorem packets_conserved {height : Nat} {r : Root (.tree height)}
    (reaches : Machine.Reaches step Allowed Start r) :
    r.received.Perm (droppedBefore r.traced ++ droppedAfter r.traced ++
        stored (.tree height) r ++ (r.sent ++ r.taken).map bare) ∧
      r.node.base.stats.nTotalDroppedBeforeEnqueue = .of (droppedBefore r.traced) ∧
      r.node.base.stats.nTotalDroppedAfterDequeue = .of (droppedAfter r.traced) ∧
      r.node.base.nPackets = UInt32.ofNat (counted (.tree height) r).length ∧
      r.node.base.nBytes = UInt32.ofNat (totalSize (counted (.tree height) r)) ∧
      (r.node.base.peeked = false → r.getStats.1.nTotalSent = .of (r.sent ++ r.taken)) ∧
      (∀ item ∈ r.sent, item.headers = 1) ∧
      ∀ child ∈ r.node.children, (Conserves.tree height).Valid child := by
  have valid : RootValid (Conserves.tree height) r [] := by
    apply reaches.invariant fun r => RootValid (Conserves.tree height) r []
    · exact fun r start => start.valid
    · exact fun r e r' valid allowed here => step_valid valid allowed here
  exact ⟨valid.places, valid.node.accounts.nTotalDroppedBeforeEnqueue,
    valid.node.accounts.nTotalDroppedAfterDequeue, valid.nPackets, valid.nBytes,
    valid.getStats_sent, valid.sent, valid.node.children⟩

/-! ## Runs of a disc with a child and of a disc alone -/

def packet (id : Nat) : TxItem := { id, size := 100, timeStamp := 0 }

/-- A disc over a child with one internal queue, and a device with one queue. -/
def withChild : Root (.tree 1) where
  node := { queues := [], children := [({ queues := [[]], children := [] } : Node Empty)] }
  device := some [false]
  quota := 64

def childPlan : NodeDequeue Disc.empty := { source := some (.queue 0) }

/-- A round after which the device has stopped its queue. -/
def stopping : Round (.tree 1) where
  plan := { source := some (.child 0 childPlan) }
  stopped := [true]

/-- Two packets are stored, the first is peeked in the child, and each is sent by a run. -/
def sendBoth : List (Event (.tree 1)) := [
  .enqueue { target := .child 0 ({ target := .queue 0 false } : NodeEnqueue .empty) } (packet 0),
  .enqueue { target := .child 0 ({ target := .queue 0 false } : NodeEnqueue .empty) } (packet 1),
  .peek (.looks [.child 0 (.hold childPlan : NodePeek .empty)]),
  .run fun _ => stopping,
  .device [false],
  .run fun _ => stopping,
  .getStats]

theorem both_sent : ∃ r, Machine.runAllowed step Allowed withChild sendBoth = some r ∧
    r.getStats.1.nTotalSent = .of (r.sent ++ r.taken) ∧ ∀ item ∈ r.sent, item.headers = 1 := by
  have starts : Start withChild := by
    refine ⟨⟨rfl, nofun, ?_⟩, rfl, rfl, rfl, rfl⟩
    intro child mem
    cases mem with
    | head =>
      refine ⟨rfl, ?_, nofun⟩
      intro queue mem
      exact mem_singleton.mp mem
    | tail _ mem => cases mem
  have run : Machine.runAllowed step Allowed withChild sendBoth = some _ := rfl
  obtain ⟨-, -, -, -, -, sent, once, -⟩ := packets_conserved (.of_runAllowed (.start starts) run)
  exact ⟨_, run, sent rfl, once⟩

/-- A disc with one internal queue and the default `DoPeek`. -/
def alone : Root (.tree 0) where
  node := { queues := [[]], children := [] }
  device := none
  quota := 64

def plan : NodeDequeue (.tree 0) := { source := some (.queue 0) }

/-- A packet is stored and peeked. -/
def peekOne : List (Event (.tree 0)) :=
  [.enqueue { target := .queue 0 false } (packet 0), .peek (.hold plan)]

/-- The statistics after a peek tell of a packet less than was sent, and a run sends the packet
without its header. -/
theorem peeked_without_header :
    (∃ r : Root (.tree 0), Machine.Reaches step (fun _ _ => True) Start r ∧ r.sent ++ r.taken = [] ∧
      r.getStats.1.nTotalSent.packets = 2 ^ 32 - 1) ∧
    ∃ r : Root (.tree 0), Machine.Reaches step (fun _ _ => True) Start r ∧
      ∃ item ∈ r.sent, item.headers = 0 := by
  have starts : Start alone := by
    refine ⟨⟨rfl, ?_, nofun⟩, rfl, rfl, rfl, rfl⟩
    intro queue mem
    exact mem_singleton.mp mem
  constructor
  · have run : Machine.runAllowed step (fun _ _ => True) alone peekOne = some _ := rfl
    exact ⟨_, .of_runAllowed (.start starts) run, rfl, by decide⟩
  · have run : Machine.runAllowed step (fun _ _ => True) alone
      (peekOne ++ [.run fun _ => ⟨plan, []⟩]) = some _ := rfl
    exact ⟨_, .of_runAllowed (.start starts) run, packet 0, mem_singleton_self _, rfl⟩

end Ns3.TrafficControl.Tree
