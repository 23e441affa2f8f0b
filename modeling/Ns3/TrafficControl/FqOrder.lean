import Ns3.Library.KeyedQueues
import Ns3.TrafficControl.FqService

/-!
# The order of the packets of a flow

With the set associative hash the queue of a flow is looked for at each packet. Packets are
numbered as they are enqueued, and the flow hash is a function of the number.
-/

namespace Ns3.TrafficControl.FqQueueDisc

open KeyedQueues List Option Function

variable {S : Type} (disc : FlowDisc S)

/-- The numbers of the packets in the queue disc of a flow. -/
def numbers (queueDisc : S) : List Nat := (disc.queue queueDisc).map (·.id)

/-- The numbers of the packets of the flow at a place. -/
def waiting (s : FqQueueDisc S) (place : Nat) : List Nat :=
  (s.classes[place]?).elim [] fun flow => numbers disc flow.queueDisc

/-- The set associative hash is used, and each flow is found at its index. -/
structure Indexed (s : FqQueueDisc S) : Prop where
  enabled : s.enableSetAssociativeHash = true
  found : ∀ place flow, s.classes[place]? = some flow → s.flowsIndices flow.index = some place

/-! ## The queue of a flow -/

/-- The queue with an index is the one that is scanned for, as long as packets of the flow wait
there: it has the tag of the flow and the queues before it in the set are in use by others; or
it is the first of the set, and all of them are in use by others. -/
def Remains (s : FqQueueDisc S) (flowHash index : Nat) : Prop :=
  let outerHash := flowHash % s.flows - flowHash % s.flows % s.setWays
  (index ∈ List.range' outerHash s.setWays ∧ s.tags index = some flowHash ∧
    ∀ i ∈ List.range' outerHash (index - outerHash), s.usable flowHash i = false) ∨
  (index = outerHash ∧ ∀ i ∈ List.range' outerHash s.setWays, s.usable flowHash i = false)

instance (s : FqQueueDisc S) (flowHash index : Nat) : Decidable (Remains s flowHash index) :=
  inferInstanceAs (Decidable (_ ∨ _))

variable {disc} {s s' : FqQueueDisc S} {place : Nat} {flow flow' : FqFlow S}

theorem usable_of_tag {flowHash i : Nat} (tag : s.tags i = some flowHash) :
    s.usable flowHash i = true := by
  unfold usable
  cases s.flowsIndices i with
  | none => rfl
  | some place => simp [tag]

/-- The scan comes to the queue where the packets wait. -/
theorem Remains.chosen {flowHash index : Nat} (remains : Remains s flowHash index) :
    (s.setAssociativeHash flowHash).1 = index := by
  unfold setAssociativeHash
  dsimp only
  rcases remains with ⟨inside, tag, before⟩ | ⟨is, all⟩
  · generalize flowHash % s.flows - flowHash % s.flows % s.setWays = outerHash at *
    obtain ⟨lower, upper⟩ := mem_range'_1.mp inside
    have split : List.range' outerHash s.setWays = List.range' outerHash (index - outerHash) ++
          index :: List.range' (index + 1) (s.setWays - (index - outerHash) - 1) := by
      have rest : List.range' index (s.setWays - (index - outerHash)) =
          index :: List.range' (index + 1) (s.setWays - (index - outerHash) - 1) := by
        conv_lhs => rw [show s.setWays - (index - outerHash) =
          (s.setWays - (index - outerHash) - 1) + 1 by omega]
        exact range'_succ
      rw [← rest, show index = outerHash + (index - outerHash) by omega, Nat.add_sub_cancel_left,
        range'_append_1]
      congr 1
      omega
    rw [split, find?_append, find?_eq_none.mpr (by simpa using before),
      none_or, find?_cons_of_pos (usable_of_tag tag)]
    rfl
  · rw [find?_eq_none.mpr (by simpa using all), is]
    rfl

/-! ## What is waiting -/

theorem waiting_set (found : s.classes[place]? = some flow) (flow' : FqFlow S)
    (newFlows oldFlows : List Nat) :
    waiting disc { s with classes := s.classes.set place flow', newFlows, oldFlows } =
      Function.update (waiting disc s) place (numbers disc flow'.queueDisc) := by
  have inside := (List.getElem?_eq_some_iff.mp found).1
  funext other
  unfold waiting
  by_cases same : other = place
  · rw [same, update_self, getElem?_set_self inside]
    rfl
  · rw [update_of_ne same, getElem?_set_ne (Ne.symm same)]

theorem waiting_eq (found : s.classes[place]? = some flow) :
    waiting disc s place = numbers disc flow.queueDisc := by
  unfold waiting
  rw [found]
  rfl

theorem Indexed.set (indexed : Indexed s) (found : s.classes[place]? = some flow)
    (same : flow'.index = flow.index) (newFlows oldFlows : List Nat) :
    Indexed { s with classes := s.classes.set place flow', newFlows, oldFlows } where
  enabled := indexed.enabled
  found := by
    intro other other_flow is
    by_cases here : other = place
    · rw [here, getElem?_set_self (List.getElem?_eq_some_iff.mp found).1] at is
      cases is
      rw [same, here]
      exact indexed.found place flow found
    · rw [getElem?_set_ne (Ne.symm here)] at is
      exact indexed.found other other_flow is

/-- Packets may have been dropped. -/
structure Trims (disc : FlowDisc S) (s s' : FqQueueDisc S) : Prop where
  indexed : Indexed s'
  fewer : ∀ i, (waiting disc s' i).Sublist (waiting disc s i)

theorem Trims.refl (indexed : Indexed s) : Trims disc s s := ⟨indexed, fun _ => .refl _⟩

theorem Trims.trans {s'' : FqQueueDisc S} (first : Trims disc s s') (next : Trims disc s' s'') :
    Trims disc s s'' :=
  ⟨next.indexed, fun i => (next.fewer i).trans (first.fewer i)⟩

theorem Trims.set (indexed : Indexed s) (found : s.classes[place]? = some flow)
    (same : flow'.index = flow.index)
    (fewer : (numbers disc flow'.queueDisc).Sublist (numbers disc flow.queueDisc))
    (newFlows oldFlows : List Nat) :
    Trims disc s { s with classes := s.classes.set place flow', newFlows, oldFlows } where
  indexed := indexed.set found same newFlows oldFlows
  fewer := by
    intro other
    rw [waiting_set found]
    by_cases here : other = place
    · rw [here, update_self, waiting_eq found]
      exact fewer
    · rw [update_of_ne here]

/-! ## Enqueue -/

theorem setAssociativeHash_indexed (indexed : Indexed s) (flowHash : Nat) :
    Indexed (s.setAssociativeHash flowHash).2 :=
  ⟨indexed.enabled, indexed.found⟩

/-- The flow with an index is found, or it is created without packets. -/
theorem flowAt_spec (indexed : Indexed s) (h : Nat) :
    Indexed (s.flowAt disc h).2 ∧ waiting disc (s.flowAt disc h).2 = waiting disc s ∧
      ∀ (place : Nat) (flow : FqFlow S), s.classes[place]? = some flow → flow.index = h →
        place = (s.flowAt disc h).1 := by
  unfold flowAt
  cases at_h : s.flowsIndices h with
  | some here =>
    refine ⟨indexed, rfl, fun place flow found same => ?_⟩
    have is := indexed.found place flow found
    rw [same, at_h] at is
    exact (Option.some.inj is).symm
  | none =>
    have other : ∀ (place : Nat) (flow : FqFlow S),
        s.classes[place]? = some flow → flow.index ≠ h := by
      intro place flow found same
      have is := indexed.found place flow found
      rw [same, at_h] at is
      cases is
    refine ⟨⟨indexed.enabled, ?_⟩, ?_, fun place flow found same =>
      absurd same (other place flow found)⟩
    · intro place flow is
      dsimp only at is ⊢
      rcases getElem?_snoc is with before | ⟨rfl, rfl⟩
      · rw [update_of_ne (other place flow before)]
        exact indexed.found place flow before
      · exact update_self _ _ _
    · funext place
      unfold waiting
      by_cases inside : place < s.classes.length
      · rw [getElem?_append_left inside]
      · rw [getElem?_eq_none (Nat.le_of_not_lt inside),
          getElem?_append_right (Nat.le_of_not_lt inside)]
        cases place - s.classes.length with
        | zero => simp [numbers, disc.queue_create]
        | succ n => rfl

theorem setDeficit_index (flow : FqFlow S) (deficit : Nat) :
    (flow.setDeficit deficit).index = flow.index := by
  cases flow
  rfl

theorem activate_spec (indexed : Indexed s) (found : s.classes[place]? = some flow) :
    Indexed (s.activate place flow) ∧ waiting disc (s.activate place flow) = waiting disc s := by
  unfold activate
  split
  · refine ⟨indexed.set found (setDeficit_index (flow.setStatus .newFlow) _) _ _, ?_⟩
    rw [waiting_set found, FqFlow.setDeficit_queueDisc]
    exact update_eq_self_iff.mpr (waiting_eq found).symm
  · exact ⟨indexed, rfl⟩

/-- A packet is dropped, or joins the flow that is scanned for. -/
theorem enqueueFlow_waiting (indexed : Indexed s) {now : Int} {flowHash : Nat}
    {item : QueueDiscItem} (h : s.enqueueFlow disc now flowHash item = some s') :
    Indexed s' ∧ ∃ place, (∀ (other : Nat) (flow : FqFlow S), s.classes[other]? = some flow →
        flow.index = (s.setAssociativeHash flowHash).1 → other = place) ∧
      (waiting disc s' = waiting disc s ∨ waiting disc s' =
          Function.update (waiting disc s) place (waiting disc s place ++ [item.id])) := by
  obtain ⟨at_indexed, at_waiting, at_place⟩ := @flowAt_spec _ disc _
    (setAssociativeHash_indexed indexed flowHash) (s.setAssociativeHash flowHash).1
  unfold enqueueFlow at h
  rw [if_pos indexed.enabled] at h
  dsimp only at h
  revert h at_indexed at_waiting at_place
  generalize (s.setAssociativeHash flowHash).2.flowAt disc (s.setAssociativeHash flowHash).1 = found
  obtain ⟨place, t⟩ := found
  intro h at_indexed at_waiting at_place
  obtain ⟨flow, here, h⟩ := bind_eq_some_iff.mp h
  obtain ⟨flow', here', h⟩ := bind_eq_some_iff.mp h
  cases h
  obtain ⟨active_indexed, active_waiting⟩ := @activate_spec _ disc _ _ _ at_indexed here
  refine ⟨active_indexed.set here' (by rfl) _ _, place, at_place, ?_⟩
  have before : numbers disc flow'.queueDisc = waiting disc s place := by
    rw [← waiting_eq here', active_waiting, at_waiting]
    rfl
  rw [waiting_set here', active_waiting, at_waiting]
  rcases disc.queue_enqueue now item flow'.queueDisc with dropped | joined
  · left
    have same : numbers disc (disc.enqueue now item flow'.queueDisc) = waiting disc s place := by
      rw [← before, numbers, dropped]
      rfl
    rw [same]
    exact update_eq_self _ _
  · right
    have more : numbers disc (disc.enqueue now item flow'.queueDisc) =
        waiting disc s place ++ [item.id] := by
      rw [← before, numbers, joined, map_append]
      rfl
    rw [more]
    rfl

theorem dropPackets_sublist {dropBatchSize threshold rounds count len : Nat}
    {queueDisc after : S}
    (h : dropPackets disc dropBatchSize threshold rounds count len queueDisc = some after) :
    (numbers disc after).Sublist (numbers disc queueDisc) := by
  induction rounds generalizing count len queueDisc with
  | zero => cases h
  | succ rounds ih =>
    have dropped : (numbers disc (disc.dropHead queueDisc)).Sublist (numbers disc queueDisc) := by
      unfold numbers
      rw [disc.queue_dropHead]
      exact (tail_sublist _).map _
    obtain ⟨item, -, h⟩ := bind_eq_some_iff.mp h
    dsimp only at h
    split at h
    · exact (ih h).trans dropped
    · cases h
      exact dropped

theorem fqDrop_trims (indexed : Indexed s) (h : s.fqDrop disc = some s') : Trims disc s s' := by
  obtain ⟨flow, found, h⟩ := bind_eq_some_iff.mp h
  obtain ⟨after, dropped, h⟩ := bind_eq_some_iff.mp h
  cases h
  have fewer := dropPackets_sublist dropped
  exact Trims.set indexed found (by rfl) fewer _ _

/-! ## Dequeue -/

/-- The packet that is returned is a head, once others are dropped. -/
def Yields (disc : FlowDisc S) (s : FqQueueDisc S) : Turn S → Prop
  | .again s' => Trims disc s s'
  | .done none s' => Trims disc s s'
  | .done (some item) s' => Indexed s' ∧ ∃ trimmed : Nat → List Nat,
      (∀ i, (trimmed i).Sublist (waiting disc s i)) ∧
      ∃ place rest, trimmed place = item.id :: rest ∧
        waiting disc s' = Function.update trimmed place rest

theorem Trims.yields (trims : Trims disc s s') {t : Turn S} (yields : Yields disc s' t) :
    Yields disc s t := by
  match t with
  | .again _ => exact trims.trans yields
  | .done none _ => exact trims.trans yields
  | .done (some _) _ =>
    obtain ⟨indexed, trimmed, fewer, rest⟩ := yields
    exact ⟨indexed, trimmed, fun i => (fewer i).trans (trims.fewer i), rest⟩

theorem serve_yields (indexed : Indexed s) {now : Int} (found : s.classes[place]? = some flow)
    {empty : FqFlow S → FqQueueDisc S}
    (empties : ∀ queueDisc, disc.queue queueDisc = [] →
      Trims disc s (empty { flow with queueDisc })) :
    Yields disc s (s.serve disc now place flow empty) := by
  rcases serve_cases disc now s place flow empty with
    ⟨queueDisc, none_left, served⟩ | ⟨item, queueDisc, dropped, is, served⟩
  · rw [served]
    exact empties queueDisc none_left
  · rw [served]
    refine ⟨indexed.set found (by rfl) _ _, Function.update (waiting disc s) place
      (item.id :: numbers disc queueDisc), fun i => ?_, place, numbers disc queueDisc,
      update_self _ _ _, ?_⟩
    · by_cases same : i = place
      · rw [same, update_self, waiting_eq found]
        unfold numbers
        rw [is, map_append]
        exact sublist_append_right _ _
      · rw [update_of_ne same]
    · rw [update_idem]
      exact waiting_set found _ _ _

theorem turn_yields (indexed : Indexed s) {now : Int} {t : Turn S}
    (h : s.turn disc now = some t) : Yields disc s t := by
  have emptied : ∀ (flow : FqFlow S) {queueDisc : S}, disc.queue queueDisc = [] →
      (numbers disc queueDisc).Sublist (numbers disc flow.queueDisc) := by
    intro flow queueDisc none_left
    rw [numbers, none_left]
    exact nil_sublist _
  unfold turn at h
  split at h
  case h_1 | h_2 =>
    obtain ⟨flow, found, h⟩ := bind_eq_some_iff.mp h
    split at h
    · cases h
      exact @Trims.set _ disc _ _ _ _ indexed found (by rfl) (by rfl) _ _
    · cases h
      refine serve_yields indexed found fun queueDisc none_left => ?_
      exact Trims.set indexed found (by rfl) (emptied flow none_left) _ _
  case h_3 =>
    cases h
    exact Trims.refl indexed

theorem doDequeue_yields (indexed : Indexed s) {now : Int} {rounds : Nat}
    {item : Option QueueDiscItem} (h : doDequeue disc now rounds s = some (item, s')) :
    Yields disc s (.done item s') := by
  induction rounds generalizing s with
  | zero => cases h
  | succ rounds ih =>
    rw [doDequeue] at h
    obtain ⟨t, turned, h⟩ := bind_eq_some_iff.mp h
    have yields := turn_yields indexed turned
    cases t with
    | again next => exact Trims.yields yields (ih yields.indexed h)
    | done item next =>
      cases h
      exact yields

/-! ## Runs -/

/-- The disc, the number of the next packet, and the numbers of the packets that were dequeued,
the latest first. -/
structure Numbered (S : Type) where
  queueDisc : FqQueueDisc S
  next : Nat := 0
  out : List Nat := []

inductive NumberedEvent where
  | enqueue (now : Int) (item : QueueDiscItem)
  /-- A dequeue that takes at most so many rounds. -/
  | dequeue (now : Int) (rounds : Nat)

namespace Numbered

variable (disc) (hash : Nat → Option Nat) (w : Numbered S)

def step : NumberedEvent → Option (Numbered S)
  | .enqueue now item =>
    (w.queueDisc.doEnqueue disc now (hash w.next) { item with id := w.next }).map
      fun (_, queueDisc) => { w with queueDisc, next := w.next + 1 }
  | .dequeue now rounds => (doDequeue disc now rounds w.queueDisc).map
      fun (item, queueDisc) => { w with queueDisc, out := (item.map (·.id)).toList ++ w.out }

/-- The queue where packets of the flow wait is the one that the next packet comes to. -/
def Stays : Prop :=
  ∀ flow ∈ w.queueDisc.classes, ∀ item ∈ disc.queue flow.queueDisc, ∀ flowHash ∈ hash w.next,
    hash item.id = some flowHash → Remains w.queueDisc flowHash flow.index

def Allowed (w : Numbered S) : NumberedEvent → Prop
  | .enqueue _ _ => Stays disc hash w
  | .dequeue _ _ => True

instance : Decidable (Stays disc hash w) := inferInstanceAs (Decidable (∀ _ ∈ _, _))

instance (w : Numbered S) : (e : NumberedEvent) → Decidable (Allowed disc hash w e)
  | .enqueue _ _ => inferInstanceAs (Decidable (Stays disc hash w))
  | .dequeue _ _ => instDecidableTrue

/-- Nothing was enqueued. -/
def Start : Prop :=
  FqQueueDisc.Start w.queueDisc ∧ w.queueDisc.enableSetAssociativeHash = true ∧ w.next = 0 ∧
    w.out = []

/-- What holds as long as the packets of each flow stay in one queue. -/
structure Kept : Prop where
  indexed : Indexed w.queueDisc
  inOrder : InOrder hash (waiting disc w.queueDisc) w.next w.out

variable {disc hash w} {w' : Numbered S}

theorem Start.kept (start : Start w) : Kept disc hash w := by
  obtain ⟨first, enabled, -, none_out⟩ := start
  have none_waiting : waiting disc w.queueDisc = fun _ => [] := by
    funext place
    unfold waiting
    rw [first.classes]
    rfl
  refine ⟨⟨enabled, fun place flow is => ?_⟩, ?_⟩
  · rw [first.classes] at is
    cases is
  · rw [none_waiting, none_out]
    exact .empty hash w.next

theorem Stays.alone {flowHash place : Nat} (stays : Stays disc hash w)
    (hashed : hash w.next = some flowHash)
    (there : ∀ (other : Nat) (flow : FqFlow S), w.queueDisc.classes[other]? = some flow →
      flow.index = (w.queueDisc.setAssociativeHash flowHash).1 → other = place) :
    ∀ other, ∀ x ∈ waiting disc w.queueDisc other, hash x = hash w.next → other = place := by
  intro other x mem same
  unfold waiting at mem
  cases found : w.queueDisc.classes[other]? with
  | none =>
    rw [found] at mem
    cases mem
  | some flow =>
    rw [found] at mem
    obtain ⟨item, held, rfl⟩ := List.mem_map.mp mem
    have remains := stays flow (mem_of_getElem? found) item held flowHash hashed (same.trans hashed)
    exact there other flow found remains.chosen.symm

theorem Kept.enqueue (kept : Kept disc hash w) (stays : Stays disc hash w) {now : Int}
    {item : QueueDiscItem} {accepted : Bool} {s' : FqQueueDisc S}
    (h : w.queueDisc.doEnqueue disc now (hash w.next) { item with id := w.next } =
      some (accepted, s')) :
    Kept disc hash { w with queueDisc := s', next := w.next + 1 } := by
  cases hashed : hash w.next with
  | none =>
    rw [hashed] at h
    cases h
    exact ⟨kept.indexed, kept.inOrder.skip⟩
  | some flowHash =>
    rw [hashed] at h
    obtain ⟨stored, here, h⟩ := bind_eq_some_iff.mp h
    obtain ⟨indexed, place, there, joins⟩ := enqueueFlow_waiting kept.indexed here
    have inOrder : InOrder hash (waiting disc stored) (w.next + 1) w.out := by
      rcases joins with same | more
      · rw [same]
        exact kept.inOrder.skip
      · rw [more]
        exact kept.inOrder.append (stays.alone hashed there)
    split at h
    · obtain ⟨after, dropped, h⟩ := bind_eq_some_iff.mp h
      cases h
      have trims := fqDrop_trims indexed dropped
      exact ⟨trims.indexed, inOrder.trim trims.fewer⟩
    · cases h
      exact ⟨indexed, inOrder⟩

theorem Kept.dequeue (kept : Kept disc hash w) {now : Int} {rounds : Nat}
    {item : Option QueueDiscItem} {s' : FqQueueDisc S}
    (h : doDequeue disc now rounds w.queueDisc = some (item, s')) :
    Kept disc hash { w with queueDisc := s', out := (item.map (·.id)).toList ++ w.out } := by
  have yields := doDequeue_yields kept.indexed h
  cases item with
  | none => exact ⟨yields.indexed, kept.inOrder.trim yields.fewer⟩
  | some item =>
    obtain ⟨indexed, trimmed, fewer, place, rest, is, after⟩ := yields
    refine ⟨indexed, ?_⟩
    rw [after]
    exact kept.inOrder.take fewer is

theorem Kept.step (kept : Kept disc hash w) {e : NumberedEvent} (allowed : Allowed disc hash w e)
    (h : step disc hash w e = some w') : Kept disc hash w' := by
  cases e with
  | enqueue now item =>
    obtain ⟨⟨accepted, s'⟩, here, rfl⟩ := map_eq_some_iff.mp h
    exact kept.enqueue allowed here
  | dequeue now rounds =>
    obtain ⟨⟨item, s'⟩, here, rfl⟩ := map_eq_some_iff.mp h
    exact kept.dequeue here

/-- **The packets of a flow are dequeued in order**, in each run in which a packet that finds
others of its flow waiting comes to their queue. -/
theorem flow_in_order
    (reaches : Machine.Reaches (Numbered.step disc hash) (Allowed disc hash) Start w)
    (flowHash : Nat) : (w.out.filter (hash · = some flowHash)).Pairwise (· > ·) := by
  have kept : Kept disc hash w := by
    apply reaches.invariant (Kept disc hash)
    · exact fun w start => start.kept
    · exact fun w e w' kept allowed here => kept.step allowed here
  exact kept.inOrder.leaves_in_order (some flowHash)

/-- A queue from which nothing is dropped. -/
def fifo : FlowDisc (List QueueDiscItem) where
  create := []
  queue packets := packets
  enqueue now item packets := packets ++ [{ item with timeStamp := now }]
  dequeue _ packets := (packets.head?, packets.tail)
  dropHead packets := packets.tail
  queue_create := rfl
  queue_enqueue _ _ _ := .inr rfl
  queue_dequeue _ packets := by
    cases packets with
    | nil => rfl
    | cons item rest => exact ⟨[], rfl⟩
  queue_dropHead _ := rfl

/-- Two queues that are one set. -/
def oneSet : Numbered (List QueueDiscItem) where
  queueDisc := {
    classes := []
    flowsIndices := fun _ => none
    tags := fun _ => none
    newFlows := []
    oldFlows := []
    quantum := 100
    maxSize := 10240
    flows := 2
    dropBatchSize := 64
    enableSetAssociativeHash := true
    setWays := 2 }

theorem oneSet_start : Start oneSet := ⟨⟨rfl, rfl, rfl, rfl, by decide⟩, rfl, rfl, rfl⟩

/-- The first packet has a flow of its own. -/
def firstApart : Nat → Option Nat := fun number => if number = 0 then some 0 else some 2

def sized (size : Nat) : NumberedEvent := .enqueue 0 ⟨0, size, 0, none, false⟩

/-- Packets of two flows that stay in their queues. -/
theorem flow_in_order_colliding : ∃ w,
    Machine.runAllowed (Numbered.step fifo firstApart) (Allowed fifo firstApart) oneSet
      [sized 50, sized 100, sized 100, .dequeue 0 9, .dequeue 0 9, sized 100, .dequeue 0 9] =
        some w ∧
      w.out = [2, 1, 0] ∧ (w.out.filter (firstApart · = some 2)).Pairwise (· > ·) := by
  have ran : ((Machine.runAllowed (Numbered.step fifo firstApart) (Allowed fifo firstApart) oneSet
      [sized 50, sized 100, sized 100, .dequeue 0 9, .dequeue 0 9, sized 100, .dequeue 0 9]).map
        Numbered.out) = some [2, 1, 0] := by decide +kernel
  obtain ⟨w, run, out⟩ := map_eq_some_iff.mp ran
  exact ⟨w, run, out, flow_in_order (.of_runAllowed (.start oneSet_start) run) 2⟩

/-- The first flow becomes inactive while packets of the second wait in the other queue, and the
next packet of the second overtakes them. -/
theorem flow_overtakes : ∃ w,
    Machine.Reaches (Numbered.step fifo firstApart) (fun _ _ => True) Start w ∧
      ¬ (w.out.filter (firstApart · = some 2)).Pairwise (· > ·) := by
  have ran : ((Machine.runAllowed (Numbered.step fifo firstApart) (fun _ _ => True) oneSet
      [sized 50, sized 100, sized 100, sized 100, sized 100, .dequeue 0 9, .dequeue 0 9,
        .dequeue 0 9, sized 100, .dequeue 0 9, .dequeue 0 9]).map Numbered.out) =
          some [3, 5, 2, 1, 0] := by decide +kernel
  obtain ⟨w, run, out⟩ := map_eq_some_iff.mp ran
  refine ⟨w, .of_runAllowed (.start oneSet_start) run, ?_⟩
  rw [out]
  decide

end Numbered

end Ns3.TrafficControl.FqQueueDisc
