import Ns3.TrafficControl.FqQueueDisc

/-!
# The lists of flows

Each flow stands in the list of its status. What is stored is counted and the
rounds of a dequeue are bounded over the classes.
-/

namespace Ns3.TrafficControl.FqQueueDisc

open List

variable {S : Type} (disc : FlowDisc S)

/-- The sizes fit the deficit. -/
def Sized (queueDisc : S) : Prop := ∀ item ∈ disc.queue queueDisc, item.size < 2 ^ 31

structure FlowValid (quantum : Nat) (flow : FqFlow S) : Prop where
  backlog : disc.queue flow.queueDisc ≠ [] → flow.status ≠ .inactive
  upper : flow.deficit ≤ quantum
  lower : -2 ^ 31 < flow.deficit
  sized : Sized disc flow.queueDisc

structure Valid (s : FqQueueDisc S) : Prop where
  /-- A new flow is once in the list of new flows, another is not. -/
  new : ∀ place flow, s.classes[place]? = some flow →
    s.newFlows.count place = if flow.status = .newFlow then 1 else 0
  old : ∀ place flow, s.classes[place]? = some flow →
    s.oldFlows.count place = if flow.status = .oldFlow then 1 else 0
  inside : ∀ place, 0 < s.newFlows.count place + s.oldFlows.count place → place < s.classes.length
  flows : ∀ flow ∈ s.classes, FlowValid disc s.quantum flow
  indices : ∀ h place, s.flowsIndices h = some place → place < s.classes.length

/-- A quantum that is positive in 32 bits, and a maximum that can be exceeded. -/
def Limits (s : FqQueueDisc S) : Prop :=
  0 < s.quantum ∧ s.quantum < 2 ^ 31 ∧ s.maxSize + 1 < 2 ^ 32

/-! ## One flow changes -/

theorem toInt32_eq {n : Int} (low : -2 ^ 31 ≤ n) (high : n < 2 ^ 31) : toInt32 n = n := by
  unfold toInt32
  omega

theorem sum_map_set {α : Type} (f : α → Nat) {xs : List α} {i : Nat} {x : α}
    (found : xs[i]? = some x) (y : α) :
    ((xs.set i y).map f).sum + f x = (xs.map f).sum + f y := by
  induction xs generalizing i with
  | nil => cases found
  | cons z xs ih =>
    cases i with
    | zero =>
      cases found
      simp only [set_cons_zero, map_cons, sum_cons]
      omega
    | succ i =>
      have rest := ih found
      simp only [set_cons_succ, map_cons, sum_cons]
      omega

variable {disc} {s : FqQueueDisc S} {place : Nat} {flow flow' : FqFlow S}

theorem nPackets_set (disc : FlowDisc S) (found : s.classes[place]? = some flow)
    (flow' : FqFlow S) (newFlows oldFlows : List Nat) :
    nPackets disc { s with classes := s.classes.set place flow', newFlows, oldFlows } +
      (disc.queue flow.queueDisc).length = nPackets disc s + (disc.queue flow'.queueDisc).length :=
  sum_map_set (fun flow : FqFlow S => (disc.queue flow.queueDisc).length) found flow'

theorem Valid.set (valid : s.Valid disc) (found : s.classes[place]? = some flow)
    (newFlows oldFlows : List Nat)
    (others : ∀ other, other ≠ place → newFlows.count other = s.newFlows.count other ∧
      oldFlows.count other = s.oldFlows.count other)
    (new : newFlows.count place = if flow'.status = .newFlow then 1 else 0)
    (old : oldFlows.count place = if flow'.status = .oldFlow then 1 else 0)
    (flowValid : FlowValid disc s.quantum flow') :
    Valid disc { s with classes := s.classes.set place flow', newFlows, oldFlows } := by
  have at_place := (List.getElem?_eq_some_iff.mp found).1
  constructor
  · intro other other_flow is
    by_cases same : other = place
    · rw [same, getElem?_set_self at_place] at is
      cases is
      rw [same]
      exact new
    · rw [getElem?_set_ne (Ne.symm same)] at is
      rw [(others other same).1]
      exact valid.new other other_flow is
  · intro other other_flow is
    by_cases same : other = place
    · rw [same, getElem?_set_self at_place] at is
      cases is
      rw [same]
      exact old
    · rw [getElem?_set_ne (Ne.symm same)] at is
      rw [(others other same).2]
      exact valid.old other other_flow is
  · intro other listed
    rw [length_set]
    by_cases same : other = place
    · rw [same]
      exact at_place
    · rw [(others other same).1, (others other same).2] at listed
      exact valid.inside other listed
  · intro other mem
    cases mem_or_eq_of_mem_set mem with
    | inl held => exact valid.flows other held
    | inr is =>
      rw [is]
      exact flowValid
  · intro h other is
    rw [length_set]
    exact valid.indices h other is

theorem Valid.replace (valid : s.Valid disc) (found : s.classes[place]? = some flow)
    (status : flow'.status = flow.status) (flowValid : FlowValid disc s.quantum flow') :
    Valid disc { s with classes := s.classes.set place flow' } := by
  apply valid.set found s.newFlows s.oldFlows
  · exact fun _ _ => ⟨rfl, rfl⟩
  · rw [status]
    exact valid.new place flow found
  · rw [status]
    exact valid.old place flow found
  · exact flowValid

variable {rest : List Nat} {quantum : Nat} {queueDisc : S} {s' : FqQueueDisc S}

theorem Valid.head_new (valid : s.Valid disc) (is : s.newFlows = place :: rest) :
    ∃ flow, s.classes[place]? = some flow ∧ flow.status = .newFlow ∧ rest.count place = 0 ∧
      s.oldFlows.count place = 0 := by
  have at_place := valid.inside place (by rw [is, count_cons_self]; omega)
  have new := valid.new place _ (getElem?_eq_getElem at_place)
  have old := valid.old place _ (getElem?_eq_getElem at_place)
  rw [is, count_cons_self] at new
  by_cases status : s.classes[place].status = .newFlow
  · rw [if_pos status] at new
    rw [if_neg (by rw [status]; decide)] at old
    exact ⟨_, getElem?_eq_getElem at_place, status, by omega, old⟩
  · rw [if_neg status] at new
    omega

theorem Valid.head_old (valid : s.Valid disc) (is : s.oldFlows = place :: rest) :
    ∃ flow, s.classes[place]? = some flow ∧ flow.status = .oldFlow ∧ rest.count place = 0 ∧
      s.newFlows.count place = 0 := by
  have at_place := valid.inside place (by rw [is, count_cons_self]; omega)
  have new := valid.new place _ (getElem?_eq_getElem at_place)
  have old := valid.old place _ (getElem?_eq_getElem at_place)
  rw [is, count_cons_self] at old
  by_cases status : s.classes[place].status = .oldFlow
  · rw [if_pos status] at old
    rw [if_neg (by rw [status]; decide)] at new
    exact ⟨_, getElem?_eq_getElem at_place, status, by omega, new⟩
  · rw [if_neg status] at old
    omega

theorem count_snoc_of_ne {xs : List Nat} {x y : Nat} (ne : y ≠ x) :
    (xs ++ [x]).count y = xs.count y := by simp [count_cons_of_ne (Ne.symm ne)]

theorem count_snoc_self (xs : List Nat) (x : Nat) : (xs ++ [x]).count x = xs.count x + 1 := by
  rw [count_append, count_cons_self, count_nil]

theorem Valid.age (valid : s.Valid disc) (is : s.newFlows = place :: rest)
    (status : flow'.status = .oldFlow) (flowValid : FlowValid disc s.quantum flow') :
    Valid disc { s with
      classes := s.classes.set place flow'
      newFlows := rest
      oldFlows := s.oldFlows ++ [place] } := by
  obtain ⟨flow, found, _, rest_count, old_count⟩ := valid.head_new is
  apply valid.set found rest (s.oldFlows ++ [place])
  · intro other ne
    rw [is, count_cons_of_ne (Ne.symm ne), count_snoc_of_ne ne]
    exact ⟨rfl, rfl⟩
  · rw [rest_count, status]
    rfl
  · rw [count_snoc_self, old_count, status]
    rfl
  · exact flowValid

theorem Valid.rotate (valid : s.Valid disc) (is : s.oldFlows = place :: rest)
    (status : flow'.status = .oldFlow) (flowValid : FlowValid disc s.quantum flow') :
    Valid disc { s with
      classes := s.classes.set place flow', oldFlows := rest ++ [place] } := by
  obtain ⟨flow, found, _, rest_count, new_count⟩ := valid.head_old is
  apply valid.set found s.newFlows (rest ++ [place])
  · intro other ne
    rw [is, count_cons_of_ne (Ne.symm ne), count_snoc_of_ne ne]
    exact ⟨rfl, rfl⟩
  · rw [new_count, status]
    rfl
  · rw [count_snoc_self, rest_count, status]
    rfl
  · exact flowValid

theorem Valid.retire (valid : s.Valid disc) (is : s.oldFlows = place :: rest)
    (status : flow'.status = .inactive) (flowValid : FlowValid disc s.quantum flow') :
    Valid disc { s with classes := s.classes.set place flow', oldFlows := rest } := by
  obtain ⟨flow, found, _, rest_count, new_count⟩ := valid.head_old is
  apply valid.set found s.newFlows rest
  · intro other ne
    rw [is, count_cons_of_ne (Ne.symm ne)]
    exact ⟨rfl, rfl⟩
  · rw [new_count, status]
    rfl
  · rw [rest_count, status]
    rfl
  · exact flowValid

/-! ## Rounds of a dequeue -/

/-- A bound of the rounds: each gives a quantum, makes a flow old or takes one from the lists. -/
def roundsLeft (s : FqQueueDisc S) : Nat :=
  (s.classes.map fun flow => (1 - flow.deficit).toNat).sum + 2 * s.newFlows.length +
    s.oldFlows.length

theorem increaseDeficit_quantum (flowValid : FlowValid disc quantum flow) (small : quantum < 2 ^ 31)
    (spent : flow.deficit ≤ 0) :
    (flow.increaseDeficit quantum).deficit = flow.deficit + quantum := by
  have lower := flowValid.lower
  unfold FqFlow.increaseDeficit
  rw [toInt32_eq (n := (quantum : Int)) (by omega) (by omega), toInt32_eq (by omega) (by omega)]

theorem FlowValid.again (flowValid : FlowValid disc quantum flow) (pos : 0 < quantum)
    (small : quantum < 2 ^ 31) (spent : flow.deficit ≤ 0) :
    FlowValid disc quantum ((flow.increaseDeficit quantum).setStatus .oldFlow) ∧
      (1 - (flow.increaseDeficit quantum).deficit).toNat < (1 - flow.deficit).toNat := by
  have lower := flowValid.lower
  have sum := increaseDeficit_quantum flowValid small spent
  constructor
  · constructor
    · intro _ is
      cases is
    · show (flow.increaseDeficit quantum).deficit ≤ quantum
      omega
    · show -2 ^ 31 < (flow.increaseDeficit quantum).deficit
      omega
    · exact flowValid.sized
  · omega

theorem Sized.of_append {before after : S} {front : List QueueDiscItem}
    (sized : Sized disc before) (is : disc.queue before = front ++ disc.queue after) :
    Sized disc after := by
  intro item mem
  apply sized
  rw [is]
  exact mem_append_right _ mem

theorem Sized.of_nil (empty : disc.queue queueDisc = []) : Sized disc queueDisc := by
  intro item mem
  rw [empty] at mem
  cases mem

theorem FlowValid.of_append {front : List QueueDiscItem} (flowValid : FlowValid disc quantum flow)
    (active : flow.status ≠ .inactive)
    (is : disc.queue flow.queueDisc = front ++ disc.queue queueDisc) :
    FlowValid disc quantum { flow with queueDisc } :=
  ⟨fun _ => active, flowValid.upper, flowValid.lower, flowValid.sized.of_append is⟩

/-- What a step keeps of the disc, when it leaves no more packets than there were. -/
structure Keeps (disc : FlowDisc S) (s s' : FqQueueDisc S) : Prop where
  valid : s'.Valid disc
  quantum : s'.quantum = s.quantum
  maxSize : s'.maxSize = s.maxSize
  fewer : s'.nPackets disc ≤ s.nPackets disc

theorem Keeps.trans {s'' : FqQueueDisc S} (first : Keeps disc s s') (next : Keeps disc s' s'') :
    Keeps disc s s'' :=
  ⟨next.valid, next.quantum.trans first.quantum, next.maxSize.trans first.maxSize,
    Nat.le_trans next.fewer first.fewer⟩

theorem Keeps.limits (keeps : Keeps disc s s') (limits : s.Limits) : s'.Limits := by
  unfold Limits
  rw [keeps.quantum, keeps.maxSize]
  exact limits

theorem serve_cases (disc : FlowDisc S) (now : Int) (s : FqQueueDisc S) (place : Nat)
    (flow : FqFlow S) (empty : FqFlow S → FqQueueDisc S) :
    (∃ queueDisc, disc.queue queueDisc = [] ∧
      s.serve disc now place flow empty = .again (empty { flow with queueDisc })) ∨
    ∃ item queueDisc dropped, disc.queue flow.queueDisc = dropped ++ item :: disc.queue queueDisc ∧
      s.serve disc now place flow empty = .done (some item) { s with
        classes := s.classes.set place
          ({ flow with queueDisc }.increaseDeficit (-item.size)) } := by
  have law := disc.queue_dequeue now flow.queueDisc
  unfold serve
  cases dequeued : disc.dequeue now flow.queueDisc with
  | mk item queueDisc =>
    rw [dequeued] at law
    cases item with
    | none =>
      left
      exact ⟨queueDisc, law, rfl⟩
    | some item =>
      right
      obtain ⟨dropped, is⟩ := law
      exact ⟨item, queueDisc, dropped, is, rfl⟩

theorem FlowValid.pay {item : QueueDiscItem} {dropped : List QueueDiscItem}
    (flowValid : FlowValid disc quantum flow) (active : flow.status ≠ .inactive)
    (small : quantum < 2 ^ 31) (credit : 0 < flow.deficit)
    (is : disc.queue flow.queueDisc = dropped ++ item :: disc.queue queueDisc) :
    FlowValid disc quantum ({ flow with queueDisc }.increaseDeficit (-item.size)) := by
  have upper := flowValid.upper
  have size : item.size < 2 ^ 31 := by
    apply flowValid.sized
    rw [is]
    exact mem_append_right _ mem_cons_self
  have paid : toInt32 (flow.deficit + toInt32 (-item.size)) = flow.deficit - item.size := by
    rw [toInt32_eq (n := -(item.size : Int)) (by omega) (by omega),
      toInt32_eq (by omega) (by omega)]
    omega
  constructor
  · exact fun _ => active
  · show toInt32 (flow.deficit + toInt32 (-item.size)) ≤ quantum
    rw [paid]
    omega
  · show -2 ^ 31 < toInt32 (flow.deficit + toInt32 (-item.size))
    rw [paid]
    omega
  · have rest : disc.queue flow.queueDisc = (dropped ++ [item]) ++ disc.queue queueDisc := by
      simp [is]
    exact flowValid.sized.of_append rest

/-- What a round comes to: the next round has fewer left, a packet was taken, or there is none. -/
def TurnValid (disc : FlowDisc S) (s : FqQueueDisc S) : Turn S → Prop
  | .again s' => Keeps disc s s' ∧ roundsLeft s' < roundsLeft s
  | .done item s' => Keeps disc s s' ∧ (item = none → s'.nPackets disc = 0)

/-- A flow that is in its list is replaced by one that holds no more packets. -/
theorem Keeps.of_set (found : s.classes[place]? = some flow) (newFlows oldFlows : List Nat)
    (valid : Valid disc { s with classes := s.classes.set place flow', newFlows, oldFlows })
    (fewer : (disc.queue flow'.queueDisc).length ≤ (disc.queue flow.queueDisc).length) :
    Keeps disc s { s with classes := s.classes.set place flow', newFlows, oldFlows } := by
  have count := nPackets_set disc found flow' newFlows oldFlows
  exact ⟨valid, rfl, rfl, by omega⟩

theorem roundsLeft_set (found : s.classes[place]? = some flow) (flow' : FqFlow S)
    (newFlows oldFlows : List Nat) :
    roundsLeft { s with classes := s.classes.set place flow', newFlows, oldFlows } +
        (1 - flow.deficit).toNat + 2 * s.newFlows.length + s.oldFlows.length =
      roundsLeft s + (1 - flow'.deficit).toNat + 2 * newFlows.length + oldFlows.length := by
  have sum := sum_map_set (fun flow : FqFlow S => (1 - flow.deficit).toNat) found flow'
  unfold roundsLeft
  dsimp only at sum ⊢
  omega

theorem Valid.empty (valid : s.Valid disc) (noNew : s.newFlows = []) (noOld : s.oldFlows = []) :
    s.nPackets disc = 0 := by
  unfold nPackets
  rw [List.sum_eq_zero_iff_forall_eq_nat]
  intro n mem
  obtain ⟨flow, held, rfl⟩ := mem_map.mp mem
  obtain ⟨place, found⟩ := mem_iff_getElem?.mp held
  by_contra some_packet
  have active := (valid.flows flow held).backlog (by
    intro none_left
    rw [none_left] at some_packet
    exact some_packet rfl)
  have new := valid.new place flow found
  have old := valid.old place flow found
  rw [noNew, count_nil] at new
  rw [noOld, count_nil] at old
  cases status : flow.status with
  | inactive => exact active status
  | newFlow =>
    rw [if_pos status] at new
    omega
  | oldFlow =>
    rw [if_pos status] at old
    omega

variable (now : Int)

theorem turn_new_eq (is : s.newFlows = place :: rest) (found : s.classes[place]? = some flow) :
    s.turn disc now = some (
      if flow.deficit ≤ 0 then
        .again { s with
          classes := s.classes.set place ((flow.increaseDeficit s.quantum).setStatus .oldFlow)
          newFlows := rest, oldFlows := s.oldFlows ++ [place] }
      else s.serve disc now place flow fun flow => { s with
        classes := s.classes.set place (flow.setStatus .oldFlow)
        newFlows := rest, oldFlows := s.oldFlows ++ [place] }) := by
  unfold turn
  rw [is]
  dsimp only
  rw [found, Option.bind_eq_bind, Option.bind_some]
  split <;> rfl

theorem turn_old_eq (noNew : s.newFlows = []) (is : s.oldFlows = place :: rest)
    (found : s.classes[place]? = some flow) :
    s.turn disc now = some (
      if flow.deficit ≤ 0 then
        .again { s with
          classes := s.classes.set place (flow.increaseDeficit s.quantum)
          oldFlows := rest ++ [place] }
      else s.serve disc now place flow fun flow => { s with
        classes := s.classes.set place (flow.setStatus .inactive), oldFlows := rest }) := by
  unfold turn
  split
  case h_1 new =>
    rw [noNew] at new
    cases new
  case h_2 old =>
    rw [is] at old
    cases old
    rw [found, Option.bind_eq_bind, Option.bind_some]
    split <;> rfl
  case h_3 old =>
    rw [is] at old
    cases old

/-- A flow with credit is served, or goes on to where a flow without a packet goes. -/
theorem serve_valid (valid : s.Valid disc) (limits : s.Limits) (found : s.classes[place]? = some flow)
    (active : flow.status ≠ .inactive) (credit : 0 < flow.deficit) {status : FlowStatus}
    {newFlows oldFlows : List Nat}
    (moved : ∀ flow', flow'.status = status → FlowValid disc s.quantum flow' →
      Valid disc { s with classes := s.classes.set place flow', newFlows, oldFlows })
    (fewer : 2 * newFlows.length + oldFlows.length < 2 * s.newFlows.length + s.oldFlows.length) :
    TurnValid disc s (s.serve disc now place flow fun flow => { s with
      classes := s.classes.set place (flow.setStatus status), newFlows, oldFlows }) := by
  have flowValid := valid.flows flow (mem_of_getElem? found)
  cases serve_cases disc now s place flow fun flow => { s with
      classes := s.classes.set place (flow.setStatus status), newFlows, oldFlows } with
  | inl empty =>
    obtain ⟨queueDisc, none_left, served⟩ := empty
    have gone : FlowValid disc s.quantum ({ flow with queueDisc }.setStatus status) :=
      ⟨fun held => absurd none_left held, flowValid.upper, flowValid.lower, .of_nil none_left⟩
    have left := roundsLeft_set found ({ flow with queueDisc }.setStatus status) newFlows oldFlows
    rw [served]
    refine ⟨Keeps.of_set found _ _ (moved _ rfl gone) ?_, ?_⟩
    · show (disc.queue queueDisc).length ≤ _
      rw [none_left]
      exact Nat.zero_le _
    · change _ = _ + (1 - flow.deficit).toNat + _ + _ at left
      omega
  | inr sent =>
    obtain ⟨item, queueDisc, dropped, queue, served⟩ := sent
    have paid := flowValid.pay active limits.2.1 credit queue
    rw [served]
    refine ⟨Keeps.of_set found _ _ (valid.replace found rfl paid) ?_, nofun⟩
    show (disc.queue queueDisc).length ≤ _
    rw [queue, length_append, length_cons]
    omega

theorem turn_new (valid : s.Valid disc) (limits : s.Limits) (is : s.newFlows = place :: rest) :
    ∃ t, s.turn disc now = some t ∧ TurnValid disc s t := by
  obtain ⟨flow, found, status, -, -⟩ := valid.head_new is
  have flowValid := valid.flows flow (mem_of_getElem? found)
  have active : flow.status ≠ .inactive := by
    rw [status]
    decide
  rw [turn_new_eq now is found]
  by_cases spent : flow.deficit ≤ 0
  · rw [if_pos spent]
    obtain ⟨again, less⟩ := flowValid.again limits.1 limits.2.1 spent
    have left := roundsLeft_set found ((flow.increaseDeficit s.quantum).setStatus .oldFlow)
      rest (s.oldFlows ++ [place])
    refine ⟨_, rfl, Keeps.of_set found _ _ (valid.age is rfl again) (Nat.le_refl _), ?_⟩
    rw [is, length_cons, length_append, length_singleton] at left
    change _ = _ + (1 - (flow.increaseDeficit s.quantum).deficit).toNat + _ + _ at left
    omega
  · rw [if_neg spent]
    refine ⟨_, rfl, serve_valid now valid limits found active (by omega)
      (fun _ old => valid.age is old) ?_⟩
    rw [is, length_cons, length_append, length_singleton]
    omega

theorem turn_old (valid : s.Valid disc) (limits : s.Limits) (noNew : s.newFlows = [])
    (is : s.oldFlows = place :: rest) :
    ∃ t, s.turn disc now = some t ∧ TurnValid disc s t := by
  obtain ⟨flow, found, status, -, -⟩ := valid.head_old is
  have flowValid := valid.flows flow (mem_of_getElem? found)
  have active : flow.status ≠ .inactive := by
    rw [status]
    decide
  rw [turn_old_eq now noNew is found]
  by_cases spent : flow.deficit ≤ 0
  · rw [if_pos spent]
    obtain ⟨again, less⟩ := flowValid.again limits.1 limits.2.1 spent
    have same : (flow.increaseDeficit s.quantum).setStatus .oldFlow =
        flow.increaseDeficit s.quantum := by
      rw [← status]
      rfl
    rw [same] at again
    have old : (flow.increaseDeficit s.quantum).status = .oldFlow := status
    have left := roundsLeft_set found (flow.increaseDeficit s.quantum) s.newFlows (rest ++ [place])
    refine ⟨_, rfl, Keeps.of_set found _ _ (valid.rotate is old again) (Nat.le_refl _), ?_⟩
    rw [is, length_cons, length_append, length_singleton] at left
    omega
  · rw [if_neg spent]
    refine ⟨_, rfl, serve_valid now valid limits found active (by omega)
      (fun _ gone => valid.retire is gone) ?_⟩
    rw [is, length_cons]
    omega

theorem turn_valid (valid : s.Valid disc) (limits : s.Limits) :
    ∃ t, s.turn disc now = some t ∧ TurnValid disc s t := by
  cases new : s.newFlows with
  | cons place rest => exact turn_new now valid limits new
  | nil =>
    cases old : s.oldFlows with
    | cons place rest => exact turn_old now valid limits new old
    | nil =>
      refine ⟨.done none s, ?_, ⟨valid, rfl, rfl, Nat.le_refl _⟩, fun _ => valid.empty new old⟩
      unfold turn
      simp only [new, old]
      rfl

theorem doDequeue_again (rounds : Nat) (here : s.turn disc now = some (.again s')) :
    doDequeue disc now (rounds + 1) s = doDequeue disc now rounds s' := by
  rw [doDequeue, here]
  rfl

theorem doDequeue_done (rounds : Nat) {item : Option QueueDiscItem}
    (here : s.turn disc now = some (.done item s')) :
    doDequeue disc now (rounds + 1) s = some (item, s') := by
  rw [doDequeue, here]
  rfl

theorem doDequeue_ends (valid : s.Valid disc) (limits : s.Limits) :
    ∃ rounds result, doDequeue disc now rounds s = some result := by
  induction left : roundsLeft s using Nat.strongRecOn generalizing s with
  | ind n ih =>
    obtain ⟨t, here, turned⟩ := turn_valid now valid limits
    cases t with
    | done item s' => exact ⟨1, (item, s'), doDequeue_done now 0 here⟩
    | again s' =>
      obtain ⟨keeps, less⟩ := turned
      obtain ⟨rounds, result, rest⟩ := ih _ (left ▸ less) keeps.valid (keeps.limits limits) rfl
      exact ⟨rounds + 1, result, (doDequeue_again now rounds here).trans rest⟩

/-- A dequeue that ends keeps the disc, and returns null when no packet is left. -/
theorem doDequeue_keeps {rounds : Nat} {item : Option QueueDiscItem} (valid : s.Valid disc)
    (limits : s.Limits) (h : doDequeue disc now rounds s = some (item, s')) :
    Keeps disc s s' ∧ (item = none → s'.nPackets disc = 0) := by
  induction rounds generalizing s with
  | zero => cases h
  | succ rounds ih =>
    obtain ⟨t, here, turned⟩ := turn_valid now valid limits
    cases t with
    | done other after =>
      rw [doDequeue_done now rounds here] at h
      cases h
      exact turned
    | again after =>
      rw [doDequeue_again now rounds here] at h
      obtain ⟨keeps, -⟩ := turned
      obtain ⟨later, last⟩ := ih keeps.valid (keeps.limits limits) h
      exact ⟨keeps.trans later, last⟩

end Ns3.TrafficControl.FqQueueDisc
