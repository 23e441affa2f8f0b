import Ns3.TrafficControl.FqFlows

/-!
# Enqueues of the flows

A packet goes to the flow of its index, which becomes a new flow when it was
inactive. When there are too many packets the fat flow drops some.
-/

namespace Ns3.TrafficControl.FqQueueDisc

open List

variable {S : Type} {disc : FlowDisc S} {s : FqQueueDisc S} {place : Nat} {flow flow' : FqFlow S}

/-! ## The flow of a packet -/

theorem Keeps.refl (valid : s.Valid disc) : Keeps disc s s := ⟨valid, rfl, rfl, Nat.le_refl _⟩

theorem setAssociativeHash_keeps (valid : s.Valid disc) (flowHash : Nat) :
    Keeps disc s (s.setAssociativeHash flowHash).2 :=
  ⟨{ valid with }, rfl, rfl, Nat.le_refl _⟩

theorem getElem?_snoc {α : Type} {xs : List α} {x y : α} {i : Nat}
    (is : (xs ++ [x])[i]? = some y) : xs[i]? = some y ∨ i = xs.length ∧ y = x := by
  rw [getElem?_append] at is
  split at is
  case isTrue => exact .inl is
  case isFalse beyond =>
    have inside := (List.getElem?_eq_some_iff.mp is).1
    rw [length_singleton] at inside
    have at_end : i = xs.length := by omega
    rw [at_end, Nat.sub_self] at is
    exact .inr ⟨at_end, (Option.some.inj is).symm⟩

theorem FlowValid.create (disc : FlowDisc S) (quantum index : Nat) :
    FlowValid disc quantum { index, queueDisc := disc.create } := by
  constructor
  · exact fun held => absurd disc.queue_create held
  · exact Int.natCast_nonneg _
  · show (-2 ^ 31 : Int) < 0
    decide
  · exact .of_nil disc.queue_create

/-- A flow that is created is inactive, and in no list. -/
theorem Valid.create (valid : s.Valid disc) (h : Nat) : Valid disc { s with
      classes := s.classes ++ [{ index := h, queueDisc := disc.create }]
      flowsIndices := Function.update s.flowsIndices h (some s.classes.length) } := by
  have unlisted : s.newFlows.count s.classes.length + s.oldFlows.count s.classes.length = 0 := by
    by_contra listed
    exact Nat.lt_irrefl _ (valid.inside _ (by omega))
  constructor
  · intro place flow is
    cases getElem?_snoc is with
    | inl before => exact valid.new place flow before
    | inr created =>
      rw [created.1, created.2, if_neg nofun]
      exact (Nat.add_eq_zero_iff.mp unlisted).1
  · intro place flow is
    cases getElem?_snoc is with
    | inl before => exact valid.old place flow before
    | inr created =>
      rw [created.1, created.2, if_neg nofun]
      exact (Nat.add_eq_zero_iff.mp unlisted).2
  · intro place listed
    rw [length_append]
    exact Nat.lt_add_right _ (valid.inside place listed)
  · intro flow mem
    cases mem_append.mp mem with
    | inl held => exact valid.flows flow held
    | inr created =>
      rw [mem_singleton.mp created]
      exact .create disc s.quantum h
  · intro other place is
    dsimp only at is ⊢
    rw [length_append, length_singleton]
    by_cases same : other = h
    · rw [same, Function.update_self] at is
      cases is
      exact Nat.lt_succ_self _
    · rw [Function.update_of_ne same] at is
      exact Nat.lt_succ_of_lt (valid.indices other place is)

theorem flowAt_keeps (valid : s.Valid disc) (h : Nat) : Keeps disc s (s.flowAt disc h).2 ∧
      (s.flowAt disc h).1 < (s.flowAt disc h).2.classes.length := by
  unfold flowAt
  cases index : s.flowsIndices h with
  | some place => exact ⟨.refl valid, valid.indices h place index⟩
  | none =>
    constructor
    · refine ⟨valid.create h, rfl, rfl, ?_⟩
      show ((s.classes ++ [_]).map _).sum ≤ _
      rw [map_append, sum_append, map_singleton, sum_singleton, disc.queue_create]
      exact Nat.le_refl _
    · rw [length_append]
      exact Nat.lt_succ_self _

theorem activate_keeps (valid : s.Valid disc) (small : s.quantum < 2 ^ 31)
    (found : s.classes[place]? = some flow) :
    Keeps disc s (s.activate place flow) ∧
      ∃ flow', (s.activate place flow).classes[place]? = some flow' ∧ flow'.status ≠ .inactive := by
  have flowValid := valid.flows flow (mem_of_getElem? found)
  have new := valid.new place flow found
  have old := valid.old place flow found
  unfold activate
  by_cases inactive : flow.status = .inactive
  · rw [if_pos inactive]
    rw [inactive] at new old
    have quantum : toInt32 s.quantum = s.quantum := toInt32_eq (by omega) (by omega)
    have started : FlowValid disc s.quantum ((flow.setStatus .newFlow).setDeficit s.quantum) := by
      constructor
      · exact fun _ => nofun
      · exact Int.le_of_eq quantum
      · show -2 ^ 31 < toInt32 s.quantum
        rw [quantum]
        omega
      · rw [FqFlow.setDeficit_queueDisc]
        exact flowValid.sized
    have listed := valid.set found (s.newFlows ++ [place]) s.oldFlows
      (fun other ne => ⟨count_snoc_of_ne ne, rfl⟩) (by rw [count_snoc_self, new]; rfl)
      (by rw [old]; rfl) started
    have at_place := (List.getElem?_eq_some_iff.mp found).1
    have same : ((flow.setStatus .newFlow).setDeficit s.quantum).queueDisc = flow.queueDisc :=
      FqFlow.setDeficit_queueDisc _ _
    have keeps := Keeps.of_set found _ _ listed (Nat.le_of_eq (by rw [same]))
    exact ⟨keeps, _, getElem?_set_self at_place,
      nofun⟩
  · rw [if_neg inactive]
    exact ⟨.refl valid, flow, found, inactive⟩

theorem FlowValid.enqueue {quantum : Nat} (flowValid : FlowValid disc quantum flow)
    (active : flow.status ≠ .inactive) (now : Int) {item : QueueDiscItem}
    (small : item.size < 2 ^ 31) :
    FlowValid disc quantum { flow with queueDisc := disc.enqueue now item flow.queueDisc } ∧
      (disc.queue (disc.enqueue now item flow.queueDisc)).length ≤
        (disc.queue flow.queueDisc).length + 1 := by
  have law := disc.queue_enqueue now item flow.queueDisc
  constructor
  · refine ⟨fun _ => active, flowValid.upper, flowValid.lower, ?_⟩
    intro other mem
    cases law with
    | inl dropped =>
      rw [dropped] at mem
      exact flowValid.sized other mem
    | inr stored =>
      rw [stored] at mem
      cases mem_append.mp mem with
      | inl held => exact flowValid.sized other held
      | inr last =>
        obtain rfl := mem_singleton.mp last
        exact small
  · cases law with
    | inl dropped =>
      rw [dropped]
      exact Nat.le_succ _
    | inr stored =>
      exact Nat.le_of_eq (by simp [stored])

/-- What an enqueue keeps before it drops: there is at most one packet more. -/
structure Stores (disc : FlowDisc S) (s s' : FqQueueDisc S) : Prop where
  valid : s'.Valid disc
  quantum : s'.quantum = s.quantum
  maxSize : s'.maxSize = s.maxSize
  fewer : s'.nPackets disc ≤ s.nPackets disc + 1
  classes : s'.classes ≠ []

theorem enqueueFlow_stores (valid : s.Valid disc) (limits : s.Limits) (now : Int) (flowHash : Nat)
    {item : QueueDiscItem} (small : item.size < 2 ^ 31) :
    ∃ s', s.enqueueFlow disc now flowHash item = some s' ∧ Stores disc s s' := by
  unfold enqueueFlow
  obtain ⟨h, hashed, is, hashes⟩ : ∃ h hashed,
      (if s.enableSetAssociativeHash then s.setAssociativeHash flowHash
        else (flowHash % s.flows, s)) = (h, hashed) ∧ Keeps disc s hashed := by
    split
    · exact ⟨_, _, rfl, setAssociativeHash_keeps valid flowHash⟩
    · exact ⟨_, _, rfl, .refl valid⟩
  rw [is]
  dsimp only
  obtain ⟨placed, at_place⟩ := flowAt_keeps hashes.valid h
  generalize hashed.flowAt disc h = at_flow at placed at_place
  obtain ⟨place, there⟩ := at_flow
  dsimp only at placed at_place ⊢
  have keeps := hashes.trans placed
  have found : there.classes[place]? = some there.classes[place] := getElem?_eq_getElem at_place
  obtain ⟨activated, flow, active_found, active⟩ :=
    activate_keeps keeps.valid (keeps.limits limits).2.1 found
  have keeps := keeps.trans activated
  obtain ⟨flowValid, more⟩ :=
    (keeps.valid.flows flow (mem_of_getElem? active_found)).enqueue active now small
  rw [found, Option.bind_eq_bind, Option.bind_some, active_found, Option.bind_some]
  refine ⟨_, rfl, keeps.valid.replace active_found rfl flowValid, keeps.quantum, keeps.maxSize,
    ?_, ?_⟩
  · have count := nPackets_set disc active_found
      { flow with queueDisc := disc.enqueue now item flow.queueDisc }
      (there.activate place there.classes[place]).newFlows
      (there.activate place there.classes[place]).oldFlows
    have fewer := keeps.fewer
    dsimp only at count
    omega
  · intro none_left
    have := congrArg List.length none_left
    rw [length_set] at this
    have inside := (List.getElem?_eq_some_iff.mp active_found).1
    rw [this] at inside
    exact Nat.not_lt_zero _ inside

/-! ## The fat flow drops -/

theorem fatFlow_spec (disc : FlowDisc S) (some_flow : s.classes ≠ []) :
    ∃ flow, s.classes[(s.fatFlow disc).2]? = some flow ∧
      (s.fatFlow disc).1 ≤ nBytes disc flow.queueDisc := by
  unfold fatFlow
  have starts : ∃ flow, s.classes[(0, 0).2]? = some flow ∧ (0, 0).1 ≤ nBytes disc flow.queueDisc :=
    ⟨_, getElem?_eq_getElem (length_pos_iff.mpr some_flow), Nat.zero_le _⟩
  have from_classes : ∀ x ∈ s.classes.zipIdx, s.classes[x.2]? = some x.1 :=
    fun x mem => mem_zipIdx_iff_getElem?.mp mem
  generalize s.classes.zipIdx = xs at from_classes
  generalize (0, 0) = best at starts
  induction xs generalizing best with
  | nil => exact starts
  | cons x xs ih =>
    rw [foldl_cons]
    apply ih
    · exact fun y mem => from_classes y (mem_cons_of_mem _ mem)
    · dsimp only
      split
      · exact ⟨x.1, from_classes x mem_cons_self, Nat.mod_le _ _⟩
      · exact starts

/-- The loop drops packets until there are enough, at the latest all of them. -/
theorem dropPackets_drops (dropBatchSize threshold : Nat) {rounds : Nat} (count len : Nat)
    {queueDisc : S}
    (held : disc.queue queueDisc ≠ []) (enough : (disc.queue queueDisc).length ≤ rounds)
    (small : len + nBytes disc queueDisc < 2 ^ 32)
    (reached : threshold ≤ len + nBytes disc queueDisc) :
    ∃ after front, dropPackets disc dropBatchSize threshold rounds count len queueDisc =
      some after ∧ disc.queue queueDisc = front ++ disc.queue after ∧ front ≠ [] := by
  induction rounds generalizing count len queueDisc with
  | zero =>
    rw [Nat.le_zero, length_eq_zero_iff] at enough
    exact absurd enough held
  | succ rounds ih =>
    cases queue : disc.queue queueDisc with
    | nil => exact absurd queue held
    | cons item rest =>
      have dropped : disc.queue (disc.dropHead queueDisc) = rest := by
        simp [disc.queue_dropHead, queue]
      have bytes : nBytes disc queueDisc = item.size + nBytes disc (disc.dropHead queueDisc) := by
        unfold nBytes
        simp [dropped, queue]
      have fits : (len + item.size) % 2 ^ 32 = len + item.size := Nat.mod_eq_of_lt (by omega)
      unfold dropPackets
      rw [queue, head?_cons, Option.bind_eq_bind, Option.bind_some]
      dsimp only
      rw [fits]
      split
      case isTrue more =>
        have left : disc.queue (disc.dropHead queueDisc) ≠ [] := by
          intro none_left
          have zero : nBytes disc (disc.dropHead queueDisc) = 0 := by
            unfold nBytes
            rw [none_left]
            rfl
          omega
        obtain ⟨after, front, here, is, -⟩ := ih ((count + 1) % 2 ^ 32) (len + item.size) left
          (by rw [dropped]; rw [queue, length_cons] at enough; omega) (by omega) (by omega)
        exact ⟨after, item :: front, here, by simp [← dropped, is], nofun⟩
      case isFalse =>
        exact ⟨_, [item], rfl, by simp [dropped], nofun⟩

/-- The flow with the most bytes has a packet, and less than 4 GiB. -/
def FatHasPacket (disc : FlowDisc S) (s : FqQueueDisc S) : Prop :=
  ∀ flow ∈ s.classes[(s.fatFlow disc).2]?,
    disc.queue flow.queueDisc ≠ [] ∧ nBytes disc flow.queueDisc < 2 ^ 32

instance : Decidable (FatHasPacket disc s) :=
  inferInstanceAs (Decidable (∀ flow ∈ s.classes[(s.fatFlow disc).2]?, _))

theorem fqDrop_drops (valid : s.Valid disc) (some_flow : s.classes ≠ [])
    (fat : FatHasPacket disc s) :
    ∃ s', s.fqDrop disc = some s' ∧ Keeps disc s s' ∧ s'.nPackets disc < s.nPackets disc := by
  obtain ⟨flow, found, most⟩ := fatFlow_spec disc some_flow
  obtain ⟨held, small⟩ := fat flow found
  have flowValid := valid.flows flow (mem_of_getElem? found)
  obtain ⟨after, front, dropped, is, some_dropped⟩ :=
    dropPackets_drops s.dropBatchSize ((s.fatFlow disc).1 / 2) 0 0 held
      (Nat.le_refl _) (by omega) (by omega)
  have active := flowValid.backlog held
  have kept : FlowValid disc s.quantum { flow with queueDisc := after } :=
    flowValid.of_append active is
  have count := nPackets_set disc found { flow with queueDisc := after } s.newFlows s.oldFlows
  have shorter := congrArg List.length is
  rw [length_append] at shorter
  have pos := length_pos_iff.mpr some_dropped
  refine ⟨{ s with classes := s.classes.set (s.fatFlow disc).2 { flow with queueDisc := after } },
    ?_, ⟨valid.replace found rfl kept, rfl, rfl, ?_⟩, ?_⟩
  · unfold fqDrop
    dsimp only
    rw [found, Option.bind_eq_bind, Option.bind_some, dropped]
    rfl
  · dsimp only at count
    omega
  · dsimp only at count
    omega

end Ns3.TrafficControl.FqQueueDisc
