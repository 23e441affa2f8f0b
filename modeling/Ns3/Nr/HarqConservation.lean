import Ns3.Nr.SchedulerHarq

/-!
# No NACK is forgotten

What a slot retransmits and what it buffers are together the feedbacks it was
given. The downlink always keeps them; the uplink does when symbols are left
before each feedback.
-/

namespace Ns3.Nr

open List Option VarTtiAllocInfo

/-- The processes `keys` were each retransmitted by a DCI of their own or their
feedback was buffered. -/
def Handled {Info : Type} (infoKey : Info → HarqKey) (feedback : List Info) (keys : List HarqKey)
    (s s' : HarqRun Info) : Prop :=
  ∃ placed buffered, s'.slotAlloc.varTtiAllocInfo.Perm (s.slotAlloc.varTtiAllocInfo ++ placed) ∧
    s'.harqToRetransmit = s.harqToRetransmit ++ buffered ∧
    (placed.map key ++ buffered.map infoKey).Perm keys ∧
    ∀ info ∈ buffered, info ∈ feedback

namespace Handled

variable {Info : Type} {infoKey : Info → HarqKey} {feedback : List Info}
variable {keys keys' : List HarqKey} {s s' t : HarqRun Info}

theorem refl (s : HarqRun Info) : Handled infoKey feedback [] s s :=
  ⟨[], [], by simp, by simp, by simp, nofun⟩

theorem perm (same : keys.Perm keys') (h : Handled infoKey feedback keys s s') :
    Handled infoKey feedback keys' s s' := by
  obtain ⟨placed, buffered, slot, retransmit, all, known⟩ := h
  exact ⟨placed, buffered, slot, retransmit, all.trans same, known⟩

theorem placed {alloc : VarTtiAllocInfo} {key : HarqKey} (same : alloc.key = key)
    (slot : s'.slotAlloc.varTtiAllocInfo.Perm (s.slotAlloc.varTtiAllocInfo ++ [alloc]))
    (retransmit : s'.harqToRetransmit = s.harqToRetransmit) :
    Handled infoKey feedback [key] s s' :=
  ⟨[alloc], [], slot, by simp [retransmit], by simp [same], nofun⟩

theorem buffered {info : Info} (known : info ∈ feedback) (slot : s'.slotAlloc = s.slotAlloc)
    (retransmit : s'.harqToRetransmit = s.harqToRetransmit ++ [info]) :
    Handled infoKey feedback [infoKey info] s s' := by
  refine ⟨[], [info], by simp [slot], retransmit, by simp, ?_⟩
  intro other member
  rw [mem_singleton.mp member]
  exact known

theorem trans (first : Handled infoKey feedback keys s s')
    (second : Handled infoKey feedback keys' s' t) :
    Handled infoKey feedback (keys ++ keys') s t := by
  obtain ⟨placed, buffered, slot, retransmit, all, known⟩ := first
  obtain ⟨placed', buffered', slot', retransmit', all', known'⟩ := second
  refine ⟨placed ++ placed', buffered ++ buffered', ?_, ?_, ?_, ?_⟩
  · rw [← append_assoc]
    exact slot'.trans (slot.append_right placed')
  · rw [retransmit', retransmit, append_assoc]
  · rw [map_append, map_append]
    calc placed.map key ++ placed'.map key ++
          (buffered.map infoKey ++ buffered'.map infoKey)
        = placed.map key ++ (placed'.map key ++
            buffered.map infoKey ++ buffered'.map infoKey) := by simp
      List.Perm _ (placed.map key ++ (buffered.map infoKey ++
            placed'.map key ++ buffered'.map infoKey)) :=
          .append_left _ (.append_right _ perm_append_comm)
      _ = placed.map key ++ buffered.map infoKey ++
            (placed'.map key ++ buffered'.map infoKey) := by simp
      List.Perm _ (keys ++ keys') := all.append all'
  · intro info member
    exact (mem_append.mp member).elim (known info) (known' info)

theorem unique (one : Handled infoKey feedback keys s s')
    (other : Handled infoKey feedback keys' s s') : keys.Perm keys' := by
  obtain ⟨placed, buffered, slot, retransmit, all, _⟩ := one
  obtain ⟨placed', buffered', slot', retransmit', all', _⟩ := other
  have samePlaced : placed.Perm placed' := (perm_append_left_iff _).mp (slot.symm.trans slot')
  have sameBuffered : buffered = buffered' := append_cancel_left (retransmit.symm.trans retransmit')
  rw [sameBuffered] at all
  exact all.symm.trans (((samePlaced.map _).append_right _).trans all')

end Handled

/-! ## Uplink -/

def ulDci (ueMap : UeHarqMap) (key : HarqKey) : Option DciInfoElementTdma := do
  let ue ← ueMap key.1
  let process ← ue.ulHarq key.2
  process.dciElement

/-- The symbols of the transmission that a feedback is about. -/
def ulSymbols (ueMap : UeHarqMap) (info : UlHarqInfo) : Nat :=
  ((ulDci ueMap info.key).map (·.numSym)).getD 0

/-- A NACK of a process of the UE, whose DCI is there. -/
def UlHarqInfo.Ready (ueMap : UeHarqMap) (info : UlHarqInfo) : Prop :=
  info.isReceivedOk = false ∧
  ∃ dci, ulDci ueMap info.key = some dci ∧ dci.rnti = info.rnti ∧ dci.rv ≠ []

/-- The symbols that a retransmission of `numSym` symbols leaves. -/
def leave (symAvail numSym : Nat) : Nat :=
  if numSym ≤ symAvail then symAvail - numSym else symAvail

/-- Some symbol is left before each retransmission. -/
def Room : List Nat → Nat → Prop
  | [], _ => True
  | numSym :: rest, symAvail => 0 < symAvail ∧ Room rest (leave symAvail numSym)

/-- What all retransmissions leave. -/
def symLeft : List Nat → Nat → Nat
  | [], symAvail => symAvail
  | numSym :: rest, symAvail => symLeft rest (leave symAvail numSym)

/-- The first `n` feedbacks that a `uint16_t` index comes to. -/
def turns (feedback : List UlHarqInfo) : Nat → Nat → Option (List UlHarqInfo)
  | 0, _ => some []
  | n + 1, i => do
    let info ← feedback[i]?
    let rest ← turns feedback n ((i + 1) % 2 ^ 16)
    return info :: rest

/-- **Room for all.** Symbols are left before each feedback. From `2 ^ 16` feedbacks on
the index comes back to the first ones. -/
def UlRoom (ueMap : UeHarqMap) (feedback : List UlHarqInfo) (symAvail : Nat) : Prop :=
  if feedback.length < 2 ^ 16 then Room (feedback.map (ulSymbols ueMap)) symAvail
  else ∃ infos, turns feedback feedback.length 0 = some infos ∧
    (infos.map (·.key)).Perm (feedback.map (·.key)) ∧
    Room (infos.map (ulSymbols ueMap)) symAvail ∧
    symLeft (infos.map (ulSymbols ueMap)) symAvail = 0

theorem ulDci_update (ueMap : UeHarqMap) (key other : HarqKey) (ue : NrMacSchedulerUe)
    (process : HarqProcess) (found : ueMap key.1 = some ue) (retx : Nat) :
    ulDci (Function.update ueMap key.1 (some { ue with
        ulHarq := Function.update ue.ulHarq key.2 (some process), ulMRBRetx := retx })) other =
      if other = key then process.dciElement else ulDci ueMap other := by
  unfold ulDci
  by_cases sameUe : other.1 = key.1
  · rw [sameUe, Function.update_self, found]
    by_cases same : other.2 = key.2
    · have eq : other = key := Prod.ext sameUe same
      simp [eq]
    · have ne : other ≠ key := fun eq => same (congrArg Prod.snd eq)
      simp [same, ne]
  · have ne : other ≠ key := fun eq => sameUe (congrArg Prod.fst eq)
    simp [sameUe, ne]

/-- The DCI of a process may only change to one of as many symbols. -/
def SameSymbols (ueMap ueMap' : UeHarqMap) : Prop :=
  ∀ info, info.Ready ueMap → info.Ready ueMap' ∧ ulSymbols ueMap' info = ulSymbols ueMap info

variable {ueMap : UeHarqMap} {key : HarqKey} {feedback infos : List UlHarqInfo}
  {s : HarqRun UlHarqInfo} {bandwidthInRbg i : Nat}

theorem sameSymbols_update {ue : NrMacSchedulerUe} {process : HarqProcess} {retx : Nat}
    {old dci : DciInfoElementTdma} (found : ueMap key.1 = some ue)
    (before : ulDci ueMap key = some old) (after : process.dciElement = some dci)
    (rnti : dci.rnti = old.rnti) (numSym : dci.numSym = old.numSym) (rv : dci.rv ≠ []) :
    SameSymbols ueMap (Function.update ueMap key.1 (some { ue with
        ulHarq := Function.update ue.ulHarq key.2 (some process), ulMRBRetx := retx })) := by
  intro info ⟨nack, dci', present, owner, streams⟩
  have updated := ulDci_update ueMap key info.key ue process found retx
  by_cases same : info.key = key
  · rw [if_pos same, after] at updated
    rw [same, before] at present
    cases present
    constructor
    · exact ⟨nack, dci, updated, rnti.trans owner, rv⟩
    · rw [ulSymbols, ulSymbols, updated, same, before]
      exact numSym
  · rw [if_neg same] at updated
    constructor
    · exact ⟨nack, dci', updated.trans present, owner, streams⟩
    · simp [ulSymbols, updated]

/-- **One feedback.** It is retransmitted or buffered. -/
theorem scheduleUlFeedback_spec (bandwidthInRbg : Nat) {info : UlHarqInfo}
    (ready : info.Ready s.ueMap) (member : info ∈ feedback) :
    ∃ s', scheduleUlFeedback bandwidthInRbg info s = some s' ∧ SameSymbols s.ueMap s'.ueMap ∧
      s'.symAvail = leave s.symAvail (ulSymbols s.ueMap info) ∧
      Handled (·.key) feedback [info.key] s s' := by
  obtain ⟨nack, old, present, owner, streams⟩ := ready
  have stored := present
  simp only [ulDci, bind_eq_bind, bind_eq_some_iff] at stored
  obtain ⟨ue, foundUe, process, foundProcess, element⟩ := stored
  obtain ⟨rv, rvs, rvEq⟩ := exists_cons_of_ne_nil streams
  have size : ulSymbols s.ueMap info = old.numSym := by simp [ulSymbols, present]
  unfold scheduleUlFeedback
  rw [if_neg (by simp [nack])]
  simp only [HarqInfo.key] at foundUe foundProcess
  simp only [foundUe, foundProcess, element, bind_eq_bind, bind_some, rvEq]
  by_cases fits : old.numSym ≤ s.symAvail
  · rw [if_pos fits]
    refine ⟨_, rfl, ?_, ?_, ?_⟩
    · exact sameSymbols_update foundUe present rfl rfl rfl (by simp)
    · simp [leave, size, fits]
    · refine .placed ?_ (perm_append_singleton _ _).symm rfl
      exact Prod.ext owner rfl
  · rw [if_neg fits]
    refine ⟨_, rfl, ?_, ?_, ?_⟩
    · exact sameSymbols_update foundUe present rfl rfl rfl streams
    · simp [leave, size, fits]
    · exact .buffered member rfl rfl

theorem scheduleUlHarq_cases {fuel : Nat} {s' : HarqRun UlHarqInfo}
    (h : scheduleUlHarq bandwidthInRbg feedback fuel i s = some s') :
    (s' = s ∧ (s.symAvail = 0 ∨ feedback.length ≤ i)) ∨
    ∃ rest info next, fuel = rest + 1 ∧ feedback[i]? = some info ∧ 0 < s.symAvail ∧
      scheduleUlFeedback bandwidthInRbg info s = some next ∧
      scheduleUlHarq bandwidthInRbg feedback rest ((i + 1) % 2 ^ 16) next = some s' := by
  unfold scheduleUlHarq at h
  cases entry : feedback[i]? with
  | none =>
    rw [entry] at h
    left
    exact ⟨(Option.some.inj h).symm, .inr (List.getElem?_eq_none_iff.mp entry)⟩
  | some info =>
    rw [entry] at h
    dsimp only at h
    by_cases none : s.symAvail = 0
    · rw [if_pos none] at h
      left
      exact ⟨(Option.some.inj h).symm, .inl none⟩
    · rw [if_neg none] at h
      cases fuel with
      | zero => cases h
      | succ rest =>
        obtain ⟨next, step, tail⟩ := bind_eq_some_iff.mp h
        right
        exact ⟨rest, info, next, rfl, rfl, Nat.pos_of_ne_zero none, step, tail⟩

theorem SameSymbols.map {ueMap' : UeHarqMap} (same : SameSymbols ueMap ueMap')
    (ready : ∀ info ∈ infos, info.Ready ueMap) :
    infos.map (ulSymbols ueMap') = infos.map (ulSymbols ueMap) :=
  map_congr_left fun info member => (same info (ready info member)).2

theorem turns_mem {n : Nat} (h : turns feedback n i = some infos) :
    infos.length = n ∧ ∀ info ∈ infos, info ∈ feedback := by
  induction n generalizing i infos with
  | zero =>
    cases h
    exact ⟨rfl, nofun⟩
  | succ n ih =>
    obtain ⟨info, entry, tail⟩ := bind_eq_some_iff.mp h
    obtain ⟨rest, later, eq⟩ := bind_eq_some_iff.mp tail
    cases eq
    obtain ⟨length, members⟩ := ih later
    constructor
    · simp [length]
    · intro other member
      rcases mem_cons.mp member with rfl | inRest
      · exact mem_of_getElem? entry
      · exact members other inRest

theorem turns_succ {info : UlHarqInfo} {n : Nat} (entry : feedback[i]? = some info)
    (h : turns feedback n ((i + 1) % 2 ^ 16) = some infos) :
    turns feedback (n + 1) i = some (info :: infos) := by
  rw [turns, entry, bind_eq_bind, bind_some, h]
  rfl

/-- Below `2 ^ 16` the index comes to each feedback once. -/
theorem turns_drop (feedback : List UlHarqInfo) (inside : i ≤ feedback.length)
    (short : feedback.length < 2 ^ 16) :
    turns feedback (feedback.drop i).length i = some (feedback.drop i) := by
  induction left : feedback.length - i generalizing i with
  | zero =>
    have past : feedback.drop i = [] := drop_eq_nil_of_le (by omega)
    rw [past]
    rfl
  | succ n ih =>
    have bound : i < feedback.length := by omega
    have more := ih bound (by omega)
    rw [drop_eq_getElem_cons bound, length_cons]
    apply turns_succ (getElem?_eq_getElem bound)
    rw [Nat.mod_eq_of_lt (by omega)]
    exact more

/-- **A run of the loop.** It handles the feedbacks that the index came to. -/
theorem scheduleUlHarq_run {fuel : Nat} {s' : HarqRun UlHarqInfo}
    (ready : ∀ info ∈ feedback, info.Ready s.ueMap) (index : i < 2 ^ 16)
    (h : scheduleUlHarq bandwidthInRbg feedback fuel i s = some s') :
    ∃ infos, turns feedback infos.length i = some infos ∧
      Room (infos.map (ulSymbols s.ueMap)) s.symAvail ∧
      Handled (·.key) feedback (infos.map (·.key)) s s' ∧
      s'.symAvail = symLeft (infos.map (ulSymbols s.ueMap)) s.symAvail ∧
      (s'.symAvail = 0 ∨ feedback.length ≤ (i + infos.length) % 2 ^ 16) := by
  induction fuel generalizing i s with
  | zero =>
    obtain ⟨rfl, stop⟩ | ⟨rest, _, _, fuel, _⟩ := scheduleUlHarq_cases h
    · refine ⟨[], rfl, trivial, .refl s', rfl, ?_⟩
      rw [length_nil, Nat.add_zero, Nat.mod_eq_of_lt index]
      exact stop
    · cases fuel
  | succ fuel ih =>
    obtain ⟨rfl, stop⟩ | ⟨rest, info, next, eq, entry, left, step, tail⟩ :=
      scheduleUlHarq_cases h
    · refine ⟨[], rfl, trivial, .refl s', rfl, ?_⟩
      rw [length_nil, Nat.add_zero, Nat.mod_eq_of_lt index]
      exact stop
    · cases eq
      have member := mem_of_getElem? entry
      obtain ⟨_, same, symbols, avail, handled⟩ :=
        scheduleUlFeedback_spec bandwidthInRbg (ready info member) member
      cases step.symm.trans same
      have later : ∀ info ∈ feedback, info.Ready next.ueMap :=
        fun other inside => (symbols other (ready other inside)).1
      obtain ⟨infos, came, room, all, final, stop⟩ := ih later (Nat.mod_lt _ (by decide)) tail
      have inside := (turns_mem came).2
      have sizes := symbols.map fun other within => ready other (inside other within)
      rw [sizes, avail] at room final
      refine ⟨info :: infos, turns_succ entry came, ⟨left, room⟩, handled.trans all, final, ?_⟩
      apply stop.imp_right
      intro past
      rw [length_cons]
      omega

theorem scheduleUlHarq_nil (bandwidthInRbg fuel : Nat)
    (stop : s.symAvail = 0 ∨ feedback.length ≤ i) :
    scheduleUlHarq bandwidthInRbg feedback fuel i s = some s := by
  unfold scheduleUlHarq
  cases entry : feedback[i]? with
  | none => rfl
  | some info =>
    have bound := (List.getElem?_eq_some_iff.mp entry).1
    exact if_pos (stop.resolve_right (by omega))

/-- With symbols left before each turn, the loop takes all of them. -/
theorem scheduleUlHarq_takes (bandwidthInRbg : Nat) (ready : ∀ info ∈ feedback, info.Ready s.ueMap)
    (index : i < 2 ^ 16)
    (came : turns feedback infos.length i = some infos)
    (room : Room (infos.map (ulSymbols s.ueMap)) s.symAvail)
    (stop : symLeft (infos.map (ulSymbols s.ueMap)) s.symAvail = 0 ∨
      feedback.length ≤ (i + infos.length) % 2 ^ 16) :
    ∃ s', scheduleUlHarq bandwidthInRbg feedback infos.length i s = some s' ∧
      Handled (·.key) feedback (infos.map (·.key)) s s' := by
  induction infos generalizing i s with
  | nil =>
    rw [length_nil, Nat.add_zero, Nat.mod_eq_of_lt index] at stop
    exact ⟨s, scheduleUlHarq_nil bandwidthInRbg 0 stop, .refl s⟩
  | cons info infos ih =>
    obtain ⟨_, entry, tail⟩ := bind_eq_some_iff.mp came
    obtain ⟨_, later, eq⟩ := bind_eq_some_iff.mp tail
    cases eq
    have member := mem_of_getElem? entry
    obtain ⟨next, step, symbols, avail, handled⟩ :=
      scheduleUlFeedback_spec bandwidthInRbg (ready info member) member
    have readyLater : ∀ info ∈ feedback, info.Ready next.ueMap :=
      fun other inside => (symbols other (ready other inside)).1
    have inside := (turns_mem later).2
    have sizes := symbols.map fun other within => ready other (inside other within)
    obtain ⟨s', run, all⟩ := ih readyLater (Nat.mod_lt _ (by decide)) later
      (by rw [sizes, avail]; exact room.2) (by
        rw [sizes, avail]
        apply stop.imp_right
        intro past
        rw [length_cons] at past
        omega)
    refine ⟨s', ?_, handled.trans all⟩
    rw [length_cons, scheduleUlHarq, entry]
    dsimp only
    rw [if_neg (Nat.ne_of_gt room.1), step]
    exact run

/-- **The uplink keeps the NACKs exactly with room for all.** -/
theorem scheduleUlHarq_handles (bandwidthInRbg : Nat)
    (ready : ∀ info ∈ feedback, info.Ready s.ueMap) :
    (∃ fuel s', scheduleUlHarq bandwidthInRbg feedback fuel 0 s = some s' ∧
      Handled (·.key) feedback (feedback.map (·.key)) s s') ↔
    UlRoom s.ueMap feedback s.symAvail := by
  unfold UlRoom
  have whole (short : feedback.length < 2 ^ 16) := turns_drop feedback (Nat.zero_le _) short
  rw [drop_zero] at whole
  constructor
  · rintro ⟨fuel, s', run, all⟩
    obtain ⟨infos, came, room, handled, final, stop⟩ := scheduleUlHarq_run ready (by decide) run
    have same := handled.unique all
    have length := same.length_eq
    rw [length_map, length_map] at length
    rw [length] at came stop
    by_cases short : feedback.length < 2 ^ 16
    · rw [if_pos short]
      cases came.symm.trans (whole short)
      exact room
    · rw [if_neg short]
      refine ⟨infos, came, same, room, ?_⟩
      rw [← final]
      apply stop.resolve_right
      omega
  · intro room
    by_cases short : feedback.length < 2 ^ 16
    · rw [if_pos short] at room
      obtain ⟨s', run, all⟩ := scheduleUlHarq_takes bandwidthInRbg ready (by decide) (whole short)
        room (.inr (by omega))
      exact ⟨_, s', run, all⟩
    · rw [if_neg short] at room
      obtain ⟨infos, came, same, room, final⟩ := room
      have length := (turns_mem came).1
      rw [← length] at came
      obtain ⟨s', run, all⟩ :=
        scheduleUlHarq_takes bandwidthInRbg ready (by decide) came room (.inl final)
      exact ⟨_, s', run, all.perm same⟩

/-! ## Downlink -/

def dlDci (ueMap : UeHarqMap) (key : HarqKey) : Option DciInfoElementTdma := do
  let ue ← ueMap key.1
  let process ← ue.dlHarq key.2
  process.dciElement

/-- The DCI of a transmission of the process `key`. -/
structure DciInfoElementTdma.Sent (dci : DciInfoElementTdma) (bandwidthInRbg : Nat)
    (key : HarqKey) : Prop where
  rnti : dci.rnti = key.1
  process : dci.harqProcess = key.2
  mcs : dci.tbSize.length ≤ dci.mcs.length
  rv : dci.tbSize.length ≤ dci.rv.length
  ndi : dci.tbSize.length ≤ dci.ndi.length
  bitmask : dci.rbgBitmask.length = bandwidthInRbg
  assigned : 1 ∈ dci.rbgBitmask
  symbols : 0 < dci.numSym

/-- The process was sent. -/
def DlReady (bandwidthInRbg : Nat) (ueMap : UeHarqMap) (key : HarqKey) : Prop :=
  ∃ dci, dlDci ueMap key = some dci ∧ dci.Sent bandwidthInRbg key

theorem dlDci_update (ueMap : UeHarqMap) (key other : HarqKey) (ue : NrMacSchedulerUe)
    (process : HarqProcess) (found : ueMap key.1 = some ue) (retx : Nat) :
    dlDci (Function.update ueMap key.1 (some { ue with
        dlHarq := Function.update ue.dlHarq key.2 (some process), dlMRBRetx := retx })) other =
      if other = key then process.dciElement else dlDci ueMap other := by
  unfold dlDci
  by_cases sameUe : other.1 = key.1
  · rw [sameUe, Function.update_self, found]
    by_cases same : other.2 = key.2
    · have eq : other = key := Prod.ext sameUe same
      simp [eq]
    · have ne : other ≠ key := fun eq => same (congrArg Prod.snd eq)
      simp [same, ne]
  · have ne : other ≠ key := fun eq => sameUe (congrArg Prod.fst eq)
    simp [sameUe, ne]

theorem dlReady_update {ue : NrMacSchedulerUe} {process : HarqProcess} {retx : Nat}
    {dci : DciInfoElementTdma} (found : ueMap key.1 = some ue)
    (after : process.dciElement = some dci) (sent : dci.Sent bandwidthInRbg key) {other : HarqKey}
    (ready : DlReady bandwidthInRbg ueMap other) :
    DlReady bandwidthInRbg (Function.update ueMap key.1 (some { ue with
        dlHarq := Function.update ue.dlHarq key.2 (some process), dlMRBRetx := retx })) other := by
  have updated := dlDci_update ueMap key other ue process found retx
  by_cases same : other = key
  · rw [if_pos same, after] at updated
    exact ⟨dci, updated, same ▸ sent⟩
  · rw [if_neg same] at updated
    obtain ⟨old, present, valid⟩ := ready
    exact ⟨old, updated.trans present, valid⟩

theorem bufferHarqFeedback_spec {feedback : List DlHarqInfo} {rnti process : Nat}
    (known : (rnti, process) ∈ feedback.map (·.key)) (toRetransmit : List DlHarqInfo) :
    ∃ info ∈ feedback, info.key = (rnti, process) ∧
      bufferHarqFeedback feedback toRetransmit rnti process = toRetransmit ++ [info] := by
  obtain ⟨wanted, member, key⟩ := List.mem_map.mp known
  unfold bufferHarqFeedback
  cases found : feedback.find? fun info => info.rnti = rnti ∧ info.harqProcessId = process with
  | none =>
    have missing := find?_eq_none.mp found wanted member
    cases key
    simp at missing
  | some info =>
    have matching := find?_some found
    refine ⟨info, mem_of_find?_eq_some found, ?_, rfl⟩
    exact Prod.ext (of_decide_eq_true matching).1 (of_decide_eq_true matching).2

theorem rbgs_within {assigned avail symPerBeam : Nat} (positive : 0 < assigned)
    (fits : assigned ≤ avail * symPerBeam) :
    0 < symPerBeam ∧
    0 < (if assigned % symPerBeam = 0 then assigned / symPerBeam
      else assigned / symPerBeam + 1) ∧
    (if assigned % symPerBeam = 0 then assigned / symPerBeam
      else assigned / symPerBeam + 1) ≤ avail := by
  have some : 0 < symPerBeam := by
    apply Nat.pos_of_ne_zero
    rintro rfl
    omega
  have divided := Nat.div_add_mod assigned symPerBeam
  by_cases even : assigned % symPerBeam = 0
  · rw [if_pos even]
    rw [even, Nat.add_zero] at divided
    refine ⟨some, ?_, ?_⟩
    · apply Nat.pos_of_ne_zero
      intro zero
      rw [zero] at divided
      omega
    · exact Nat.div_le_of_le_mul (by rwa [Nat.mul_comm])
  · rw [if_neg even]
    refine ⟨some, Nat.succ_pos _, ?_⟩
    apply Nat.lt_of_not_le
    intro more
    have := Nat.mul_le_mul_right symPerBeam more
    rw [Nat.mul_comm (assigned / symPerBeam)] at this
    omega

/-- **One process.** It is retransmitted or its feedback is buffered. -/
theorem scheduleDlProcess_spec {symPerBeam : Nat} {feedback : List DlHarqInfo}
    {s : HarqRun DlHarqInfo} (allocatedUe : List Nat) (bandwidth : bandwidthInRbg < 2 ^ 16)
    (sym : symPerBeam < 256) (ready : DlReady bandwidthInRbg s.ueMap key)
    (known : key ∈ feedback.map (·.key)) (inside : s.startingPoint.rbg ≤ bandwidthInRbg) :
    ∃ s' allocated', scheduleDlProcess bandwidthInRbg symPerBeam feedback key s allocatedUe =
        some (s', allocated') ∧
      (∀ other, DlReady bandwidthInRbg s.ueMap other → DlReady bandwidthInRbg s'.ueMap other) ∧
      s'.startingPoint.rbg ≤ bandwidthInRbg ∧
      (allocated' = [] → allocatedUe = [] ∧ s'.startingPoint.rbg = s.startingPoint.rbg) ∧
      Handled (·.key) feedback [key] s s' := by
  obtain ⟨old, present, sent⟩ := ready
  have stored := present
  simp only [dlDci, bind_eq_bind, bind_eq_some_iff] at stored
  obtain ⟨ue, foundUe, process, foundProcess, element⟩ := stored
  unfold scheduleDlProcess
  simp only [foundUe, foundProcess, element, bind_eq_bind, bind_some]
  by_cases full : old.rnti ∈ allocatedUe ∨
      (bandwidthInRbg + 2 ^ 32 - s.startingPoint.rbg) % 2 ^ 32 * symPerBeam % 2 ^ 32 <
        old.rbgBitmask.count 1 * old.numSym
  · rw [if_pos full]
    rw [sent.rnti, sent.process]
    obtain ⟨info, member, same, eq⟩ := bufferHarqFeedback_spec known s.harqToRetransmit
    refine ⟨_, _, rfl, ?_, inside, fun none => ⟨none, rfl⟩, ?_⟩
    · intro other
      exact dlReady_update foundUe rfl sent
    · apply Handled.perm (Perm.of_eq (congrArg (fun k => [k]) same))
      exact .buffered member rfl eq
  · rw [if_neg full]
    obtain ⟨_, fits⟩ := not_or.mp full
    have product : (bandwidthInRbg - s.startingPoint.rbg) * symPerBeam < 2 ^ 16 * 256 :=
      Nat.mul_lt_mul'' (by omega) sym
    have difference : (bandwidthInRbg + 2 ^ 32 - s.startingPoint.rbg) % 2 ^ 32 =
        bandwidthInRbg - s.startingPoint.rbg := by omega
    rw [difference, Nat.mod_eq_of_lt (by omega)] at fits
    have some : 0 < old.rbgBitmask.count 1 * old.numSym :=
      Nat.mul_pos (count_pos_iff.mpr sent.assigned) sent.symbols
    obtain ⟨symbol, atLeast, within⟩ := rbgs_within some (Nat.le_of_not_lt fits)
    generalize (if old.rbgBitmask.count 1 * old.numSym % symPerBeam = 0 then
        old.rbgBitmask.count 1 * old.numSym / symPerBeam
      else old.rbgBitmask.count 1 * old.numSym / symPerBeam + 1) = rbgs at atLeast within ⊢
    simp only [retransmitStreams, sent.mcs, sent.rv, sent.ndi, and_self, if_true,
      bind_some, Nat.ne_of_gt symbol, if_false]
    have enough : ¬ old.rbgBitmask.length < rbgs := by
      rw [sent.bitmask]
      omega
    simp only [enough, sent.rnti, Function.update_self, Function.update_idem]
    refine ⟨_, _, rfl, ?_, ?_, ?_, ?_⟩
    · intro other
      apply dlReady_update foundUe rfl
      constructor
      case rnti => rfl
      case process => exact sent.process
      case mcs => simpa using sent.mcs
      case rv => simpa using sent.rv
      case ndi => simpa using sent.ndi
      case bitmask => simpa using sent.bitmask
      case symbols => exact symbol
      case assigned =>
        apply List.mem_map.mpr
        refine ⟨s.startingPoint.rbg, mem_range.mpr (by rw [sent.bitmask]; omega), ?_⟩
        exact if_pos ⟨Nat.le_refl _, by omega⟩
    · dsimp only
      omega
    · intro none
      cases append_ne_nil_of_right_ne_nil _ (cons_ne_nil _ _) none
    · refine .placed ?_ (.refl _) rfl
      exact Prod.ext rfl sent.process

section
variable {bandwidthInRbg symPerBeam : Nat} {feedback : List DlHarqInfo}
variable (bandwidth : bandwidthInRbg < 2 ^ 16) (sym : symPerBeam < 256)
include bandwidth sym

theorem scheduleDlBeam_spec {keys : List HarqKey} {s : HarqRun DlHarqInfo}
    (allocatedUe : List Nat) (ready : ∀ key ∈ keys, DlReady bandwidthInRbg s.ueMap key)
    (known : ∀ key ∈ keys, key ∈ feedback.map (·.key))
    (inside : s.startingPoint.rbg ≤ bandwidthInRbg) :
    ∃ s' allocated', scheduleDlBeam bandwidthInRbg symPerBeam feedback keys s allocatedUe =
        some (s', allocated') ∧
      (∀ other, DlReady bandwidthInRbg s.ueMap other → DlReady bandwidthInRbg s'.ueMap other) ∧
      (allocated' = [] → allocatedUe = [] ∧ s'.startingPoint.rbg = s.startingPoint.rbg) ∧
      Handled (·.key) feedback keys s s' := by
  induction keys generalizing s allocatedUe with
  | nil => exact ⟨s, allocatedUe, rfl, fun _ => id, fun none => ⟨none, rfl⟩, .refl s⟩
  | cons key keys ih =>
    obtain ⟨next, allocated, step, kept, within, first, handled⟩ :=
      scheduleDlProcess_spec allocatedUe bandwidth sym (ready key mem_cons_self)
        (known key mem_cons_self) inside
    obtain ⟨s', allocated', rest, keptRest, last, all⟩ := ih allocated
      (fun other member => kept other (ready other (mem_cons_of_mem _ member)))
      (fun other member => known other (mem_cons_of_mem _ member)) within
    refine ⟨s', allocated', ?_, ?_, ?_, handled.trans all⟩
    · rw [scheduleDlBeam, step]
      exact rest
    · intro other
      exact keptRest other ∘ kept other
    · intro none
      obtain ⟨empty, same⟩ := last none
      obtain ⟨start, unmoved⟩ := first empty
      exact ⟨start, same.trans unmoved⟩

theorem scheduleDlBeams_spec {beams : List (List HarqKey)} {s : HarqRun DlHarqInfo}
    (ready : ∀ key ∈ beams.flatten, DlReady bandwidthInRbg s.ueMap key)
    (known : ∀ key ∈ beams.flatten, key ∈ feedback.map (·.key))
    (start : s.startingPoint.rbg = 0) :
    ∃ s', scheduleDlBeams bandwidthInRbg symPerBeam feedback beams s = some s' ∧
      Handled (·.key) feedback beams.flatten s s' := by
  induction beams generalizing s with
  | nil => exact ⟨s, rfl, .refl s⟩
  | cons beam beams ih =>
    obtain ⟨next, allocated, run, kept, unmoved, handled⟩ := scheduleDlBeam_spec bandwidth sym []
        (fun key member => ready key (mem_append_left _ member))
        (fun key member => known key (mem_append_left _ member)) (by omega)
    have later (moved : HarqRun DlHarqInfo) (ueMap : moved.ueMap = next.ueMap)
        (rbg : moved.startingPoint.rbg = 0) (before : Handled (·.key) feedback beam s moved) :
        ∃ s', scheduleDlBeams bandwidthInRbg symPerBeam feedback beams moved = some s' ∧
          Handled (·.key) feedback (beam ++ beams.flatten) s s' := by
      obtain ⟨s', rest, all⟩ := ih
        (fun key member => ueMap ▸ kept key (ready key (mem_append_right beam member)))
        (fun key member => known key (mem_append_right beam member)) rbg
      exact ⟨s', rest, before.trans all⟩
    rw [scheduleDlBeams, run]
    dsimp only [bind_eq_bind, bind_some]
    by_cases none : allocated = []
    · rw [if_pos none]
      exact later next rfl ((unmoved none).2.trans start) handled
    · rw [if_neg none]
      exact later _ rfl rfl handled

end

/-- The map that `ScheduleDlHarq` reads: `SortDlHarq` reorders the processes of each beam, and
a hash map gives the beams in any order. -/
def Arranged (active arranged : ActiveHarqMap) : Prop :=
  ∃ sorted, List.Forall₂ (fun entry entry' => entry'.1 = entry.1 ∧ entry'.2.Perm entry.2)
    active sorted ∧ arranged.Perm sorted

theorem Arranged.perm {active arranged : ActiveHarqMap} (h : Arranged active arranged) :
    (arranged.map Prod.snd).flatten.Perm (active.map Prod.snd).flatten := by
  obtain ⟨sorted, entries, order⟩ := h
  apply (order.map Prod.snd).flatten.trans
  clear order
  induction entries with
  | nil => exact .refl _
  | cons entry _ ih => exact entry.2.append ih

theorem insertActive_perm (beam : Nat × Nat) (key : HarqKey) (active : ActiveHarqMap) :
    ((insertActive beam key active).map Prod.snd).flatten.Perm
      ((active.map Prod.snd).flatten ++ [key]) := by
  induction active with
  | nil => exact .refl _
  | cons entry rest ih =>
    unfold insertActive
    split
    · simp only [map_cons, flatten_cons, append_assoc]
      exact .append_left _ perm_append_comm
    · simp only [map_cons, flatten_cons, append_assoc]
      exact .append_left _ ih

theorem computeActiveHarq_spec {feedback : List DlHarqInfo} (active : ActiveHarqMap)
    (ready : ∀ info ∈ feedback, DlReady bandwidthInRbg ueMap info.key) :
    ∃ active', computeActiveHarq ueMap feedback active = some active' ∧
      (active'.map Prod.snd).flatten.Perm
        ((active.map Prod.snd).flatten ++ feedback.map (·.key)) := by
  induction feedback generalizing active with
  | nil => exact ⟨active, rfl, by simp⟩
  | cons info rest ih =>
    obtain ⟨dci, present, _⟩ := ready info mem_cons_self
    simp only [dlDci, bind_eq_bind, bind_eq_some_iff] at present
    obtain ⟨ue, foundUe, process, foundProcess, _⟩ := present
    obtain ⟨active', computed, all⟩ := ih (insertActive ue.beamConfId info.key active)
      (fun other member => ready other (mem_cons_of_mem _ member))
    simp only [HarqInfo.key] at foundUe foundProcess
    refine ⟨active', ?_, ?_⟩
    · simp only [computeActiveHarq, foundUe, foundProcess, bind_eq_bind, bind_some]
      exact computed
    · apply all.trans
      rw [map_cons, append_cons]
      exact (insertActive_perm _ _ _).append_right _

/-- **The downlink keeps the NACKs.** -/
theorem scheduleDlHarq_handles {feedback : List DlHarqInfo} {s : HarqRun DlHarqInfo}
    (bandwidth : bandwidthInRbg < 2 ^ 16) (sym : s.symAvail < 256) (start : s.startingPoint.rbg = 0)
    (nacks : feedback ≠ []) (ready : ∀ info ∈ feedback, DlReady bandwidthInRbg s.ueMap info.key) :
    ∃ active, computeActiveHarq s.ueMap feedback [] = some active ∧
      ∀ arranged, Arranged active arranged →
        ∃ s', scheduleDlHarq bandwidthInRbg arranged feedback s = some s' ∧
          Handled (·.key) feedback (feedback.map (·.key)) s s' := by
  obtain ⟨active, computed, all⟩ := computeActiveHarq_spec [] ready
  refine ⟨active, computed, ?_⟩
  intro arranged order
  have keys := order.perm.trans all
  have nonempty : arranged ≠ [] := by
    rintro rfl
    have length := keys.length_eq
    simp at length
    exact nacks (length_eq_zero_iff.mp length.symm)
  have known (key : HarqKey) (member : key ∈ (arranged.map Prod.snd).flatten) :=
    keys.mem_iff.mp member
  obtain ⟨s', run, handled⟩ := scheduleDlBeams_spec bandwidth
    (Nat.lt_of_le_of_lt (Nat.div_le_self s.symAvail arranged.length) sym)
    (fun key member => by
      obtain ⟨info, inside, rfl⟩ := List.mem_map.mp (known key member)
      exact ready info inside) known start
  refine ⟨s', ?_, handled.perm keys⟩
  rw [scheduleDlHarq, if_neg nonempty]
  exact run

/-! ## Both directions -/

/-- **Conservation.** The uplink keeps the NACKs if and only if symbols are left before each
of them; the downlink always keeps them. -/
theorem nacks_conserved (bandwidthInRbg : Nat) {ulFeedback : List UlHarqInfo}
    {s : HarqRun UlHarqInfo} (ulReady : ∀ info ∈ ulFeedback, info.Ready s.ueMap)
    {dlFeedback : List DlHarqInfo} {t : HarqRun DlHarqInfo} (bandwidth : bandwidthInRbg < 2 ^ 16)
    (sym : t.symAvail < 256) (start : t.startingPoint.rbg = 0) (nacks : dlFeedback ≠ [])
    (dlReady : ∀ info ∈ dlFeedback, DlReady bandwidthInRbg t.ueMap info.key) :
    ((∃ fuel s', scheduleUlHarq bandwidthInRbg ulFeedback fuel 0 s = some s' ∧
        Handled (·.key) ulFeedback (ulFeedback.map (·.key)) s s') ↔
      UlRoom s.ueMap ulFeedback s.symAvail) ∧
    ∃ active, computeActiveHarq t.ueMap dlFeedback [] = some active ∧
      ∀ arranged, Arranged active arranged →
        ∃ t', scheduleDlHarq bandwidthInRbg arranged dlFeedback t = some t' ∧
          Handled (·.key) dlFeedback (dlFeedback.map (·.key)) t t' :=
  ⟨scheduleUlHarq_handles bandwidthInRbg ulReady,
    scheduleDlHarq_handles bandwidth sym start nacks dlReady⟩

/-- A UE whose processes all sent `numSym` symbols. -/
def sentUe (numSym : Nat) : UeHarqMap := fun rnti =>
  if rnti = 1 then
    let process (format : DciFormat) (id : Nat) : Option HarqProcess := some {
      active := true
      status := .receivedFeedback
      timer := 0
      dciElement := some {
        rnti := 1, format, symStart := 2, numSym, mcs := [9], tbSize := [500], ndi := [1]
        rv := [0], type := .data, harqProcess := id, rbgBitmask := List.replicate 5 1 }
      rlcPduInfo := []
      nackStreamIndexes := [0] }
    some { rnti := 1, beamConfId := (0, 0), dlHarq := process .dl, ulHarq := process .ul }
  else none

/-- A slot with nothing scheduled. -/
def emptySlot (Info : Type) (numSym sym symAvail : Nat) : HarqRun Info :=
  ⟨sentUe numSym, ⟨0, sym⟩, symAvail, 0, [], ⟨0, []⟩⟩

/-- A NACK of each of the first `n` processes. -/
def ulNacks (n : Nat) : List UlHarqInfo :=
  (List.range n).map fun id => {
    rnti := 1, harqProcessId := id, bwpIndex := 0, receptionStatus := .notOk, tpc := 0
    numRetx := 0, ulReception := [] }

def dlNacks (n : Nat) : List DlHarqInfo :=
  (List.range n).map fun id => {
    rnti := 1, harqProcessId := id, bwpIndex := 0, harqStatus := [.nack], numRetx := [0] }

theorem ulNacks_ready (n numSym : Nat) : ∀ info ∈ ulNacks n, info.Ready (sentUe numSym) := by
  intro info member
  obtain ⟨id, -, rfl⟩ := List.mem_map.mp member
  exact ⟨rfl, _, rfl, rfl, cons_ne_nil _ _⟩

theorem dlNacks_ready (n : Nat) {numSym : Nat} (positive : 0 < numSym) :
    ∀ info ∈ dlNacks n, DlReady 5 (sentUe numSym) info.key := by
  intro info member
  obtain ⟨id, -, rfl⟩ := List.mem_map.mp member
  exact ⟨_, rfl, rfl, rfl, Nat.le_refl _, Nat.le_refl _, Nat.le_refl _, rfl,
    mem_replicate.mpr ⟨by decide, rfl⟩, positive⟩

/-- Three processes of six symbols and 13 symbols. -/
theorem three_nacks_conserved :
    (∃ fuel s', scheduleUlHarq 5 (ulNacks 3) fuel 0 (emptySlot _ 6 13 13) = some s' ∧
        Handled (·.key) (ulNacks 3) ((ulNacks 3).map (·.key)) (emptySlot _ 6 13 13) s') ∧
    ∃ active, computeActiveHarq (sentUe 6) (dlNacks 3) [] = some active ∧
      ∀ arranged, Arranged active arranged →
        ∃ t', scheduleDlHarq 5 arranged (dlNacks 3) (emptySlot _ 6 1 13) = some t' ∧
          Handled (·.key) (dlNacks 3) ((dlNacks 3).map (·.key)) (emptySlot _ 6 1 13) t' := by
  obtain ⟨uplink, downlink⟩ := nacks_conserved 5 (ulNacks_ready 3 6)
    (s := emptySlot _ 6 13 13) (t := emptySlot _ 6 1 13) (by decide) (by decide) rfl
    (cons_ne_nil _ _) (dlNacks_ready 3 (by decide))
  refine ⟨uplink.mpr ?_, downlink⟩
  exact ⟨by decide, by decide, by decide, trivial⟩

/-- The first NACK takes all the symbols, and the second is forgotten. -/
theorem second_nack_forgotten :
    ¬ ∃ fuel s', scheduleUlHarq 5 (ulNacks 2) fuel 0 (emptySlot _ 12 13 12) = some s' ∧
      Handled (·.key) (ulNacks 2) ((ulNacks 2).map (·.key)) (emptySlot _ 12 13 12) s' := by
  rw [scheduleUlHarq_handles 5 (ulNacks_ready 2 12)]
  rintro ⟨-, left, -⟩
  revert left
  decide

end Ns3.Nr
