import Ns3.Nr.SchedulerLcg

/-!
# The order of `NrMacSchedulerOfdmaEdf`

The weight of a UE grows with the lateness of its channels. A channel with a hundred
milliseconds left or more has no weight, and a UE may not be without one.
-/

namespace Ns3.Nr

/-! ## Bearers -/

/-- The release of the bearer definitions. -/
inductive Release where
  | rel11
  | rel15
  | rel18
  deriving DecidableEq

/-- What a QCI asks for: its priority, its delay budget in milliseconds and the decimal places
of its packet error rate. -/
structure Requirement where
  priority : Nat
  delayBudget : Nat
  perPlaces : Nat
  deriving DecidableEq

def Requirement.per (r : Requirement) : ℚ := (1 / 10) ^ r.perPlaces

def requirementsRel11 : List (Nat × Requirement) :=
  [(1, ⟨2, 100, 2⟩), (2, ⟨4, 150, 3⟩), (3, ⟨3, 50, 3⟩), (4, ⟨5, 300, 6⟩), (5, ⟨1, 100, 6⟩),
    (6, ⟨6, 300, 6⟩), (7, ⟨7, 100, 3⟩), (8, ⟨8, 300, 6⟩), (9, ⟨9, 300, 6⟩)]

def requirementsRel15 : List (Nat × Requirement) :=
  [(1, ⟨20, 100, 2⟩), (2, ⟨40, 150, 3⟩), (3, ⟨30, 50, 3⟩), (4, ⟨50, 300, 6⟩),
    (65, ⟨7, 75, 2⟩), (66, ⟨20, 100, 2⟩), (67, ⟨15, 100, 3⟩), (75, ⟨25, 50, 2⟩),
    (5, ⟨10, 100, 6⟩), (6, ⟨60, 300, 6⟩), (7, ⟨70, 100, 3⟩), (8, ⟨80, 300, 6⟩),
    (9, ⟨90, 300, 6⟩), (69, ⟨5, 60, 6⟩), (70, ⟨55, 200, 6⟩), (79, ⟨65, 5, 2⟩),
    (80, ⟨68, 10, 6⟩), (82, ⟨19, 10, 4⟩), (83, ⟨22, 10, 4⟩), (84, ⟨24, 30, 5⟩),
    (85, ⟨21, 5, 5⟩)]

def requirementsRel18 : List (Nat × Requirement) :=
  [(1, ⟨20, 100, 2⟩), (2, ⟨40, 150, 3⟩), (3, ⟨30, 50, 3⟩), (4, ⟨50, 300, 6⟩),
    (65, ⟨7, 75, 2⟩), (66, ⟨20, 100, 2⟩), (67, ⟨15, 100, 3⟩), (75, ⟨25, 50, 2⟩),
    (5, ⟨10, 100, 6⟩), (6, ⟨60, 300, 6⟩), (7, ⟨70, 100, 3⟩), (8, ⟨80, 300, 6⟩),
    (9, ⟨90, 300, 6⟩), (69, ⟨5, 60, 6⟩), (70, ⟨55, 200, 6⟩), (79, ⟨65, 5, 2⟩),
    (80, ⟨68, 10, 6⟩), (71, ⟨56, 150, 6⟩), (72, ⟨56, 300, 4⟩), (73, ⟨56, 300, 8⟩),
    (74, ⟨56, 500, 8⟩), (76, ⟨56, 500, 4⟩), (82, ⟨19, 10, 4⟩), (83, ⟨22, 10, 4⟩),
    (84, ⟨24, 30, 5⟩), (85, ⟨21, 5, 5⟩), (86, ⟨18, 5, 4⟩), (87, ⟨25, 5, 3⟩),
    (88, ⟨25, 10, 3⟩), (89, ⟨25, 15, 4⟩), (90, ⟨25, 20, 4⟩)]

def requirements : Release → List (Nat × Requirement)
  | .rel11 => requirementsRel11
  | .rel15 => requirementsRel15
  | .rel18 => requirementsRel18

/-! ## Weights -/

/-- A logical channel with the values that its constructor takes from the QCI. -/
structure EdfChannel (release : Release) where
  queues : NrMacSchedulerLC
  rlcTransmissionQueueHolDelay : UInt16
  qci : Nat
  requirement : Requirement
  known : (requirements release).lookup qci = some requirement

variable {release : Release}

/-- `m_dlLCG`: the channels of each group, in the order of the iterations. -/
structure EdfUe (release : Release) where
  dlLCG : List (List (EdfChannel release))

/-- The channels that `GetActiveLCIds` names. -/
def EdfUe.active (ue : EdfUe release) : List (EdfChannel release) :=
  ue.dlLCG.flatMap fun lcg => lcg.filter fun lc => 0 < lc.queues.getTotalSize

/-- The budget that is left, between 0 and 100. -/
def EdfChannel.delayBudgetFactor (lc : EdfChannel release) : ℚ :=
  let delayBudgetFactor : ℚ :=
    (lc.requirement.delayBudget : ℚ) - lc.rlcTransmissionQueueHolDelay.toNat
  if delayBudgetFactor < 0 then 0 else if 100 < delayBudgetFactor then 100 else delayBudgetFactor

/-- One turn of `CalculateDlWeight`, with its assertion. -/
def addWeight (weight : ℚ) (lc : EdfChannel release) : Option ℚ :=
  let late := 100 - lc.delayBudgetFactor
  let targetPER := lc.requirement.per
  let weight :=
    if lc.requirement.priority = 68 then weight + late / targetPER
    else if weight = 0 then weight + late / targetPER
    else weight
  let weight := weight + late
  if 0 < weight then some weight else none

def calculateDlWeight (ue : EdfUe release) : Option ℚ := ue.active.foldlM addWeight 0

/-- `CompareUeWeightsDl`, with its assertions. -/
def compareUeWeightsDl (lue rue : EdfUe release) : Option Bool := do
  let lQoSMetric ← calculateDlWeight lue
  let rQoSMetric ← calculateDlWeight rue
  if 0 < lQoSMetric ∧ 0 < rQoSMetric then some (decide (rQoSMetric < lQoSMetric)) else none

/-- The delay budget minus the head-of-line delay, floored at zero. -/
def EdfChannel.remaining (lc : EdfChannel release) : Nat :=
  lc.requirement.delayBudget - lc.rlcTransmissionQueueHolDelay.toNat

/-! ## The order -/

/-- A UE is scheduled before another. -/
def Before (lue rue : EdfUe release) : Prop := compareUeWeightsDl lue rue = some true

/-- The order of a set of UEs: weights are positive, no comparison fails, comparing is a strict
weak order, and of two UEs with one channel of the same QCI the later one does not go first. -/
structure EdfOrder (ues : Set (EdfUe release)) : Prop where
  positive : ∀ ue ∈ ues, ∃ weight, 0 < weight ∧ calculateDlWeight ue = some weight
  compares : ∀ lue ∈ ues, ∀ rue ∈ ues, (compareUeWeightsDl lue rue).isSome
  weak : IsStrictWeakOrder ues fun lue rue => Before lue.1 rue.1
  deadline : ∀ lue ∈ ues, ∀ rue ∈ ues, ∀ l r, lue.active = [l] → rue.active = [r] →
    l.qci = r.qci → l.remaining ≤ r.remaining → ¬ Before rue lue

theorem per_pos (r : Requirement) : 0 < r.per := by
  unfold Requirement.per
  positivity

/-- The factor is the time that remains, up to a hundred milliseconds. -/
theorem delayBudgetFactor_eq (lc : EdfChannel release) :
    lc.delayBudgetFactor = (min lc.remaining 100 : Nat) := by
  unfold EdfChannel.delayBudgetFactor EdfChannel.remaining
  dsimp only
  generalize lc.requirement.delayBudget = budget
  generalize lc.rlcTransmissionQueueHolDelay.toNat = delay
  split
  case isTrue over_ =>
    have late : budget ≤ delay := by
      have : (budget : ℚ) < delay := by linarith
      exact le_of_lt (Nat.cast_lt.mp this)
    rw [Nat.sub_eq_zero_of_le late]
    rfl
  case isFalse in_ =>
    have le : delay ≤ budget := by
      have : (delay : ℚ) ≤ budget := by linarith
      exact Nat.cast_le.mp this
    split
    case isTrue far =>
      have more : 100 ≤ budget - delay := by
        have : ((delay + 100 : Nat) : ℚ) < budget := by push_cast; linarith
        have := Nat.cast_lt.mp this
        omega
      rw [min_eq_right more]
      rfl
    case isFalse near =>
      have less : budget - delay ≤ 100 := by
        have : (budget : ℚ) ≤ (delay + 100 : Nat) := by push_cast; linarith
        have := Nat.cast_le.mp this
        omega
      rw [min_eq_left less, Nat.cast_sub le]

/-- What a channel adds of its own. -/
def EdfChannel.late (lc : EdfChannel release) : ℚ := 100 - (min lc.remaining 100 : Nat)

theorem late_nonneg (lc : EdfChannel release) : 0 ≤ lc.late := by
  have most : ((min lc.remaining 100 : Nat) : ℚ) ≤ (100 : Nat) := Nat.cast_le.mpr (by omega)
  unfold EdfChannel.late
  push_cast at most ⊢
  linarith

theorem late_pos_iff (lc : EdfChannel release) : 0 < lc.late ↔ lc.remaining < 100 := by
  have cast : ((min lc.remaining 100 : Nat) : ℚ) < (100 : Nat) ↔ min lc.remaining 100 < 100 :=
    Nat.cast_lt
  unfold EdfChannel.late
  push_cast at cast ⊢
  constructor
  · intro positive
    have := cast.mp (by linarith)
    omega
  · intro less
    have := cast.mpr (by omega)
    linarith

theorem late_anti {l r : EdfChannel release} (le : l.remaining ≤ r.remaining) :
    r.late ≤ l.late := by
  have cast : ((min l.remaining 100 : Nat) : ℚ) ≤ (min r.remaining 100 : Nat) :=
    Nat.cast_le.mpr (by omega)
  unfold EdfChannel.late
  linarith

theorem addWeight_zero (lc : EdfChannel release) : addWeight 0 lc = if lc.remaining < 100 then
      some (lc.late / lc.requirement.per + lc.late) else none := by
  have late : 100 - lc.delayBudgetFactor = lc.late := by
    rw [delayBudgetFactor_eq]
    rfl
  have same : (if lc.requirement.priority = 68 then 0 + lc.late / lc.requirement.per
      else if (0 : ℚ) = 0 then 0 + lc.late / lc.requirement.per else 0) =
      lc.late / lc.requirement.per := by rw [if_pos rfl, ite_self, zero_add]
  have per := per_pos lc.requirement
  unfold addWeight
  dsimp only
  rw [late, same]
  by_cases soon : lc.remaining < 100
  · have positive := (late_pos_iff lc).mpr soon
    rw [if_pos soon, if_pos (by positivity)]
  · have zero : lc.late = 0 :=
      le_antisymm (not_lt.mp ((late_pos_iff lc).not.mpr soon)) (late_nonneg lc)
    simp [if_neg soon, zero]

theorem addWeight_pos {weight : ℚ} (positive : 0 < weight) (lc : EdfChannel release) :
    ∃ more, addWeight weight lc = some more ∧ 0 < more := by
  have late : 100 - lc.delayBudgetFactor = lc.late := by
    rw [delayBudgetFactor_eq]
    rfl
  have nonneg := late_nonneg lc
  have per := per_pos lc.requirement
  have share : 0 ≤ lc.late / lc.requirement.per := by positivity
  unfold addWeight
  dsimp only
  rw [late, if_neg positive.ne']
  have more : 0 < (if lc.requirement.priority = 68 then weight + lc.late / lc.requirement.per
      else weight) + lc.late := by
    split <;> linarith
  rw [if_pos more]
  exact ⟨_, rfl, more⟩

theorem foldlM_addWeight_pos (channels : List (EdfChannel release)) {weight : ℚ}
    (positive : 0 < weight) : ∃ more, channels.foldlM addWeight weight = some more ∧ 0 < more := by
  induction channels generalizing weight with
  | nil => exact ⟨weight, rfl, positive⟩
  | cons lc channels ih =>
    obtain ⟨next, added, next_pos⟩ := addWeight_pos positive lc
    obtain ⟨more, done, more_pos⟩ := ih next_pos
    refine ⟨more, ?_, more_pos⟩
    rw [List.foldlM_cons, added]
    exact done

/-- **The weight** is decided by the first active channel. -/
theorem calculateDlWeight_spec {ue : EdfUe release} {first : EdfChannel release}
    {others : List (EdfChannel release)} (active : ue.active = first :: others) :
    (first.remaining < 100 → ∃ weight, calculateDlWeight ue = some weight ∧ 0 < weight) ∧
      (¬ first.remaining < 100 → calculateDlWeight ue = none) := by
  unfold calculateDlWeight
  rw [active, List.foldlM_cons, addWeight_zero]
  constructor
  · intro soon
    have positive := (late_pos_iff first).mpr soon
    have per := per_pos first.requirement
    rw [if_pos soon]
    exact foldlM_addWeight_pos others (by positivity)
  · intro far
    rw [if_neg far]
    rfl

theorem calculateDlWeight_single {ue : EdfUe release} {lc : EdfChannel release}
    (active : ue.active = [lc]) (soon : lc.remaining < 100) :
    calculateDlWeight ue = some (lc.late / lc.requirement.per + lc.late) := by
  unfold calculateDlWeight
  rw [active, List.foldlM_cons, addWeight_zero, if_pos soon]
  rfl

theorem compareUeWeightsDl_eq {lue rue : EdfUe release} {lWeight rWeight : ℚ}
    (l_done : calculateDlWeight lue = some lWeight) (r_done : calculateDlWeight rue = some rWeight)
    (l_pos : 0 < lWeight) (r_pos : 0 < rWeight) :
    compareUeWeightsDl lue rue = some (decide (rWeight < lWeight)) := by
  unfold compareUeWeightsDl
  rw [l_done, r_done]
  exact if_pos ⟨l_pos, r_pos⟩

/-- The first active channel is due within a hundred milliseconds. -/
def EdfUe.Soon (ue : EdfUe release) : Prop := ∀ first ∈ ue.active.head?, first.remaining < 100

theorem exists_weight {ue : EdfUe release} (some_ : ue.active ≠ []) (soon : ue.Soon) :
    ∃ weight, calculateDlWeight ue = some weight ∧ 0 < weight := by
  cases active : ue.active with
  | nil => exact absurd active some_
  | cons first others =>
    exact (calculateDlWeight_spec active).1 (soon first (by rw [active]; rfl))

theorem strictWeakOrder_of_weight {α : Type} {lt : α → α → Prop} (weight : α → ℚ)
    (same : ∀ a b, lt a b ↔ weight b < weight a) : IsStrictWeakOrder α lt where
  irrefl a := by rw [same]; exact lt_irrefl _
  trans a b c := by
    rw [same, same, same]
    exact fun ab bc => bc.trans ab
  incomp_trans a b c := by
    simp only [same, not_lt]
    exact fun ab bc => ⟨ab.1.trans bc.1, bc.2.trans ab.2⟩

/-- **EDF order.** UEs with active channels are ordered by deadline exactly when the first
active channel of each is due within a hundred milliseconds. -/
theorem edfOrder_iff {ues : Set (EdfUe release)} (some_ : ∀ ue ∈ ues, ue.active ≠ []) :
    EdfOrder ues ↔ ∀ ue ∈ ues, ue.Soon := by
  constructor
  · intro order ue mem first head
    cases active : ue.active with
    | nil => exact absurd active (some_ ue mem)
    | cons _ others =>
      rw [active] at head
      obtain rfl := Option.some.inj head
      apply of_not_not
      intro far
      obtain ⟨weight, _, done⟩ := order.positive ue mem
      rw [(calculateDlWeight_spec active).2 far] at done
      exact Option.some_ne_none _ done.symm
  · intro soon
    have weighs : ∀ ue ∈ ues, ∃ weight, calculateDlWeight ue = some weight ∧ 0 < weight :=
      fun ue mem => exists_weight (some_ ue mem) (soon ue mem)
    have before : ∀ lue ∈ ues, ∀ rue ∈ ues, compareUeWeightsDl lue rue =
        some (decide ((calculateDlWeight rue).getD 0 < (calculateDlWeight lue).getD 0)) := by
      intro lue l_mem rue r_mem
      obtain ⟨lWeight, l_done, l_pos⟩ := weighs lue l_mem
      obtain ⟨rWeight, r_done, r_pos⟩ := weighs rue r_mem
      rw [compareUeWeightsDl_eq l_done r_done l_pos r_pos, l_done, r_done]
      rfl
    refine ⟨fun ue mem => ?_, fun lue l_mem rue r_mem => ?_, ?_, ?_⟩
    · obtain ⟨weight, done, positive⟩ := weighs ue mem
      exact ⟨weight, positive, done⟩
    · rw [before lue l_mem rue r_mem]
      rfl
    · apply strictWeakOrder_of_weight fun ue => (calculateDlWeight ue.1).getD 0
      intro lue rue
      unfold Before
      simp [before lue.1 lue.2 rue.1 rue.2]
    · intro lue l_mem rue r_mem l r l_active r_active same le first
      have requirement : l.requirement = r.requirement := by
        have known := l.known
        rw [same, r.known] at known
        exact (Option.some.inj known).symm
      have l_soon := soon lue l_mem l (by rw [l_active]; rfl)
      have r_soon := soon rue r_mem r (by rw [r_active]; rfl)
      unfold Before at first
      rw [before rue r_mem lue l_mem, Option.some_inj, decide_eq_true_iff,
        calculateDlWeight_single l_active l_soon, calculateDlWeight_single r_active r_soon,
        requirement, Option.getD_some, Option.getD_some] at first
      have late := late_anti le
      have share := div_le_div_of_nonneg_right late (per_pos r.requirement).le
      linarith

/-- A UE with one channel of QCI 1 and bytes to send. -/
def voiceUe (holDelay : UInt16) : EdfUe .rel11 :=
  ⟨[[⟨⟨100, 0, 0, .gbr, 0⟩, holDelay, 1, ⟨2, 100, 2⟩, rfl⟩]]⟩

theorem edfOrder_voice :
    EdfOrder {voiceUe 10, voiceUe 20} ↔ ∀ ue ∈ ({voiceUe 10, voiceUe 20} : Set _), ue.Soon :=
  edfOrder_iff (by rintro ue (rfl | rfl) <;> exact List.cons_ne_nil _ _)

/-- A voice packet that has not waited yet fails the assertion on the weight. -/
theorem edfOrder_fails : (voiceUe 0).active ≠ [] ∧ calculateDlWeight (voiceUe 0) = none ∧
    compareUeWeightsDl (voiceUe 0) (voiceUe 10) = none ∧
    ¬ EdfOrder {voiceUe 0, voiceUe 10} := by
  have active : (voiceUe 0).active = [⟨⟨100, 0, 0, .gbr, 0⟩, 0, 1, ⟨2, 100, 2⟩, rfl⟩] := rfl
  have none_ : calculateDlWeight (voiceUe 0) = none := (calculateDlWeight_spec active).2 (by decide)
  refine ⟨List.cons_ne_nil _ _, none_, ?_, fun order => ?_⟩
  · unfold compareUeWeightsDl
    rw [none_]
    rfl
  · obtain ⟨weight, _, done⟩ := order.positive (voiceUe 0) (.inl rfl)
    rw [none_] at done
    exact Option.some_ne_none _ done.symm

end Ns3.Nr
