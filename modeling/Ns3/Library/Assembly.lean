import Mathlib.Data.List.Nodup

/-!
# Things that arrive in parts

Each thing has its parts, which arrive in any order and more than once. What has
begun to arrive waits for the rest until its deadline. When no more can wait, the
oldest one is given up.
-/

namespace Assembly

open List

/-- The parts of each thing, how long and how many may wait, and what is said. -/
structure Rules (Key Part Output : Type) where
  parts : Key → List Part
  lifetime : Int
  notNegative : 0 ≤ lifetime
  full : Nat → Bool
  waiting : Output
  assembled : Key → Output
  evicted : Key → List Part → List Output
  expired : Key → List Part → List Output

/-- What waits, oldest first, with its deadlines, and which parts have arrived. -/
structure State (Key Part : Type) where
  now : Int
  incoming : List (Key × Int)
  arrived : Key → List Part

inductive Event (Key Part : Type)
  | arrive (key : Key) (part : Part)
  | elapse (now : Int)
  | timeout

variable {Key Part Output : Type} [DecidableEq Key] [DecidableEq Part]

def State.start (now : Int) : State Key Part := ⟨now, [], fun _ => []⟩

namespace Rules

variable (rules : Rules Key Part Output) (s : State Key Part) (key : Key)

/-- The parts that have arrived, each once. -/
def present : List Part := (rules.parts key).filter (· ∈ s.arrived key)

def Complete : Prop := ∀ p ∈ rules.parts key, p ∈ s.arrived key

instance : Decidable (rules.Complete s key) := inferInstanceAs (Decidable (∀ _ ∈ _, _))

def makeRoom : State Key Part × List Output :=
  if rules.full s.incoming.length then
    match s.incoming with
    | [] => (s, [])
    | (oldest, _) :: rest =>
      ({ s with incoming := rest }, rules.evicted oldest (rules.present s oldest))
  else (s, [])

/-- A thing of which nothing is there begins to wait. -/
def enter : State Key Part × List Output :=
  if key ∈ s.incoming.map (·.1) then (s, [])
  else
    let (s, lost) := rules.makeRoom s
    ({ s with
      incoming := s.incoming ++ [(key, s.now + rules.lifetime)]
      arrived := Function.update s.arrived key [] }, lost)

/-- A part is added to what has arrived. -/
def add (part : Part) : State Key Part :=
  { s with arrived := Function.update s.arrived key (part :: s.arrived key) }

def remove : State Key Part := { s with incoming := s.incoming.filter (·.1 ≠ key) }

def arrive (part : Part) : State Key Part × List Output :=
  let (s, lost) := rules.enter s key
  let s := add s key part
  if rules.Complete s key then (remove s key, lost ++ [rules.assembled key])
  else (s, lost ++ [rules.waiting])

def timeout : State Key Part × List Output :=
  ({ s with incoming := s.incoming.filter (·.2 ≠ s.now) },
    (s.incoming.filter (·.2 = s.now)).flatMap fun i =>
      rules.expired i.1 (rules.present s i.1))

/-- No deadline passes. -/
def step (s : State Key Part) : Event Key Part → Option (State Key Part × List Output)
  | .arrive key part => some (rules.arrive s key part)
  | .elapse now =>
    if s.now ≤ now ∧ ∀ i ∈ s.incoming, now ≤ i.2 then some ({ s with now }, []) else none
  | .timeout => some (rules.timeout s)

end Rules

/-! ## What waits -/

/-- Each thing waits once, in the order of the deadlines, none of which has passed. -/
structure Sound (rules : Rules Key Part Output) (s : State Key Part) : Prop where
  keys : (s.incoming.map (·.1)).Nodup
  deadlines : s.incoming.Pairwise fun i j => i.2 ≤ j.2
  due : ∀ i ∈ s.incoming, s.now ≤ i.2 ∧ i.2 ≤ s.now + rules.lifetime

variable {rules : Rules Key Part Output} {s : State Key Part} {key : Key}

theorem Sound.start (now : Int) : Sound rules (.start now) := ⟨.nil, .nil, fun _ mem => nomatch mem⟩

theorem Sound.sublist {t : State Key Part} (sound : Sound rules s) (now : t.now = s.now)
    (sub : t.incoming.Sublist s.incoming) : Sound rules t where
  keys := sound.keys.sublist (sub.map _)
  deadlines := sound.deadlines.sublist sub
  due i mem := now ▸ sound.due i (sub.subset mem)

theorem makeRoom_sublist : (rules.makeRoom s).1.incoming.Sublist s.incoming := by
  unfold Rules.makeRoom
  split
  · split
    · exact .refl _
    case h_2 oldest deadline rest is =>
      rw [is]
      exact sublist_cons_self _ _
  · exact .refl _

theorem makeRoom_same : (rules.makeRoom s).1.now = s.now ∧
    (rules.makeRoom s).1.arrived = s.arrived := by
  unfold Rules.makeRoom
  split
  · split
    · exact ⟨rfl, rfl⟩
    · exact ⟨rfl, rfl⟩
  · exact ⟨rfl, rfl⟩

theorem Sound.makeRoom (sound : Sound rules s) : Sound rules (rules.makeRoom s).1 :=
  sound.sublist makeRoom_same.1 makeRoom_sublist

theorem Sound.enter (sound : Sound rules s) (key : Key) : Sound rules (rules.enter s key).1 := by
  unfold Rules.enter
  split
  case isTrue => exact sound
  case isFalse absent =>
    have room := sound.makeRoom
    have notNegative := rules.notNegative
    constructor
    · rw [map_append, nodup_append]
      apply And.intro room.keys
      apply And.intro (nodup_singleton _)
      intro other mem new is
      obtain rfl := mem_singleton.mp is
      rintro rfl
      exact absent ((makeRoom_sublist.map _).subset mem)
    · rw [pairwise_append]
      apply And.intro room.deadlines
      apply And.intro (pairwise_singleton _ _)
      intro i mem new is
      obtain rfl := mem_singleton.mp is
      exact (room.due i mem).2
    · intro i mem
      cases mem_append.mp mem with
      | inl held => exact room.due i held
      | inr new =>
        obtain rfl := mem_singleton.mp new
        dsimp only
        omega

theorem enter_old {i : Key × Int} (mem : i ∈ (rules.enter s key).1.incoming) (other : i.1 ≠ key) :
    i ∈ s.incoming ∧ (rules.enter s key).1.arrived i.1 = s.arrived i.1 := by
  unfold Rules.enter at *
  split at mem
  case isTrue waits =>
    rw [if_pos waits]
    exact ⟨mem, rfl⟩
  case isFalse absent =>
    rw [if_neg absent]
    dsimp only at *
    rw [Function.update_of_ne other, makeRoom_same.2]
    cases mem_append.mp mem with
    | inl held => exact ⟨makeRoom_sublist.subset held, rfl⟩
    | inr new =>
      obtain rfl := mem_singleton.mp new
      exact absurd rfl other

theorem enter_mem (rules : Rules Key Part Output) (s : State Key Part) (key : Key) :
    key ∈ (rules.enter s key).1.incoming.map (·.1) := by
  unfold Rules.enter
  split
  case isTrue waits => exact waits
  case isFalse =>
    rw [map_append]
    exact mem_append_right _ mem_cons_self

theorem timeout_eq_self (later : ∀ i ∈ s.incoming, i.2 ≠ s.now) : rules.timeout s = (s, []) := by
  unfold Rules.timeout
  rw [filter_eq_self.mpr fun i mem => decide_eq_true (later i mem),
    filter_eq_nil_iff.mpr fun i mem now => later i mem (of_decide_eq_true now)]
  rfl

theorem Sound.arrive (sound : Sound rules s) (key : Key) (part : Part) :
    Sound rules (rules.arrive s key part).1 := by
  unfold Rules.arrive
  dsimp only
  split
  · exact (sound.enter key).sublist rfl filter_sublist
  · exact (sound.enter key).sublist rfl (.refl _)

theorem Sound.step (sound : Sound rules s) {e : Event Key Part} {s' : State Key Part}
    {out : List Output} (h : rules.step s e = some (s', out)) : Sound rules s' := by
  cases e with
  | arrive key part =>
    obtain rfl := congrArg Prod.fst (Option.some.inj h)
    exact sound.arrive key part
  | elapse now =>
    by_cases later : s.now ≤ now ∧ ∀ i ∈ s.incoming, now ≤ i.2
    · simp only [Rules.step, if_pos later] at h
      cases h
      refine ⟨sound.keys, sound.deadlines, ?_⟩
      intro i mem
      have due := sound.due i mem
      exact ⟨later.2 i mem, by dsimp only; omega⟩
    · simp only [Rules.step, if_neg later] at h
      cases h
  | timeout =>
    cases h
    exact sound.sublist rfl filter_sublist

/-- What waits is not complete. -/
def Open (rules : Rules Key Part Output) (s : State Key Part) : Prop :=
  ∀ i ∈ s.incoming, ¬ rules.Complete s i.1

theorem Open.arrive (waits : Open rules s) (key : Key) (part : Part) :
    Open rules (rules.arrive s key part).1 := by
  have others : ∀ i ∈ (rules.enter s key).1.incoming, i.1 ≠ key →
      ¬ rules.Complete (Rules.add (rules.enter s key).1 key part) i.1 := by
    intro i mem other
    obtain ⟨held, same⟩ := enter_old mem other
    unfold Rules.Complete Rules.add
    dsimp only
    rw [Function.update_of_ne other, same]
    exact waits i held
  unfold Rules.arrive
  dsimp only
  split
  case isTrue =>
    intro i mem
    obtain ⟨held, other⟩ := mem_filter.mp mem
    exact others i held (of_decide_eq_true other)
  case isFalse missing =>
    intro i mem
    by_cases is : i.1 = key
    · rw [is]
      exact missing
    · exact others i mem is

theorem Open.step (waits : Open rules s) {e : Event Key Part} {s' : State Key Part}
    {out : List Output} (h : rules.step s e = some (s', out)) : Open rules s' := by
  cases e with
  | arrive key part =>
    obtain rfl := congrArg Prod.fst (Option.some.inj h)
    exact waits.arrive key part
  | elapse now =>
    by_cases later : s.now ≤ now ∧ ∀ i ∈ s.incoming, now ≤ i.2
    · simp only [Rules.step, if_pos later] at h
      cases h
      exact waits
    · simp only [Rules.step, if_neg later] at h
      cases h
  | timeout =>
    cases h
    exact fun i mem => waits i (mem_of_mem_filter mem)

end Assembly
