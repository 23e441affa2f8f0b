import Ns3.Library.Circular
import Ns3.Library.Machine
import Ns3.Wifi.RecipientBlockAckAgreement

/-!
# The reorder buffer

Each MPDU that is not behind the start of the window gets the number that it
has when sequence numbers do not wrap around. What is passed up has increasing
numbers, as long as the start of the window is never below zero when it is
found from its end.
-/

namespace Ns3.Wifi

open List

variable {Body : Type}

open RecipientBlockAckAgreement

/-- An MPDU and its number. -/
abbrev Numbered (Body : Type) := Nat × WifiMpdu Body

/-- What happened at a recipient: the number where the window starts, the MPDUs that were inside or
ahead of the window, and those that were passed up. -/
structure History (Body : Type) where
  start : Nat
  received : List (Numbered Body)
  passedUp : List (Numbered Body)

namespace History

def create (startingSeq : Nat) : History Body := ⟨startingSeq, [], []⟩

/-- The number of an MPDU, from how far it is after the start of the window. -/
def number (h : History Body) (s : RecipientBlockAckAgreement Body) (mpdu : WifiMpdu Body) :
    Numbered Body :=
  (h.start + getDistance mpdu.sequenceNumber s.winStartB, mpdu)

/-- The MPDU of an event, unless it is behind the window. -/
def taken (s : RecipientBlockAckAgreement Body) : RecipientEvent Body → List (WifiMpdu Body)
  | .receivedMpdu mpdu =>
    if getDistance mpdu.sequenceNumber s.winStartB < 2048 then [mpdu] else []
  | .receivedBar _ => []

def next (h : History Body) (s : RecipientBlockAckAgreement Body) (event : RecipientEvent Body) :
    History Body where
  start := h.start + getDistance (s.step event).1.winStartB s.winStartB
  received := h.received ++ (taken s event).map (h.number s)
  passedUp := h.passedUp ++ (s.step event).2.map (h.number s)

/-- A step of the agreement, with its history. -/
def step : RecipientBlockAckAgreement Body × History Body → RecipientEvent Body →
    Option ((RecipientBlockAckAgreement Body × History Body) × List (WifiMpdu Body))
  | (s, h), event => some (((s.step event).1, h.next s event), (s.step event).2)

end History

/-- The start of the window that ends with an MPDU is not below zero. -/
def Unwrapped (s : RecipientBlockAckAgreement Body) : RecipientEvent Body → Prop
  | .receivedMpdu mpdu =>
    let distance := getDistance mpdu.sequenceNumber s.winStartB
    s.winSizeB ≤ distance → distance < 2048 → s.winSizeB ≤ mpdu.sequenceNumber + 1
  | .receivedBar _ => True

instance (s : RecipientBlockAckAgreement Body) (event : RecipientEvent Body) :
    Decidable (Unwrapped s event) := by cases event <;> unfold Unwrapped <;> infer_instance

/-- What the buffer and the MPDUs that were passed up have to do with the MPDUs received. -/
structure InOrder (s : RecipientBlockAckAgreement Body) (h : History Body) : Prop where
  winStartB : s.winStartB < 4096 ∧ s.winStartB = h.start % 4096
  window : ∀ m ∈ s.bufferedMpdus, getDistance m.sequenceNumber s.winStartB < s.winSizeB
  ordered : s.bufferedMpdus.Pairwise fun a b =>
    compareKeys s.winStartB a.sequenceNumber b.sequenceNumber = true
  increasing : h.passedUp.Pairwise fun a b => a.1 < b.1
  passedUp : ∀ p ∈ h.passedUp, p.1 < h.start ∧ p.1 % 4096 = p.2.sequenceNumber ∧ p ∈ h.received
  buffered : ∀ m ∈ s.bufferedMpdus, h.number s m ∈ h.received
  kept : ∀ p ∈ h.received,
    (∃ q ∈ h.passedUp, q.1 = p.1) ∨ ∃ m ∈ s.bufferedMpdus, (h.number s m).1 = p.1

/-! ## Numbers -/

/-- Numbers of the residues of their MPDUs, in order. -/
structure Ordered (start stop : Nat) (held : List (Numbered Body)) : Prop where
  inside : ∀ p ∈ held, start ≤ p.1 ∧ p.1 < stop
  residue : ∀ p ∈ held, (p.2.sequenceNumber : Nat) = p.1 % 4096
  sorted : held.Pairwise fun a b => a.1 < b.1

theorem distance_of_number {start n : Nat} (from_start : start ≤ n) (near : n < start + 4096) :
    getDistance (n % 4096) (start % 4096) = n - start := by
  rw [getDistance_eq _ (Nat.mod_lt _ (by decide))]
  obtain ⟨k, rfl⟩ := Nat.exists_eq_add_of_le from_start
  rw [Nat.add_sub_cancel_left]
  exact Circular.offset_add start (by omega)

theorem compare_of_numbers {start n k : Nat} (hn : start ≤ n ∧ n < start + 4096)
    (hk : start ≤ k ∧ k < start + 4096) :
    compareKeys (start % 4096) (n % 4096) (k % 4096) = decide (n < k) := by
  have inSpace : start % 4096 < 4096 := Nat.mod_lt _ (by decide)
  have first := distance_of_number hn.1 hn.2
  have second := distance_of_number hk.1 hk.2
  rw [getDistance_eq _ inSpace] at first second
  unfold compareKeys
  rw [relative_eq _ inSpace, relative_eq _ inSpace, first, second]
  apply decide_eq_decide.mpr
  omega

section Held

variable {start stop : Nat} {held : List (Numbered Body)}

variable {p : Numbered Body} {s : RecipientBlockAckAgreement Body}

theorem Ordered.tail (ordered : Ordered start stop (p :: held)) : Ordered (p.1 + 1) stop held := by
  obtain ⟨later, sorted⟩ := pairwise_cons.mp ordered.sorted
  refine ⟨?_, fun q mem => ordered.residue q (mem_cons_of_mem _ mem), sorted⟩
  intro q mem
  exact ⟨later q mem, (ordered.inside q (mem_cons_of_mem _ mem)).2⟩

/-- Insertion by number. -/
def insertNumbered (p : Numbered Body) : List (Numbered Body) → List (Numbered Body)
  | [] => [p]
  | q :: rest =>
    if p.1 < q.1 then p :: q :: rest
    else if q.1 < p.1 then q :: insertNumbered p rest
    else q :: rest

theorem insertMpdu_map (ordered : Ordered start stop held) (near : stop ≤ start + 4096)
    (hp : start ≤ p.1 ∧ p.1 < start + 4096) (residue : (p.2.sequenceNumber : Nat) = p.1 % 4096) :
    insertMpdu (start % 4096) p.2 (held.map Prod.snd) = (insertNumbered p held).map Prod.snd := by
  obtain ⟨inside, residues, -⟩ := ordered
  induction held with
  | nil => rfl
  | cons q rest ih =>
    have hq := inside q mem_cons_self
    have hq' : start ≤ q.1 ∧ q.1 < start + 4096 := ⟨hq.1, by omega⟩
    have rest_ih := ih (fun x mem => inside x (mem_cons_of_mem _ mem))
      (fun x mem => residues x (mem_cons_of_mem _ mem))
    rw [map_cons, insertMpdu, insertNumbered, residue, residues q mem_cons_self,
      compare_of_numbers hp hq', compare_of_numbers hq' hp, rest_ih]
    simp only [decide_eq_true_eq]
    split
    · rfl
    · split <;> rfl

theorem mem_insertNumbered {x : Numbered Body} (mem : x ∈ insertNumbered p held) :
    x = p ∨ x ∈ held := by
  induction held with
  | nil => exact .inl (mem_singleton.mp mem)
  | cons q rest ih =>
    unfold insertNumbered at mem
    split at mem
    · exact mem_cons.mp mem
    · split at mem
      · cases mem_cons.mp mem with
        | inl is => exact .inr (is ▸ mem_cons_self)
        | inr later => exact (ih later).imp_right (mem_cons_of_mem _)
      · exact .inr mem

theorem subset_insertNumbered (p : Numbered Body) : held ⊆ insertNumbered p held := by
  induction held with
  | nil => exact nil_subset _
  | cons q rest ih =>
    unfold insertNumbered
    split
    · exact subset_cons_self _ _
    · split
      · exact cons_subset_cons _ ih
      · exact Subset.refl _

theorem exists_insertNumbered (held : List (Numbered Body)) (p : Numbered Body) :
    ∃ x ∈ insertNumbered p held, x.1 = p.1 := by
  induction held with
  | nil => exact ⟨p, mem_singleton_self _, rfl⟩
  | cons q rest ih =>
    unfold insertNumbered
    split
    · exact ⟨p, mem_cons_self, rfl⟩
    · split
      · obtain ⟨x, mem, same⟩ := ih
        exact ⟨x, mem_cons_of_mem _ mem, same⟩
      · exact ⟨q, mem_cons_self, by omega⟩

theorem sorted_insertNumbered (sorted : held.Pairwise fun a b => a.1 < b.1) :
    (insertNumbered p held).Pairwise fun a b => a.1 < b.1 := by
  induction held with
  | nil => exact pairwise_singleton _ _
  | cons q rest ih =>
    obtain ⟨later, others⟩ := pairwise_cons.mp sorted
    unfold insertNumbered
    split
    case isTrue before =>
      apply pairwise_cons.mpr
      refine ⟨?_, sorted⟩
      intro x mem
      cases mem_cons.mp mem with
      | inl is => rwa [is]
      | inr mem => exact before.trans (later x mem)
    case isFalse =>
      split
      case isTrue after =>
        apply pairwise_cons.mpr
        refine ⟨?_, ih others⟩
        intro x mem
        cases mem_insertNumbered mem with
        | inl is => rwa [is]
        | inr mem => exact later x mem
      case isFalse => exact sorted

theorem Ordered.insert {stop' : Nat} (ordered : Ordered start stop held)
    (hp : start ≤ p.1 ∧ p.1 < stop') (grows : stop ≤ stop')
    (residue : (p.2.sequenceNumber : Nat) = p.1 % 4096) :
    Ordered start stop' (insertNumbered p held) := by
  refine ⟨?_, ?_, sorted_insertNumbered ordered.sorted⟩
  · intro x mem
    cases mem_insertNumbered mem with
    | inl is => rwa [is]
    | inr mem => exact ⟨(ordered.inside x mem).1, by have := (ordered.inside x mem).2; omega⟩
  · intro x mem
    cases mem_insertNumbered mem with
    | inl is => rwa [is]
    | inr mem => exact ordered.residue x mem

/-! ## Passing up -/

/-- Where the window is moved to, what is before it is passed up. -/
structure Split (start stop : Nat) (held passed kept : List (Numbered Body)) (start' : Nat) :
    Prop where
  append : held = passed ++ kept
  from_start : start ≤ start'
  to_stop : start' ≤ max start stop
  before : ∀ p ∈ passed, p.1 < start'
  after : ∀ p ∈ kept, start' ≤ p.1

section

variable (ordered : Ordered start stop held)
include ordered

theorem untilFirstLost_spec (near : stop ≤ start + 4096) :
    ∃ passed kept start', Split start stop held passed kept start' ∧
      untilFirstLost (start % 4096) (held.map Prod.snd) =
        (passed.map Prod.snd, kept.map Prod.snd, start' % 4096) := by
  induction held generalizing start with
  | nil => exact ⟨[], [], start, ⟨rfl, by omega, by omega, nofun, nofun⟩, rfl⟩
  | cons p rest ih =>
    have hp := ordered.inside p mem_cons_self
    have residue := ordered.residue p mem_cons_self
    rw [map_cons, untilFirstLost, residue]
    by_cases first : p.1 = start
    · have rest_ordered := ordered.tail
      rw [first] at rest_ordered
      obtain ⟨passed, kept, start', split, is⟩ := ih rest_ordered (by omega)
      rw [if_pos (by rw [first]), Nat.mod_add_mod, is]
      refine ⟨p :: passed, kept, start', ⟨?_, ?_, ?_, ?_, split.after⟩, rfl⟩
      · rw [split.append, cons_append]
      · have := split.from_start
        omega
      · have := split.to_stop
        omega
      · intro q mem
        cases mem_cons.mp mem with
        | inl is =>
          rw [is]
          have := split.from_start
          omega
        | inr mem => exact split.before q mem
    · have other : ¬ p.1 % 4096 = start % 4096 := by
        intro same
        exact first (Circular.eq_of_residue same (by omega) (by omega))
      rw [if_neg other]
      refine ⟨[], p :: rest, start, ⟨rfl, by omega, by omega, nofun, ?_⟩, rfl⟩
      intro q mem
      exact (ordered.inside q mem).1

theorem lessThan_spec {start' : Nat}
    (near : stop ≤ start + 4096) (at_start : s.winStartB = start % 4096)
    (moves : start ≤ start' ∧ start' < start + 4096) :
    ∃ passed kept, held = passed ++ kept ∧ (∀ p ∈ passed, p.1 < start') ∧
      (∀ p ∈ kept, start' ≤ p.1) ∧
      (held.map Prod.snd).takeWhile (s.isLessThan (start' % 4096)) = passed.map Prod.snd ∧
      (held.map Prod.snd).dropWhile (s.isLessThan (start' % 4096)) = kept.map Prod.snd := by
  obtain ⟨inside, residue, sorted⟩ := ordered
  induction held with
  | nil => exact ⟨[], [], rfl, nofun, nofun, rfl, rfl⟩
  | cons p rest ih =>
    obtain ⟨later, others⟩ := pairwise_cons.mp sorted
    have hp := inside p mem_cons_self
    have less : s.isLessThan (start' % 4096) p.2 = decide (p.1 < start') := by
      unfold isLessThan
      rw [at_start, residue p mem_cons_self, distance_of_number hp.1 (by omega),
        distance_of_number moves.1 moves.2]
      apply decide_eq_decide.mpr
      omega
    rw [map_cons, takeWhile_cons, dropWhile_cons, less]
    by_cases before : p.1 < start'
    · obtain ⟨passed, kept, rfl, below, above, takes, drops⟩ :=
        ih (fun x mem => inside x (mem_cons_of_mem _ mem))
          (fun x mem => residue x (mem_cons_of_mem _ mem)) others
      rw [if_pos (decide_eq_true before), if_pos (decide_eq_true before), takes, drops]
      refine ⟨p :: passed, kept, rfl, ?_, above, rfl, rfl⟩
      intro q mem
      cases mem_cons.mp mem with
      | inl is => rwa [is]
      | inr mem => exact below q mem
    · rw [decide_eq_false before]
      refine ⟨[], p :: rest, rfl, nofun, ?_, rfl, rfl⟩
      intro q mem
      cases mem_cons.mp mem with
      | inl is =>
        rw [is]
        omega
      | inr mem =>
        have := later q mem
        omega

theorem pass_spec (near : stop ≤ start + 4096)
    (at_start : s.winStartB = start % 4096) (buffered : s.bufferedMpdus = held.map Prod.snd) :
    ∃ passed kept start', Split start stop held passed kept start' ∧
      s.passBufferedMpdusUntilFirstLost =
        ({ s with winStartB := start' % 4096, bufferedMpdus := kept.map Prod.snd },
          passed.map Prod.snd) := by
  obtain ⟨passed, kept, start', split, is⟩ := untilFirstLost_spec ordered near
  refine ⟨passed, kept, start', split, ?_⟩
  unfold passBufferedMpdusUntilFirstLost
  rw [at_start, buffered, is]

theorem passTo_spec {m : Nat} (near : stop ≤ start + 4096)
    (at_start : s.winStartB = start % 4096) (buffered : s.bufferedMpdus = held.map Prod.snd)
    (moves : start ≤ m ∧ m < start + 4096) :
    ∃ passed kept start', m ≤ start' ∧ Split start (max stop m) held passed kept start' ∧
      s.passBufferedMpdus (m % 4096) =
        ({ s with winStartB := start' % 4096, bufferedMpdus := kept.map Prod.snd },
          passed.map Prod.snd) := by
  obtain ⟨below, rest, rfl, before, after, takes, drops⟩ :=
    lessThan_spec ordered near at_start moves
  have rest_ordered : Ordered m stop rest := by
    refine ⟨?_, ?_, (pairwise_append.mp ordered.sorted).2.1⟩
    · intro p mem
      exact ⟨after p mem, (ordered.inside p (mem_append_right _ mem)).2⟩
    · intro p mem
      exact ordered.residue p (mem_append_right _ mem)
  obtain ⟨next, kept, start', split, is⟩ := pass_spec
    (s := (s.passBufferedMpdusWithSeqNumberLessThan (m % 4096)).1)
    rest_ordered (by omega) rfl ((congrArg _ buffered).trans drops)
  have to_stop := split.to_stop
  have from_moved := split.from_start
  refine ⟨below ++ next, kept, start', from_moved, ⟨?_, by omega, by omega, ?_, split.after⟩, ?_⟩
  · rw [split.append, append_assoc]
  · intro p mem
    cases mem_append.mp mem with
    | inl mem =>
      have := before p mem
      omega
    | inr mem => exact split.before p mem
  · have taken : (s.passBufferedMpdusWithSeqNumberLessThan (m % 4096)).2 =
        below.map Prod.snd := (congrArg _ buffered).trans takes
    unfold passBufferedMpdus
    dsimp only
    rw [is, taken, map_append]
    rfl

end

end Held

/-! ## Runs -/

/-- The MPDUs that are held have numbers inside the window. -/
structure Holds (size : Nat) (s : RecipientBlockAckAgreement Body) (h : History Body)
    (held : List (Numbered Body)) : Prop where
  at_start : s.winStartB = h.start % 4096
  winSizeB : s.winSizeB = size
  buffered : s.bufferedMpdus = held.map Prod.snd
  ordered : Ordered h.start (h.start + size) held
  increasing : h.passedUp.Pairwise fun a b => a.1 < b.1
  before : ∀ p ∈ h.passedUp, p.1 < h.start
  residue : ∀ p ∈ h.passedUp, p.1 % 4096 = p.2.sequenceNumber
  sound : ∀ p ∈ h.passedUp ++ held, p ∈ h.received
  kept : ∀ p ∈ h.received, ∃ q ∈ h.passedUp ++ held, q.1 = p.1

variable {size : Nat} {s s' : RecipientBlockAckAgreement Body} {h : History Body}
  {held held' passed kept : List (Numbered Body)}

section

variable (holds : Holds size s h held)
include holds

theorem Holds.move {received : List (Numbered Body)}
    {stop start' : Nat} (ordered : Ordered h.start stop held') {stop' : Nat}
    (split : Split h.start stop' held' passed kept start') (fits : stop ≤ start' + size)
    (sound : ∀ p ∈ h.passedUp ++ held', p ∈ received)
    (keeps : ∀ p ∈ received, ∃ q ∈ h.passedUp ++ held', q.1 = p.1)
    (at_start : s'.winStartB = start' % 4096) (same : s'.winSizeB = size)
    (buffered : s'.bufferedMpdus = kept.map Prod.snd) :
    Holds size s' ⟨start', received, h.passedUp ++ passed⟩ kept := by
  have parts := split.append
  subst parts
  obtain ⟨passed_sorted, kept_sorted, -⟩ := pairwise_append.mp ordered.sorted
  have regroup : (h.passedUp ++ passed) ++ kept = h.passedUp ++ (passed ++ kept) :=
    append_assoc _ _ _
  refine ⟨at_start, same, buffered, ⟨?_, ?_, kept_sorted⟩, ?_, ?_, ?_, ?_, ?_⟩
  · intro p mem
    have := (ordered.inside p (mem_append_right _ mem)).2
    exact ⟨split.after p mem, lt_of_lt_of_le this fits⟩
  · intro p mem
    exact ordered.residue p (mem_append_right _ mem)
  · apply pairwise_append.mpr
    refine ⟨holds.increasing, passed_sorted, ?_⟩
    intro p old q new
    have := holds.before p old
    have := (ordered.inside q (mem_append_left _ new)).1
    omega
  · intro p mem
    cases mem_append.mp mem with
    | inl old =>
      have := holds.before p old
      have := split.from_start
      dsimp only
      omega
    | inr new => exact split.before p new
  · intro p mem
    cases mem_append.mp mem with
    | inl old => exact holds.residue p old
    | inr new => exact (ordered.residue p (mem_append_left _ new)).symm
  · dsimp only
    rw [regroup]
    exact sound
  · dsimp only
    rw [regroup]
    exact keeps

theorem Holds.next {event : RecipientEvent Body}
    {start' stop stop' : Nat} {received : List (Numbered Body)}
    (split : Split h.start stop' held' passed kept start') (ordered : Ordered h.start stop held')
    (near : stop ≤ h.start + 4096) (near' : start' < h.start + 4096)
    (start_is : (s.step event).1.winStartB = start' % 4096)
    (passed_is : (s.step event).2 = passed.map Prod.snd)
    (received_is : h.received ++ (History.taken s event).map (h.number s) = received) :
    h.next s event = ⟨start', received, h.passedUp ++ passed⟩ := by
  have numbers : (passed.map Prod.snd).map (h.number s) = passed := by
    rw [map_map]
    apply (map_congr_left _).trans (map_id _)
    intro p mem
    have held : p ∈ held' := split.append ▸ mem_append_left _ mem
    have inside := ordered.inside p held
    unfold History.number
    rw [Function.comp_apply, holds.at_start, ordered.residue p held,
      distance_of_number inside.1 (by omega), Nat.add_sub_cancel' inside.1]
    rfl
  have moved : h.start + getDistance (start' % 4096) s.winStartB = start' := by
    rw [holds.at_start, distance_of_number split.from_start near',
      Nat.add_sub_cancel' split.from_start]
  unfold History.next
  rw [start_is, passed_is, received_is, numbers, moved]

theorem Holds.distance (seqNumber : Fin 4096) : ∃ d < 4096, getDistance seqNumber s.winStartB = d ∧
      (seqNumber : Nat) = (h.start + d) % 4096 := by
  have inSpace : h.start % 4096 < 4096 := Nat.mod_lt _ (by decide)
  rw [holds.at_start, getDistance_eq _ inSpace]
  refine ⟨_, Nat.mod_lt _ (by decide), rfl, ?_⟩
  have back := Circular.add_offset inSpace seqNumber.isLt
  rw [Nat.mod_add_mod] at back
  exact back.symm

theorem Holds.stays (fits : size ≤ 2048)
    {event : RecipientEvent Body} (same : (s.step event).1.winStartB = s.winStartB)
    (size_same : (s.step event).1.winSizeB = s.winSizeB)
    (buffered : (s.step event).1.bufferedMpdus = s.bufferedMpdus) (none : (s.step event).2 = [])
    (not_taken : History.taken s event = []) :
    Holds size (s.step event).1 (h.next s event) held := by
  have split : Split h.start (h.start + size) held [] held h.start :=
    ⟨rfl, by omega, by omega, nofun, fun p mem => (holds.ordered.inside p mem).1⟩
  have received : h.received ++ (History.taken s event).map (h.number s) = h.received := by
    simp [not_taken]
  rw [holds.next split holds.ordered (by omega) (by omega) (same.trans holds.at_start) none
    received]
  exact holds.move holds.ordered split (by omega) holds.sound holds.kept
    (same.trans holds.at_start) (size_same.trans holds.winSizeB) (buffered.trans holds.buffered)

theorem Holds.taken (p : Numbered Body) :
    (∀ q ∈ h.passedUp ++ insertNumbered p held, q ∈ h.received ++ [p]) ∧
      ∀ q ∈ h.received ++ [p], ∃ x ∈ h.passedUp ++ insertNumbered p held, x.1 = q.1 := by
  constructor
  · intro q mem
    cases mem_append.mp mem with
    | inl old => exact mem_append_left _ (holds.sound q (mem_append_left _ old))
    | inr mem =>
      cases mem_insertNumbered mem with
      | inl is => exact mem_append_right _ (is ▸ mem_singleton_self _)
      | inr old => exact mem_append_left _ (holds.sound q (mem_append_right _ old))
  · intro q mem
    cases mem_append.mp mem with
    | inl old =>
      obtain ⟨x, mem, same⟩ := holds.kept q old
      refine ⟨x, ?_, same⟩
      cases mem_append.mp mem with
      | inl passed => exact mem_append_left _ passed
      | inr held => exact mem_append_right _ (subset_insertNumbered p held)
    | inr new =>
      rw [mem_singleton.mp new]
      obtain ⟨x, mem, same⟩ := exists_insertNumbered held p
      exact ⟨x, mem_append_right _ mem, same⟩

end

theorem startForEnd_eq {start d : Nat} {seqNumber : Fin 4096}
    (residue : (seqNumber : Nat) = (start + d) % 4096) (pos : 0 < size)
    (unwrapped : size ≤ seqNumber + 1) (ahead : size ≤ d) :
    startForEnd seqNumber size = (start + d + 1 - size) % 4096 := by
  unfold startForEnd
  have := seqNumber.isLt
  omega

/-- **An MPDU.** -/
theorem Holds.receivedMpdu (holds : Holds size s h held) (pos : 0 < size) (fits : size ≤ 2048)
    {mpdu : WifiMpdu Body} (unwrapped : Unwrapped s (.receivedMpdu mpdu)) :
    ∃ held', Holds size (s.step (.receivedMpdu mpdu)).1 (h.next s (.receivedMpdu mpdu)) held' := by
  obtain ⟨d, small, distance, residue⟩ := holds.distance mpdu.sequenceNumber
  have size_is := holds.winSizeB
  have short : getDistance mpdu.sequenceNumber s.winStartB % 2 ^ 16 = d := by
    rw [distance]
    omega
  have received (near : d < 2048) :
      h.received ++ (History.taken s (.receivedMpdu mpdu)).map (h.number s) =
        h.received ++ [(h.start + d, mpdu)] := by
    rw [History.taken, distance, if_pos near, map_singleton, History.number, distance]
  have inserted := insertMpdu_map (p := (h.start + d, mpdu)) holds.ordered (by omega)
    ⟨by omega, by omega⟩ residue
  rw [← holds.at_start, ← holds.buffered] at inserted
  obtain ⟨sound, kept⟩ := holds.taken (h.start + d, mpdu)
  have step_is : s.step (.receivedMpdu mpdu) = s.notifyReceivedMpdu mpdu := rfl
  unfold notifyReceivedMpdu at step_is
  dsimp only at step_is
  generalize stored : ({ s with
    scoreboard := scoreMpdu s.scoreboard mpdu.sequenceNumber
    bufferedMpdus := insertMpdu s.winStartB mpdu s.bufferedMpdus } :
      RecipientBlockAckAgreement Body) = t at step_is
  have t_start : t.winStartB = h.start % 4096 := by
    rw [← stored]
    exact holds.at_start
  have t_size : t.winSizeB = size := by
    rw [← stored]
    exact size_is
  have t_buffered : t.bufferedMpdus = (insertNumbered (h.start + d, mpdu) held).map Prod.snd := by
    rw [← stored]
    exact inserted
  rw [short] at step_is
  by_cases inside : d < s.winSizeB
  · rw [if_pos inside] at step_is
    have ordered := holds.ordered.insert (p := (h.start + d, mpdu))
      ⟨Nat.le_add_right _ _, Nat.add_lt_add_left (size_is ▸ inside) _⟩ le_rfl residue
    obtain ⟨passed, kept', start', split, is⟩ := pass_spec ordered (by omega) t_start t_buffered
    rw [is] at step_is
    have from_start := split.from_start
    have to_stop := split.to_stop
    refine ⟨kept', ?_⟩
    rw [holds.next split ordered (by omega) (by omega) (by rw [step_is]) (by rw [step_is])
      (received (by omega))]
    apply holds.move ordered split (by omega) sound kept <;> rw [step_is]
    exact t_size
  · rw [if_neg inside] at step_is
    by_cases ahead : d < 2048
    · rw [if_pos ahead] at step_is
      have allowed : size ≤ mpdu.sequenceNumber + 1 := by
        have ahead_of : s.winSizeB ≤ getDistance mpdu.sequenceNumber s.winStartB →
            getDistance mpdu.sequenceNumber s.winStartB < 2048 →
              s.winSizeB ≤ mpdu.sequenceNumber + 1 := unwrapped
        rw [distance, size_is] at ahead_of
        exact ahead_of (by omega) ahead
      rw [size_is, startForEnd_eq residue pos allowed (by omega)] at step_is
      have ordered := holds.ordered.insert (p := (h.start + d, mpdu))
        ⟨Nat.le_add_right _ _, Nat.lt_succ_self _⟩ (by omega) residue
      obtain ⟨passed, kept', start', from_moved, split, is⟩ :=
        passTo_spec (m := h.start + d + 1 - size) ordered (by omega) t_start t_buffered
          ⟨by omega, by omega⟩
      rw [is] at step_is
      have to_stop := split.to_stop
      refine ⟨kept', ?_⟩
      rw [holds.next split ordered (by omega) (by omega) (by rw [step_is]) (by rw [step_is])
        (received ahead)]
      apply holds.move ordered split (by omega) sound kept <;> rw [step_is]
      exact t_size
    · rw [if_neg ahead] at step_is
      refine ⟨held, ?_⟩
      apply holds.stays fits <;> try rw [step_is]
      rw [History.taken, distance, if_neg ahead]

/-- **A BAR.** -/
theorem Holds.receivedBar (holds : Holds size s h held) (fits : size ≤ 2048) (ssn : Fin 4096) :
    ∃ held', Holds size (s.step (.receivedBar ssn)).1 (h.next s (.receivedBar ssn)) held' := by
  obtain ⟨d, small, distance, residue⟩ := holds.distance ssn
  have short : getDistance ssn s.winStartB % 2 ^ 16 = d := by
    rw [distance]
    omega
  have step_is : s.step (.receivedBar ssn) = s.notifyReceivedBar ssn := rfl
  unfold notifyReceivedBar at step_is
  dsimp only at step_is
  rw [short] at step_is
  by_cases ahead : 0 < d ∧ d < 2048
  · generalize scored : ({ s with scoreboard := scoreBar s.scoreboard ssn } :
      RecipientBlockAckAgreement Body) = t at step_is
    have t_start : t.winStartB = h.start % 4096 := by
      rw [← scored]
      exact holds.at_start
    have t_buffered : t.bufferedMpdus = held.map Prod.snd := by
      rw [← scored]
      exact holds.buffered
    rw [if_pos ahead, residue] at step_is
    obtain ⟨passed, kept', start', from_moved, split, is⟩ :=
      passTo_spec (m := h.start + d) holds.ordered (by omega) t_start t_buffered
        ⟨by omega, by omega⟩
    rw [is] at step_is
    have to_stop := split.to_stop
    refine ⟨kept', ?_⟩
    have received : h.received ++ (History.taken s (.receivedBar ssn)).map (h.number s) =
        h.received := append_nil _
    rw [holds.next split holds.ordered (by omega) (by omega) (by rw [step_is]) (by rw [step_is])
      received]
    apply holds.move holds.ordered split (by omega) holds.sound holds.kept <;> rw [step_is]
    rw [← scored]
    exact holds.winSizeB
  · rw [if_neg ahead] at step_is
    refine ⟨held, ?_⟩
    apply holds.stays fits <;> try rw [step_is]
    rfl

theorem Holds.inOrder (holds : Holds size s h held) (fits : size ≤ 2048) : InOrder s h := by
  have inSpace : h.start % 4096 < 4096 := Nat.mod_lt _ (by decide)
  have inside := holds.ordered.inside
  have residue := holds.ordered.residue
  have numbers : ∀ p ∈ held, h.number s p.2 = p := by
    intro p mem
    unfold History.number
    rw [holds.at_start, residue p mem, distance_of_number (inside p mem).1
      (by have := (inside p mem).2; omega), Nat.add_sub_cancel' (inside p mem).1]
  refine ⟨⟨?_, holds.at_start⟩, ?_, ?_, holds.increasing, ?_, ?_, ?_⟩
  · rw [holds.at_start]
    exact inSpace
  · intro m mem
    rw [holds.buffered] at mem
    obtain ⟨p, stored, rfl⟩ := mem_map.mp mem
    have := inside p stored
    rw [holds.at_start, holds.winSizeB, residue p stored, distance_of_number this.1 (by omega)]
    omega
  · rw [holds.buffered, pairwise_map, holds.at_start]
    apply holds.ordered.sorted.imp_of_mem
    intro a b ma mb less
    have := inside a ma
    have := inside b mb
    rw [residue a ma, residue b mb, compare_of_numbers (by omega) (by omega)]
    exact decide_eq_true less
  · intro p mem
    exact ⟨holds.before p mem, holds.residue p mem, holds.sound p (mem_append_left _ mem)⟩
  · intro m mem
    rw [holds.buffered] at mem
    obtain ⟨p, stored, rfl⟩ := mem_map.mp mem
    rw [numbers p stored]
    exact holds.sound p (mem_append_right _ stored)
  · intro p mem
    obtain ⟨q, mem, same⟩ := holds.kept p mem
    cases mem_append.mp mem with
    | inl passed => exact .inl ⟨q, passed, same⟩
    | inr held =>
      refine .inr ⟨q.2, ?_, ?_⟩
      · rw [holds.buffered]
        exact mem_map_of_mem held
      · rw [numbers q held]
        exact same

theorem holds_create {startingSeq : Nat} (inSpace : startingSeq < 4096) (size : Nat) :
    Holds size (create startingSeq size : RecipientBlockAckAgreement Body)
      (History.create startingSeq) [] where
  at_start := (Nat.mod_eq_of_lt inSpace).symm
  winSizeB := rfl
  buffered := rfl
  ordered := ⟨nofun, nofun, .nil⟩
  increasing := .nil
  before := nofun
  residue := nofun
  sound := nofun
  kept := nofun

theorem Holds.run (holds : Holds size s h held) (pos : 0 < size) (fits : size ≤ 2048)
    {events : List (RecipientEvent Body)}
    (meets : Machine.Meets History.step (fun state event => Unwrapped state.1 event) (s, h)
      events) :
    ∃ state held' out, Machine.run History.step (s, h) events = some (state, out) ∧
      Holds size state.1 state.2 held' := by
  induction events generalizing s h held with
  | nil => exact ⟨(s, h), held, [], rfl, holds⟩
  | cons event events ih =>
    cases meets with
    | cons unwrapped later =>
      have next : ∃ held', Holds size (s.step event).1 (h.next s event) held' := by
        cases event with
        | receivedMpdu mpdu => exact holds.receivedMpdu pos fits unwrapped
        | receivedBar ssn => exact holds.receivedBar fits ssn
      obtain ⟨held', holds'⟩ := next
      obtain ⟨state, held'', out, run, holds''⟩ := ih holds' (later _ _ rfl)
      exact ⟨state, held'', _, Machine.run_of_step rfl run, holds''⟩

/-- **MPDUs are passed up in order**, in every run where each window that is found from its end
starts at zero or later. -/
theorem passed_up_in_order {startingSeq size : Nat} (inSpace : startingSeq < 4096)
    (pos : 0 < size) (fits : size ≤ 2048) {events : List (RecipientEvent Body)}
    (meets : Machine.Meets History.step (fun state event => Unwrapped state.1 event)
      (create startingSeq size, History.create startingSeq) events) :
    ∃ state out,
      Machine.run History.step (create startingSeq size, History.create startingSeq) events =
        some (state, out) ∧
      InOrder state.1 state.2 := by
  obtain ⟨state, held, out, run, holds⟩ := (holds_create inSpace size).run pos fits meets
  exact ⟨state, out, run, holds.inOrder fits⟩

def mpduOf (sequenceNumber : Fin 4096) : WifiMpdu Unit := ⟨sequenceNumber, ()⟩

theorem unwrapped_sound (state : RecipientBlockAckAgreement Unit × History Unit)
    (event : RecipientEvent Unit) (is : decide (Unwrapped state.1 event) = true) :
    Unwrapped state.1 event := of_decide_eq_true is

/-- One MPDU is missing until a BAR passes it. -/
theorem wraps_in_order : ∃ state out, Machine.run History.step (create 4094 2, History.create 4094)
        [.receivedMpdu (mpduOf 4095), .receivedMpdu (mpduOf 2), .receivedBar 4,
          .receivedMpdu (mpduOf 4)] = some (state, out) ∧ InOrder state.1 state.2 :=
  passed_up_in_order (by decide) (by decide) (by decide) (.of_checks unwrapped_sound (by decide))

/-- The window of 64 that ends at 60 starts at 65533. -/
theorem start_out_of_space :
    ¬ ∃ state out, Machine.run History.step (create 4090 64, History.create 4090)
        [.receivedMpdu (mpduOf 60)] = some (state, out) ∧ InOrder state.1 state.2 := by
  rintro ⟨state, out, run, inOrder⟩
  cases run
  exact absurd inOrder.winStartB.1 (by decide)

end Ns3.Wifi
