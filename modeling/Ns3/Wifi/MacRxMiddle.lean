import Mathlib.Data.List.Induction
import Mathlib.Data.Nat.Bitwise

/-!
# Defragmentation

The frames of one originator and one TID share a status: a flag, the last sequence control and
the fragments so far.
-/

namespace Ns3.Wifi

open List

/-- What `MacRxMiddle` reads of a frame. -/
structure DataFrame (α : Type) where
  sequenceNumber : Nat
  fragmentNumber : Nat
  moreFragments : Bool
  retry : Bool
  group : Bool
  packet : List α

/-- `GetSequenceControl`. -/
def sequenceControl (sequenceNumber fragmentNumber : Nat) : Nat :=
  (sequenceNumber <<< 4) ||| fragmentNumber

structure OriginatorRxStatus (α : Type) where
  defragmenting : Bool
  lastSequenceControl : Nat
  fragments : List (List α)

namespace OriginatorRxStatus

variable {α : Type}

def new : OriginatorRxStatus α := ⟨false, 0xffff, []⟩

/-- `AccumulateFirstFragment` and `AccumulateFragment`, with the sequence control. -/
def accumulateFragment (status : OriginatorRxStatus α) (packet : List α) (control : Nat) :
    OriginatorRxStatus α :=
  ⟨true, control, status.fragments ++ [packet]⟩

/-- `AccumulateLastFragment`, with the sequence control. -/
def accumulateLastFragment (status : OriginatorRxStatus α) (packet : List α) (control : Nat) :
    OriginatorRxStatus α × List α :=
  (⟨false, control, []⟩, (status.fragments ++ [packet]).flatten)

def isNextFragment (status : OriginatorRxStatus α) (control : Nat) : Bool :=
  control >>> 4 == status.lastSequenceControl >>> 4 &&
    control &&& 0xf == (status.lastSequenceControl &&& 0xf) + 1

def isDuplicate (status : OriginatorRxStatus α) (frame : DataFrame α) : Bool :=
  frame.retry && status.lastSequenceControl ==
    sequenceControl frame.sequenceNumber frame.fragmentNumber

def handleFragments (status : OriginatorRxStatus α) (frame : DataFrame α) :
    OriginatorRxStatus α × Option (List α) :=
  let control := sequenceControl frame.sequenceNumber frame.fragmentNumber
  if status.defragmenting then
    if frame.moreFragments then
      if status.isNextFragment control then (status.accumulateFragment frame.packet control, none)
      else (status, none)
    else if status.isNextFragment control then
      let (status, full) := status.accumulateLastFragment frame.packet control
      (status, some full)
    else (status, none)
  else if frame.moreFragments then (status.accumulateFragment frame.packet control, none)
  else (status, some frame.packet)

/-- `Receive`, with the packets that are forwarded. -/
def receive (status : OriginatorRxStatus α) (frame : DataFrame α) :
    OriginatorRxStatus α × List (List α) :=
  if status.isDuplicate frame then (status, [])
  else
    match status.handleFragments frame with
    | (status, none) => (status, [])
    | (status, some aggregate) =>
      let control := sequenceControl frame.sequenceNumber frame.fragmentNumber
      (if frame.group then status else { status with lastSequenceControl := control }, [aggregate])

def receiveAll (status : OriginatorRxStatus α) : List (DataFrame α) →
    OriginatorRxStatus α × List (List α)
  | [] => (status, [])
  | frame :: frames =>
    let (status, first) := status.receive frame
    let (status, rest) := receiveAll status frames
    (status, first ++ rest)

end OriginatorRxStatus

/-! ## What a sender sends, and what of it arrives -/

/-- A fragment, and what arrives of it: nothing, or a first copy with its retry bit and some
more copies, which are retries. -/
structure Fragment (α : Type) where
  packet : List α
  arrival : Option (Bool × Nat)

/-- An MSDU in at most sixteen fragments. -/
structure Msdu (α : Type) where
  sequenceNumber : Nat
  fragments : List (Fragment α)
  numbered : sequenceNumber < 4096
  some_fragment : fragments ≠ []
  few : fragments.length ≤ 16

variable {α : Type}

def copies (sequenceNumber i : Nat) (more : Bool) (fragment : Fragment α) : List (DataFrame α) :=
  let frame (retry : Bool) := ⟨sequenceNumber, i, more, retry, false, fragment.packet⟩
  match fragment.arrival with
  | none => []
  | some (retry, again) => frame retry :: List.replicate again (frame true)

/-- The frames of the fragments from number `i`. -/
def frames (sequenceNumber : Nat) : Nat → List (Fragment α) → List (DataFrame α)
  | _, [] => []
  | i, fragment :: rest =>
    copies sequenceNumber i (!rest.isEmpty) fragment ++ frames sequenceNumber (i + 1) rest

/-- The fragments are lost up to some fragment, and all arrive from there on. -/
def Resumes (fragments : List (Fragment α)) : Prop :=
  ∀ fragment ∈ fragments.dropWhile (·.arrival.isNone), fragment.arrival.isSome

namespace Msdu

variable (m : Msdu α)

def packets : List (List α) := m.fragments.map Fragment.packet

def frames : List (DataFrame α) := Wifi.frames m.sequenceNumber 0 m.fragments

/-- All fragments arrive. -/
def Complete : Prop := ∀ fragment ∈ m.fragments, fragment.arrival.isSome

/-- A fragment arrives and a later one is lost. -/
def Stalled : Prop := ¬ Resumes m.fragments

def arrived : Bool := m.fragments.any (·.arrival.isSome)

/-- The status after some MSDUs. -/
def statusAfter (before : List (Msdu α)) : OriginatorRxStatus α :=
  before.foldl (fun status m => (status.receiveAll m.frames).1) .new

/-- What is forwarded while an MSDU is received. -/
def forwarded (before : List (Msdu α)) : List (List α) :=
  ((statusAfter before).receiveAll m.frames).2

/-- Every MSDU that arrives whole is forwarded once, and whatever is forwarded consists of
fragments of the MSDU that is being received. -/
def Recovers (msdus : List (Msdu α)) : Prop :=
  ∀ before m after, msdus = before ++ m :: after →
    (m.Complete → m.forwarded before = [m.packets.flatten]) ∧
      ∀ packet ∈ m.forwarded before, ∃ part : List (List α), part.Sublist m.packets ∧
        packet = part.flatten

/-- The last MSDU of which something arrived was a single frame of the same sequence number,
and the MSDU begins with a retry. -/
def Repeated (before : List (Msdu α)) : Prop :=
  (∃ fragment ∈ m.fragments.head?, ∃ again, fragment.arrival = some (true, again)) ∧
    ∃ last, (before.filter arrived).getLast? = some last ∧
      last.sequenceNumber = m.sequenceNumber ∧ last.fragments.length = 1

/-- An MSDU that arrives whole comes after no stalled one and is not taken for a repetition,
and the sequence number of a stalled one does not come again. -/
def Undisturbed (msdus : List (Msdu α)) : Prop :=
  ∀ before m after, msdus = before ++ m :: after →
    (m.Complete → (∀ other ∈ before, ¬ other.Stalled) ∧ ¬ m.Repeated before) ∧
      ∀ other ∈ before, other.Stalled → other.sequenceNumber ≠ m.sequenceNumber

end Msdu

/-! ## Sequence controls -/

section

variable {s t f g : Nat}

theorem sequenceControl_eq (short : f < 16) : sequenceControl s f = 16 * s + f := by
  unfold sequenceControl
  rw [← Nat.shiftLeft_add_eq_or_of_lt short, Nat.shiftLeft_eq]
  omega

theorem sequenceControl_number (short : f < 16) : sequenceControl s f >>> 4 = s := by
  rw [sequenceControl_eq short, Nat.shiftRight_eq_div_pow]
  omega

theorem sequenceControl_fragment (short : f < 16) : sequenceControl s f &&& 0xf = f := by
  rw [sequenceControl_eq short, show (0xf : Nat) = 2 ^ 4 - 1 from rfl,
    Nat.and_two_pow_sub_one_eq_mod]
  omega

theorem sequenceControl_inj (f_short : f < 16) (g_short : g < 16) :
    sequenceControl s f = sequenceControl t g ↔ s = t ∧ f = g := by
  rw [sequenceControl_eq f_short, sequenceControl_eq g_short]
  omega

/-- No status begins with a repetition of a first fragment. -/
theorem initial_control : 0xffff = sequenceControl 4095 15 := by decide

end

namespace OriginatorRxStatus

variable {status : OriginatorRxStatus α} {s t f g i : Nat}

theorem isNextFragment_iff (last : status.lastSequenceControl = sequenceControl t g)
    (f_short : f < 16) (g_short : g < 16) :
    status.isNextFragment (sequenceControl s f) = true ↔ s = t ∧ f = g + 1 := by
  simp [isNextFragment, last, sequenceControl_number, sequenceControl_fragment, f_short, g_short]

theorem receiveAll_append (first rest : List (DataFrame α)) : status.receiveAll (first ++ rest) =
      (((status.receiveAll first).1.receiveAll rest).1,
        (status.receiveAll first).2 ++ ((status.receiveAll first).1.receiveAll rest).2) := by
  induction first generalizing status with
  | nil => rfl
  | cons frame frames ih => simp [receiveAll, ih, append_assoc]

theorem receiveAll_dropped (dropped : List (DataFrame α))
    (all : ∀ frame ∈ dropped, status.receive frame = (status, [])) :
    status.receiveAll dropped = (status, []) := by
  induction dropped with
  | nil => rfl
  | cons frame rest ih =>
    have later := ih fun frame mem => all frame (mem_cons_of_mem _ mem)
    simp [receiveAll, all frame mem_cons_self, later]

theorem receive_duplicate {frame : DataFrame α} (duplicate : status.isDuplicate frame = true) :
    status.receive frame = (status, []) := if_pos duplicate

variable {fragment : Fragment α} {retry : Bool} {fragments rest : List (Fragment α)}

theorem receiveAll_copies {more : Bool} {again : Nat}
    (arrival : fragment.arrival = some (retry, again)) {next : OriginatorRxStatus α}
    {out : List (List α)}
    (first : status.receive ⟨s, i, more, retry, false, fragment.packet⟩ = (next, out))
    (last : next.lastSequenceControl = sequenceControl s i) :
    status.receiveAll (copies s i more fragment) = (next, out) := by
  have rest : next.receiveAll
      (List.replicate again ⟨s, i, more, true, false, fragment.packet⟩) = (next, []) := by
    refine receiveAll_dropped _ fun frame mem => receive_duplicate ?_
    rw [eq_of_mem_replicate mem]
    simp [isDuplicate, last]
  unfold copies
  simp [arrival, receiveAll, first, rest]

/-! ## A fragment -/

/-- A status that waits for the beginning of an MSDU. -/
structure Idle (status : OriginatorRxStatus α) : Prop where
  resting : status.defragmenting = false
  empty : status.fragments = []

/-- A status that waits for a fragment that does not come. -/
structure Stuck (status : OriginatorRxStatus α) (t g : Nat) : Prop where
  busy : status.defragmenting = true
  last : status.lastSequenceControl = sequenceControl t g
  short : g < 16

theorem Stuck.copies (stuck : status.Stuck t g) (i_short : i < 16) (other : s ≠ t ∨ i ≠ g + 1)
    (more : Bool) (fragment : Fragment α) :
    status.receiveAll (copies s i more fragment) = (status, []) := by
  have not_next : status.isNextFragment (sequenceControl s i) = false := by
    rw [Bool.eq_false_iff, ne_eq, isNextFragment_iff stuck.last i_short stuck.short]
    omega
  refine receiveAll_dropped _ fun frame mem => ?_
  have shape : frame.sequenceNumber = s ∧ frame.fragmentNumber = i := by
    unfold Wifi.copies at mem
    split at mem
    case h_1 => cases mem
    case h_2 =>
      rcases mem_cons.mp mem with rfl | mem
      · exact ⟨rfl, rfl⟩
      · rw [eq_of_mem_replicate mem]
        exact ⟨rfl, rfl⟩
  unfold receive handleFragments
  rw [shape.1, shape.2]
  cases frame.moreFragments <;> simp [stuck.busy, not_next]

theorem receive_next (busy : status.defragmenting = true)
    (last : status.lastSequenceControl = sequenceControl s i) (short : i + 1 < 16)
    (fragment : Fragment α) (more retry : Bool) :
    status.receive ⟨s, i + 1, more, retry, false, fragment.packet⟩ =
      if more then
        (⟨true, sequenceControl s (i + 1), status.fragments ++ [fragment.packet]⟩, [])
      else (⟨false, sequenceControl s (i + 1), []⟩,
        [(status.fragments ++ [fragment.packet]).flatten]) := by
  have next : status.isNextFragment (sequenceControl s (i + 1)) = true :=
    (isNextFragment_iff last short (by omega)).mpr ⟨rfl, rfl⟩
  have new : (status.lastSequenceControl == sequenceControl s (i + 1)) = false := by
    rw [last, beq_eq_false_iff_ne, ne_eq, sequenceControl_inj (by omega) short]
    omega
  cases more <;> simp [receive, isDuplicate, new, handleFragments, busy, next, accumulateFragment,
    accumulateLastFragment]

/-- The first fragment of an MSDU, unless it looks like a repetition. -/
theorem Idle.receive_first (idle : status.Idle) (fragment : Fragment α) (more : Bool)
    (new : retry = true → status.lastSequenceControl ≠ sequenceControl s i) :
    status.receive ⟨s, i, more, retry, false, fragment.packet⟩ =
      if more then (⟨true, sequenceControl s i, [fragment.packet]⟩, [])
      else (⟨false, sequenceControl s i, []⟩, [fragment.packet]) := by
  have fresh : status.isDuplicate ⟨s, i, more, retry, false, fragment.packet⟩ = false := by
    cases retry with
    | false => rfl
    | true => simpa [isDuplicate] using new rfl
  cases more <;> simp [receive, fresh, handleFragments, idle.resting, accumulateFragment, idle.empty]

/-! ## The fragments of an MSDU -/

/-- Each packet is put together from fragments, in their order. -/
def Parts (fragments : List (Fragment α)) (out : List (List α)) : Prop :=
  ∀ packet ∈ out, ∃ part : List (List α), part.Sublist (fragments.map Fragment.packet) ∧
    packet = part.flatten

theorem Parts.nothing (fragments : List (Fragment α)) : Parts fragments [] := nofun

theorem Parts.later {out : List (List α)} (parts : Parts fragments out) (fragment : Fragment α) :
    Parts (fragment :: fragments) out :=
  fun packet mem =>
    let ⟨part, sub, eq⟩ := parts packet mem
    ⟨part, sub.cons _, eq⟩

theorem Parts.whole (fragments : List (Fragment α)) :
    Parts fragments [(fragments.map Fragment.packet).flatten] := fun _ mem =>
  ⟨_, Sublist.refl _, mem_singleton.mp mem⟩

theorem resumes_none (lost : fragment.arrival = none) :
    Resumes (fragment :: rest) ↔ Resumes rest := by
  unfold Resumes
  rw [dropWhile_cons_of_pos (by simp [lost])]

theorem resumes_some {first : Bool × Nat} (arrival : fragment.arrival = some first) :
    Resumes (fragment :: rest) ↔ ∀ other ∈ rest, other.arrival.isSome := by
  unfold Resumes
  rw [dropWhile_cons_of_neg (by simp [arrival]), forall_mem_cons]
  exact and_iff_right (by simp [arrival])

theorem resumes_of_all (all : ∀ fragment ∈ fragments, fragment.arrival.isSome) :
    Resumes fragments :=
  fun fragment mem => all fragment (dropWhile_sublist _ |>.mem mem)

theorem Stuck.frames (stuck : status.Stuck t g) (fragments : List (Fragment α)) (i : Nat)
    (other : s ≠ t ∨ g + 1 < i) (few : i + fragments.length ≤ 16) :
    status.receiveAll (frames s i fragments) = (status, []) := by
  induction fragments generalizing i with
  | nil => rfl
  | cons fragment rest ih =>
    rw [length_cons] at few
    have first := stuck.copies (s := s) (i := i) (by omega) (by omega) (!rest.isEmpty) fragment
    have later := ih (i + 1) (by omega) (by omega)
    simp [Wifi.frames, receiveAll_append, first, later]

theorem receiveAll_lost (lost : fragment.arrival = none) (rest : List (Fragment α)) :
    status.receiveAll (frames s i (fragment :: rest)) =
      status.receiveAll (frames s (i + 1) rest) := by simp [Wifi.frames, copies, lost]

/-- An MSDU that has begun ends when all its fragments arrive. -/
theorem taking_all (status : OriginatorRxStatus α) (busy : status.defragmenting = true)
    (last : status.lastSequenceControl = sequenceControl s i) (more : fragments ≠ [])
    (few : i + fragments.length < 16) (all : ∀ fragment ∈ fragments, fragment.arrival.isSome) :
    status.receiveAll (frames s (i + 1) fragments) =
      (⟨false, sequenceControl s (i + fragments.length), []⟩,
        [(status.fragments ++ fragments.map Fragment.packet).flatten]) := by
  induction fragments generalizing status i with
  | nil => exact absurd rfl more
  | cons fragment rest ih =>
    obtain ⟨here, later⟩ := forall_mem_cons.mp all
    obtain ⟨⟨retry, again⟩, arrival⟩ := Option.isSome_iff_exists.mp here
    rw [length_cons] at few
    have next := receive_next busy last (by omega) fragment (!rest.isEmpty) retry
    cases rest with
    | nil =>
      rw [Wifi.frames, receiveAll_append, receiveAll_copies arrival next rfl]
      simp [Wifi.frames, receiveAll]
    | cons second rest =>
      have first := receiveAll_copies arrival next rfl
      have rest_all := ih
        ⟨true, sequenceControl s (i + 1), status.fragments ++ [fragment.packet]⟩ rfl rfl
        (cons_ne_nil _ _) (by omega) later
      rw [Wifi.frames, receiveAll_append, first]
      simp only [rest_all]
      simp [add_assoc, add_comm]

theorem taking_gap (status : OriginatorRxStatus α) (busy : status.defragmenting = true)
    (last : status.lastSequenceControl = sequenceControl s i) (few : i + fragments.length < 16)
    (lost : ∃ fragment ∈ fragments, fragment.arrival = none) :
    ∃ next g, next.Stuck s g ∧ status.receiveAll (frames s (i + 1) fragments) = (next, []) := by
  induction fragments generalizing status i with
  | nil => exact absurd lost (by simp)
  | cons fragment rest ih =>
    rw [length_cons] at few
    cases arrival : fragment.arrival with
    | none =>
      have stuck : status.Stuck s i := ⟨busy, last, by omega⟩
      refine ⟨status, i, stuck, ?_⟩
      rw [receiveAll_lost arrival]
      exact stuck.frames rest (i + 2) (Or.inr (Nat.lt_succ_self _)) (by omega)
    | some first =>
      obtain ⟨retry, again⟩ := first
      obtain ⟨other, mem, lost⟩ := lost
      have later : other ∈ rest := by
        rcases mem_cons.mp mem with rfl | mem
        · rw [arrival] at lost
          cases lost
        · exact mem
      have more : (!rest.isEmpty) = true := by
        cases rest with
        | nil => cases later
        | cons => rfl
      have next := receive_next busy last (by omega) fragment (!rest.isEmpty) retry
      rw [if_pos more] at next
      obtain ⟨stop, g, stuck, rest_eq⟩ := ih
        ⟨true, sequenceControl s (i + 1), status.fragments ++ [fragment.packet]⟩ rfl rfl
        (by omega) ⟨other, later, lost⟩
      refine ⟨stop, g, stuck, ?_⟩
      rw [Wifi.frames, receiveAll_append, receiveAll_copies arrival next rfl]
      simp [rest_eq]

/-- The first fragment that arrives of an MSDU: it is dropped as a repetition, or it is the
last one too, or it begins the MSDU. -/
theorem Idle.begins (idle : status.Idle) {again : Nat}
    (arrival : fragment.arrival = some (retry, again)) (s i : Nat) (more : Bool) :
    retry = true ∧ status.lastSequenceControl = sequenceControl s i ∧
        status.receiveAll (copies s i more fragment) = (status, []) ∨
      (retry = true → status.lastSequenceControl ≠ sequenceControl s i) ∧
        status.receiveAll (copies s i more fragment) =
          if more then (⟨true, sequenceControl s i, [fragment.packet]⟩, [])
          else (⟨false, sequenceControl s i, []⟩, [fragment.packet]) := by
  by_cases repeated : retry = true ∧ status.lastSequenceControl = sequenceControl s i
  · obtain ⟨rfl, same⟩ := repeated
    refine Or.inl ⟨rfl, same, receiveAll_copies arrival (receive_duplicate ?_) same⟩
    simp [isDuplicate, same]
  · have new : retry = true → status.lastSequenceControl ≠ sequenceControl s i :=
      fun is_retry same => repeated ⟨is_retry, same⟩
    have first := idle.receive_first fragment more new
    refine Or.inr ⟨new, ?_⟩
    cases more <;> exact receiveAll_copies arrival first rfl

/-- The sequence control after the fragments from number `i`. -/
def lastControl (last s i : Nat) (fragments : List (Fragment α)) : Nat :=
  if fragments.any (·.arrival.isSome) then sequenceControl s (i + fragments.length - 1) else last

theorem Idle.resumes (idle : status.Idle) (s i : Nat) (resumes : Resumes fragments)
    (few : i + fragments.length ≤ 16) :
    (status.receiveAll (frames s i fragments)).1 =
        ⟨false, lastControl status.lastSequenceControl s i fragments, []⟩ ∧
      Parts fragments (status.receiveAll (frames s i fragments)).2 := by
  have eq : status = ⟨false, status.lastSequenceControl, []⟩ := by rw [← idle.resting, ← idle.empty]
  induction fragments generalizing i with
  | nil => exact ⟨eq, Parts.nothing []⟩
  | cons fragment rest ih =>
    rw [length_cons] at few
    cases arrival : fragment.arrival with
    | none =>
      obtain ⟨status_eq, parts⟩ := ih (i + 1) ((resumes_none arrival).mp resumes) (by omega)
      rw [receiveAll_lost arrival]
      refine ⟨status_eq.trans ?_, parts.later fragment⟩
      simp [lastControl, arrival, show i + 1 + rest.length = i + (rest.length + 1) by omega]
    | some first =>
      obtain ⟨retry, again⟩ := first
      have all := (resumes_some arrival).mp resumes
      have arrived : lastControl status.lastSequenceControl s i (fragment :: rest) =
          sequenceControl s (i + rest.length) := by
        simp [lastControl, arrival, show i + (rest.length + 1) - 1 = i + rest.length by omega]
      rw [arrived, frames, receiveAll_append]
      cases rest with
      | nil =>
        rcases idle.begins arrival s i false with ⟨-, same, dropped⟩ | ⟨-, begun⟩
        · simp only [isEmpty_nil, Bool.not_true, dropped]
          exact ⟨by rw [eq, same]; rfl, Parts.nothing _⟩
        · simp only [isEmpty_nil, Bool.not_true, begun, frames, receiveAll]
          exact ⟨rfl, by simpa using Parts.whole [fragment]⟩
      | cons second rest =>
        rcases idle.begins arrival s i true with ⟨-, same, dropped⟩ | ⟨-, begun⟩
        · obtain ⟨status_eq, parts⟩ := ih (i + 1) (resumes_of_all all) (by omega)
          simp only [isEmpty_cons, Bool.not_false, dropped]
          refine ⟨status_eq.trans ?_, parts.later fragment⟩
          have here : second.arrival.isSome := all second mem_cons_self
          have last : i + 1 + (rest.length + 1) - 1 = i + (rest.length + 1) := by omega
          simp [lastControl, here, last]
        · have taken := taking_all (s := s) (i := i)
            ⟨true, sequenceControl s i, [fragment.packet]⟩ rfl rfl (cons_ne_nil second rest)
            (by omega) all
          simp only [isEmpty_cons, Bool.not_false, begun, if_true, taken]
          exact ⟨trivial, by simpa using Parts.whole (fragment :: second :: rest)⟩

theorem Idle.any (idle : status.Idle) (fragments : List (Fragment α)) (s i : Nat)
    (few : i + fragments.length ≤ 16) :
    ((status.receiveAll (frames s i fragments)).1.Idle ∨
        ∃ g, (status.receiveAll (frames s i fragments)).1.Stuck s g) ∧
      Parts fragments (status.receiveAll (frames s i fragments)).2 := by
  induction fragments generalizing i with
  | nil => exact ⟨Or.inl idle, Parts.nothing []⟩
  | cons fragment rest ih =>
    rw [length_cons] at few
    obtain ⟨status_eq, parts⟩ := ih (i + 1) (by omega)
    cases arrival : fragment.arrival with
    | none =>
      rw [receiveAll_lost arrival]
      exact ⟨status_eq, parts.later fragment⟩
    | some first =>
      obtain ⟨retry, again⟩ := first
      by_cases all : ∀ other ∈ rest, other.arrival.isSome
      · obtain ⟨status_eq, parts⟩ := idle.resumes s i ((resumes_some arrival).mpr all) few
        exact ⟨Or.inl (status_eq ▸ ⟨rfl, rfl⟩), parts⟩
      · have lost : ∃ other ∈ rest, other.arrival = none := by simpa using all
        have more : (!rest.isEmpty) = true := by
          obtain ⟨other, mem, -⟩ := lost
          cases rest with
          | nil => cases mem
          | cons => rfl
        rw [frames, receiveAll_append, more]
        rcases idle.begins arrival s i true with ⟨-, -, dropped⟩ | ⟨-, begun⟩
        · simp only [dropped, nil_append]
          exact ⟨status_eq, parts.later fragment⟩
        · obtain ⟨next, g, stuck, gap⟩ := taking_gap (s := s) (i := i)
            ⟨true, sequenceControl s i, [fragment.packet]⟩ rfl rfl (by omega) lost
          simp only [begun, if_true, gap]
          exact ⟨Or.inr ⟨g, stuck⟩, Parts.nothing _⟩

theorem Idle.stalls (idle : status.Idle) (s i : Nat) (stalled : ¬ Resumes fragments)
    (few : i + fragments.length ≤ 16)
    (new : ∀ j, j + 1 < i + fragments.length → status.lastSequenceControl ≠ sequenceControl s j) :
    ∃ g, (status.receiveAll (frames s i fragments)).1.Stuck s g := by
  induction fragments generalizing i with
  | nil => exact absurd (fun fragment mem => absurd mem (by simp)) stalled
  | cons fragment rest ih =>
    rw [length_cons] at few new
    cases arrival : fragment.arrival with
    | none =>
      rw [receiveAll_lost arrival]
      exact ih (i + 1) (mt (resumes_none arrival).mpr stalled) (by omega) fun j lt =>
        new j (by omega)
    | some first =>
      obtain ⟨retry, again⟩ := first
      have lost : ∃ other ∈ rest, other.arrival = none := by
        simpa using mt (resumes_some arrival).mpr stalled
      have more : 0 < rest.length := by
        obtain ⟨other, mem, -⟩ := lost
        exact length_pos_of_mem mem
      have not_last : (!rest.isEmpty) = true := by simpa using length_pos_iff.mp more
      rw [frames, receiveAll_append, not_last]
      rcases idle.begins arrival s i true with ⟨-, same, -⟩ | ⟨-, begun⟩
      · exact absurd same (new i (by omega))
      · obtain ⟨next, g, stuck, gap⟩ := taking_gap (s := s) (i := i)
            ⟨true, sequenceControl s i, [fragment.packet]⟩ rfl rfl (by omega) lost
        simp only [begun, if_true, gap]
        exact ⟨g, stuck⟩

/-- An MSDU that arrives whole, and is not taken for a repetition. -/
theorem Idle.whole (idle : status.Idle)
    (s i : Nat) (all : ∀ other ∈ fragment :: rest, other.arrival.isSome)
    (few : i + (rest.length + 1) ≤ 16)
    (new : ∀ again, fragment.arrival = some (true, again) →
      status.lastSequenceControl ≠ sequenceControl s i) :
    (status.receiveAll (frames s i (fragment :: rest))).2 =
      [((fragment :: rest).map Fragment.packet).flatten] := by
  obtain ⟨here, all⟩ := forall_mem_cons.mp all
  obtain ⟨⟨retry, again⟩, arrival⟩ := Option.isSome_iff_exists.mp here
  rw [frames, receiveAll_append]
  rcases idle.begins arrival s i (!rest.isEmpty) with ⟨rfl, same, -⟩ | ⟨-, begun⟩
  · exact absurd same (new again arrival)
  · rw [begun]
    cases rest with
    | nil => simp [frames, receiveAll]
    | cons second rest =>
      have taken := taking_all (s := s) (i := i)
            ⟨true, sequenceControl s i, [fragment.packet]⟩ rfl rfl (cons_ne_nil second rest)
        (by rw [length_cons] at few ⊢; omega) all
      simp only [isEmpty_cons, Bool.not_false, if_true, taken]
      simp

end OriginatorRxStatus

/-! ## Runs -/

namespace Msdu

open OriginatorRxStatus

theorem statusAfter_append (before : List (Msdu α)) (m : Msdu α) :
    statusAfter (before ++ [m]) = ((statusAfter before).receiveAll m.frames).1 := by
  simp [statusAfter]

/-- The sequence control of the last frame that arrived. -/
def lastOf (before : List (Msdu α)) : Nat :=
  match (before.filter arrived).getLast? with
  | none => 0xffff
  | some last => sequenceControl last.sequenceNumber (last.fragments.length - 1)

theorem lastOf_append (before : List (Msdu α)) (m : Msdu α) :
    lastOf (before ++ [m]) = lastControl (lastOf before) m.sequenceNumber 0 m.fragments := by
  unfold lastOf lastControl
  cases here : m.arrived with
  | true =>
    have any : m.fragments.any (·.arrival.isSome) = true := here
    simp [here, any]
  | false =>
    have any : m.fragments.any (·.arrival.isSome) = false := here
    simp [here, any]

theorem few_from_zero (m : Msdu α) : 0 + m.fragments.length ≤ 16 := by
  rw [zero_add]
  exact m.few

theorem length_pos (m : Msdu α) : 0 < m.fragments.length := length_pos_iff.mpr m.some_fragment

theorem statusAfter_resting (before : List (Msdu α)) (none : ∀ m ∈ before, ¬ m.Stalled) :
    statusAfter before = ⟨false, lastOf before, []⟩ := by
  induction before using List.reverseRecOn with
  | nil => rfl
  | append_singleton before m ih =>
    have status := ih fun other mem => none other (mem_append_left _ mem)
    have resumes : Resumes m.fragments := not_not.mp (none m (mem_append_right _ mem_cons_self))
    rw [statusAfter_append, status, lastOf_append]
    exact (Idle.resumes ⟨rfl, rfl⟩ m.sequenceNumber 0 resumes m.few_from_zero).1

theorem statusAfter_cases (before : List (Msdu α))
    (new : ∀ first m rest, before = first ++ m :: rest → ∀ other ∈ first, other.Stalled →
      other.sequenceNumber ≠ m.sequenceNumber) :
    (statusAfter before).Idle ∨
      ∃ m ∈ before, m.Stalled ∧ ∃ g, (statusAfter before).Stuck m.sequenceNumber g := by
  induction before using List.reverseRecOn with
  | nil => exact Or.inl ⟨rfl, rfl⟩
  | append_singleton before m ih =>
    have earlier := ih fun first other rest eq => new first other (rest ++ [m]) (by simp [eq])
    rw [statusAfter_append]
    rcases earlier with idle | ⟨other, mem, stalled, g, stuck⟩
    · by_cases stalls : m.Stalled
      · rcases (idle.any m.fragments m.sequenceNumber 0 m.few_from_zero).1 with idle | ⟨g, stuck⟩
        · exact Or.inl idle
        · exact Or.inr ⟨m, mem_append_right _ mem_cons_self, stalls, g, stuck⟩
      · have next := idle.resumes m.sequenceNumber 0 (not_not.mp stalls) m.few_from_zero
        exact Or.inl (by
          rw [frames, next.1]
          exact ⟨rfl, rfl⟩)
    · have differs := new before m [] rfl other mem stalled
      have same := stuck.frames m.fragments 0 (Or.inl (Ne.symm differs)) m.few_from_zero
      refine Or.inr ⟨other, mem_append_left _ mem, stalled, g, ?_⟩
      rw [frames, same]
      exact stuck

/-- After a stalled MSDU the status waits for a fragment of it, until its number comes again. -/
theorem statusAfter_stuck (before : List (Msdu α))
    (distinct : (before.map sequenceNumber).Nodup) (stalled : ∃ m ∈ before, m.Stalled) :
    ∃ m ∈ before, ∃ g, (statusAfter before).Stuck m.sequenceNumber g := by
  induction before using List.reverseRecOn with
  | nil => exact absurd stalled (by simp)
  | append_singleton before m ih =>
    rw [map_append, map_singleton] at distinct
    obtain ⟨earlier, -, apart⟩ := nodup_append.mp distinct
    have differs : ∀ other ∈ before, m.sequenceNumber ≠ other.sequenceNumber := fun other mem =>
      (apart _ (mem_map_of_mem mem) _ mem_cons_self).symm
    rw [statusAfter_append]
    by_cases stalled_before : ∃ other ∈ before, other.Stalled
    · obtain ⟨other, mem, g, stuck⟩ := ih earlier stalled_before
      have same := stuck.frames m.fragments 0 (Or.inl (differs other mem)) m.few_from_zero
      refine ⟨other, mem_append_left _ mem, g, ?_⟩
      rw [frames, same]
      exact stuck
    · have none : ∀ other ∈ before, ¬ other.Stalled := fun other mem stalled =>
        stalled_before ⟨other, mem, stalled⟩
      have stalls : m.Stalled := by
        obtain ⟨other, mem, stalled⟩ := stalled
        rcases mem_append.mp mem with mem | last
        · exact absurd stalled (none other mem)
        · exact mem_singleton.mp last ▸ stalled
      rw [statusAfter_resting before none]
      have few := m.few
      have fresh : ∀ j, j + 1 < 0 + m.fragments.length →
          lastOf before ≠ sequenceControl m.sequenceNumber j := by
        intro j lt same
        unfold lastOf at same
        split at same
        case h_1 =>
          rw [initial_control, sequenceControl_inj (by omega) (by omega)] at same
          omega
        case h_2 last found =>
          have mem := mem_of_getLast? found
          have last_few := last.few
          rw [sequenceControl_inj (by omega) (by omega)] at same
          exact differs last (mem_filter.mp mem).1 same.1.symm
      have idle : Idle ⟨false, lastOf before, ([] : List (List α))⟩ := ⟨rfl, rfl⟩
      obtain ⟨g, stuck⟩ := idle.stalls m.sequenceNumber 0 stalls m.few_from_zero fresh
      exact ⟨m, mem_append_right _ mem_cons_self, g, stuck⟩

/-- What begins like a repetition of the last frame. -/
theorem not_repeated {m : Msdu α} {before : List (Msdu α)} (new : ¬ m.Repeated before)
    {fragment : Fragment α} {rest : List (Fragment α)} (eq : m.fragments = fragment :: rest)
    {again : Nat} (arrival : fragment.arrival = some (true, again)) :
    lastOf before ≠ sequenceControl m.sequenceNumber 0 := by
  intro same
  unfold lastOf at same
  split at same
  case h_1 =>
    rw [initial_control, sequenceControl_inj (by omega) (by omega)] at same
    omega
  case h_2 last found =>
    have few := last.few
    have positive := last.length_pos
    rw [sequenceControl_inj (by omega) (by omega)] at same
    exact new ⟨⟨fragment, by simp [eq], again, arrival⟩, last, found, same.1, by omega⟩

theorem forwarded_whole {m : Msdu α} {before : List (Msdu α)} (complete : m.Complete)
    (none : ∀ other ∈ before, ¬ other.Stalled) (new : ¬ m.Repeated before) :
    m.forwarded before = [m.packets.flatten] := by
  have few := m.few
  unfold forwarded frames packets
  rw [statusAfter_resting before none]
  unfold Complete at complete
  cases eq : m.fragments with
  | nil => exact absurd eq m.some_fragment
  | cons fragment rest =>
    rw [eq] at complete few
    exact Idle.whole ⟨rfl, rfl⟩ m.sequenceNumber 0 complete (by simpa using few)
      fun again arrival => not_repeated new eq arrival

/-- The second fragment of the first MSDU is lost, and the second MSDU is one frame. -/
def lossy : List (Msdu UInt8) :=
  [⟨0, [⟨[1], some (false, 0)⟩, ⟨[2], none⟩], by decide, by decide, by decide⟩,
    ⟨1, [⟨[3], some (false, 0)⟩], by decide, by decide, by decide⟩]

/-- The first fragment of the first MSDU is lost, and a copy of the other one is a retry. -/
def late : List (Msdu UInt8) :=
  [⟨0, [⟨[1], none⟩, ⟨[2], some (false, 1)⟩], by decide, by decide, by decide⟩,
    ⟨1, [⟨[3], some (false, 0)⟩, ⟨[4], some (true, 0)⟩], by decide, by decide, by decide⟩]

example : (late.flatMap frames |> OriginatorRxStatus.new.receiveAll).2 = [[2], [3, 4]] := by
  decide

end Msdu

end Ns3.Wifi
