import Ns3.Library.Machine
import Ns3.TrafficControl.CoDelQueueDisc

/-!
# CoDel under a shift of all times

Two runs of the queue disc, the second with all times later by a constant. Their decisions are
the same while the 32-bit clock wraps between the compared times in both runs or in neither.
-/

namespace Ns3.TrafficControl

namespace CoDel

/-! ## Timed enqueues and dequeues -/

inductive QueueSize
  | packets (value : UInt32)
  | bytes (value : UInt32)

/-- `GetCurrentSize() + item > GetMaxSize()` -/
def exceeds (maxSize : QueueSize) (queue : List QueueDiscItem) (item : QueueDiscItem) : Bool :=
  match maxSize with
  | .packets value => value < .ofNat queue.length + 1
  | .bytes value => value < nBytes queue + .ofNat item.size

inductive Event
  | enqueue (item : QueueDiscItem) (now : Int)
  | dequeue (now : Int)

/-- The decisions on the packets, by their `id`. -/
inductive Decision
  | enqueued (id : Nat)
  | droppedBeforeEnqueue (id : Nat)
  | droppedAfterDequeue (id : Nat)
  | marked (id : Nat) (reason : MarkReason)
  | returned (id : Option Nat)
  deriving DecidableEq

variable (attributes : Attributes) (maxSize : QueueSize)

/-- `QueueDisc::Enqueue` stamps the packet after `DoEnqueue`. -/
def enqueue (item : QueueDiscItem) (now : Int) (s : State) : State × Decision :=
  if exceeds maxSize s.queue item then (s, .droppedBeforeEnqueue item.id)
  else ({ s with queue := s.queue ++ [{ item with timeStamp := now }] }, .enqueued item.id)

/-- What is traced by a dequeue into `s`, before the packet is returned. -/
def traced (s : State) : List Decision :=
  s.droppedAfterDequeue.map (.droppedAfterDequeue ·.id) ++
    s.marked.map fun entry => .marked entry.1.id entry.2

/-- A dequeue that uses a null item has no next state. -/
def dequeue (now : Int) (s : State) : Option (State × List Decision) :=
  match doDequeue attributes now (s.queue.length + 1)
      { s with droppedAfterDequeue := [], marked := [] } with
  | .returned item s => some (s, traced s ++ [.returned (item.map (·.id))])
  | _ => none

def step (s : State) : Event → Option (State × List Decision)
  | .enqueue item now =>
    let (s, decision) := enqueue maxSize item now s
    some (s, [decision])
  | .dequeue now => dequeue attributes now s

/-- A new queue disc. -/
def empty : State where
  queue := []
  count := 0
  lastCount := 0
  dropping := false
  recInvSqrt := 65535
  firstAboveTime := 0
  dropNext := 0
  droppedAfterDequeue := []
  marked := []

/-- All decisions of a run, in order. -/
def decisions (events : List Event) : Option (List Decision) :=
  (Machine.run (step attributes maxSize) empty events).map Prod.snd

def Event.shift (d : Int) : Event → Event
  | .enqueue item now => .enqueue item (now + d)
  | .dequeue now => .dequeue (now + d)

/-! ## The shifted state -/

variable (d : Int) (ticks : UInt32)

def shiftItem (item : QueueDiscItem) : QueueDiscItem :=
  { item with timeStamp := item.timeStamp + d }

/-- Zero is the unset time. -/
def laterFirstAbove (time : UInt32) : UInt32 := if time = 0 then 0 else time + ticks

/-- The state with all times later, but with any time for the next drop. -/
def State.later (dropNext : UInt32) (s : State) : State :=
  { s with
    queue := s.queue.map (shiftItem d)
    firstAboveTime := laterFirstAbove ticks s.firstAboveTime
    dropNext
    droppedAfterDequeue := s.droppedAfterDequeue.map (shiftItem d)
    marked := s.marked.map fun entry => (shiftItem d entry.1, entry.2) }

/-- The shift takes both times past a wrap of the clock, or neither. -/
def Together (a b : UInt32) : Prop :=
  2 ^ 32 ≤ a.toNat + ticks.toNat ↔ 2 ^ 32 ≤ b.toNat + ticks.toNat

/-- The clock does not wrap within an interval. -/
def Ahead (interval now : UInt32) : Prop :=
  now.toNat + interval.toNat < 2 ^ 32

/-- No wrap of the clock is between the times that are compared in one run only, or within an
interval of drops, and no time that is set is zero. -/
structure Level (now interval : UInt32) (s : State) : Prop where
  set : s.firstAboveTime = 0 → now + interval ≠ 0 ∧ now + ticks + interval ≠ 0
  above : s.firstAboveTime ≠ 0 → Together ticks now s.firstAboveTime
  next : s.dropping = true → Together ticks now s.dropNext
  ahead : s.dropping = true → s.dropNext ≤ now → Ahead interval now ∧ Ahead interval (now + ticks)

/-- A dequeue of a packet that is above the target is level. -/
def Straight (s : State) : Event → Prop
  | .enqueue _ _ => True
  | .dequeue now => ∀ item rest, s.queue = item :: rest → isL4s attributes item = false →
    Over attributes now item rest → Level ticks (time2CoDel now) (time2CoDel attributes.interval) s

instance (a b : UInt32) : Decidable (Together ticks a b) :=
  inferInstanceAs (Decidable (_ ↔ _))

instance (interval now : UInt32) : Decidable (Ahead interval now) :=
  inferInstanceAs (Decidable (_ < _))

instance (now interval : UInt32) (s : State) : Decidable (Level ticks now interval s) :=
  decidable_of_iff ((s.firstAboveTime = 0 → now + interval ≠ 0 ∧ now + ticks + interval ≠ 0) ∧
      (s.firstAboveTime ≠ 0 → Together ticks now s.firstAboveTime) ∧
      (s.dropping = true → Together ticks now s.dropNext) ∧
      (s.dropping = true → s.dropNext ≤ now → Ahead interval now ∧ Ahead interval (now + ticks)))
    ⟨fun ⟨set, above, next, ahead⟩ => ⟨set, above, next, ahead⟩,
      fun level => ⟨level.set, level.above, level.next, level.ahead⟩⟩

instance (now : Int) (item : QueueDiscItem) (behind : List QueueDiscItem) :
    Decidable (Over attributes now item behind) :=
  inferInstanceAs (Decidable (_ ∧ _))

/-- A test for `Straight`. -/
def isStraight (s : State) : Event → Bool
  | .enqueue _ _ => true
  | .dequeue now =>
    match s.queue with
    | [] => true
    | item :: rest => isL4s attributes item || !decide (Over attributes now item rest) ||
        decide (Level ticks (time2CoDel now) (time2CoDel attributes.interval) s)

theorem isStraight_sound (s : State) (e : Event) (ok : isStraight attributes ticks s e = true) :
    Straight attributes ticks s e := by
  cases e with
  | enqueue item now => trivial
  | dequeue now =>
    intro item rest queue l4s above
    unfold isStraight at ok
    simp only [queue] at ok
    simpa [l4s, above] using ok

variable {attributes maxSize d ticks} {now : Int}

theorem Together.lt_iff {a b : UInt32} (together : Together ticks a b) :
    b + ticks < a + ticks ↔ b < a := by
  have := a.toNat_lt
  have := b.toNat_lt
  have := ticks.toNat_lt
  unfold Together at together
  rw [UInt32.lt_iff_toNat_lt, UInt32.lt_iff_toNat_lt, UInt32.toNat_add, UInt32.toNat_add]
  omega

theorem Together.le_iff {a b : UInt32} (together : Together ticks a b) :
    b + ticks ≤ a + ticks ↔ b ≤ a := by
  rw [← UInt32.not_lt, ← UInt32.not_lt, Together.lt_iff (Iff.symm together)]

theorem reciprocalDivide_le (interval r : UInt32) :
    (reciprocalDivide interval r).toNat ≤ interval.toNat := by
  have := interval.toNat_lt
  have below : interval.toNat * r.toNat ≤ interval.toNat * 2 ^ 32 :=
    Nat.mul_le_mul_left _ (Nat.le_of_lt r.toNat_lt)
  have product : (interval.toUInt64 * r.toUInt64).toNat = interval.toNat * r.toNat := by
    rw [UInt64.toNat_mul, UInt32.toNat_toUInt64, UInt32.toNat_toUInt64]
    apply Nat.mod_eq_of_lt
    calc interval.toNat * r.toNat ≤ (2 ^ 32 - 1) * (2 ^ 32 - 1) :=
          Nat.mul_le_mul (Nat.le_pred_of_lt this) (Nat.le_pred_of_lt r.toNat_lt)
      _ < 2 ^ 64 := by decide
  unfold reciprocalDivide
  rw [UInt64.toNat_toUInt32, UInt64.toNat_shiftRight, product]
  calc _ ≤ (interval.toNat * r.toNat) >>> 32 := Nat.mod_le _ _
    _ = interval.toNat * r.toNat / 2 ^ 32 := Nat.shiftRight_eq_div_pow _ _
    _ ≤ interval.toNat := Nat.div_le_of_le_mul (by rwa [Nat.mul_comm (2 ^ 32)])

variable {dropNext : UInt32} {item : QueueDiscItem} {s s' : State} {l : Locals}

/-- A drop that is due leads to one that the clock has not wrapped before. -/
theorem together_controlLaw {t interval : UInt32} {recInvSqrt : UInt16}
    (together : Together ticks t dropNext) (due : dropNext ≤ t)
    (ahead : Ahead interval t ∧ Ahead interval (t + ticks)) :
    Together ticks t (controlLaw dropNext interval recInvSqrt) := by
  have paced := reciprocalDivide_le interval (recInvSqrt.toUInt32 <<< 16)
  have := t.toNat_lt
  have := ticks.toNat_lt
  unfold Together Ahead controlLaw at *
  rw [UInt32.le_iff_toNat_le] at due
  rw [UInt32.toNat_add] at ahead ⊢
  omega

/-! ## One dequeue in both runs -/

def Locals.later (d : Int) (ticks dropNext : UInt32) (l : Locals) : Locals :=
  ⟨l.item.map (shiftItem d), l.isMarked, l.state.later d ticks dropNext⟩

def Outcome.later (d : Int) (ticks dropNext : UInt32) : Outcome → Outcome
  | .returned item s => .returned (item.map (shiftItem d)) (s.later d ticks dropNext)
  | outcome => outcome

@[simp] theorem nBytes_map_shiftItem (queue : List QueueDiscItem) :
    nBytes (queue.map (shiftItem d)) = nBytes queue := by
  simp [nBytes, shiftItem, Function.comp_def]

theorem laterFirstAbove_eq_zero {time : UInt32} (unset : time ≠ 0 → time + ticks ≠ 0) :
    laterFirstAbove ticks time = 0 ↔ time = 0 := by
  unfold laterFirstAbove
  split <;> simp_all

theorem sojourn_shiftItem (item : QueueDiscItem) :
    now + d - (shiftItem d item).timeStamp = now - item.timeStamp := by
  change now + d - (item.timeStamp + d) = now - item.timeStamp
  omega

/-- The times that `OkToDrop` needs for a packet above the target. -/
structure Timely (attributes : Attributes) (ticks : UInt32) (now : Int) (s : State) : Prop where
  set : s.firstAboveTime = 0 → time2CoDel now + time2CoDel attributes.interval ≠ 0 ∧
    time2CoDel now + ticks + time2CoDel attributes.interval ≠ 0
  above : s.firstAboveTime ≠ 0 → Together ticks (time2CoDel now) s.firstAboveTime

/-- A first-above time is not shifted to zero. -/
def Unzeroed (ticks : UInt32) (s : State) : Prop :=
  s.firstAboveTime ≠ 0 → s.firstAboveTime + ticks ≠ 0

theorem over_shiftItem {queue : List QueueDiscItem} :
    Over attributes (now + d) (shiftItem d item) (queue.map (shiftItem d)) ↔
      Over attributes now item queue := by simp [Over, sojourn_shiftItem]

theorem below_iff :
    (timeBefore (time2CoDel (now - item.timeStamp)) (time2CoDel attributes.target) ||
      decide (nBytes s.queue < attributes.minBytes)) = true ↔
        ¬ Over attributes now item s.queue := by
  simp [timeBefore, Over, ← UInt32.not_lt, imp_iff_not_or]

theorem okToDrop_below (below : ¬ Over attributes now item s.queue) :
    okToDrop attributes now item s = (false, { s with firstAboveTime := 0 }) :=
  if_pos (below_iff.mpr below)

theorem okToDrop_first (above : Over attributes now item s.queue) (first : s.firstAboveTime = 0) :
    okToDrop attributes now item s = (false, { s with
      firstAboveTime := time2CoDel now + time2CoDel attributes.interval }) :=
  (if_neg fun below => below_iff.mp below above).trans (if_pos first)

theorem okToDrop_above (above : Over attributes now item s.queue) (since : s.firstAboveTime ≠ 0) :
    okToDrop attributes now item s = (timeAfter (time2CoDel now) s.firstAboveTime, s) :=
  (if_neg fun below => below_iff.mp below above).trans (if_neg since)

theorem okToDrop_later (aligned : time2CoDel (now + d) = time2CoDel now + ticks)
    (unzeroed : Unzeroed ticks s) (item : QueueDiscItem) (dropNext : UInt32)
    (timely : Over attributes now item s.queue → Timely attributes ticks now s) :
    okToDrop attributes (now + d) (shiftItem d item) (s.later d ticks dropNext) =
        ((okToDrop attributes now item s).1,
          (okToDrop attributes now item s).2.later d ticks dropNext) ∧
      Unzeroed ticks (okToDrop attributes now item s).2 := by
  have zero_iff : (s.later d ticks dropNext).firstAboveTime = 0 ↔ s.firstAboveTime = 0 :=
    laterFirstAbove_eq_zero unzeroed
  by_cases above : Over attributes now item s.queue
  case neg =>
    rw [okToDrop_below above, okToDrop_below (mt over_shiftItem.mp above)]
    exact ⟨rfl, fun since => absurd rfl since⟩
  have shifted : Over attributes (now + d) (shiftItem d item) (s.later d ticks dropNext).queue :=
    over_shiftItem.mpr above
  by_cases first : s.firstAboveTime = 0
  · have commuted : time2CoDel now + time2CoDel attributes.interval + ticks =
        time2CoDel now + ticks + time2CoDel attributes.interval := by
      simp [UInt32.add_comm _ ticks, ← UInt32.add_assoc]
    obtain ⟨here, there⟩ := (timely above).set first
    rw [okToDrop_first above first, okToDrop_first shifted (zero_iff.mpr first), aligned]
    refine ⟨?_, fun _ => ?_⟩
    · simp only [State.later, laterFirstAbove, if_neg here, commuted]
    · rwa [← commuted] at there
  · rw [okToDrop_above above first, okToDrop_above shifted (mt zero_iff.mp first), aligned]
    refine ⟨?_, unzeroed⟩
    simp only [State.later, laterFirstAbove, if_neg first, timeAfter,
      ((timely above).above first).lt_iff]

/-- A later examination in the same dequeue finds a first-above time. -/
theorem Timely.of_ne_zero (first : s.firstAboveTime ≠ 0)
    (together : Together ticks (time2CoDel now) s.firstAboveTime) :
    Timely attributes ticks now s :=
  ⟨fun unset => absurd unset first, fun _ => together⟩

theorem dequeueInternal_later (s : State) (dropNext : UInt32) :
    dequeueInternal (s.later d ticks dropNext) =
      ((dequeueInternal s).1.map (shiftItem d), (dequeueInternal s).2.later d ticks dropNext) := by
  unfold dequeueInternal
  cases queue : s.queue with
  | nil => simp [State.later, queue]
  | cons item rest => simp [State.later, queue]

/-- The next packet is taken and examined as in the first run. -/
theorem next_later (aligned : time2CoDel (now + d) = time2CoDel now + ticks)
    (unzeroed : Unzeroed ticks s) (first : s.firstAboveTime ≠ 0)
    (together : Together ticks (time2CoDel now) s.firstAboveTime) (dropNext : UInt32) :
    okToDrop attributes (now + d) ((dequeueInternal s).1.map (shiftItem d))
        ((dequeueInternal s).2.later d ticks dropNext) =
      ((okToDrop attributes now (dequeueInternal s).1 (dequeueInternal s).2).1,
        (okToDrop attributes now (dequeueInternal s).1 (dequeueInternal s).2).2.later d ticks
          dropNext) ∧
      Unzeroed ticks (okToDrop attributes now (dequeueInternal s).1 (dequeueInternal s).2).2 := by
  unfold dequeueInternal
  cases s.queue with
  | nil => exact ⟨rfl, fun above => absurd rfl above⟩
  | cons next rest =>
    exact okToDrop_later (s := { s with queue := rest }) aligned unzeroed next dropNext
      fun _ => .of_ne_zero first together

/-- What holds before each round of the drop loop. -/
structure Paced (attributes : Attributes) (ticks : UInt32) (now : Int) (s : State) : Prop where
  since : s.firstAboveTime ≠ 0
  above : Together ticks (time2CoDel now) s.firstAboveTime
  next : Together ticks (time2CoDel now) s.dropNext
  ahead : s.dropNext ≤ time2CoDel now → Ahead (time2CoDel attributes.interval) (time2CoDel now) ∧
      Ahead (time2CoDel attributes.interval) (time2CoDel now + ticks)

/-- The invariant of the drop loop. -/
structure Looped (attributes : Attributes) (ticks : UInt32) (now : Int) (l : Locals) :
    Prop where
  unzeroed : Unzeroed ticks l.state
  paced : l.state.dropping = true → l.isMarked = false → Paced attributes ticks now l.state

/-- The local variables with all times later. -/
def Locals.shift (d : Int) (ticks : UInt32) (l : Locals) : Locals :=
  l.later d ticks (l.state.dropNext + ticks)

theorem controlLaw_shift (t interval : UInt32) (recInvSqrt : UInt16) :
    controlLaw (t + ticks) interval recInvSqrt = controlLaw t interval recInvSqrt + ticks := by
  unfold controlLaw
  rw [UInt32.add_assoc, UInt32.add_comm ticks, UInt32.add_assoc]

theorem continues_shift (aligned : time2CoDel (now + d) = time2CoDel now + ticks)
    (inv : Looped attributes ticks now l) :
    continues (now + d) (l.shift d ticks) = continues now l := by
  unfold continues
  dsimp only [Locals.shift, Locals.later, State.later]
  cases dropping : l.state.dropping with
  | false => simp
  | true =>
    cases marked : l.isMarked with
    | true => simp
    | false => simp only [timeAfterEq, aligned, (inv.paced dropping marked).next.le_iff]

theorem dropRound_marks (marks : (attributes.useEcn && item.mark) = true) :
    dropRound attributes now ⟨some item, false, s⟩ =
      some ⟨some item, true, mark item .targetExceededMark { s with
        count := s.count + 1
        recInvSqrt := newtonStep s.recInvSqrt (s.count + 1)
        dropNext := controlLaw (time2CoDel now) (time2CoDel attributes.interval)
          (newtonStep s.recInvSqrt (s.count + 1)) }⟩ :=
  if_pos marks

theorem mark_later (item : QueueDiscItem) (reason : MarkReason) (s : State) (dropNext : UInt32) :
    mark (shiftItem d item) reason (s.later d ticks dropNext) =
      (mark item reason s).later d ticks dropNext := by simp [mark, State.later]

theorem afterDrop_later (item : QueueDiscItem) (s : State) (dropNext : UInt32) :
    afterDrop (shiftItem d item) (s.later d ticks dropNext) =
      (afterDrop item s).later d ticks dropNext := by
  simp [afterDrop, dropAfterDequeue, State.later]

/-- The examination of the next packet sets the first-above time only, and leaves it when the
packet may be dropped. -/
theorem next_keeps (s : State) :
    let next := (dequeueInternal s).1
    let examined := okToDrop attributes now next (dequeueInternal s).2
    examined.2.dropNext = s.dropNext ∧ examined.2.count = s.count ∧
      examined.2.lastCount = s.lastCount ∧ examined.2.recInvSqrt = s.recInvSqrt ∧
      (examined.1 = true → examined.2.firstAboveTime = s.firstAboveTime) := by
  unfold dequeueInternal
  cases s.queue with
  | nil => exact ⟨rfl, rfl, rfl, rfl, nofun⟩
  | cons next rest =>
    obtain ⟨time, state⟩ := @okToDrop_keeps attributes now (some next) { s with queue := rest }
    dsimp only
    rw [state]
    refine ⟨rfl, rfl, rfl, rfl, fun ok => ?_⟩
    rw [okToDrop_same ok] at state
    exact (congrArg State.firstAboveTime state).symm

/-- The local variables after the examination of the next packet in the drop loop. -/
def afterNext (attributes : Attributes) (item : Option QueueDiscItem) (examined : Bool × State) :
    Locals :=
  ⟨item, false,
    if examined.1 then
      { examined.2 with
        dropNext := controlLaw examined.2.dropNext (time2CoDel attributes.interval)
          examined.2.recInvSqrt }
    else { examined.2 with dropping := false }⟩

theorem dropRound_next (unmarked : (attributes.useEcn && item.mark) = false) :
    dropRound attributes now ⟨some item, false, s⟩ =
      some (afterNext attributes (dequeueInternal (afterDrop item s)).1
        (okToDrop attributes now (dequeueInternal (afterDrop item s)).1
          (dequeueInternal (afterDrop item s)).2)) :=
  dropRound_drops unmarked

theorem afterNext_later (item : Option QueueDiscItem) (examined : Bool × State) :
    afterNext attributes (item.map (shiftItem d))
        (examined.1, examined.2.later d ticks (examined.2.dropNext + ticks)) =
      (afterNext attributes item examined).shift d ticks := by
  obtain ⟨ok, s⟩ := examined
  cases ok with
  | false => rfl
  | true => simp [afterNext, Locals.shift, Locals.later, State.later, controlLaw_shift]

theorem dropRound_shift (aligned : time2CoDel (now + d) = time2CoDel now + ticks)
    (inv : Looped attributes ticks now l) (goes : continues now l = true) :
    dropRound attributes (now + d) (l.shift d ticks) =
        (dropRound attributes now l).map (Locals.shift d ticks) ∧
      ∀ t, dropRound attributes now l = some t → Looped attributes ticks now t := by
  obtain ⟨item, isMarked, s⟩ := l
  unfold continues timeAfterEq at goes
  simp only [Bool.and_eq_true, Bool.not_eq_true', decide_eq_true_eq] at goes
  obtain ⟨⟨rfl, dropping⟩, due⟩ := goes
  have paced := inv.paced dropping rfl
  cases item with
  | none => exact ⟨rfl, nofun⟩
  | some item =>
    cases marks : attributes.useEcn && item.mark with
    | true =>
      rw [dropRound_marks marks]
      refine ⟨?_, ?_⟩
      · refine (@dropRound_marks attributes (now + d) (shiftItem d item) _ marks).trans ?_
        rw [Option.map_some, aligned, controlLaw_shift]
        refine congrArg some ?_
        simp [Locals.shift, Locals.later, State.later, mark]
      · rintro t made
        cases made
        exact ⟨inv.unzeroed, fun _ => nofun⟩
    | false =>
      have unzeroed : Unzeroed ticks (afterDrop item s) := inv.unzeroed
      obtain ⟨alike, unzeroed'⟩ := @next_later attributes d ticks now _ aligned unzeroed paced.since
        paced.above (s.dropNext + ticks)
      obtain ⟨same_next, -, -, -, same_above⟩ := @next_keeps attributes now (afterDrop item s)
      rw [dropRound_next marks]
      refine ⟨?_, ?_⟩
      · refine (@dropRound_next attributes (now + d) (shiftItem d item) _ marks).trans ?_
        rw [afterDrop_later, dequeueInternal_later, alike, Option.map_some, ← afterNext_later,
          same_next]
        rfl
      · rintro t made
        cases made
        unfold afterNext
        dsimp only at same_above ⊢
        split
        case isTrue ok =>
          have kept := same_above ok
          refine ⟨unzeroed', fun _ _ => ⟨?_, ?_, ?_, fun _ => paced.ahead due⟩⟩
          · exact kept ▸ paced.since
          · exact kept ▸ paced.above
          · exact together_controlLaw (same_next ▸ paced.next) (same_next ▸ due) (paced.ahead due)
        case isFalse => exact ⟨unzeroed', nofun⟩

/-- **The drop loop** takes the same packets in both runs. -/
theorem dropLoop_shift (aligned : time2CoDel (now + d) = time2CoDel now + ticks)
    (inv : Looped attributes ticks now l) (fuel : Nat) :
    dropLoop attributes (now + d) fuel (l.shift d ticks) =
        (dropLoop attributes now fuel l).map (Locals.shift d ticks) ∧
      ∀ t, dropLoop attributes now fuel l = some t → Looped attributes ticks now t :=
  WhileLoop.loop_map (Locals.shift d ticks) (Looped attributes ticks now)
    (continues_shift aligned) (dropRound_shift aligned) fuel inv

/-- The time for the next drop moves with the clock, unless it is not used. -/
def Due (ticks : UInt32) (s : State) (dropNext : UInt32) : Prop :=
  dropNext = s.dropNext + ticks ∨ s.dropping = false ∧ s.count = s.lastCount

theorem Due.eq (due : Due ticks s dropNext) (dropping : s.dropping = true) :
    dropNext = s.dropNext + ticks :=
  due.resolve_right fun idle => Bool.false_ne_true (idle.1.symm.trans dropping)

theorem enterDropping_later (aligned : time2CoDel (now + d) = time2CoDel now + ticks)
    (due : dropNext = s.dropNext + ticks ∨ s.count = s.lastCount) :
    enterDropping attributes (now + d) (s.later d ticks dropNext) =
      (enterDropping attributes now s).later d ticks
        ((enterDropping attributes now s).dropNext + ticks) := by
  have test : (1 < (s.count - s.lastCount).toBitVec.toInt &&
      timeBefore (time2CoDel (now + d) - dropNext) (16 * time2CoDel attributes.interval)) =
      (1 < (s.count - s.lastCount).toBitVec.toInt &&
        timeBefore (time2CoDel now - s.dropNext) (16 * time2CoDel attributes.interval)) := by
    rcases due with rfl | idle
    · have elapsed : time2CoDel now + ticks - (s.dropNext + ticks) =
          time2CoDel now - s.dropNext := by grind
      rw [aligned, elapsed]
    · simp [idle]
  unfold enterDropping
  dsimp only [State.later]
  rw [test, aligned]
  split <;> simp only [controlLaw_shift]

theorem finish_later (l : Locals) (dropNext : UInt32) :
    finish attributes (now + d) (l.later d ticks dropNext) =
      (finish attributes now l).later d ticks dropNext := by
  obtain ⟨item, isMarked, s⟩ := l
  cases item with
  | none => rfl
  | some item =>
    unfold finish
    dsimp only [Locals.later, Option.map_some]
    rw [sojourn_shiftItem, mark_later]
    change (if (!isMarked && !attributes.useL4s && attributes.useEcn && _ && item.mark) = true
      then _ else _) = _
    split <;> rfl

theorem firstDrop_next (unmarked : (attributes.useEcn && item.mark) = false) :
    firstDrop attributes now item s =
      ⟨(dequeueInternal (dropAfterDequeue item s)).1, false, enterDropping attributes now
        (okToDrop attributes now (dequeueInternal (dropAfterDequeue item s)).1
          (dequeueInternal (dropAfterDequeue item s)).2).2⟩ :=
  if_neg (ne_true_of_eq_false unmarked)

theorem firstDrop_later (aligned : time2CoDel (now + d) = time2CoDel now + ticks)
    (due : dropNext = s.dropNext + ticks ∨ s.count = s.lastCount) (unzeroed : Unzeroed ticks s)
    (since : s.firstAboveTime ≠ 0) (above : Together ticks (time2CoDel now) s.firstAboveTime)
    (item : QueueDiscItem) :
    firstDrop attributes (now + d) (shiftItem d item) (s.later d ticks dropNext) =
        (firstDrop attributes now item s).shift d ticks ∧
      Unzeroed ticks (firstDrop attributes now item s).state := by
  have enters : ∀ t : State, Unzeroed ticks t → Unzeroed ticks (enterDropping attributes now t) := by
    intro t unzeroed
    unfold enterDropping
    dsimp only
    split <;> exact unzeroed
  cases marks : attributes.useEcn && item.mark with
  | true =>
    have marks' : (attributes.useEcn && (shiftItem d item).mark) = true := marks
    unfold firstDrop
    rw [if_pos marks, if_pos marks', mark_later]
    refine ⟨?_, enters _ unzeroed⟩
    have entered := @enterDropping_later attributes d ticks now dropNext
      (mark item .targetExceededMark s) aligned due
    rw [entered]
    rfl
  | false =>
    have marks' : (attributes.useEcn && (shiftItem d item).mark) = false := marks
    have dropped : dropAfterDequeue (shiftItem d item) (s.later d ticks dropNext) =
        (dropAfterDequeue item s).later d ticks dropNext := by simp [dropAfterDequeue, State.later]
    obtain ⟨alike, unzeroed'⟩ := @next_later attributes d ticks now
      (dropAfterDequeue item s) aligned unzeroed since above dropNext
    obtain ⟨same_next, same_count, same_last, -, -⟩ :=
      @next_keeps attributes now (dropAfterDequeue item s)
    rw [firstDrop_next marks, firstDrop_next marks', dropped, dequeueInternal_later, alike,
      enterDropping_later aligned]
    · exact ⟨rfl, enters _ unzeroed'⟩
    · rw [same_next, same_count, same_last]
      exact due

/-- A state of the second run. -/
structure Shifted (d : Int) (ticks : UInt32) (s s' : State) : Prop where
  later : ∃ dropNext, s' = s.later d ticks dropNext ∧ Due ticks s dropNext
  unzeroed : Unzeroed ticks s

inductive Alike (d : Int) (ticks : UInt32) : Outcome → Outcome → Prop
  | unended : Alike d ticks .unended .unended
  | nullItem : Alike d ticks .nullItem .nullItem
  | returned (item : Option QueueDiscItem) {s s' : State} : Shifted d ticks s s' →
      Alike d ticks (.returned item s) (.returned (item.map (shiftItem d)) s')

theorem finish_alike (due : Due ticks l.state dropNext) (unzeroed : Unzeroed ticks l.state) :
    Alike d ticks (finish attributes now l)
      (finish attributes (now + d) (l.later d ticks dropNext)) := by
  rw [finish_later]
  obtain ⟨item, isMarked, s⟩ := l
  cases item with
  | none => exact .nullItem
  | some item =>
    unfold finish
    dsimp only
    split
    · exact .returned _ ⟨⟨dropNext, rfl, due⟩, unzeroed⟩
    · exact .returned _ ⟨⟨dropNext, rfl, due⟩, unzeroed⟩

theorem isL4s_shiftItem (item : QueueDiscItem) :
    isL4s attributes (shiftItem d item) = isL4s attributes item :=
  rfl

/-- What `DoDequeue` does with the packet that it examined. -/
def afterExamined (attributes : Attributes) (now : Int) (fuel : Nat) (item : QueueDiscItem)
    (ok : Bool) (s : State) : Outcome :=
  if s.dropping then
    if ok then
      match dropLoop attributes now fuel ⟨item, false, s⟩ with
      | none => .unended
      | some l => finish attributes now l
    else finish attributes now ⟨item, false, { s with dropping := false }⟩
  else if ok then finish attributes now (firstDrop attributes now item s)
  else finish attributes now ⟨item, false, s⟩

/-- The packet that may be dropped is above the target, with all times level. -/
theorem afterExamined_alike (aligned : time2CoDel (now + d) = time2CoDel now + ticks)
    (due : Due ticks s dropNext) (unzeroed : Unzeroed ticks s)
    {ok : Bool}
    (level : ok = true → s.firstAboveTime ≠ 0 ∧
      Level ticks (time2CoDel now) (time2CoDel attributes.interval) s) (fuel : Nat) :
    Alike d ticks (afterExamined attributes now fuel item ok s)
      (afterExamined attributes (now + d) fuel (shiftItem d item) ok
        (s.later d ticks dropNext)) := by
  unfold afterExamined
  have same_dropping : (s.later d ticks dropNext).dropping = s.dropping := rfl
  rw [same_dropping]
  cases dropping : s.dropping with
  | true =>
    rw [if_pos rfl, if_pos rfl]
    obtain rfl := due.eq dropping
    cases ok with
    | false =>
      exact @finish_alike attributes d ticks now _ ⟨item, false, { s with dropping := false }⟩
        (.inl rfl) unzeroed
    | true =>
      rw [if_pos rfl, if_pos rfl]
      obtain ⟨since, level⟩ := level rfl
      have inv : Looped attributes ticks now ⟨item, false, s⟩ :=
        ⟨unzeroed, fun _ _ => ⟨since, level.above since, level.next dropping, level.ahead dropping⟩⟩
      obtain ⟨same, kept⟩ := dropLoop_shift aligned inv fuel
      have shifted : dropLoop attributes (now + d) fuel
          ⟨shiftItem d item, false, s.later d ticks (s.dropNext + ticks)⟩ = _ := same
      rw [shifted]
      cases done : dropLoop attributes now fuel ⟨item, false, s⟩ with
      | none => exact .unended
      | some l => exact finish_alike (.inl rfl) (kept l done).unzeroed
  | false =>
    rw [if_neg Bool.false_ne_true, if_neg Bool.false_ne_true]
    cases ok with
    | false =>
      exact @finish_alike attributes d ticks now _ ⟨item, false, s⟩ due unzeroed
    | true =>
      rw [if_pos rfl, if_pos rfl]
      obtain ⟨since, level⟩ := level rfl
      obtain ⟨same, unzeroed'⟩ := @firstDrop_later attributes d ticks now dropNext s aligned
        (due.imp_right And.right) unzeroed since (level.above since) item
      rw [same]
      exact finish_alike (.inl rfl) unzeroed'

/-- **One dequeue** is the same in both runs. -/
theorem doDequeue_alike (aligned : time2CoDel (now + d) = time2CoDel now + ticks)
    (shifted : Shifted d ticks s s') (straight : Straight attributes ticks s (.dequeue now))
    (fuel : Nat) :
    Alike d ticks (doDequeue attributes now fuel s) (doDequeue attributes (now + d) fuel s') := by
  obtain ⟨⟨dropNext, rfl, due⟩, unzeroed⟩ := shifted
  unfold doDequeue
  rw [dequeueInternal_later]
  unfold dequeueInternal
  cases queue : s.queue with
  | nil =>
    refine .returned none ⟨⟨dropNext, rfl, ?_⟩, unzeroed⟩
    exact due.imp_right fun idle => ⟨rfl, idle.2⟩
  | cons item rest =>
    dsimp only [Option.map_some]
    rw [isL4s_shiftItem]
    cases l4s : isL4s attributes item with
    | true =>
      have same_mark : (shiftItem d item).mark = item.mark := rfl
      rw [if_pos rfl, if_pos rfl, sojourn_shiftItem, same_mark, mark_later]
      split
      · exact .returned (some item) ⟨⟨dropNext, rfl, due⟩, unzeroed⟩
      · exact .returned (some item) ⟨⟨dropNext, rfl, due⟩, unzeroed⟩
    | false =>
      rw [if_neg Bool.false_ne_true, if_neg Bool.false_ne_true]
      have level := straight item rest queue l4s
      obtain ⟨alike, unzeroed'⟩ := @okToDrop_later attributes d ticks now
        { s with queue := rest } aligned unzeroed item dropNext
        fun above => ⟨(level above).set, (level above).above⟩
      obtain ⟨time, keeps⟩ := @okToDrop_keeps attributes now (some item) { s with queue := rest }
      rw [alike]
      rcases examined : okToDrop attributes now (some item) { s with queue := rest } with ⟨ok, t⟩
      rw [examined] at unzeroed' keeps
      have due' : Due ticks t dropNext := by
        rw [show t = _ from keeps]
        exact due
      refine afterExamined_alike aligned due' unzeroed' (fun okay => ?_) fuel
      obtain ⟨above, since, -⟩ := (@okToDrop_iff attributes now item { s with queue := rest }).mp
        (by rw [examined]; exact okay)
      rw [okToDrop_same (by rw [examined]; exact okay)] at examined
      cases examined
      obtain ⟨set, first, next, ahead⟩ := level above
      exact ⟨since, set, first, next, ahead⟩

/-! ## The runs -/

theorem traced_later (s : State) (dropNext : UInt32) :
    traced (s.later d ticks dropNext) = traced s := by
  simp [traced, State.later, shiftItem, Function.comp_def]

theorem exceeds_map_shiftItem (maxSize : QueueSize) (queue : List QueueDiscItem)
    (item : QueueDiscItem) :
    exceeds maxSize (queue.map (shiftItem d)) item = exceeds maxSize queue item := by
  cases maxSize <;> simp [exceeds]

theorem enqueue_shifted (shifted : Shifted d ticks s s') (item : QueueDiscItem) (now : Int) :
    Shifted d ticks (enqueue maxSize item now s).1 (enqueue maxSize item (now + d) s').1 ∧
      (enqueue maxSize item now s).2 = (enqueue maxSize item (now + d) s').2 := by
  obtain ⟨⟨dropNext, rfl, due⟩, unzeroed⟩ := shifted
  unfold enqueue
  rw [show (s.later d ticks dropNext).queue = s.queue.map (shiftItem d) from rfl,
    exceeds_map_shiftItem]
  split
  · exact ⟨⟨⟨dropNext, rfl, due⟩, unzeroed⟩, rfl⟩
  · refine ⟨⟨⟨dropNext, ?_, due⟩, unzeroed⟩, rfl⟩
    simp [State.later, shiftItem]

/-- Each step decides the same in both runs. -/
theorem step_alike {e : Event}
    (aligned : ∀ now, e = .dequeue now → time2CoDel (now + d) = time2CoDel now + ticks)
    (shifted : Shifted d ticks s s') (straight : Straight attributes ticks s e) :
    Option.Rel (fun first second => Shifted d ticks first.1 second.1 ∧ first.2 = second.2)
      (step attributes maxSize s e) (step attributes maxSize s' (e.shift d)) := by
  cases e with
  | enqueue item now =>
    obtain ⟨kept, same⟩ := @enqueue_shifted maxSize d ticks _ _ shifted item now
    exact .some ⟨kept, congrArg ([·]) same⟩
  | dequeue now =>
    have clean : Shifted d ticks { s with droppedAfterDequeue := [], marked := [] }
        { s' with droppedAfterDequeue := [], marked := [] } := by
      obtain ⟨⟨dropNext, rfl, due⟩, unzeroed⟩ := shifted
      exact ⟨⟨dropNext, rfl, due⟩, unzeroed⟩
    have length : s'.queue.length = s.queue.length := by
      obtain ⟨⟨dropNext, rfl, -⟩, -⟩ := shifted
      exact List.length_map _
    have alike := @doDequeue_alike attributes d ticks now _ _ (aligned now rfl) clean
      (fun item rest queue l4s above =>
        let ⟨set, since, next, ahead⟩ := straight item rest queue l4s above
        ⟨set, since, next, ahead⟩) (s.queue.length + 1)
    change Option.Rel _ (dequeue attributes now s) (dequeue attributes (now + d) s')
    unfold dequeue
    rw [length]
    revert alike
    generalize doDequeue attributes now (s.queue.length + 1) _ = first
    generalize doDequeue attributes (now + d) (s.queue.length + 1) _ = second
    rintro (_ | _ | ⟨item, kept⟩)
    · exact .none
    · exact .none
    · refine .some ⟨kept, ?_⟩
      obtain ⟨⟨dropNext, rfl, -⟩, -⟩ := kept
      rw [traced_later, Option.map_map]
      rfl

theorem empty_shifted : Shifted d ticks empty empty :=
  ⟨⟨0, rfl, .inr ⟨rfl, rfl⟩⟩, fun since => absurd rfl since⟩

/-- A shift by whole ticks moves all times alike. -/
theorem time2CoDel_add (now ticks : Int) :
    time2CoDel (now + 1024 * ticks) = time2CoDel now + time2CoDel (1024 * ticks) := by
  unfold time2CoDel
  simp only [Int.shiftRight_eq_div_pow]
  rw [← UInt32.toNat_inj, UInt32.toNat_add]
  simp only [UInt32.toNat_ofNat']
  omega

/-- **Elapsed time** decides: the decisions of a run do not change when all times are shifted, if
the CoDel times of the dequeues move alike and each step is straight. -/
theorem decisions_shift (attributes : Attributes) (maxSize : QueueSize) (events : List Event)
    (d : Int) (ticks : UInt32)
    (aligned : ∀ now, .dequeue now ∈ events → time2CoDel (now + d) = time2CoDel now + ticks)
    (straight : Machine.Meets (step attributes maxSize) (Straight attributes ticks) empty events) :
    decisions attributes maxSize (events.map (Event.shift d)) =
      decisions attributes maxSize events := by
  refine Machine.run_alike (Event.shift d) ?_ (@empty_shifted d ticks) straight
  intro s s' e mem shifted straight
  exact step_alike (fun now is => aligned now (is ▸ mem)) shifted straight

/-- The default attributes. -/
def defaults : Attributes := ⟨false, false, 1500, 100000000, 5000000, 2 ^ 63 - 1⟩

/-- Four packets since time zero, and two dequeues. -/
def fourPackets (first second : Int) : List Event :=
  [.enqueue ⟨1, 1500, 0, none, false⟩ 0, .enqueue ⟨2, 1500, 0, none, false⟩ 0,
    .enqueue ⟨3, 1500, 0, none, false⟩ 0, .enqueue ⟨4, 1500, 0, none, false⟩ 0,
    .dequeue first, .dequeue second]

/-- A packet is dropped after an interval, and also a tick later. -/
theorem dropped_ticks_later :
    decisions defaults (.packets 1000) ((fourPackets 6000000 107000000).map (Event.shift 1024)) =
      decisions defaults (.packets 1000) (fourPackets 6000000 107000000) := by
  apply decisions_shift defaults (.packets 1000) (fourPackets 6000000 107000000) 1024 1
  · rintro now -
    exact time2CoDel_add now 1
  · exact .of_checks (isStraight_sound defaults 1) (by decide +kernel)

/-- A shift by a nanosecond rounds the times otherwise, so that a packet is dropped. After a
shift to before the wrap of the clock, one is dropped a millisecond after the first was above
the target. -/
theorem shifted_decisions :
    decisions defaults (.packets 1000) ((fourPackets 6000000 106000383).map (Event.shift 1)) ≠
        decisions defaults (.packets 1000) (fourPackets 6000000 106000383) ∧
      decisions defaults (.packets 1000)
          ((fourPackets 6000000 7000000).map (Event.shift (1024 * (2 ^ 32 - 100000)))) ≠
        decisions defaults (.packets 1000) (fourPackets 6000000 7000000) := by decide +kernel

end CoDel

end Ns3.TrafficControl
