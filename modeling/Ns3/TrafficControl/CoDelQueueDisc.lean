import Ns3.Library.Loops
import Ns3.TrafficControl.QueueDiscTree

/-!
# `CoDelQueueDisc`

The dequeue of CoDel with its drop loop. Times are in nanoseconds, those of CoDel in units of
1024 of them, with 32 bits.
-/

namespace Ns3.TrafficControl

namespace CoDel

inductive MarkReason
  | targetExceededMark
  | ceThresholdExceededMark
  deriving DecidableEq

structure Attributes where
  useEcn : Bool
  useL4s : Bool
  minBytes : UInt32
  interval : Int
  target : Int
  ceThreshold : Int

/-- What changes; the packets that were dropped after dequeue or marked are traced. -/
structure State where
  /-- The internal queue, its head first. -/
  queue : List QueueDiscItem
  count : UInt32
  lastCount : UInt32
  dropping : Bool
  recInvSqrt : UInt16
  firstAboveTime : UInt32
  dropNext : UInt32
  droppedAfterDequeue : List QueueDiscItem
  marked : List (QueueDiscItem × MarkReason)

/-! ## Arithmetic -/

/-- `Time2CoDel`, and `CoDelGetTime` for the current time. -/
def time2CoDel (t : Int) : UInt32 := .ofNat ((t >>> (10 : Nat)) % 2 ^ 32).toNat

/-- The difference is taken in 64 bits, so that it does not wrap. -/
def timeAfter (a b : UInt32) : Bool := b < a

def timeAfterEq (a b : UInt32) : Bool := b ≤ a

def timeBefore (a b : UInt32) : Bool := a < b

def reciprocalDivide (a r : UInt32) : UInt32 := ((a.toUInt64 * r.toUInt64) >>> 32).toUInt32

def newtonStep (recInvSqrt : UInt16) (count : UInt32) : UInt16 :=
  let invsqrt := recInvSqrt.toUInt32 <<< 16
  let invsqrt2 := ((invsqrt.toUInt64 * invsqrt.toUInt64) >>> 32).toUInt32
  let val := ((3 : UInt64) <<< 32) - count.toUInt64 * invsqrt2.toUInt64
  let val := val >>> 2
  let val := (val * invsqrt.toUInt64) >>> (32 - 2 + 1)
  (val >>> 16).toUInt16

def controlLaw (t interval : UInt32) (recInvSqrt : UInt16) : UInt32 :=
  t + reciprocalDivide interval (recInvSqrt.toUInt32 <<< 16)

/-! ## Dequeue -/

variable (attributes : Attributes) (now : Int)

def nBytes (queue : List QueueDiscItem) : UInt32 := .ofNat (queue.map (·.size)).sum

def okToDrop (item : Option QueueDiscItem) (s : State) : Bool × State :=
  match item with
  | none => (false, { s with firstAboveTime := 0 })
  | some item =>
    let sojournTime := time2CoDel (now - item.timeStamp)
    if timeBefore sojournTime (time2CoDel attributes.target) ||
        nBytes s.queue < attributes.minBytes then
      (false, { s with firstAboveTime := 0 })
    else if s.firstAboveTime = 0 then
      (false, { s with firstAboveTime := time2CoDel now + time2CoDel attributes.interval })
    else (timeAfter (time2CoDel now) s.firstAboveTime, s)

def dequeueInternal (s : State) : Option QueueDiscItem × State :=
  match s.queue with
  | [] => (none, s)
  | item :: rest => (some item, { s with queue := rest })

def dropAfterDequeue (item : QueueDiscItem) (s : State) : State :=
  { s with droppedAfterDequeue := s.droppedAfterDequeue ++ [item] }

def mark (item : QueueDiscItem) (reason : MarkReason) (s : State) : State :=
  { s with marked := s.marked ++ [(item, reason)] }

/-- The local variables of `DoDequeue` with the state. -/
structure Locals where
  item : Option QueueDiscItem
  isMarked : Bool
  state : State

/-- One round of the drop loop; `none` is the use of a null item. A mark goes to the end. -/
def dropRound (l : Locals) : Option Locals :=
  match l.item with
  | none => none
  | some item =>
    let s := l.state
    let count := s.count + 1
    let s := { s with count, recInvSqrt := newtonStep s.recInvSqrt count }
    let interval := time2CoDel attributes.interval
    if attributes.useEcn && item.mark then
      let s := mark item .targetExceededMark s
      some ⟨item, true, { s with
        dropNext := controlLaw (time2CoDel now) interval s.recInvSqrt }⟩
    else
      let (item, s) := dequeueInternal (dropAfterDequeue item s)
      let (okToDrop, s) := okToDrop attributes now item s
      if okToDrop then
        some ⟨item, false, { s with dropNext := controlLaw s.dropNext interval s.recInvSqrt }⟩
      else some ⟨item, false, { s with dropping := false }⟩

/-- `while (m_dropping && CoDelTimeAfterEq (now, m_dropNext))` -/
def dropLoop (fuel : Nat) (l : Locals) : Option Locals :=
  WhileLoop.loop (fun l => !l.isMarked && l.state.dropping &&
    timeAfterEq (time2CoDel now) l.state.dropNext) (dropRound attributes now) fuel l

/-- The state that is entered with the first drop or mark. -/
def enterDropping (s : State) : State :=
  let s := { s with dropping := true }
  let interval := time2CoDel attributes.interval
  let delta := s.count - s.lastCount
  let s :=
    if 1 < delta.toBitVec.toInt && timeBefore (time2CoDel now - s.dropNext) (16 * interval) then
      { s with count := delta, recInvSqrt := newtonStep s.recInvSqrt delta }
    else { s with count := 1, recInvSqrt := 65535 }
  { s with
    lastCount := s.count
    dropNext := controlLaw (time2CoDel now) interval s.recInvSqrt }

/-- Not in the dropping state: enter it with the first packet, if it is to be dropped. -/
def firstDrop (item : QueueDiscItem) (s : State) : Locals :=
  if attributes.useEcn && item.mark then
    ⟨some item, true, enterDropping attributes now (mark item .targetExceededMark s)⟩
  else
    let (next, s) := dequeueInternal (dropAfterDequeue item s)
    let (_, s) := okToDrop attributes now next s
    ⟨next, false, enterDropping attributes now s⟩

inductive Outcome
  /-- The loop ran out of fuel, or used a null item. -/
  | unended
  /-- `item->GetTimeStamp()` of a null item. -/
  | nullItem
  | returned (item : Option QueueDiscItem) (state : State)

/-- What follows the label `end`. -/
def finish (l : Locals) : Outcome :=
  match l.item with
  | none => .nullItem
  | some item =>
    let ldelay := time2CoDel (now - item.timeStamp)
    if !l.isMarked && !attributes.useL4s && attributes.useEcn &&
        timeAfter ldelay (time2CoDel attributes.ceThreshold) && item.mark then
      .returned item (mark item .ceThresholdExceededMark l.state)
    else .returned item l.state

/-- An ECT1 or CE packet, that L4S only marks. -/
def isL4s (item : QueueDiscItem) : Bool :=
  attributes.useL4s && item.tosByte.any fun tos => tos % 4 = 1 || tos % 4 = 3

def doDequeue (fuel : Nat) (s : State) : Outcome :=
  match dequeueInternal s with
  | (none, s) => .returned none { s with dropping := false }
  | (some item, s) =>
    if isL4s attributes item then
      if timeAfter (time2CoDel (now - item.timeStamp)) (time2CoDel attributes.ceThreshold) &&
          item.mark then
        .returned item (mark item .ceThresholdExceededMark s)
      else .returned item s
    else
      let (okToDrop, s) := okToDrop attributes now item s
      if s.dropping then
        if okToDrop then
          match dropLoop attributes now fuel ⟨item, false, s⟩ with
          | none => .unended
          | some l => finish attributes now l
        else finish attributes now ⟨item, false, { s with dropping := false }⟩
      else if okToDrop then finish attributes now (firstDrop attributes now item s)
      else finish attributes now ⟨item, false, s⟩

/-! ## Which packets are returned or dropped -/

/-- The packets taken from a queue are dropped, up to the one that is kept; without one all
are. -/
structure Takes (queue dropped : List QueueDiscItem) (item : Option QueueDiscItem)
    (s : State) : Prop where
  taken : ∃ drops, queue = drops ++ item.toList ++ s.queue ∧
    s.droppedAfterDequeue = dropped ++ drops
  all : item = none → s.queue = []

/-- The sojourn time is not below the target, with enough bytes behind the packet. -/
def Over (item : QueueDiscItem) (behind : List QueueDiscItem) : Prop :=
  time2CoDel attributes.target ≤ time2CoDel (now - item.timeStamp) ∧
    attributes.minBytes ≤ nBytes behind

/-- In the dropping state: a drop is due for each packet, which is neither marked nor below the
target. The times of the drops follow the control law. -/
def Drains : List QueueDiscItem → (dropNext count : UInt32) → (recInvSqrt : UInt16) → Prop
  | [], _, _, _ => False
  | item :: rest, dropNext, count, recInvSqrt =>
    let recInvSqrt := newtonStep recInvSqrt (count + 1)
    (attributes.useEcn && item.mark) = false ∧ dropNext ≤ time2CoDel now ∧
      (rest = [] ∨ (∃ next behind, rest = next :: behind ∧ Over attributes now next behind) ∧
        Drains rest (controlLaw dropNext (time2CoDel attributes.interval) recInvSqrt) (count + 1)
          recInvSqrt)

/-- Every packet of the queue is dropped by this dequeue. -/
def Drained (s : State) : Prop :=
  ∃ item rest, s.queue = item :: rest ∧ isL4s attributes item = false ∧
    Over attributes now item rest ∧ s.firstAboveTime ≠ 0 ∧ s.firstAboveTime < time2CoDel now ∧
    if s.dropping then Drains attributes now s.queue s.dropNext s.count s.recInvSqrt
    else (attributes.useEcn && item.mark) = false ∧ rest = []

variable {attributes now}

theorem okToDrop_keeps (item : Option QueueDiscItem) (s : State) :
    ∃ time, (okToDrop attributes now item s).2 = { s with firstAboveTime := time } := by
  unfold okToDrop
  cases item with
  | none => exact ⟨0, rfl⟩
  | some item =>
    dsimp only
    split
    · exact ⟨0, rfl⟩
    · split
      · exact ⟨_, rfl⟩
      · exact ⟨s.firstAboveTime, rfl⟩

/-- A packet may be dropped after an interval above the target. -/
theorem okToDrop_iff (item : QueueDiscItem) (s : State) :
    (okToDrop attributes now (some item) s).1 = true ↔
      Over attributes now item s.queue ∧ s.firstAboveTime ≠ 0 ∧
        s.firstAboveTime < time2CoDel now := by
  unfold okToDrop Over timeBefore timeAfter
  dsimp only
  split
  case isTrue below =>
    rw [Bool.or_eq_true, decide_eq_true_eq, decide_eq_true_eq] at below
    apply iff_of_false Bool.false_ne_true
    rintro ⟨⟨sojourn, bytes⟩, -⟩
    exact below.elim (UInt32.not_lt.mpr sojourn) (UInt32.not_lt.mpr bytes)
  case isFalse above =>
    rw [Bool.or_eq_true, decide_eq_true_eq, decide_eq_true_eq, not_or, UInt32.not_lt,
      UInt32.not_lt] at above
    split
    case isTrue first => exact iff_of_false Bool.false_ne_true fun all => all.2.1 first
    case isFalse later =>
      rw [decide_eq_true_eq]
      exact ⟨fun after => ⟨above, later, after⟩, fun all => all.2.2⟩

variable {item : QueueDiscItem} {s : State} {queue dropped : List QueueDiscItem} {l : Locals}
  {fuel : Nat}

/-- A packet that may be dropped leaves the state as it is. -/
theorem okToDrop_same (ok : (okToDrop attributes now (some item) s).1 = true) :
    okToDrop attributes now (some item) s = (true, s) := by
  have above := (okToDrop_iff item s).mp ok
  revert ok
  unfold okToDrop
  dsimp only
  split
  · exact nofun
  · split
    · exact nofun
    · rintro ok
      exact Prod.ext ok rfl

theorem Takes.cons {first : QueueDiscItem} {item : Option QueueDiscItem}
    (takes : Takes queue (dropped ++ [first]) item s) :
    Takes (first :: queue) dropped item s := by
  obtain ⟨drops, taken, traced⟩ := takes.taken
  exact ⟨⟨first :: drops, by rw [taken]; rfl, by rw [traced]; simp⟩, takes.all⟩

theorem Takes.none (same : s.queue = queue) (traced : s.droppedAfterDequeue = dropped) :
    Takes (item :: queue) dropped (some item) s :=
  ⟨⟨[], by rw [same]; rfl, by rw [traced, List.append_nil]⟩, nofun⟩

/-- The test of the drop loop. -/
def continues (now : Int) (l : Locals) : Bool :=
  !l.isMarked && l.state.dropping && timeAfterEq (time2CoDel now) l.state.dropNext

theorem dropLoop_stops (stops : continues now l = false) (enough : 0 < fuel) :
    dropLoop attributes now fuel l = some l := by
  obtain ⟨rounds, rfl⟩ := Nat.exists_eq_succ_of_ne_zero (Nat.ne_of_gt enough)
  exact if_neg (ne_true_of_eq_false stops)

theorem dropLoop_round {t : Locals} (goes : continues now l = true)
    (round : dropRound attributes now l = some t) (fuel : Nat) :
    dropLoop attributes now (fuel + 1) l = dropLoop attributes now fuel t := by
  refine (if_pos goes).trans ?_
  rw [round]
  rfl

theorem dropLoop_keeps
    (kept : ¬ s.dropNext ≤ time2CoDel now ∨ (attributes.useEcn && item.mark) = true)
    (enough : 1 < fuel) :
    ∃ l, dropLoop attributes now fuel ⟨some item, false, s⟩ = some l ∧ l.item = some item ∧
      l.state.queue = s.queue ∧ l.state.droppedAfterDequeue = s.droppedAfterDequeue := by
  obtain ⟨fuel, rfl⟩ := Nat.exists_eq_succ_of_ne_zero (Nat.ne_zero_of_lt enough)
  cases goes : continues now ⟨some item, false, s⟩ with
  | false => exact ⟨_, dropLoop_stops goes (Nat.succ_pos fuel), rfl, rfl, rfl⟩
  | true =>
    have due : s.dropNext ≤ time2CoDel now := by
      unfold continues timeAfterEq at goes
      simp only [Bool.and_eq_true, decide_eq_true_eq] at goes
      exact goes.2
    have marks := kept.resolve_left (not_not_intro due)
    have round : ∃ t, dropRound attributes now ⟨some item, false, s⟩ = some t ∧
        t.item = some item ∧ t.isMarked = true ∧ t.state.queue = s.queue ∧
          t.state.droppedAfterDequeue = s.droppedAfterDequeue := by
      unfold dropRound
      dsimp only
      rw [if_pos marks]
      exact ⟨_, rfl, rfl, rfl, rfl, rfl⟩
    obtain ⟨t, done, same_item, marked, same_queue, same_dropped⟩ := round
    have stops : continues now t = false := by
      unfold continues
      rw [marked]
      rfl
    refine ⟨t, ?_, same_item, same_queue, same_dropped⟩
    rw [dropLoop_round goes done]
    exact dropLoop_stops stops (by omega)

/-- The state in which the next packet is examined. -/
def afterDrop (item : QueueDiscItem) (s : State) : State :=
  dropAfterDequeue item
    { s with count := s.count + 1, recInvSqrt := newtonStep s.recInvSqrt (s.count + 1) }

theorem dropRound_drops (unmarked : (attributes.useEcn && item.mark) = false) :
    dropRound attributes now ⟨some item, false, s⟩ =
      let (next, t) := dequeueInternal (afterDrop item s)
      let (ok, t) := okToDrop attributes now next t
      some ⟨next, false,
        if ok then
          { t with dropNext := controlLaw t.dropNext (time2CoDel attributes.interval) t.recInvSqrt }
        else { t with dropping := false }⟩ := by
  unfold dropRound
  dsimp only
  rw [unmarked, if_neg Bool.false_ne_true]
  unfold afterDrop
  split <;> simp_all

theorem continues_of_due (dropping : s.dropping = true) (due : s.dropNext ≤ time2CoDel now) :
    continues now ⟨some item, false, s⟩ = true := by
  unfold continues timeAfterEq
  simp [dropping, due]

theorem dropLoop_spec_kept (same : s.queue = queue)
    (kept : ¬ s.dropNext ≤ time2CoDel now ∨ (attributes.useEcn && item.mark) = true)
    (enough : 1 < fuel) :
    ∃ l, dropLoop attributes now fuel ⟨some item, false, s⟩ = some l ∧
      Takes (item :: queue) s.droppedAfterDequeue l.item l.state ∧
      (l.item = none ↔ Drains attributes now (item :: queue) s.dropNext s.count s.recInvSqrt) := by
  obtain ⟨l, done, same_item, same_queue, traced⟩ := dropLoop_keeps (s := s) kept enough
  refine ⟨l, done, ?_, ?_⟩
  · rw [same_item]
    exact .none (same_queue.trans same) traced
  · rw [same_item]
    apply iff_of_false nofun
    rintro ⟨unmarked, due, -⟩
    rcases kept with late | marks
    · exact late due
    · rw [unmarked] at marks
      exact Bool.false_ne_true marks

/-- **The drop loop** ends, and has no item left exactly when all packets are drained. -/
theorem dropLoop_spec (same : s.queue = queue) (dropping : s.dropping = true)
    (above : s.firstAboveTime ≠ 0) (after : s.firstAboveTime < time2CoDel now)
    (enough : queue.length + 1 < fuel) :
    ∃ l, dropLoop attributes now fuel ⟨some item, false, s⟩ = some l ∧
      Takes (item :: queue) s.droppedAfterDequeue l.item l.state ∧
      (l.item = none ↔ Drains attributes now (item :: queue) s.dropNext s.count s.recInvSqrt) := by
  induction queue generalizing item s fuel with
  | nil =>
    by_cases kept : ¬ s.dropNext ≤ time2CoDel now ∨ (attributes.useEcn && item.mark) = true
    · exact dropLoop_spec_kept same kept (by omega)
    rw [not_or, not_not, Bool.not_eq_true] at kept
    obtain ⟨due, unmarked⟩ := kept
    obtain ⟨fuel, rfl⟩ := Nat.exists_eq_succ_of_ne_zero (Nat.ne_zero_of_lt enough)
    have taken : dequeueInternal (afterDrop item s) = (none, afterDrop item s) := by
      unfold dequeueInternal
      rw [show (afterDrop item s).queue = [] from same]
    have round := @dropRound_drops attributes now item s unmarked
    rw [taken] at round
    dsimp only [okToDrop] at round
    rw [if_neg Bool.false_ne_true] at round
    refine ⟨⟨none, false, { afterDrop item s with firstAboveTime := 0, dropping := false }⟩, ?_,
      ⟨⟨[item], congrArg ([item] ++ ·) same.symm, rfl⟩, fun _ => same⟩, ?_⟩
    · rw [dropLoop_round (continues_of_due dropping due) round]
      exact dropLoop_stops rfl (Nat.lt_of_succ_lt_succ enough)
    · exact iff_of_true rfl ⟨unmarked, due, .inl rfl⟩
  | cons next behind ih =>
    by_cases kept : ¬ s.dropNext ≤ time2CoDel now ∨ (attributes.useEcn && item.mark) = true
    · exact dropLoop_spec_kept same kept (by omega)
    rw [not_or, not_not, Bool.not_eq_true] at kept
    obtain ⟨due, unmarked⟩ := kept
    obtain ⟨fuel, rfl⟩ := Nat.exists_eq_succ_of_ne_zero (Nat.ne_zero_of_lt enough)
    rw [List.length_cons] at enough
    have taken : dequeueInternal (afterDrop item s) =
        (some next, { afterDrop item s with queue := behind }) := by
      unfold dequeueInternal
      rw [show (afterDrop item s).queue = next :: behind from same]
    have round := @dropRound_drops attributes now item s unmarked
    rw [taken] at round
    dsimp only at round
    have ok_iff := @okToDrop_iff attributes now next
      { afterDrop item s with queue := behind }
    cases ok : (okToDrop attributes now (some next) { afterDrop item s with queue := behind }).1 with
    | false =>
      obtain ⟨time, state⟩ := @okToDrop_keeps attributes now (some next)
        { afterDrop item s with queue := behind }
      rw [ok] at round ok_iff
      rw [if_neg Bool.false_ne_true, state] at round
      refine ⟨_, (dropLoop_round (continues_of_due dropping due) round fuel).trans
        (dropLoop_stops rfl (by omega)), ⟨⟨[item], ?_, rfl⟩, nofun⟩, ?_⟩
      · rfl
      · apply iff_of_false nofun
        rintro ⟨-, -, last | ⟨⟨_, _, is, exceeds⟩, -⟩⟩
        · cases last
        · cases is
          exact Bool.false_ne_true (ok_iff.mpr ⟨exceeds, above, after⟩)
    | true =>
      rw [okToDrop_same ok] at round
      rw [if_pos rfl] at round
      obtain ⟨l, done, takes, drained⟩ := @ih next
        { afterDrop item s with
          queue := behind
          dropNext := controlLaw s.dropNext (time2CoDel attributes.interval)
            (newtonStep s.recInvSqrt (s.count + 1)) } fuel rfl dropping above after (by omega)
      refine ⟨l, (dropLoop_round (continues_of_due dropping due) round fuel).trans done,
        takes.cons, drained.trans ?_⟩
      constructor
      · intro rest
        exact ⟨unmarked, due, .inr ⟨⟨next, behind, rfl, (ok_iff.mp ok).1⟩, rest⟩⟩
      · rintro ⟨-, -, last | ⟨-, rest⟩⟩
        · cases last
        · exact rest

/-- The dequeue ends without the use of a null item, and each packet that it took from the queue
was returned or dropped. -/
def Total (s : State) : Outcome → Prop
  | .returned item t => Takes s.queue s.droppedAfterDequeue item t
  | _ => False

theorem finish_none (none : l.item = none) : finish attributes now l = .nullItem := by
  unfold finish
  rw [none]

theorem finish_some (found : l.item = some item) :
    ∃ t, finish attributes now l = .returned item t ∧ t.queue = l.state.queue ∧
      t.droppedAfterDequeue = l.state.droppedAfterDequeue := by
  unfold finish
  rw [found]
  dsimp only
  split
  · exact ⟨_, rfl, rfl, rfl⟩
  · exact ⟨_, rfl, rfl, rfl⟩

/-- What an outcome is, if a condition leaves no item. -/
structure Settles (s : State) (drained : Prop) (outcome : Outcome) : Prop where
  ended : outcome ≠ .unended
  total : Total s outcome ↔ ¬ drained

theorem settles_finish {drained : Prop} (takes : Takes s.queue s.droppedAfterDequeue l.item l.state)
    (none : l.item = none ↔ drained) :
    Settles s drained (finish attributes now l) := by
  cases found : l.item with
  | none =>
    rw [finish_none found]
    exact ⟨nofun, iff_of_false id (not_not_intro (none.mp found))⟩
  | some item =>
    obtain ⟨t, done, same, traced⟩ := @finish_some attributes now _ _ found
    rw [done]
    refine ⟨nofun, iff_of_true ?_ fun drained => ?_⟩
    · obtain ⟨drops, taken, dropped⟩ := takes.taken
      rw [found] at taken
      exact ⟨⟨drops, by rw [taken, same], traced.trans dropped⟩, nofun⟩
    · rw [none.mpr drained] at found
      cases found

/-- The first drop leaves no item exactly when there was one packet. -/
theorem firstDrop_spec {rest : List QueueDiscItem} (same : s.queue = rest)
    (traced : s.droppedAfterDequeue = dropped) :
    Takes (item :: rest) dropped (firstDrop attributes now item s).item
        (firstDrop attributes now item s).state ∧
      ((firstDrop attributes now item s).item = none ↔
        (attributes.useEcn && item.mark) = false ∧ rest = []) := by
  have enters : ∀ t : State, (enterDropping attributes now t).queue = t.queue ∧
      (enterDropping attributes now t).droppedAfterDequeue = t.droppedAfterDequeue := by
    intro t
    unfold enterDropping
    dsimp only
    split <;> exact ⟨rfl, rfl⟩
  unfold firstDrop
  cases marks : attributes.useEcn && item.mark with
  | true =>
    rw [if_pos rfl]
    exact ⟨.none ((enters _).1.trans same) ((enters _).2.trans traced),
      iff_of_false nofun fun all => Bool.true_eq_false.mp all.1⟩
  | false =>
    rw [if_neg Bool.false_ne_true]
    cases rest with
    | nil =>
      have taken : dequeueInternal (dropAfterDequeue item s) = (none, dropAfterDequeue item s) := by
        unfold dequeueInternal
        rw [show (dropAfterDequeue item s).queue = [] from same]
      rw [taken]
      exact ⟨⟨⟨[item], by rw [(enters _).1]; exact congrArg ([item] ++ ·) same.symm,
        (enters _).2.trans (congrArg (· ++ [item]) traced)⟩, fun _ => (enters _).1.trans same⟩,
        iff_of_true rfl ⟨rfl, rfl⟩⟩
    | cons next behind =>
      have taken : dequeueInternal (dropAfterDequeue item s) =
          (some next, { dropAfterDequeue item s with queue := behind }) := by
        unfold dequeueInternal
        rw [show (dropAfterDequeue item s).queue = next :: behind from same]
      obtain ⟨time, state⟩ := @okToDrop_keeps attributes now (some next)
        { dropAfterDequeue item s with queue := behind }
      rw [taken]
      dsimp only
      rw [state]
      exact ⟨⟨⟨[item], by rw [(enters _).1]; rfl,
        (enters _).2.trans (congrArg (· ++ [item]) traced)⟩, nofun⟩,
        iff_of_false nofun fun all => List.cons_ne_nil _ _ all.2⟩

theorem Drains.minBytes {rest : List QueueDiscItem} {dropNext count : UInt32} {recInvSqrt : UInt16}
    (exceeds : Over attributes now item rest)
    (drains : Drains attributes now (item :: rest) dropNext count recInvSqrt) :
    attributes.minBytes = 0 := by
  induction rest generalizing item dropNext count recInvSqrt with
  | nil => exact UInt32.le_zero_iff.mp exceeds.2
  | cons next behind ih =>
    obtain ⟨-, -, last | ⟨⟨_, _, is, exceeds'⟩, drains'⟩⟩ := drains
    · cases last
    · cases is
      exact ih exceeds' drains'

theorem Drained.minBytes (drained : Drained attributes now s) : attributes.minBytes = 0 := by
  obtain ⟨item, rest, queue, -, exceeds, -, -, drains⟩ := drained
  split at drains
  · rw [queue] at drains
    exact drains.minBytes exceeds
  · rw [drains.2] at exceeds
    exact UInt32.le_zero_iff.mp exceeds.2

theorem settles_returned {t : State} {drained : Prop}
    (takes : Takes s.queue s.droppedAfterDequeue (some item) t) (none : ¬ drained) :
    Settles s drained (.returned (some item) t) :=
  ⟨nofun, iff_of_true takes none⟩

theorem doDequeue_settles (enough : s.queue.length < fuel) :
    Settles s (Drained attributes now s) (doDequeue attributes now fuel s) := by
  unfold doDequeue dequeueInternal
  cases queue : s.queue with
  | nil =>
    refine ⟨nofun, iff_of_true ?_ ?_⟩
    · exact ⟨⟨[], by simp [queue], (List.append_nil _).symm⟩, fun _ => queue⟩
    · rintro ⟨item, rest, is, -⟩
      rw [queue] at is
      cases is
  | cons item rest =>
    rw [queue, List.length_cons] at enough
    dsimp only
    have head : ∀ {item' rest'}, s.queue = item' :: rest' → item' = item ∧ rest' = rest := by
      intro item' rest' is
      rw [queue] at is
      exact ⟨(List.cons.inj is).1.symm, (List.cons.inj is).2.symm⟩
    -- a packet that is returned without a drop
    have returned : ∀ {t : State}, t.queue = rest → t.droppedAfterDequeue = s.droppedAfterDequeue →
          Takes s.queue s.droppedAfterDequeue (some item) t := by
      intro t same traced
      rw [queue]
      exact .none same traced
    cases l4s : isL4s attributes item with
    | true =>
      rw [if_pos rfl]
      have spared : ¬ Drained attributes now s := by
        rintro ⟨item', rest', is, not_l4s, -⟩
        rw [(head is).1, l4s] at not_l4s
        cases not_l4s
      split
      · exact settles_returned (returned rfl rfl) spared
      · exact settles_returned (returned rfl rfl) spared
    | false =>
      rw [if_neg Bool.false_ne_true]
      have ok_iff := @okToDrop_iff attributes now item
        { s with queue := rest }
      cases ok : (okToDrop attributes now (some item) { s with queue := rest }).1 with
      | false =>
        obtain ⟨time, state⟩ := @okToDrop_keeps attributes now (some item)
          { s with queue := rest }
        have spared : ¬ Drained attributes now s := by
          rintro ⟨item', rest', is, -, exceeds, above, after, -⟩
          rw [(head is).1, (head is).2] at exceeds
          rw [ok] at ok_iff
          exact Bool.false_ne_true (ok_iff.mpr ⟨exceeds, above, after⟩)
        rw [state]
        simp only [Bool.false_eq_true, if_false]
        split
        · exact settles_finish (returned rfl rfl) (iff_of_false nofun spared)
        · exact settles_finish (returned rfl rfl) (iff_of_false nofun spared)
      | true =>
        obtain ⟨exceeds, above, after⟩ := ok_iff.mp ok
        rw [okToDrop_same ok]
        by_cases dropping : s.dropping = true
        · rw [if_pos dropping, if_pos rfl]
          obtain ⟨l, done, takes, none⟩ := @dropLoop_spec attributes now item
            { s with queue := rest } rest _ rfl dropping above after
            (by omega : rest.length + 1 < fuel)
          rw [done]
          rw [← queue] at takes none
          refine settles_finish takes (none.trans ?_)
          constructor
          · intro drains
            exact ⟨item, rest, queue, l4s, exceeds, above, after, by rwa [if_pos dropping]⟩
          · rintro ⟨item', rest', is, -, -, -, -, drains⟩
            rwa [if_pos dropping] at drains
        · rw [if_neg dropping, if_pos rfl]
          obtain ⟨takes, none⟩ := @firstDrop_spec attributes now item
            { s with queue := rest } _ rest rfl rfl
          rw [← queue] at takes
          refine settles_finish takes (none.trans ?_)
          constructor
          · intro last
            exact ⟨item, rest, queue, l4s, exceeds, above, after, by rwa [if_neg dropping]⟩
          · rintro ⟨item', rest', is, -, -, -, -, last⟩
            rwa [if_neg dropping, (head is).1, (head is).2] at last

/-- **The dequeue is total** unless it drops all packets of the queue: then a null item is used.
That takes a `MinBytes` of zero. -/
theorem doDequeue_total_iff (attributes : Attributes) (now : Int) {s : State} {fuel : Nat}
    (enough : s.queue.length < fuel) :
    doDequeue attributes now fuel s ≠ .unended ∧
      (Total s (doDequeue attributes now fuel s) ↔ ¬ Drained attributes now s) ∧
      (Drained attributes now s → attributes.minBytes = 0) :=
  ⟨(doDequeue_settles enough).ended, (doDequeue_settles enough).total, Drained.minBytes⟩

/-- The default attributes, but with a `MinBytes` of zero. -/
def noMinimum : Attributes := ⟨false, false, 0, 100000000, 5000000, 2 ^ 63 - 1⟩

/-- Two packets since time zero. -/
def twoPackets : State where
  queue := [⟨1, 100, 0, none, false⟩, ⟨2, 100, 0, none, false⟩]
  count := 0
  lastCount := 0
  dropping := false
  recInvSqrt := 65535
  firstAboveTime := 0
  dropNext := 0
  droppedAfterDequeue := []
  marked := []

/-- With the default of `MinBytes` the second packet is kept. -/
theorem doDequeue_total_default :
    Total twoPackets
      (doDequeue ⟨false, false, 1500, 100000000, 5000000, 2 ^ 63 - 1⟩ 200000000 3 twoPackets) := by
  have total := doDequeue_total_iff ⟨false, false, 1500, 100000000, 5000000, 2 ^ 63 - 1⟩ 200000000
    (by decide : twoPackets.queue.length < 3)
  refine total.2.1.mpr fun drained => ?_
  have zero := total.2.2 drained
  exact absurd zero (by decide)

/-- After 200 ms the first packet is returned; after 400 ms the second one is dropped, and a null
item is used. -/
theorem doDequeue_null_item :
    match doDequeue noMinimum 200000000 3 twoPackets with
    | .returned _ s => doDequeue noMinimum 400000000 3 s = .nullItem ∧
        ¬ Total s (doDequeue noMinimum 400000000 3 s)
    | _ => False :=
  ⟨rfl, id⟩

end CoDel

end Ns3.TrafficControl
