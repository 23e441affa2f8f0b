import Ns3.Library.Machine
import Ns3.Wifi.WifiMacQueueAccounts

/-!
# Insertion into a MAC queue

Where `Insert` puts an MPDU, which MPDUs it extracts, and when the iterator that it uses is valid.
-/

namespace Ns3.Wifi.MacQueue

open WifiMacQueueElem List Function UInt32

/-! ## Positions in what remains of a queue -/

variable {now : Time}

theorem before_cons (pos : Option Nat) (e : WifiMacQueueElem) (rest : ContainerQueue) :
    before pos (e :: rest) = if some e.mpdu.id = pos then [] else e :: before pos rest := by
  unfold before
  rw [takeWhile_cons]
  split <;> simp_all

theorem onward_cons (pos : Option Nat) (e : WifiMacQueueElem) (rest : ContainerQueue) :
    onward pos (e :: rest) = if some e.mpdu.id = pos then e :: rest else onward pos rest := by
  unfold onward
  rw [dropWhile_cons]
  split <;> simp_all

variable {pos : Option Nat} {queue part front back : ContainerQueue} {e d : WifiMacQueueElem}

theorem pointsInto_iff :
    pointsInto pos queue = true ↔ pos = none ∨ ∃ e ∈ queue, some e.mpdu.id = pos := by
  simp [pointsInto]

theorem mem_of_mem_before (mem : e ∈ before pos queue) : e ∈ queue :=
  (takeWhile_sublist _).subset mem

theorem mem_of_mem_onward (mem : e ∈ onward pos queue) : e ∈ queue :=
  (dropWhile_sublist _).subset mem

/-- A position splits what remains of a queue where it splits the queue. -/
theorem before_sublist (sub : part.Sublist queue) (nodup : (queue.map (·.mpdu.id)).Nodup)
    (points : pointsInto pos part = true) :
    before pos part = part.filter (· ∈ before pos queue) ∧
      onward pos part = part.filter (· ∈ onward pos queue) := by
  induction sub with
  | slnil => exact ⟨rfl, rfl⟩
  | @cons part queue x sub ih =>
    obtain ⟨absent, nodup⟩ := nodup_cons.mp nodup
    have away : ∀ y ∈ part, y ≠ x := by
      rintro y mem rfl
      exact absent (mem_map_of_mem (sub.subset mem))
    have other : some x.mpdu.id ≠ pos := by
      intro here
      rcases pointsInto_iff.mp points with rfl | ⟨e, mem, there⟩
      · cases here
      · have same : e.mpdu.id = x.mpdu.id := Option.some.inj (there.trans here.symm)
        exact absent (mem_map.mpr ⟨e, sub.subset mem, same⟩)
    obtain ⟨left, right⟩ := ih nodup points
    rw [before_cons, onward_cons, if_neg other, if_neg other, left, right]
    refine ⟨filter_congr fun y mem => ?_, rfl⟩
    simp [away y mem]
  | @cons_cons part queue x sub ih =>
    obtain ⟨absent, nodup⟩ := nodup_cons.mp nodup
    have missing : x ∉ queue := fun mem => absent (mem_map_of_mem mem)
    have away : ∀ y ∈ part, y ≠ x := fun y mem same => missing (same ▸ sub.subset mem)
    rw [before_cons, before_cons, onward_cons, onward_cons]
    by_cases here : some x.mpdu.id = pos
    · rw [if_pos here, if_pos here, if_pos here, if_pos here]
      refine ⟨by simp, (filter_eq_self.mpr fun y mem => ?_).symm⟩
      rw [decide_eq_true_eq]
      exact (sub.cons₂ x).subset mem
    · have points : pointsInto pos part = true := by
        rw [pointsInto_iff] at points ⊢
        refine points.imp_right ?_
        rintro ⟨e, mem, there⟩
        rcases mem_cons.mp mem with rfl | mem
        · exact absurd there here
        · exact ⟨e, mem, there⟩
      obtain ⟨left, right⟩ := ih nodup points
      rw [if_neg here, if_neg here, if_neg here, if_neg here, left, right]
      constructor
      · rw [filter_cons_of_pos (by simp)]
        refine congrArg (x :: ·) (filter_congr fun y mem => ?_)
        simp [away y mem]
      · rw [filter_cons_of_neg (by simpa using fun mem => missing (mem_of_mem_onward mem))]

/-- An iterator splits a part of a queue where a position splits the queue. -/
structure Splits (iterator pos : Option Nat) (queue part : ContainerQueue) : Prop where
  points : pointsInto iterator part = true
  front : before iterator part = part.filter (· ∈ before pos queue)
  back : onward iterator part = part.filter (· ∈ onward pos queue)

theorem splits_self (sub : part.Sublist queue) (nodup : (queue.map (·.mpdu.id)).Nodup)
    (points : pointsInto pos part = true) : Splits pos pos queue part :=
  let ⟨front, back⟩ := before_sublist sub nodup points
  ⟨points, front, back⟩

theorem eq_of_id (nodup : (queue.map (·.mpdu.id)).Nodup) {x y : WifiMacQueueElem}
    (x_mem : x ∈ queue) (y_mem : y ∈ queue) (same : x.mpdu.id = y.mpdu.id) : x = y :=
  inj_on_of_nodup_map nodup x_mem y_mem same

/-- The head as the iterator is right only for itself. -/
theorem splits_head_iff {h : WifiMacQueueElem} (sub : part.Sublist (h :: queue))
    (nodup : ((h :: queue).map (·.mpdu.id)).Nodup) :
    Splits (some h.mpdu.id) pos (h :: queue) part ↔ h ∈ part ∧ some h.mpdu.id = pos := by
  constructor
  · rintro ⟨points, front, -⟩
    obtain ⟨e, mem, same⟩ := (pointsInto_iff.mp points).resolve_left nofun
    obtain rfl := eq_of_id nodup (sub.subset mem) mem_cons_self (Option.some.inj same)
    refine ⟨mem, ?_⟩
    by_contra other
    have none := (before_sublist sub nodup points).1
    rw [before_cons, if_pos rfl] at none
    rw [none, before_cons, if_neg other] at front
    have here : e ∈ part.filter (· ∈ e :: before pos queue) := by simpa using mem
    rw [← front] at here
    simp at here
  · rintro ⟨mem, rfl⟩
    exact splits_self sub nodup (pointsInto_iff.mpr (.inr ⟨h, mem, rfl⟩))

theorem splits_cons_iff (gone : d ∉ part) {iterator : Option Nat} (other : some d.mpdu.id ≠ pos) :
    Splits iterator pos (d :: queue) part ↔ Splits iterator pos queue part := by
  have front : part.filter (· ∈ before pos (d :: queue)) = part.filter (· ∈ before pos queue) := by
    rw [before_cons, if_neg other]
    refine filter_congr fun y mem => ?_
    simp [ne_of_mem_of_not_mem mem gone]
  have back : part.filter (· ∈ onward pos (d :: queue)) = part.filter (· ∈ onward pos queue) := by
    rw [onward_cons, if_neg other]
  constructor
  · rintro ⟨points, first, second⟩
    exact ⟨points, first.trans front, second.trans back⟩
  · rintro ⟨points, first, second⟩
    exact ⟨points, first.trans front.symm, second.trans back.symm⟩

theorem before_append_of_ne (others : ∀ x ∈ front, some x.mpdu.id ≠ pos) (back : ContainerQueue) :
    before pos (front ++ back) = front ++ before pos back ∧
      onward pos (front ++ back) = onward pos back := by
  induction front with
  | nil => exact ⟨rfl, rfl⟩
  | cons x rest ih =>
    obtain ⟨first, others⟩ := forall_mem_cons.mp others
    obtain ⟨left, right⟩ := ih others
    rw [cons_append, before_cons, onward_cons, if_neg first, if_neg first, left, right]
    exact ⟨rfl, rfl⟩

theorem before_onward_none (queue : ContainerQueue) :
    before none queue = queue ∧ onward none queue = [] := by
  induction queue with
  | nil => exact ⟨rfl, rfl⟩
  | cons e rest ih => simp [before_cons, onward_cons, ih]

theorem splits_none (front : ∀ y ∈ part, y ∈ before pos queue)
    (back : ∀ y ∈ part, y ∉ onward pos queue) :
    Splits none pos queue part where
  points := rfl
  front := by
    rw [filter_eq_self.mpr fun y mem => by simpa using front y mem]
    exact (before_onward_none part).1
  back := by
    rw [filter_eq_nil_iff.mpr fun y mem => by simpa using back y mem]
    exact (before_onward_none part).2

theorem split_at_elem (nodup : ((front ++ d :: back).map (·.mpdu.id)).Nodup) :
    before (some d.mpdu.id) (front ++ d :: back) = front ∧
      onward (some d.mpdu.id) (front ++ d :: back) = d :: back := by
  have others : ∀ x ∈ front, some x.mpdu.id ≠ some d.mpdu.id := by
    intro x mem same
    rw [map_append, nodup_append] at nodup
    exact nodup.2.2 _ (mem_map_of_mem mem) _ mem_cons_self (Option.some.inj same)
  obtain ⟨left, right⟩ := before_append_of_ne others (d :: back)
  rw [before_cons, if_pos rfl, append_nil] at left
  rw [onward_cons, if_pos rfl] at right
  exact ⟨left, right⟩

/-- The next element as the iterator, where the one at the position is gone. -/
theorem splits_next_iff (sub : part.Sublist (front ++ back))
    (nodup : ((front ++ d :: back).map (·.mpdu.id)).Nodup) :
    Splits (headPos back) (some d.mpdu.id) (front ++ d :: back) part ↔
      ∀ y ∈ back.head?, y ∈ part := by
  have perm : ((d :: (front ++ back)).map (·.mpdu.id)).Nodup :=
    ((perm_middle.map _).nodup_iff).mp nodup
  obtain ⟨absent, nodup'⟩ := nodup_cons.mp perm
  have gone : d ∉ part := fun mem => absent (mem_map_of_mem (sub.subset mem))
  obtain ⟨left, right⟩ := split_at_elem nodup
  have tail : part.filter (· ∈ d :: back) = part.filter (· ∈ back) := by
    refine filter_congr fun y mem => ?_
    simp [ne_of_mem_of_not_mem mem gone]
  cases back with
  | nil =>
    refine iff_of_true (splits_none ?_ ?_) nofun
    · rw [left]
      exact fun y mem => by simpa using sub.subset mem
    · rw [right]
      exact fun y mem here => gone (mem_singleton.mp here ▸ mem)
  | cons y rest =>
    obtain ⟨left', right'⟩ := split_at_elem nodup'
    have y_mem : y ∈ front ++ y :: rest := by simp
    constructor
    · rintro ⟨points, -, -⟩ _ ⟨⟩
      obtain ⟨e, mem, same⟩ := (pointsInto_iff.mp points).resolve_left nofun
      exact eq_of_id nodup' (sub.subset mem) y_mem (Option.some.inj same) ▸ mem
    · intro mem
      have points : pointsInto (some y.mpdu.id) part = true :=
        pointsInto_iff.mpr (.inr ⟨y, mem y rfl, rfl⟩)
      obtain ⟨-, first, second⟩ := splits_self sub nodup' points
      rw [left'] at first
      rw [right'] at second
      exact ⟨points, by rwa [left], by rwa [right, tail]⟩

/-! ## A new element among survivors -/

theorem not_isLive_of_isStale (stale : e.isStale now = true) : e.isLive now = false := by
  simp only [isStale, Bool.and_eq_true] at stale
  simp [isLive, stale.1]

theorem mem_survivors_of_not_stale (mem : e ∈ queue) (rests : e.isStale now = false) :
    e ∈ survivors now queue := by
  rcases mem_append.mp ((survivors_perm queue).symm.subset mem) with kept | gone
  · exact kept
  · obtain ⟨-, -, -, stale, -⟩ := mem_stales_iff.mp gone
    exact absurd (rests.symm.trans stale) Bool.false_ne_true

theorem mem_survivors_append_iff (alone : e ∉ front ++ back) :
    e ∈ survivors now (front ++ e :: back) ↔
      (∃ x ∈ front, x.isLive now = true) ∨ e.isStale now = false := by
  by_cases live : ∃ x ∈ front, x.isLive now = true
  · obtain ⟨x, mem, lives⟩ := live
    rw [(survivors_append_of_live mem lives _).1]
    exact iff_of_true (by simp) (.inl ⟨x, mem, lives⟩)
  · rw [or_iff_right live]
    constructor
    · intro mem
      by_contra stale
      rw [Bool.not_eq_false] at stale
      have passed : ∀ x ∈ front, x.isLive now = false := by simpa using live
      obtain ⟨due, rests⟩ := Bool.and_eq_true_iff.mp stale
      rw [Bool.not_eq_true'] at rests
      rw [(survivors_append_of_passed passed _).1, survivors_cons, rests, due] at mem
      exact alone (((filter_sublist).append (survivors_sublist back)).subset mem)
    · exact mem_survivors_of_not_stale (by simp)

/-- The new element is not extracted. -/
def StaysAmong (now : Time) (e : WifiMacQueueElem) (front : ContainerQueue) : Prop :=
  e.isExpired now = false ∨ ∃ x ∈ front, x.isLive now = true

theorem mem_survivors_insert_iff (rests : e.isInFlight = false) (new : e ∉ front ++ back) :
    e ∈ survivors now (front ++ e :: back) ↔ StaysAmong now e front := by
  have stale : e.isStale now = e.isExpired now := by simp [isStale, rests]
  rw [mem_survivors_append_iff new, stale, or_comm]
  rfl

/-- A new element that stays leaves the survivors in place. -/
theorem survivors_insert (rests : e.isInFlight = false)
    (settled : survivors now (front ++ back) = front ++ back) (stays : StaysAmong now e front) :
    survivors now (front ++ e :: back) = front ++ e :: back := by
  by_cases live : ∃ x ∈ front, x.isLive now = true
  · obtain ⟨x, mem, lives⟩ := live
    rw [(survivors_append_of_live mem lives _).1] at settled ⊢
    rw [append_cancel_right settled]
  · have passed : ∀ x ∈ front, x.isLive now = false := by simpa using live
    rw [(survivors_append_of_passed passed _).1] at settled ⊢
    have due : e.isExpired now = false := stays.resolve_right live
    have lengths := congrArg List.length settled
    rw [length_append, length_append] at lengths
    have first := (filter_sublist (p := isInFlight) (l := front)).length_le
    have second := (@survivors_sublist now back).length_le
    have same : front.filter isInFlight = front := filter_sublist.eq_of_length (by omega)
    simp [same, survivors_cons, rests, due]

/-- **The place of a new element** among survivors of a queue: it is right exactly when the
iterator that is used splits the survivors as the position splits the queue. -/
theorem place_iff (rests : e.isInFlight = false) {left right : ContainerQueue}
    (settled : survivors now (front ++ back) = front ++ back) (new : e ∉ front ++ back) :
    survivors now (front ++ e :: back) = left ++ e :: right ↔
      (front = left ∧ back = right) ∧ StaysAmong now e left := by
  constructor
  · intro placed
    have stays : StaysAmong now e front := by
      rw [← mem_survivors_insert_iff rests new, placed]
      simp
    rw [survivors_insert rests settled stays] at placed
    have apart := (append_cons_inj_of_notMem (fun mem => new (mem_append_left _ mem))
      (fun mem => new (mem_append_right _ mem))).mp placed
    obtain ⟨rfl, -, rfl⟩ := apart
    exact ⟨⟨rfl, rfl⟩, stays⟩
  · rintro ⟨⟨rfl, rfl⟩, stays⟩
    exact survivors_insert rests settled stays

namespace WifiMacQueue

variable {w : WifiMacQueue} {scheduler : Scheduler} {maxDelay : Time} {original : Nat}
  {pos : Option Nat} {item : WifiMpdu}

/-! ## What an insertion is to do -/

/-- What the scheduler drops to make room, after the wipe. -/
def choice (now : Time) (scheduler : Scheduler) (w : WifiMacQueue) (item : WifiMpdu) : Choice :=
  (((w.wipeAllExpiredMpdus now).enlarge item).hasToDropBeforeEnqueue now scheduler item).1

/-- What remains of a container queue after the drop of an MPDU: no expired MPDU that is neither
in flight nor behind a live one. -/
def remaining (now : Time) (choice : Choice) (queue : ContainerQueue) : ContainerQueue :=
  survivors now (queue.filter fun e => choice ≠ .queued e)

/-- The new element is before what remains of the elements from the position on. -/
def Placed (now : Time) (choice : Choice) (pos : Option Nat) (queue : ContainerQueue)
    (e : WifiMacQueueElem) (queue' : ContainerQueue) : Prop :=
  queue' = (remaining now choice queue).filter (· ∈ before pos queue) ++
    e :: (remaining now choice queue).filter (· ∈ onward pos queue)

/-- An insertion into a full queue: all expired MPDUs are removed, and the item is in its place
or is what the scheduler drops. -/
def Made (now : Time) (scheduler : Scheduler) (maxDelay : Time) (w : WifiMacQueue)
    (pos : Option Nat) (item : WifiMpdu) (ok : Bool) (w' : WifiMacQueue) : Prop :=
  let choice := w.choice now scheduler item
  let queue := w.queues item.getQueueId
  (∀ queueId ≠ item.getQueueId, w'.queues queueId = remaining now choice (w.queues queueId)) ∧
  if ok then
    Placed now choice pos queue (newElem now maxDelay item) (w'.queues item.getQueueId)
  else choice = .given ∧ w'.queues item.getQueueId = remaining now choice queue

/-- An insertion with room: the item is in its place, then the expired MPDUs of its container
queue are extracted. -/
def Joined (now : Time) (maxDelay : Time) (w : WifiMacQueue) (pos : Option Nat)
    (item : WifiMpdu) (ok : Bool) (w' : WifiMacQueue) : Prop :=
  let e := newElem now maxDelay item
  let queue := w.queues item.getQueueId
  ok = true ∧ e ∈ w'.queues item.getQueueId ∧ w'.queues = Function.update w.queues item.getQueueId
      (survivors now (before pos queue ++ e :: onward pos queue))

/-- The iterators that are used are valid, the item is in its place, exactly the expired MPDUs
that are to be are extracted, and the accounts are right. -/
def Correct (now : Time) (scheduler : Scheduler) (maxDelay : Time) (original : Nat)
    (w : WifiMacQueue) (pos : Option Nat) (item : WifiMpdu) : Prop :=
  ∃ ok w', w.insert now scheduler maxDelay pos item = some (ok, w') ∧ w'.Accounted original ∧
    if w.nPackets < w.maxSize then Joined now maxDelay w pos item ok w'
    else Made now scheduler maxDelay w pos item ok w'

/-! ## When it does -/

/-- The size can be enlarged by a packet. -/
def Enlargeable (w : WifiMacQueue) (item : WifiMpdu) : Prop :=
  item.isCtl = true → w.maxSize + 1 ≠ 0

/-- The wipe removes no control frame, or one where the size cannot be enlarged for another. -/
def Balanced (now : Time) (w : WifiMacQueue) (item : WifiMpdu) : Prop :=
  (w.Enlargeable item ∧ ∀ e, w.Wiped now e → e.mpdu.isCtl = false) ∨
    (¬ w.Enlargeable item ∧ (w.wipeAllExpiredMpdus now).held isCtlElem + 1 = w.held isCtlElem)

/-- The lifetime of the item is not over, or a live MPDU stays before it. -/
def Stays (now : Time) (maxDelay : Time) (choice : Choice) (w : WifiMacQueue) (pos : Option Nat)
    (item : WifiMpdu) : Prop :=
  (newElem now maxDelay item).isExpired now = false ∨
    ∃ x ∈ before pos (w.queues item.getQueueId), x.isLive now = true ∧ choice ≠ .queued x

/-- An element at the position whose lifetime is over is in flight and at the head, where the
scheduler may drop an MPDU before it. If the scheduler drops another one at the position, then
the next element stays. -/
def Points (now : Time) (choice : Choice) (pos : Option Nat) (queue : ContainerQueue) : Prop :=
  ∀ p ∈ queue, some p.mpdu.id = pos →
    if p.isExpired now then
      p.isInFlight = true ∧ (headPos queue = pos ∨
        ∃ h ∈ queue.head?, choice = .queued h ∧ nextPos (some h.mpdu.id) queue = pos)
    else choice = .queued p → (∃ x ∈ before pos queue, x.isLive now = true) ∨
        ∀ y ∈ (onward pos queue).tail.head?, y.isStale now = false

/-- There is room, or the item is dropped, or the iterator is not a stale one. -/
def Safe (now : Time) (scheduler : Scheduler) (maxDelay : Time) (w : WifiMacQueue)
    (pos : Option Nat) (item : WifiMpdu) : Prop :=
  if w.nPackets < w.maxSize then
    w.Enlargeable item ∧ w.Stays now maxDelay .nothing pos item
  else
    let choice := w.choice now scheduler item
    choice = .given ∨ w.Balanced now item ∧ w.Stays now maxDelay choice pos item ∧
      Points now choice pos (w.queues item.getQueueId)

/-! ## Enqueue at an iterator -/

theorem newElem_ctl (item : WifiMpdu) : isCtlElem (newElem now maxDelay item) = item.isCtl := rfl

theorem enqueueAt_spec (consistent : w.Consistent) (room : w.nPackets < w.maxSize)
    (currSize : UInt32)
    (fresh : ∀ x ∈ w.queues item.getQueueId, x.mpdu.id ≠ item.id) :
    let e := newElem now maxDelay item
    let queue := w.queues item.getQueueId
    let queue' := survivors now (before pos queue ++ e :: onward pos queue)
    (pointsInto pos queue = true → queue' ≠ [] →
      ∃ w', w.enqueueAt now maxDelay currSize pos item = some (true, w') ∧ w'.Consistent ∧
        w'.nPackets.toNat = w.nPackets.toNat + 1 ∧ w'.maxSize = w.maxSize ∧
        (∀ kind, w'.held kind = w.held kind + [e].countP kind) ∧
        w'.queues = Function.update w.queues item.getQueueId queue') ∧
    (¬ (pointsInto pos queue = true ∧ queue' ≠ []) →
      w.enqueueAt now maxDelay currSize pos item = none) := by
  have below := lt_iff_toNat_lt.mp room
  have top := w.maxSize.toNat_lt
  have fits : ¬ w.maxSize < w.nPackets + 1 := by
    rw [lt_iff_toNat_lt, UInt32.toNat_add, Nat.mod_eq_of_lt]
    · change ¬ w.maxSize.toNat < w.nPackets.toNat + 1
      omega
    · change w.nPackets.toNat + 1 < 2 ^ 32
      omega
  intro e queue queue'
  unfold enqueueAt
  rw [if_neg fits]
  by_cases points : pointsInto pos queue = true
  · obtain ⟨x, emplaced, kept, packets, size, counts, -, queues⟩ :=
      @emplace_spec w e consistent pos points fresh (by omega)
    have here : (x.extractExpiredMpdus now item.getQueueId).queues item.getQueueId = queue' := by
      rw [extractExpiredMpdus_queues, if_pos rfl, queues]
      exact congrArg (survivors now) (update_self ..)
    have all : (x.extractExpiredMpdus now item.getQueueId).queues =
        Function.update w.queues item.getQueueId queue' := by
      funext queueId
      rw [extractExpiredMpdus_queues, queues]
      rcases eq_or_ne queueId item.getQueueId with rfl | ne
      · rw [if_pos rfl, update_self]
        exact congrArg (survivors now) (update_self ..)
      · rw [if_neg ne, update_of_ne ne]
        exact update_of_ne ne ..
    change w.emplace pos (newElem now maxDelay item) = some x at emplaced
    simp only [Option.bind_eq_bind, emplaced, Option.bind_some, notifyEnqueue, here]
    by_cases empty : queue' = []
    · rw [empty]
      exact ⟨fun _ some => absurd rfl some, fun _ => rfl⟩
    · have some : queue'.isEmpty = false := by simpa using empty
      rw [some]
      simp only [Bool.false_eq_true, if_false, Option.bind_some]
      refine ⟨fun _ _ => ⟨_, rfl, kept.extractExpiredMpdus _, packets, size, fun kind => ?_, all⟩,
        fun neither => absurd ⟨points, empty⟩ neither⟩
      rw [held_extractExpiredMpdus kept]
      exact counts kind
  · have fails : w.emplace pos (newElem now maxDelay item) = none := if_neg points
    simp only [Option.bind_eq_bind, fails, Option.bind_none]
    exact ⟨fun points' => absurd points' points, fun _ => trivial⟩

/-! ## With room -/

theorem enlarge_queues (item : WifiMpdu) : (w.enlarge item).queues = w.queues ∧
    (w.enlarge item).nPackets = w.nPackets ∧ ∀ kind, (w.enlarge item).held kind = w.held kind := by
  unfold enlarge setMaxSize
  split
  · split <;> exact ⟨rfl, rfl, fun _ => rfl⟩
  · exact ⟨rfl, rfl, fun _ => rfl⟩

theorem Consistent.enlarge (consistent : w.Consistent) (item : WifiMpdu) :
    (w.enlarge item).Consistent := by
  unfold WifiMacQueue.enlarge setMaxSize
  split
  · split
    · exact consistent
    · exact consistent.resize _
  · exact consistent

/-- A size that can be enlarged counts the item, one that cannot is not changed. -/
theorem enlarge_maxSize (item : WifiMpdu) : (w.Enlargeable item → (w.enlarge item).maxSize.toNat =
      w.maxSize.toNat + [newElem now maxDelay item].countP isCtlElem) ∧
    (¬ w.Enlargeable item → (w.enlarge item).maxSize = w.maxSize) ∧
    w.maxSize ≤ (w.enlarge item).maxSize := by
  unfold Enlargeable enlarge setMaxSize
  have kind := @newElem_ctl now maxDelay item
  cases ctl : item.isCtl with
  | false => simp [kind, ctl]
  | true =>
    rw [if_pos rfl]
    by_cases wraps : w.maxSize + 1 = 0
    · simp [wraps]
    · have bound : w.maxSize.toNat + 1 < 2 ^ 32 := by
        have := w.maxSize.toNat_lt
        by_contra top
        refine wraps (UInt32.toNat_inj.mp ?_)
        rw [UInt32.toNat_add]
        change (w.maxSize.toNat + 1) % 2 ^ 32 = 0
        omega
      have more : (w.maxSize + 1).toNat = w.maxSize.toNat + 1 := by
        rw [UInt32.toNat_add]
        exact Nat.mod_eq_of_lt bound
      rw [if_neg wraps]
      refine ⟨fun _ => by simp [kind, ctl, more], fun not => absurd (fun _ => wraps) not, ?_⟩
      rw [le_iff_toNat_le, more]
      exact Nat.le_succ _

variable {w' : WifiMacQueue} {queue : ContainerQueue} {d : WifiMacQueueElem}

theorem accounted_enqueue_iff (accounted : w.Accounted original) {x : WifiMacQueue}
    (same : x.maxSize = w.maxSize) (kept : w'.Consistent) (room : w'.nPackets ≤ w'.maxSize)
    (size : w'.maxSize = (x.enlarge item).maxSize)
    (counts : w'.held isCtlElem = x.held isCtlElem + [newElem now maxDelay item].countP isCtlElem) :
    w'.Accounted original ↔ (w.Enlargeable item ∧ x.held isCtlElem = w.held isCtlElem) ∨
        (¬ w.Enlargeable item ∧ x.held isCtlElem + 1 = w.held isCtlElem) := by
  obtain ⟨grows, stays, -⟩ := @enlarge_maxSize now x maxDelay item
  have enlargeable : x.Enlargeable item ↔ w.Enlargeable item := by
    unfold Enlargeable
    rw [same]
  have before := accounted.size
  rw [enlargeable] at grows stays
  have sized : w'.Accounted original ↔ w'.maxSize.toNat = original + w'.held isCtlElem :=
    ⟨fun after => after.size, fun after => ⟨kept, room, accounted.positive, after⟩⟩
  rw [sized, size, counts]
  by_cases can : w.Enlargeable item
  · rw [grows can, same, before]
    simp only [can, true_and, not_true_eq_false, false_and, or_false]
    omega
  · have ctl : item.isCtl = true := by
      by_contra plain
      exact can fun is => absurd is plain
    have one : [newElem now maxDelay item].countP isCtlElem = 1 := by
      simp [@newElem_ctl now maxDelay item, ctl]
    rw [stays can, same, before, one]
    simp only [can, false_and, not_false_eq_true, true_and, false_or]
    omega

theorem room_of_more {x : WifiMacQueue} (room : x.nPackets < x.maxSize)
    (more : w'.nPackets.toNat = x.nPackets.toNat + 1) (size : w'.maxSize = x.maxSize) :
    w'.nPackets ≤ w'.maxSize := by
  rw [le_iff_toNat_le, more, size]
  exact lt_iff_toNat_lt.mp room

theorem doEnqueue_nothing (room : w.nPackets < (w.enlarge item).maxSize) :
    w.doEnqueue now scheduler maxDelay pos item =
      (w.enlarge item).enqueueAt now maxDelay w.maxSize pos item := by
  have nothing : (w.enlarge item).hasToDropBeforeEnqueue now scheduler item =
      (.nothing, w.enlarge item) :=
    if_pos ((enlarge_queues item).2.1.symm ▸ room)
  unfold doEnqueue
  rw [nothing]

theorem new_notMem (fresh : ∀ x ∈ w.queues item.getQueueId, x.mpdu.id ≠ item.id) :
    newElem now maxDelay item ∉ w.queues item.getQueueId :=
  fun mem => fresh _ mem rfl

theorem stays_nothing_iff : w.Stays now maxDelay .nothing pos item ↔
      StaysAmong now (newElem now maxDelay item) (before pos (w.queues item.getQueueId)) := by
  unfold Stays StaysAmong
  simp

/-- **With room** the insertion is right if and only if the size can be enlarged for a control
frame, and the new element is not extracted. -/
theorem correct_iff_of_room (accounted : w.Accounted original) (room : w.nPackets < w.maxSize)
    (points : pointsInto pos (w.queues item.getQueueId) = true)
    (fresh : ∀ x ∈ w.queues item.getQueueId, x.mpdu.id ≠ item.id) :
    w.Correct now scheduler maxDelay original pos item ↔
      w.Enlargeable item ∧ w.Stays now maxDelay .nothing pos item := by
  obtain ⟨queues, packets, held_eq⟩ := @enlarge_queues w item
  have room' : w.nPackets < (w.enlarge item).maxSize :=
    UInt32.lt_of_lt_of_le room (@enlarge_maxSize now w maxDelay item).2.2
  obtain ⟨done, -⟩ := @enqueueAt_spec now (w.enlarge item) maxDelay pos item
    (accounted.toConsistent.enlarge item) (packets.symm ▸ room') w.maxSize
    (queues.symm ▸ fresh)
  rw [queues] at done
  have inserts : w.insert now scheduler maxDelay pos item =
      (w.enlarge item).enqueueAt now maxDelay w.maxSize pos item :=
    (if_pos room).trans (doEnqueue_nothing room')
  have mem_iff := @mem_survivors_insert_iff now (before pos (w.queues item.getQueueId))
    (onward pos (w.queues item.getQueueId)) (newElem now maxDelay item) rfl
    (by rw [before_append_onward]; exact new_notMem fresh)
  have accounts : ∀ w' : WifiMacQueue, w'.Consistent →
      w'.nPackets.toNat = (w.enlarge item).nPackets.toNat + 1 →
      w'.maxSize = (w.enlarge item).maxSize →
      (∀ kind, w'.held kind = (w.enlarge item).held kind +
        [newElem now maxDelay item].countP kind) →
      (w'.Accounted original ↔ w.Enlargeable item) := by
    intro w' kept more size counts
    rw [accounted_enqueue_iff accounted rfl kept (room_of_more (packets.symm ▸ room') more size)
      size (held_eq isCtlElem ▸ counts isCtlElem)]
    simp
  unfold Correct
  rw [inserts, stays_nothing_iff, ← mem_iff]
  simp only [if_pos room]
  constructor
  · rintro ⟨ok, w', eq, after, -, mem, is⟩
    have here := congrFun is item.getQueueId
    rw [update_self] at here
    rw [here] at mem
    obtain ⟨x, eq', kept, more, size, counts, -⟩ := done points (ne_nil_of_mem mem)
    cases eq.symm.trans eq'
    exact ⟨(accounts w' kept more size counts).mp after, mem⟩
  · rintro ⟨can, mem⟩
    obtain ⟨x, eq', kept, more, size, counts, is⟩ := done points (ne_nil_of_mem mem)
    refine ⟨true, x, eq', (accounts x kept more size counts).mpr can, rfl, ?_, is⟩
    rw [is, update_self]
    exact mem

/-! ## The iterator -/

/-- The iterator that `Insert` takes for a stale position. -/
def frontIfStale (now : Time) (pos : Option Nat) (queue : ContainerQueue) : Option Nat :=
  if queue.any fun e => some e.mpdu.id = pos && e.isExpired now then headPos queue else pos

theorem frontIfStale_of_expired {p : WifiMacQueueElem} (mem : p ∈ queue)
    (due : p.isExpired now = true) : frontIfStale now (some p.mpdu.id) queue = headPos queue :=
  if_pos (any_eq_true.mpr ⟨p, mem, by simp [due]⟩)

theorem frontIfStale_of_not (fresh : ∀ p ∈ queue, some p.mpdu.id = pos → p.isExpired now = false) :
    frontIfStale now pos queue = pos := by
  apply if_neg
  rw [any_eq_true]
  rintro ⟨p, mem, both⟩
  simp only [Bool.and_eq_true, decide_eq_true_eq] at both
  exact Bool.false_ne_true ((fresh p mem both.1).symm.trans both.2)

theorem frontIfStale_points (points : pointsInto pos queue = true) :
    pointsInto (frontIfStale now pos queue) queue = true := by
  unfold frontIfStale
  split
  case isTrue stale =>
    cases queue with
    | nil => cases stale
    | cons h rest => exact pointsInto_iff.mpr (.inr ⟨h, mem_cons_self, rfl⟩)
  case isFalse => exact points

theorem points_iff (nodup : (queue.map (·.mpdu.id)).Nodup) {p : WifiMacQueueElem} (mem : p ∈ queue)
    (choice : Choice) :
    Points now choice (some p.mpdu.id) queue ↔
      if p.isExpired now then
        p.isInFlight = true ∧ (headPos queue = some p.mpdu.id ∨
          ∃ h ∈ queue.head?, choice = .queued h ∧ nextPos (some h.mpdu.id) queue = some p.mpdu.id)
      else choice = .queued p → (∃ x ∈ before (some p.mpdu.id) queue, x.isLive now = true) ∨
          ∀ y ∈ (onward (some p.mpdu.id) queue).tail.head?, y.isStale now = false := by
  constructor
  · exact fun all => all p mem rfl
  · intro here p' mem' same
    obtain rfl := eq_of_id nodup mem' mem (Option.some.inj same)
    exact here

theorem mem_head_iff {h : WifiMacQueueElem} {rest : ContainerQueue}
    (nodup : ((h :: rest).map (·.mpdu.id)).Nodup) :
    h ∈ survivors now (h :: rest) ↔ h.isStale now = false := by
  have alone : h ∉ [] ++ rest := fun mem =>
    (nodup_cons.mp nodup).1 (mem_map_of_mem mem)
  have iff := @mem_survivors_append_iff now _ _ _ alone
  simpa using iff

theorem points_none (choice : Choice) (queue : ContainerQueue) : Points now choice none queue :=
  fun _ _ => nofun

/-- Where the scheduler drops nothing, the iterator is right if and only if no stale position is
moved. -/
theorem splits_nothing_iff (nodup : (queue.map (·.mpdu.id)).Nodup)
    (points : pointsInto pos queue = true) :
    Splits (frontIfStale now pos queue) pos queue (survivors now queue) ↔
      Points now .nothing pos queue := by
  have sub := @survivors_sublist now queue
  rcases pointsInto_iff.mp points with rfl | ⟨p, mem, rfl⟩
  · have end_ : frontIfStale now none queue = none := frontIfStale_of_not fun _ _ => nofun
    rw [end_]
    exact iff_of_true (splits_self sub nodup rfl) (points_none _ _)
  rw [points_iff nodup mem]
  cases due : p.isExpired now with
  | false =>
    have same : frontIfStale now (some p.mpdu.id) queue = some p.mpdu.id :=
      frontIfStale_of_not fun p' mem' same =>
        eq_of_id nodup mem' mem (Option.some.inj same) ▸ due
    rw [same, if_neg Bool.false_ne_true]
    refine iff_of_true (splits_self sub nodup (pointsInto_iff.mpr (.inr ⟨p, ?_, rfl⟩))) nofun
    exact mem_survivors_of_not_stale mem (by simp [isStale, due])
  | true =>
    rw [frontIfStale_of_expired mem due, if_pos rfl]
    cases queue with
    | nil => cases mem
    | cons h rest =>
      have head : headPos (h :: rest) = some h.mpdu.id := rfl
      rw [head, splits_head_iff sub nodup]
      constructor
      · rintro ⟨kept, same⟩
        obtain rfl := eq_of_id nodup mem_cons_self mem (Option.some.inj same)
        have rests := (mem_head_iff nodup).mp kept
        exact ⟨by simpa [isStale, due] using rests, .inl rfl⟩
      · rintro ⟨flies, same | ⟨_, -, dropped, -⟩⟩
        · obtain rfl := eq_of_id nodup mem_cons_self mem (Option.some.inj same)
          exact ⟨mem_survivors_of_not_stale mem (by simp [isStale, flies]), rfl⟩
        · cases dropped

theorem remaining_queued {front back : ContainerQueue}
    (nodup : ((front ++ d :: back).map (·.mpdu.id)).Nodup) :
    remaining now (.queued d) (front ++ d :: back) = survivors now (front ++ back) := by
  have perm : ((d :: (front ++ back)).map (·.mpdu.id)).Nodup :=
    ((perm_middle.map _).nodup_iff).mp nodup
  have absent : ∀ x ∈ front ++ back, Choice.queued d ≠ .queued x := by
    rintro x mem ⟨⟩
    exact (nodup_cons.mp perm).1 (mem_map_of_mem mem)
  unfold remaining
  rw [filter_append, filter_cons_of_neg (by simp), ← filter_append,
    filter_eq_self.mpr fun x mem => decide_eq_true (absent x mem)]

theorem remaining_of_notMem (away : d ∉ queue) :
    remaining now (.queued d) queue = survivors now queue := by
  unfold remaining
  rw [filter_eq_self.mpr]
  rintro x mem
  simp only [ne_eq, Choice.queued.injEq, decide_eq_true_eq]
  rintro rfl
  exact away mem

theorem splits_dropped_iff {front back : ContainerQueue}
    (nodup : ((front ++ d :: back).map (·.mpdu.id)).Nodup) :
    Splits (headPos back) (some d.mpdu.id) (front ++ d :: back)
        (remaining now (.queued d) (front ++ d :: back)) ↔
      (∃ x ∈ front, x.isLive now = true) ∨ ∀ y ∈ back.head?, y.isStale now = false := by
  have perm : ((d :: (front ++ back)).map (·.mpdu.id)).Nodup :=
    ((perm_middle.map _).nodup_iff).mp nodup
  have nodup' := (nodup_cons.mp perm).2
  rw [remaining_queued nodup, splits_next_iff (survivors_sublist _) nodup]
  cases back with
  | nil => exact iff_of_true nofun (.inr nofun)
  | cons y rest =>
    have alone : y ∉ front ++ rest := by
      have moved := ((perm_middle.map _).nodup_iff).mp nodup'
      exact fun mem => (nodup_cons.mp moved).1 (mem_map_of_mem mem)
    simpa using mem_survivors_append_iff alone

/-- Where the scheduler drops an MPDU, nothing is stale before. -/
theorem splits_queued_iff (nodup : (queue.map (·.mpdu.id)).Nodup)
    (points : pointsInto pos queue = true) (settled : survivors now queue = queue)
    (droppable : isDroppable d = true) {here : Prop} [Decidable here]
    (here_iff : here ↔ d ∈ queue ∧ frontIfStale now pos queue = some d.mpdu.id) :
    Splits (if here then nextPos (frontIfStale now pos queue) queue else frontIfStale now pos queue)
        pos queue (remaining now (.queued d) queue) ↔
      Points now (.queued d) pos queue := by
  have d_rests : d.isInFlight = false := by
    simp only [isDroppable, Bool.and_eq_true, Bool.not_eq_true'] at droppable
    exact droppable.1
  have sub : (remaining now (.queued d) queue).Sublist queue :=
    (survivors_sublist _).trans filter_sublist
  have kept : ∀ e ∈ queue, e ≠ d → e.isStale now = false → e ∈ remaining now (.queued d) queue := by
    intro e mem other rests
    refine mem_survivors_of_not_stale (mem_filter.mpr ⟨mem, ?_⟩) rests
    simpa using other.symm
  rcases pointsInto_iff.mp points with rfl | ⟨p, mem, rfl⟩
  · have end_ : frontIfStale now none queue = none := frontIfStale_of_not fun _ _ => nofun
    rw [end_] at here_iff ⊢
    rw [if_neg (by simp [here_iff])]
    exact iff_of_true (splits_self sub nodup rfl) (points_none _ _)
  rw [points_iff nodup mem]
  cases due : p.isExpired now with
  | false =>
    have same : frontIfStale now (some p.mpdu.id) queue = some p.mpdu.id :=
      frontIfStale_of_not fun p' mem' same =>
        eq_of_id nodup mem' mem (Option.some.inj same) ▸ due
    rw [same] at here_iff ⊢
    rw [if_neg Bool.false_ne_true]
    by_cases is : d = p
    · subst is
      rw [if_pos (here_iff.mpr ⟨mem, rfl⟩)]
      obtain ⟨front, back, rfl⟩ := append_of_mem mem
      obtain ⟨left, right⟩ := split_at_elem nodup
      unfold nextPos
      rw [left, right, tail_cons, splits_dropped_iff nodup]
      exact ⟨fun kept _ => kept, fun kept => kept rfl⟩
    · have away : ¬ here := by
        rw [here_iff]
        rintro ⟨d_mem, same⟩
        exact is (eq_of_id nodup mem d_mem (Option.some.inj same)).symm
      rw [if_neg away]
      refine iff_of_true (splits_self sub nodup (pointsInto_iff.mpr (.inr ⟨p, ?_, rfl⟩))) ?_
      · exact kept p mem (Ne.symm is) (by simp [isStale, due])
      · rintro ⟨⟩
        exact absurd rfl is
  | true =>
    have same := frontIfStale_of_expired mem due
    rw [same] at here_iff ⊢
    rw [if_pos rfl]
    cases queue with
    | nil => cases mem
    | cons h rest =>
      have head : headPos (h :: rest) = some h.mpdu.id := rfl
      have h_rests : h.isStale now = false := (mem_head_iff nodup).mp (settled.symm ▸ mem_cons_self)
      rw [head] at here_iff ⊢
      by_cases is : d = h
      · subst is
        have d_fresh : d.isExpired now = false := by simpa [isStale, d_rests] using h_rests
        have other : some d.mpdu.id ≠ some p.mpdu.id := by
          intro same
          obtain rfl := eq_of_id nodup mem_cons_self mem (Option.some.inj same)
          exact Bool.false_ne_true (d_fresh.symm.trans due)
        have next : nextPos (some d.mpdu.id) (d :: rest) = headPos rest := by
          unfold nextPos
          simp [onward_cons]
        have left : remaining now (.queued d) (d :: rest) = survivors now rest :=
          @remaining_queued now d [] rest nodup
        obtain ⟨absent, nodup'⟩ := nodup_cons.mp nodup
        have gone : d ∉ survivors now rest := fun mem =>
          absent (mem_map_of_mem ((survivors_sublist rest).subset mem))
        rw [if_pos (here_iff.mpr ⟨mem_cons_self, rfl⟩), next, left, splits_cons_iff gone other]
        have p_mem : p ∈ rest := (mem_cons.mp mem).resolve_left fun same =>
          other (same ▸ rfl)
        cases rest with
        | nil => cases p_mem
        | cons y rest =>
          have head : headPos (y :: rest) = some y.mpdu.id := rfl
          rw [head, splits_head_iff (survivors_sublist _) nodup', mem_head_iff nodup']
          constructor
          · rintro ⟨rests, same⟩
            obtain rfl := eq_of_id nodup' mem_cons_self p_mem (Option.some.inj same)
            exact ⟨by simpa [isStale, due] using rests, .inr ⟨d, rfl, rfl, next⟩⟩
          · rintro ⟨flies, same | ⟨_, ⟨⟩, -, same⟩⟩
            · exact absurd same other
            · rw [next] at same
              obtain rfl := eq_of_id nodup' mem_cons_self p_mem (Option.some.inj same)
              exact ⟨by simp [isStale, flies], rfl⟩
      · have away : ¬ here := by
          rw [here_iff]
          rintro ⟨d_mem, same⟩
          exact is (eq_of_id nodup mem_cons_self d_mem (Option.some.inj same)).symm
        rw [if_neg away, splits_head_iff sub nodup]
        constructor
        · rintro ⟨-, same⟩
          obtain rfl := eq_of_id nodup mem_cons_self mem (Option.some.inj same)
          exact ⟨by simpa [isStale, due] using h_rests, .inl rfl⟩
        · rintro ⟨-, same | ⟨_, ⟨⟩, dropped, -⟩⟩
          · exact ⟨kept h mem_cons_self (Ne.symm is) h_rests, same⟩
          · cases dropped
            exact absurd rfl is

/-! ## Without room -/

theorem remaining_sublist (choice : Choice) (queue : ContainerQueue) :
    (remaining now choice queue).Sublist queue :=
  (survivors_sublist _).trans filter_sublist

theorem stays_remaining_iff {choice : Choice} : StaysAmong now (newElem now maxDelay item)
        ((remaining now choice (w.queues item.getQueueId)).filter
          (· ∈ before pos (w.queues item.getQueueId))) ↔
      w.Stays now maxDelay choice pos item := by
  refine or_congr_right ⟨?_, ?_⟩
  · rintro ⟨x, mem, lives⟩
    obtain ⟨kept, here⟩ := mem_filter.mp mem
    obtain ⟨-, spared⟩ := mem_filter.mp ((survivors_sublist _).subset kept)
    exact ⟨x, of_decide_eq_true here, lives, of_decide_eq_true spared⟩
  · rintro ⟨x, here, lives, spared⟩
    have rests : x.isStale now = false := by
      by_contra stale
      rw [Bool.not_eq_false] at stale
      exact Bool.false_ne_true ((not_isLive_of_isStale stale).symm.trans lives)
    refine ⟨x, mem_filter.mpr ⟨mem_survivors_of_not_stale (mem_filter.mpr
      ⟨mem_of_mem_before here, decide_eq_true spared⟩) rests, decide_eq_true here⟩, lives⟩

theorem correct_iff_of_enqueue (accounted : w.Accounted original) (full : ¬ w.nPackets < w.maxSize)
    (fresh : ∀ x ∈ w.queues item.getQueueId, x.mpdu.id ≠ item.id)
    (some : w.choice now scheduler item ≠ .given) {y : WifiMacQueue} (consistent : y.Consistent)
    (room : y.nPackets < y.maxSize)
    (size : y.maxSize = ((w.wipeAllExpiredMpdus now).enlarge item).maxSize)
    (counts : y.held isCtlElem = (w.wipeAllExpiredMpdus now).held isCtlElem)
    (queues : ∀ queueId, y.queues queueId =
      remaining now (w.choice now scheduler item) (w.queues queueId))
    {currSize : UInt32} {iterator : Option Nat}
    (inserts : w.insert now scheduler maxDelay pos item =
      y.enqueueAt now maxDelay currSize iterator item) :
    w.Correct now scheduler maxDelay original pos item ↔
      w.Balanced now item ∧ w.Stays now maxDelay (w.choice now scheduler item) pos item ∧
        Splits iterator pos (w.queues item.getQueueId)
          (remaining now (w.choice now scheduler item) (w.queues item.getQueueId)) := by
  obtain ⟨-, same_size, -, -, -, wiped⟩ := @wipe_spec now w accounted.toConsistent
  have left := @remaining_sublist now (w.choice now scheduler item) (w.queues item.getQueueId)
  obtain ⟨done, fails⟩ := @enqueueAt_spec now y maxDelay iterator item consistent room currSize
    (fun x mem => fresh x (left.subset (queues item.getQueueId ▸ mem)))
  rw [queues item.getQueueId] at done fails
  have place := @place_iff now
    (before iterator (remaining now (w.choice now scheduler item) (w.queues item.getQueueId)))
    (onward iterator (remaining now (w.choice now scheduler item) (w.queues item.getQueueId)))
    (newElem now maxDelay item) rfl
    ((remaining now (w.choice now scheduler item) (w.queues item.getQueueId)).filter
      (· ∈ before pos (w.queues item.getQueueId)))
    ((remaining now (w.choice now scheduler item) (w.queues item.getQueueId)).filter
      (· ∈ onward pos (w.queues item.getQueueId)))
    (by rw [before_append_onward]; exact (survivors_survivors _).1)
    (by rw [before_append_onward]; exact fun mem => new_notMem fresh (left.subset mem))
  rw [stays_remaining_iff] at place
  have accounts : ∀ w' : WifiMacQueue, w'.Consistent →
      w'.nPackets.toNat = y.nPackets.toNat + 1 → w'.maxSize = y.maxSize →
      (∀ kind, w'.held kind = y.held kind + [newElem now maxDelay item].countP kind) →
      (w'.Accounted original ↔ w.Balanced now item) := by
    intro w' kept more same more_held
    rw [accounted_enqueue_iff accounted same_size kept (room_of_more room more same)
      (same.trans size) (counts ▸ more_held isCtlElem), (wiped isCtlElem).2]
    rfl
  unfold Correct
  simp only [if_neg full, Made]
  constructor
  · rintro ⟨ok, w', eq, after, -, made⟩
    rw [inserts] at eq
    by_cases fits : pointsInto iterator (remaining now (w.choice now scheduler item)
        (w.queues item.getQueueId)) = true ∧ survivors now
          (before iterator (remaining now (w.choice now scheduler item)
            (w.queues item.getQueueId)) ++ newElem now maxDelay item ::
              onward iterator (remaining now (w.choice now scheduler item)
                (w.queues item.getQueueId))) ≠ []
    · obtain ⟨x, eq', kept, more, same, more_held, is⟩ := done fits.1 fits.2
      cases eq.symm.trans eq'
      rw [if_pos rfl, is] at made
      unfold Placed at made
      rw [update_self] at made
      obtain ⟨⟨front, back⟩, stays⟩ := place.mp made
      exact ⟨(accounts w' kept more same more_held).mp after, stays, fits.1, front, back⟩
    · rw [fails fits] at eq
      cases eq
  · rintro ⟨balanced, stays, points, front, back⟩
    have placed := place.mpr ⟨⟨front, back⟩, stays⟩
    obtain ⟨x, eq, kept, more, same, more_held, is⟩ := done points (by rw [placed]; simp)
    refine ⟨true, x, inserts.trans eq, (accounts x kept more same more_held).mpr balanced,
      fun queueId other => ?_, ?_⟩
    · rw [is, update_of_ne other]
      exact queues queueId
    · rw [if_pos rfl, is]
      unfold Placed
      rw [update_self]
      exact placed

theorem insert_full (full : ¬ w.nPackets < w.maxSize) : w.insert now scheduler maxDelay pos item =
      (w.wipeAllExpiredMpdus now).doEnqueue now scheduler maxDelay
        (frontIfStale now pos (w.queues item.getQueueId)) item :=
  if_neg full

/-- Where the scheduler finds no room after the wipe, the wipe has removed nothing. -/
theorem nothing_wiped (accounted : w.Accounted original) (full : ¬ w.nPackets < w.maxSize)
    (some : w.choice now scheduler item ≠ .nothing) :
    (w.wipeAllExpiredMpdus now).nPackets = w.nPackets ∧
      ((w.wipeAllExpiredMpdus now).enlarge item).maxSize = w.maxSize ∧
      ∀ e, ¬ w.Wiped now e := by
  obtain ⟨kept, same_size, fewer, -, queues, wiped⟩ := @wipe_spec now w accounted.toConsistent
  obtain ⟨same_queues, same_packets, -⟩ := @enlarge_queues (w.wipeAllExpiredMpdus now) item
  obtain ⟨-, -, larger⟩ := @enlarge_maxSize now (w.wipeAllExpiredMpdus now) 0 item
  have settled : ((w.wipeAllExpiredMpdus now).enlarge item).Settled now := by
    intro queueId
    rw [same_queues, queues]
    exact survivors_survivors _
  obtain ⟨-, nothing_iff, -⟩ := hasToDrop_spec (kept.enlarge item) settled scheduler item
  have no_room := mt nothing_iff.mpr some
  have room := accounted.room
  rw [same_packets, lt_iff_toNat_lt] at no_room
  rw [same_size] at larger
  rw [le_iff_toNat_le] at fewer room larger
  have same : (w.wipeAllExpiredMpdus now).nPackets = w.nPackets := UInt32.toNat_inj.mp (by omega)
  refine ⟨same, UInt32.toNat_inj.mp (by omega), fun e gone => ?_⟩
  have all := (wiped fun _ => true).2.mp (by rw [← kept.packets, same, accounted.packets])
  exact Bool.false_ne_true (all e gone).symm

theorem remaining_given (queue : ContainerQueue) :
    remaining now .given queue = survivors now queue := by simp [remaining]

theorem remaining_nothing (queue : ContainerQueue) :
    remaining now .nothing queue = survivors now queue := by simp [remaining]

theorem survivors_of_not_wiped (none : ∀ e, ¬ w.Wiped now e)
    (queueId : WifiContainerQueueId) : survivors now (w.queues queueId) = w.queues queueId := by
  have empty : stales now (w.queues queueId) = [] :=
    eq_nil_iff_forall_not_mem.mpr fun e mem => none e (.inr ⟨queueId, mem⟩)
  have length := (@survivors_perm now (w.queues queueId)).length_eq
  rw [empty, append_nil] at length
  exact (survivors_sublist _).eq_of_length length

theorem remaining_dropped (consistent : w.Consistent) (none : ∀ e, ¬ w.Wiped now e)
    (mem : d ∈ w.queues d.mpdu.getQueueId) (queueId : WifiContainerQueueId) :
    (if queueId = d.mpdu.getQueueId then
        survivors now ((w.queues queueId).filter fun x => x.mpdu.id ≠ d.mpdu.id)
      else w.queues queueId) = remaining now (.queued d) (w.queues queueId) := by
  split
  case isTrue same =>
    subst same
    refine congrArg (survivors now) (filter_congr fun x x_mem => ?_)
    rw [decide_eq_decide, not_iff_not]
    constructor
    · intro same
      rw [eq_of_id (consistent.nodup _) x_mem mem same]
    · rintro ⟨⟩
      rfl
  case isFalse other =>
    rw [remaining_of_notMem fun mem => other (consistent.keyed queueId d mem).symm,
      survivors_of_not_wiped none]

/-- **Without room** the insertion is right if and only if the new item is dropped, or the wipe
keeps the size, and the iterator and the new element are no stale ones. -/
theorem correct_iff_of_full (accounted : w.Accounted original) (full : ¬ w.nPackets < w.maxSize)
    (points : pointsInto pos (w.queues item.getQueueId) = true)
    (fresh : ∀ x ∈ w.queues item.getQueueId, x.mpdu.id ≠ item.id) :
    w.Correct now scheduler maxDelay original pos item ↔
      w.choice now scheduler item = .given ∨ w.Balanced now item ∧
        w.Stays now maxDelay (w.choice now scheduler item) pos item ∧
        Points now (w.choice now scheduler item) pos (w.queues item.getQueueId) := by
  obtain ⟨kept, same_size, fewer, expired, queues, wiped⟩ := @wipe_spec now w accounted.toConsistent
  obtain ⟨same_queues, same_packets, same_held⟩ := @enlarge_queues (w.wipeAllExpiredMpdus now) item
  have consistent := kept.enlarge item
  have settled : ((w.wipeAllExpiredMpdus now).enlarge item).Settled now := by
    intro queueId
    rw [same_queues, queues]
    exact survivors_survivors _
  obtain ⟨unchanged, nothing_iff, drops⟩ := hasToDrop_spec consistent settled scheduler item
  have nodup := accounted.nodup item.getQueueId
  cases chosen : w.choice now scheduler item with
  | given =>
    refine iff_of_true ⟨false, ((w.wipeAllExpiredMpdus now).enlarge item).setMaxSize
      (w.wipeAllExpiredMpdus now).maxSize, ?_, ?_, ?_⟩ (.inl rfl)
    · rw [insert_full full]
      unfold doEnqueue
      have pair : ((w.wipeAllExpiredMpdus now).enlarge item).hasToDropBeforeEnqueue now scheduler
          item = (.given, (w.wipeAllExpiredMpdus now).enlarge item) := Prod.ext chosen unchanged
      rw [pair]
    · obtain ⟨-, -, none⟩ := @nothing_wiped now w scheduler original item accounted full
        (by rw [chosen]; nofun)
      have positive : (w.wipeAllExpiredMpdus now).maxSize ≠ 0 := by
        intro zero
        have size := accounted.size
        have := accounted.positive
        rw [← same_size, zero] at size
        change 0 = _ at size
        omega
      unfold setMaxSize
      rw [if_neg positive]
      refine ⟨consistent.resize _, ?_, accounted.positive, ?_⟩
      · change ((w.wipeAllExpiredMpdus now).enlarge item).nPackets ≤ _
        rw [same_packets, same_size]
        exact UInt32.le_trans fewer accounted.room
      · change (w.wipeAllExpiredMpdus now).maxSize.toNat = original +
          ((w.wipeAllExpiredMpdus now).enlarge item).held isCtlElem
        rw [same_held, same_size, accounted.size,
          (wiped isCtlElem).2.mpr fun e gone => absurd gone (none e)]
    · rw [if_neg full]
      have same : (((w.wipeAllExpiredMpdus now).enlarge item).setMaxSize
          (w.wipeAllExpiredMpdus now).maxSize).queues =
            ((w.wipeAllExpiredMpdus now).enlarge item).queues := by
        unfold setMaxSize
        split <;> rfl
      unfold Made
      simp [chosen, same, same_queues, queues, remaining_given]
  | nothing =>
    have some : w.choice now scheduler item ≠ .given := by rw [chosen]; nofun
    have room := nothing_iff.mp chosen
    have inserts := (@insert_full now w scheduler maxDelay pos item full).trans
      (doEnqueue_nothing (same_packets ▸ room))
    rw [correct_iff_of_enqueue accounted full fresh some consistent room rfl (same_held _) ?_
      inserts, chosen, remaining_nothing, splits_nothing_iff nodup points]
    · simp
    · intro queueId
      rw [chosen, remaining_nothing, same_queues, queues]
  | queued d =>
    have some : w.choice now scheduler item ≠ .given := by rw [chosen]; nofun
    obtain ⟨packets, size, none⟩ := @nothing_wiped now w scheduler original item accounted
      full (by rw [chosen]; nofun)
    obtain ⟨droppable, mem, plain⟩ := drops d chosen
    have all : ((w.wipeAllExpiredMpdus now).enlarge item).queues = w.queues := by
      funext queueId
      rw [same_queues, queues, survivors_of_not_wiped none]
    obtain ⟨kept', fewer', size', held', queues'⟩ := @doRemove_spec now _ d consistent mem plain
    rw [all] at mem queues'
    have points' : pointsInto (frontIfStale now pos (w.queues item.getQueueId))
        (w.queues item.getQueueId) = true :=
      frontIfStale_points points
    have inserts : w.insert now scheduler maxDelay pos item =
        (((w.wipeAllExpiredMpdus now).enlarge item).doRemove now d).enqueueAt now maxDelay
          (w.wipeAllExpiredMpdus now).maxSize
          (if d.mpdu.getQueueId = item.getQueueId ∧
              frontIfStale now pos (w.queues item.getQueueId) = Option.some d.mpdu.id then
            nextPos (frontIfStale now pos (w.queues item.getQueueId)) (w.queues item.getQueueId)
          else frontIfStale now pos (w.queues item.getQueueId)) item := by
      rw [insert_full full]
      unfold doEnqueue
      have pair : ((w.wipeAllExpiredMpdus now).enlarge item).hasToDropBeforeEnqueue now scheduler
          item = (.queued d, (w.wipeAllExpiredMpdus now).enlarge item) := Prod.ext chosen unchanged
      rw [pair]
      dsimp only
      rw [all, if_pos points']
    have room : (((w.wipeAllExpiredMpdus now).enlarge item).doRemove now d).nPackets <
        (((w.wipeAllExpiredMpdus now).enlarge item).doRemove now d).maxSize := by
      have room := le_iff_toNat_le.mp accounted.room
      rw [lt_iff_toNat_lt, size', size]
      rw [same_packets, packets] at fewer'
      omega
    have counts : (((w.wipeAllExpiredMpdus now).enlarge item).doRemove now d).held isCtlElem =
        (w.wipeAllExpiredMpdus now).held isCtlElem := by
      have count := held' isCtlElem
      rw [same_held] at count
      simpa [isCtlElem, plain] using count
    rw [correct_iff_of_enqueue accounted full fresh some kept' room size' counts ?_ inserts,
      chosen, splits_queued_iff nodup points (survivors_of_not_wiped none _) droppable]
    · simp
    · constructor
      · rintro ⟨same, here⟩
        exact ⟨same ▸ mem, here⟩
      · rintro ⟨there, here⟩
        exact ⟨accounted.keyed _ d there, here⟩
    · intro queueId
      rw [queues', chosen, remaining_dropped accounted.toConsistent none mem]

/-- **Insertion.** In every state whose accounts are right, for every position of the container
queue and every new item, the insertion is right if and only if it is safe. -/
theorem insert_correct_iff (now : Time) (scheduler : Scheduler) (maxDelay : Time)
    (original : Nat) (w : WifiMacQueue) (pos : Option Nat) (item : WifiMpdu)
    (accounted : w.Accounted original)
    (points : pointsInto pos (w.queues item.getQueueId) = true)
    (fresh : ∀ x ∈ w.queues item.getQueueId, x.mpdu.id ≠ item.id) :
    w.Correct now scheduler maxDelay original pos item ↔
      w.Safe now scheduler maxDelay pos item := by
  unfold Safe
  split
  case isTrue room => exact correct_iff_of_room accounted room points fresh
  case isFalse full => exact correct_iff_of_full accounted full points fresh

/-- A new queue. -/
def empty (maxSize : UInt32) : WifiMacQueue := ⟨fun _ => [], [], [], fun _ => 0, 0, maxSize⟩

theorem empty_accounted {maxSize : UInt32} (same : maxSize.toNat = original)
    (positive : 0 < original) : (empty maxSize).Accounted original where
  keyed := nofun
  nodup _ := nodup_nil
  known _ some := absurd rfl some
  ids_nodup := nodup_nil
  bytes _ := rfl
  packets := rfl
  room := le_iff_toNat_le.mpr (Nat.zero_le _)
  positive
  size := same

/-! ## Runs -/

/-- The operations of a queue. A queued MPDU may come into flight, be marked as a retry or get
another lifetime. -/
inductive Operation
  | insert (now : Time) (scheduler : Scheduler) (pos : Option Nat) (item : WifiMpdu)
  | doDequeue (now : Time) (es : List WifiMacQueueElem)
  | doRemove (now : Time) (e : WifiMacQueueElem)
  | extractExpiredMpdus (now : Time) (queueId : WifiContainerQueueId)
  | wipeAllExpiredMpdus (now : Time)
  | setStatus (queueId : WifiContainerQueueId)
      (status : WifiMacQueueElem → Time × List UInt8 × Bool)

def withStatus (status : WifiMacQueueElem → Time × List UInt8 × Bool) (e : WifiMacQueueElem) :
    WifiMacQueueElem :=
  ⟨{ e.mpdu with isRetry := (status e).2.2 }, (status e).1, (status e).2.1⟩

def step (maxDelay : Time) (w : WifiMacQueue) : Operation → Option (WifiMacQueue × List Bool)
  | .insert now scheduler pos item => do
    let (ok, w) ← w.insert now scheduler maxDelay pos item
    return (w, [ok])
  | .doDequeue now es => some (w.doDequeue now es, [])
  | .doRemove now e => some (w.doRemove now e, [])
  | .extractExpiredMpdus now queueId => some (w.extractExpiredMpdus now queueId, [])
  | .wipeAllExpiredMpdus now => some (w.wipeAllExpiredMpdus now, [])
  | .setStatus queueId status => some ({ w with
      queues := Function.update w.queues queueId ((w.queues queueId).map (withStatus status)) }, [])

/-- The MPDUs are queued, new ones are not, and no operation comes to a defect. -/
def Allowed (maxDelay : Time) (w : WifiMacQueue) : Operation → Prop
  | .insert now scheduler pos item =>
    pointsInto pos (w.queues item.getQueueId) = true ∧
      (∀ x ∈ w.queues item.getQueueId, x.mpdu.id ≠ item.id) ∧
      w.Safe now scheduler maxDelay pos item
  | .doDequeue _ es => es.Nodup ∧ ∀ e ∈ es, e ∈ w.queues e.mpdu.getQueueId
  | .doRemove _ e => e ∈ w.queues e.mpdu.getQueueId
  | .extractExpiredMpdus _ _ => True
  | .wipeAllExpiredMpdus now => ∀ e, w.Wiped now e → e.mpdu.isCtl = false
  | .setStatus _ _ => True

theorem Accounted.setStatus (accounted : w.Accounted original)
    (queueId : WifiContainerQueueId) (status : WifiMacQueueElem → Time × List UInt8 × Bool) :
    Accounted original { w with
      queues := Function.update w.queues queueId
        ((w.queues queueId).map (withStatus status)) } := by
  by_cases known : queueId ∈ w.ids
  · have sizes_eq : sizes ((w.queues queueId).map (withStatus status)) =
        sizes (w.queues queueId) := by simp [sizes, withStatus, comp_def]
    have ctl : ((w.queues queueId).map (withStatus status)).countP isCtlElem =
        (w.queues queueId).countP isCtlElem := by
      rw [countP_map]
      rfl
    have kept : Consistent { w with
        queues := Function.update w.queues queueId ((w.queues queueId).map (withStatus status))
        nBytesPerQueue := Function.update w.nBytesPerQueue queueId
          (.ofNat (sizes ((w.queues queueId).map (withStatus status))))
        nPackets := w.nPackets } := by
      refine accounted.toConsistent.update known ?_ ?_ (by rw [length_map])
      · rintro _ mem
        obtain ⟨e, queued, rfl⟩ := mem_map.mp mem
        exact accounted.keyed queueId e queued
      · rw [map_map]
        exact accounted.nodup queueId
    rw [sizes_eq, ← accounted.bytes, update_eq_self] at kept
    have held := held_update accounted.toConsistent known
      ((w.queues queueId).map (withStatus status)) w.nBytesPerQueue w.nPackets w.maxSize isCtlElem
    refine ⟨kept, accounted.room, accounted.positive, ?_⟩
    rw [Nat.add_right_cancel (held.trans (congrArg _ ctl))]
    exact accounted.size
  · have none : w.queues queueId = [] := by
      by_contra some
      exact known (accounted.known queueId some)
    have same : Function.update w.queues queueId ((w.queues queueId).map (withStatus status)) =
        w.queues := by simp [none]
    rw [same]
    exact accounted

theorem step_accounted {maxDelay : Time} (accounted : w.Accounted original) {o : Operation}
    (allowed : w.Allowed maxDelay o) {out : List Bool} (done : w.step maxDelay o = some (w', out)) :
    w'.Accounted original := by
  cases o with
  | insert now scheduler pos item =>
    obtain ⟨points, fresh, safe⟩ := allowed
    have correct : w.Correct now scheduler maxDelay original pos item := by
      unfold Safe at safe
      split at safe
      case isTrue room => exact (correct_iff_of_room accounted room points fresh).mpr safe
      case isFalse full => exact (correct_iff_of_full accounted full points fresh).mpr safe
    obtain ⟨ok, x, eq, after, -⟩ := correct
    simp only [step, eq] at done
    cases done
    exact after
  | doDequeue now es => cases done; exact accounted.doDequeue allowed.1 allowed.2
  | doRemove now e => cases done; exact accounted.doRemove allowed
  | extractExpiredMpdus now queueId => cases done; exact accounted.extractExpiredMpdus queueId
  | wipeAllExpiredMpdus now => cases done; exact accounted.wipe allowed
  | setStatus queueId status => cases done; exact accounted.setStatus queueId status

/-- **Runs** keep the accounts, so that every state of a run is one that `insert` is about. -/
theorem run_accounted {maxDelay : Time} {operations : List Operation} {out : List Bool}
    (accounted : w.Accounted original)
    (allowed : Machine.Meets (step maxDelay) (Allowed maxDelay) w operations)
    (run : Machine.run (step maxDelay) w operations = some (w', out)) :
    w'.Accounted original := by
  induction allowed generalizing out with
  | nil =>
    cases run
    exact accounted
  | cons here later ih =>
    obtain ⟨x, first, rest, done, run, -⟩ := Machine.run_cons run
    exact ih x first done (step_accounted accounted here done) run

/-- A data frame to a station. -/
def dataFrame (id : Nat) : WifiMpdu := ⟨id, .data, 2, 4, 0, false, 1500⟩

/-- The default policy. -/
def dropNewest : Scheduler := ⟨.dropNewest, []⟩

/-- The first frame of a new queue joins it. -/
theorem first_frame_correct : (empty 1).Correct 0 dropNewest 500000000 1 none (dataFrame 1) := by
  have accounted : (empty 1).Accounted 1 := empty_accounted rfl (by decide)
  apply (insert_correct_iff 0 dropNewest 500000000 1 (empty 1) none (dataFrame 1) accounted rfl
    nofun).mpr
  unfold Safe
  rw [if_pos (by decide)]
  exact ⟨fun ctl => absurd ctl (by decide), .inl rfl⟩

def firstFrame : List Operation :=
  [.insert 0 dropNewest none (dataFrame 1), .extractExpiredMpdus 9 (dataFrame 1).getQueueId]

theorem first_frame_accounted : ∃ w,
    Machine.run (step 500000000) (empty 1) firstFrame = some (w, [true]) ∧ w.Accounted 1 := by
  have safe : (empty 1).Safe 0 dropNewest 500000000 none (dataFrame 1) := by
    unfold Safe
    rw [if_pos (by decide)]
    exact ⟨fun ctl => absurd ctl (by decide), .inl rfl⟩
  have done : Machine.run (step 500000000) (empty 1) firstFrame = some (_, [true]) := rfl
  refine ⟨_, done, run_accounted (empty_accounted rfl (by decide)) ?_ done⟩
  exact .cons ⟨rfl, fun _ mem => (not_mem_nil mem).elim, safe⟩ fun _ _ _ =>
    .cons trivial fun _ _ _ => .nil

/-- A queue for one packet is full. Before its packet, whose lifetime is over, another one is to be
inserted: the iterator that is taken is one to that packet, which the wipe removes. -/
theorem stale_position_dangles :
    ∃ w, (empty 1).insert 0 dropNewest 500000000 none (dataFrame 1) = some (true, w) ∧
      w.Accounted 1 ∧ pointsInto (some 1) (w.queues (dataFrame 2).getQueueId) = true ∧
      (∀ x ∈ w.queues (dataFrame 2).getQueueId, x.mpdu.id ≠ (dataFrame 2).id) ∧
      w.insert 500000000 dropNewest 500000000 (some 1) (dataFrame 2) = none ∧
      ¬ w.Correct 500000000 dropNewest 500000000 1 (some 1) (dataFrame 2) := by
  have accounted : (empty 1).Accounted 1 := empty_accounted rfl (by decide)
  have safe : (empty 1).Enlargeable (dataFrame 1) ∧
      (empty 1).Stays 0 500000000 .nothing none (dataFrame 1) :=
    ⟨fun ctl => absurd ctl (by decide), .inl rfl⟩
  obtain ⟨ok, w, eq, after, -⟩ := (@correct_iff_of_room 0 (empty 1) dropNewest 500000000 1 none
    (dataFrame 1) accounted (by decide) rfl nofun).mpr safe
  have done : (empty 1).insert 0 dropNewest 500000000 none (dataFrame 1) = some (true, _) := rfl
  obtain ⟨rfl, rfl⟩ := Prod.mk.inj (Option.some.inj (eq.symm.trans done))
  refine ⟨_, done, after, rfl, by decide, rfl, ?_⟩
  rintro ⟨ok, w', eq, -⟩
  cases eq

end WifiMacQueue

end Ns3.Wifi.MacQueue
