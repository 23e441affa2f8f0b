import Ns3.Library.KeyedQueues
import Ns3.Library.Machine
import Ns3.Time

/-!
# The request queue of AODV

Packets wait for a route. They leave when it is found, when it is not, when they are too old
or when the queue is full. `SendPacketFromQueue` runs turn by turn, so that a forwarding
callback may use the queue.
-/

namespace Ns3.Aodv

open Machine List

/-- An `Ipv4Address`. -/
abbrev Address := UInt32

/-- A `Ptr<Packet>` with the unique identifier of its packet. -/
structure Packet where
  ptr : Nat
  uid : Nat
  deriving DecidableEq

structure Ipv4Header where
  source : Address
  destination : Address
  ttl : UInt8
  deriving DecidableEq

/-- The callbacks are named by numbers. -/
structure QueueEntry where
  packet : Packet
  header : Ipv4Header
  ucb : Nat
  ecb : Nat
  expire : Time
  deriving DecidableEq

namespace QueueEntry

abbrev dst (entry : QueueEntry) : Address := entry.header.destination

/-- `GetExpireTime`. -/
def getExpireTime (entry : QueueEntry) (now : Time) : Time := entry.expire - now

/-- `IsExpired`. -/
def isExpired (now : Time) (entry : QueueEntry) : Bool := entry.getExpireTime now < 0

end QueueEntry

structure RequestQueue where
  queue : List QueueEntry
  maxLen : Nat
  queueTimeout : Time

namespace RequestQueue

variable (now : Time) (q : RequestQueue)

/-- `Purge`, with the entries whose error callbacks it calls. -/
def purge : RequestQueue × List QueueEntry :=
  ({ q with queue := q.queue.filter fun e => !e.isExpired now },
    q.queue.filter fun e => e.isExpired now)

/-- `Enqueue`, with the entry as it is accepted and the entries whose error callbacks are
called. None where it takes the front of an empty queue. -/
def enqueue (entry : QueueEntry) : Option (RequestQueue × List QueueEntry × Option QueueEntry) :=
  let (q, expired) := q.purge now
  if q.queue.any fun e => e.packet.uid == entry.packet.uid && e.dst == entry.dst then
    some (q, expired, none)
  else
    let entry := { entry with expire := q.queueTimeout + now }
    if q.queue.length = q.maxLen then
      match q.queue with
      | [] => none
      | aged :: rest =>
        some ({ q with queue := rest ++ [entry] }, expired ++ [aged], some entry)
    else some ({ q with queue := q.queue ++ [entry] }, expired, some entry)

/-- `DropPacketWithDst`, with the entries whose error callbacks it calls. -/
def dropPacketWithDst (dst : Address) : RequestQueue × List QueueEntry :=
  let (q, expired) := q.purge now
  ({ q with queue := q.queue.filter fun e => !decide (e.dst = dst) },
    expired ++ q.queue.filter fun e => e.dst = dst)

/-- `Dequeue`, with the entries whose error callbacks it calls. -/
def dequeue (dst : Address) : RequestQueue × List QueueEntry × Option QueueEntry :=
  let (q, expired) := q.purge now
  match q.queue.find? fun e => e.dst = dst with
  | none => (q, expired, none)
  | some entry => ({ q with queue := q.queue.eraseP fun e => e.dst = dst }, expired, some entry)

end RequestQueue

structure Route where
  source : Address
  outputInterface : Int
  deriving DecidableEq

/-- How an entry leaves: through its forwarding callback with a route and a header, through
its error callback, as the answer of `Dequeue`, or without a word. -/
inductive Exit where
  | forwarded (route : Route) (header : Ipv4Header)
  | error
  | returned
  | lost
  deriving DecidableEq

/-- The interface of a deferred output does not match that of the route. -/
def mismatch (tag : Option Int) (route : Route) : Bool :=
  match tag with
  | some oif => oif != -1 && oif != route.outputInterface
  | none => false

def told (entries : List QueueEntry) : List (QueueEntry × Exit) := entries.map fun e => (e, .error)

/-- A turn of the loop of `SendPacketFromQueue`, with the tags of the packets. The call goes on
after it or has returned. -/
def sendTurn (now : Time) (tag : Packet → Option Int) (dst : Address) (route : Route)
    (q : RequestQueue) : RequestQueue × List (QueueEntry × Exit) × Bool :=
  match q.dequeue now dst with
  | (q, expired, none) => (q, told expired, false)
  | (q, expired, some entry) =>
    if mismatch (tag entry.packet) route then (q, told expired ++ [(entry, .lost)], false)
    else
      (q, told expired ++ [(entry, .forwarded route
        { entry.header with source := route.source, ttl := entry.header.ttl + 1 })], true)

/-! ## A node -/

/-- The queue of a node and the calls of `SendPacketFromQueue` in progress, the innermost
first. It records what was accepted, how entries left, and for each call that has returned the
queue at that time. -/
structure Node where
  now : Time
  requests : RequestQueue
  calls : List (Address × Route)
  accepted : List QueueEntry
  exits : List (QueueEntry × Exit)
  ended : List (Address × List QueueEntry)

inductive Event where
  | wait (delay : Nat)
  | enqueue (entry : QueueEntry)
  | dequeue (dst : Address)
  | dropPacketWithDst (dst : Address)
  | purge
  | sendPacketFromQueue (dst : Address) (route : Route)
  | turn (tag : Packet → Option Int)

namespace Node

def new (maxLen : Nat) (queueTimeout now : Time) : Node :=
  ⟨now, ⟨[], maxLen, queueTimeout⟩, [], [], [], []⟩

/-- A node with another queue, after some entries have left. -/
def leave (w : Node) (q : RequestQueue) (out : List (QueueEntry × Exit)) : Node :=
  { w with requests := q, exits := w.exits ++ out }

def step (w : Node) : Event → Option Node
  | .wait delay => some { w with now := w.now + delay }
  | .enqueue entry =>
    match w.requests.enqueue w.now entry with
    | none => none
    | some (q, dropped, none) => some (w.leave q (told dropped))
    | some (q, dropped, some entry) =>
      some { w.leave q (told dropped) with accepted := w.accepted ++ [entry] }
  | .dequeue dst =>
    match w.requests.dequeue w.now dst with
    | (q, expired, none) => some (w.leave q (told expired))
    | (q, expired, some entry) => some (w.leave q (told expired ++ [(entry, .returned)]))
  | .dropPacketWithDst dst =>
    let (q, dropped) := w.requests.dropPacketWithDst w.now dst
    some (w.leave q (told dropped))
  | .purge =>
    let (q, expired) := w.requests.purge w.now
    some (w.leave q (told expired))
  | .sendPacketFromQueue dst route => some { w with calls := (dst, route) :: w.calls }
  | .turn tag =>
    match w.calls with
    | [] => some w
    | (dst, route) :: calls =>
      let (q, out, on) := sendTurn w.now tag dst route w.requests
      if on then some (w.leave q out)
      else some { w.leave q out with
        calls := calls, ended := w.ended ++ [(dst, q.queue)] }

/-- No room at all is no error, and the packet that is next for the destination of a call may
leave through the interface of its route. -/
def Fits (w : Node) : Event → Prop
  | .enqueue _ => w.requests.maxLen ≠ 0
  | .turn tag => ∀ call ∈ w.calls.head?, ∀ entry ∈ (w.requests.dequeue w.now call.1).2.2,
      mismatch (tag entry.packet) call.2 = false
  | _ => True

/-- What the queue promises: every accepted packet waits or has left once, through one of its
callbacks or as an answer; the queue is within its bound, the packets of one destination leave
in the order in which they were accepted, and a call leaves none for its destination. -/
structure Accounted (w : Node) : Prop where
  conserved : (w.exits.map Prod.fst ++ w.requests.queue).Perm w.accepted
  noticed : ∀ x ∈ w.exits, x.2 ≠ .lost
  bounded : w.requests.queue.length ≤ w.requests.maxLen
  ordered : ∀ dst, ofKey QueueEntry.dst dst (w.exits.map Prod.fst) ++
    ofKey QueueEntry.dst dst w.requests.queue = ofKey QueueEntry.dst dst w.accepted
  swept : ∀ call ∈ w.ended, ∀ e ∈ call.2, e.dst ≠ call.1

end Node

/-! ## What the operations take out -/

namespace RequestQueue

/-- Later entries expire later. -/
abbrev Sorted (queue : List QueueEntry) : Prop := queue.Pairwise fun a b => a.expire ≤ b.expire

/-- Some entries have left, those of each destination from its head. -/
structure Trims (q q' : RequestQueue) (gone : List QueueEntry) : Prop where
  leaves : Leaves QueueEntry.dst q.queue gone q'.queue
  fewer : q'.queue.Sublist q.queue
  maxLen : q'.maxLen = q.maxLen
  queueTimeout : q'.queueTimeout = q.queueTimeout

variable {now : Time} {q q' q'' : RequestQueue} {gone more : List QueueEntry}

theorem Trims.trans (first : Trims q q' gone) (second : Trims q' q'' more) :
    Trims q q'' (gone ++ more) where
  leaves := first.leaves.trans second.leaves
  fewer := second.fewer.trans first.fewer
  maxLen := second.maxLen.trans first.maxLen
  queueTimeout := second.queueTimeout.trans first.queueTimeout

theorem purge_trims (now : Time) (sorted : Sorted q.queue) :
    Trims q (q.purge now).1 (q.purge now).2 where
  leaves k := by
    have split := filter_below q.queue (fun e => e.isExpired now) (fun a b => a.expire ≤ b.expire)
      (fun a b before expired => by
        have negative : b.expire - now < 0 := of_decide_eq_true expired
        exact decide_eq_true (Int.lt_of_le_of_lt (Int.sub_le_sub_right before now) negative)) sorted
    exact (ofKey_append _ _).symm.trans (congrArg (ofKey QueueEntry.dst k) split)
  fewer := filter_sublist
  maxLen := rfl
  queueTimeout := rfl

theorem dropPacketWithDst_trims (dst : Address) (sorted : Sorted q.queue) :
    Trims q (q.dropPacketWithDst now dst).1 (q.dropPacketWithDst now dst).2 := by
  apply (purge_trims now sorted).trans
  exact ⟨Leaves.all QueueEntry.dst dst _, filter_sublist, rfl, rfl⟩

theorem dequeue_trims (now : Time) (dst : Address) (sorted : Sorted q.queue) :
    Trims q (q.dequeue now dst).1 ((q.dequeue now dst).2.1 ++ (q.dequeue now dst).2.2.toList) := by
  have purged := purge_trims now sorted
  unfold dequeue
  dsimp only
  split
  case h_1 => exact (append_nil _).symm ▸ purged
  case h_2 entry found =>
    exact purged.trans ⟨Leaves.first found, eraseP_sublist, rfl, rfl⟩

/-- Without an answer none is left for the destination. -/
theorem dequeue_none (now : Time) (q : RequestQueue) {dst : Address}
    (none : (q.dequeue now dst).2.2 = none) :
    ∀ e ∈ (q.dequeue now dst).1.queue, e.dst ≠ dst := by
  unfold dequeue at none ⊢
  dsimp only at none ⊢
  split at none
  case h_1 nobody =>
    simpa using find?_eq_none.mp nobody
  case h_2 => cases none

/-- An entry that is accepted comes last, after some have left. -/
theorem enqueue_spec {entry : QueueEntry} {dropped : List QueueEntry}
    {accepted : Option QueueEntry} (sorted : Sorted q.queue)
    (bounded : q.queue.length ≤ q.maxLen)
    (done : q.enqueue now entry = some (q', dropped, accepted)) :
    ∃ trimmed, Trims q trimmed dropped ∧
      q' = { trimmed with queue := trimmed.queue ++ accepted.toList } ∧
      (∀ e ∈ accepted, e.expire = q.queueTimeout + now) ∧ q'.queue.length ≤ q.maxLen := by
  have purged := purge_trims now sorted
  have fewer : (q.purge now).1.queue.length ≤ q.maxLen :=
    Nat.le_trans purged.fewer.length_le bounded
  unfold enqueue at done
  dsimp only at done
  split at done
  case isTrue =>
    cases done
    exact ⟨_, purged, by simp, nofun, fewer⟩
  case isFalse =>
    split at done
    case isTrue full =>
      split at done
      case h_1 => cases done
      case h_2 aged rest front =>
        cases done
        refine ⟨{ (q.purge now).1 with queue := rest }, purged.trans ⟨?_, ?_, rfl, rfl⟩, rfl,
          fun e mem => ?_, ?_⟩
        · exact front ▸ Leaves.append [aged] rest
        · exact front ▸ sublist_cons_self aged rest
        · cases mem
          rfl
        · rw [front] at fewer
          simpa using fewer
    case isFalse room =>
      cases done
      refine ⟨(q.purge now).1, purged, rfl, fun e mem => ?_, ?_⟩
      · cases mem
        rfl
      · have less : (q.purge now).1.queue.length ≠ q.maxLen := room
        simp only [length_append, length_singleton]
        omega

theorem enqueue_total (now : Time) (entry : QueueEntry) (room : q.maxLen ≠ 0) :
    q.enqueue now entry ≠ none := by
  unfold enqueue
  dsimp only
  split
  case isTrue => exact Option.some_ne_none _
  case isFalse =>
    split
    case isTrue full =>
      split
      case h_1 empty =>
        rw [empty] at full
        exact absurd full.symm room
      case h_2 => exact Option.some_ne_none _
    case isFalse => exact Option.some_ne_none _

end RequestQueue

/-! ## Runs -/

theorem map_told (entries : List QueueEntry) : (told entries).map Prod.fst = entries := by
  induction entries with
  | nil => rfl
  | cons e rest ih => exact congrArg (e :: ·) ih

theorem told_noticed (entries : List QueueEntry) : ∀ x ∈ told entries, x.2 ≠ .lost := by
  intro x mem
  obtain ⟨e, -, rfl⟩ := mem_map.mp mem
  exact Exit.noConfusion

/-! ## A turn -/

section

variable {now : Time} {tag : Packet → Option Int} {dst : Address} {route : Route}
  {q : RequestQueue}

theorem sendTurn_trims (sorted : RequestQueue.Sorted q.queue) :
    q.Trims (sendTurn now tag dst route q).1 ((sendTurn now tag dst route q).2.1.map Prod.fst) := by
  have trims := RequestQueue.dequeue_trims now dst sorted
  unfold sendTurn
  rcases eq : q.dequeue now dst with ⟨q', expired, _ | entry⟩
  · rw [eq] at trims
    simpa [map_told] using trims
  · rw [eq] at trims
    dsimp only
    split
    all_goals simpa [map_told] using trims

theorem sendTurn_noticed
    (fits : ∀ entry ∈ (q.dequeue now dst).2.2, mismatch (tag entry.packet) route = false) :
    ∀ x ∈ (sendTurn now tag dst route q).2.1, x.2 ≠ .lost := by
  unfold sendTurn
  rcases eq : q.dequeue now dst with ⟨q', expired, _ | entry⟩
  · exact told_noticed expired
  · have matches_ : mismatch (tag entry.packet) route = false := fits entry (by rw [eq]; rfl)
    simp only [matches_]
    intro x mem
    rcases mem_append.mp mem with mem | last
    · exact told_noticed expired x mem
    · rw [mem_singleton.mp last]
      exact Exit.noConfusion

theorem sendTurn_ended
    (fits : ∀ entry ∈ (q.dequeue now dst).2.2, mismatch (tag entry.packet) route = false)
    (ended : (sendTurn now tag dst route q).2.2 = false) :
    ∀ e ∈ (sendTurn now tag dst route q).1.queue, e.dst ≠ dst := by
  unfold sendTurn at ended ⊢
  rcases eq : q.dequeue now dst with ⟨q', expired, _ | entry⟩
  · have none_left := RequestQueue.dequeue_none now q (congrArg (fun answer => answer.2.2) eq)
    rw [eq] at none_left
    exact none_left
  · have matches_ : mismatch (tag entry.packet) route = false := fits entry (by rw [eq]; rfl)
    simp [eq, matches_] at ended

theorem sendTurn_lost (route : Route) {entry : QueueEntry} (found : entry ∈ (q.dequeue now dst).2.2)
    (other : mismatch (tag entry.packet) route = true) :
    (entry, Exit.lost) ∈ (sendTurn now tag dst route q).2.1 := by
  unfold sendTurn
  rcases eq : q.dequeue now dst with ⟨q', expired, _ | answer⟩
  · simp [eq] at found
  · obtain rfl : answer = entry := by simpa [eq] using found
    simp [other]

end

namespace Node

/-- What a node keeps as long as its steps fit. -/
structure Kept (w : Node) : Prop where
  ledger : Ledger QueueEntry.dst w.accepted (w.exits.map Prod.fst) w.requests.queue
  noticed : ∀ x ∈ w.exits, x.2 ≠ .lost
  bounded : w.requests.queue.length ≤ w.requests.maxLen
  swept : ∀ call ∈ w.ended, ∀ e ∈ call.2, e.dst ≠ call.1
  sorted : RequestQueue.Sorted w.requests.queue
  ahead : ∀ e ∈ w.requests.queue, e.expire ≤ w.requests.queueTimeout + w.now

variable {w w' : Node} {q : RequestQueue} {event : Event}

theorem Kept.accounted (kept : w.Kept) : w.Accounted where
  conserved := kept.ledger.perm
  noticed := kept.noticed
  bounded := kept.bounded
  ordered := kept.ledger
  swept := kept.swept

theorem new_kept (maxLen : Nat) (queueTimeout now : Time) : (new maxLen queueTimeout now).Kept where
  ledger := Ledger.start
  noticed := nofun
  bounded := Nat.zero_le _
  swept := nofun
  sorted := List.Pairwise.nil
  ahead := nofun

section

variable (kept : w.Kept)
include kept

/-- Entries leave, none of them without a word. -/
theorem Kept.leave {out : List (QueueEntry × Exit)}
    (trims : w.requests.Trims q (out.map Prod.fst)) (noticed : ∀ x ∈ out, x.2 ≠ .lost) :
    (w.leave q out).Kept where
  ledger := by
    unfold Node.leave
    rw [map_append]
    exact kept.ledger.leave trims.leaves
  noticed x mem := (mem_append.mp mem).elim (kept.noticed x) (noticed x)
  bounded := trims.maxLen ▸ Nat.le_trans trims.fewer.length_le kept.bounded
  swept := kept.swept
  sorted := kept.sorted.sublist trims.fewer
  ahead e mem := trims.queueTimeout ▸ kept.ahead e (trims.fewer.mem mem)

/-- Entries leave through their error callbacks. -/
theorem Kept.drop {dropped : List QueueEntry} (trims : w.requests.Trims q dropped) :
    (w.leave q (told dropped)).Kept :=
  kept.leave ((map_told dropped).symm ▸ trims) (told_noticed dropped)

theorem Kept.accept (entry : QueueEntry) (last : entry.expire = w.requests.queueTimeout + w.now)
    (room : w.requests.queue.length < w.requests.maxLen) :
    Kept { w with
      requests := { w.requests with queue := w.requests.queue ++ [entry] },
      accepted := w.accepted ++ [entry] } where
  ledger := kept.ledger.accept entry
  noticed := kept.noticed
  bounded := by
    simp only [length_append, length_singleton]
    omega
  swept := kept.swept
  sorted := by
    refine pairwise_append.mpr ⟨kept.sorted, pairwise_singleton _ _, ?_⟩
    intro a mem b new
    rw [mem_singleton.mp new, last]
    exact kept.ahead a mem
  ahead e mem := by
    rcases mem_append.mp mem with mem | new
    · exact kept.ahead e mem
    · obtain rfl := mem_singleton.mp new
      exact show e.expire ≤ w.requests.queueTimeout + w.now from Int.le_of_eq last

theorem Kept.enqueue {entry : QueueEntry} {dropped : List QueueEntry}
    {accepted : Option QueueEntry}
    (done : w.requests.enqueue w.now entry = some (q, dropped, accepted)) :
    Kept { w.leave q (told dropped) with accepted := w.accepted ++ accepted.toList } := by
  obtain ⟨trimmed, trims, rfl, last, bounded⟩ :=
    RequestQueue.enqueue_spec kept.sorted kept.bounded done
  have dropped := kept.drop trims
  cases accepted with
  | none => simpa [Node.leave] using dropped
  | some entry =>
    refine dropped.accept entry ?_ ?_
    · exact trims.queueTimeout ▸ last entry rfl
    · have less : (trimmed.queue ++ [entry]).length ≤ w.requests.maxLen := bounded
      rw [length_append, length_singleton] at less
      exact trims.maxLen ▸ less

/-- A call returns when no packet is left for its destination. -/
theorem Kept.ends {calls : List (Address × Route)} {dst : Address}
    (none : ∀ e ∈ w.requests.queue, e.dst ≠ dst) :
    Kept { w with calls := calls, ended := w.ended ++ [(dst, w.requests.queue)] } :=
  { kept with
    swept := fun call mem => by
      rcases mem_append.mp mem with before | now
      · exact kept.swept call before
      · obtain rfl := mem_singleton.mp now
        exact none }

theorem Kept.turn {tag : Packet → Option Int} (fits : w.Fits (.turn tag))
    (done : w.step (.turn tag) = some w') : w'.Kept := by
  unfold Node.step at done
  cases calls : w.calls with
  | nil =>
    simp only [calls, Option.some.injEq] at done
    exact done ▸ kept
  | cons call rest =>
    obtain ⟨dst, route⟩ := call
    have fits := fits (dst, route) (by simp [calls])
    have left := kept.leave (sendTurn_trims kept.sorted) (sendTurn_noticed fits)
    simp only [calls] at done
    split at done
    case isTrue =>
      cases done
      exact left
    case isFalse ended =>
      cases done
      exact left.ends (sendTurn_ended fits (Bool.eq_false_iff.mpr ended))

theorem Kept.step (fits : w.Fits event) (done : w.step event = some w') : w'.Kept := by
  cases event with
  | wait delay =>
    cases done
    exact { kept with
      ahead := fun e mem => Int.le_trans (kept.ahead e mem)
        (Int.add_le_add_left (Int.le_add_of_nonneg_right (Int.natCast_nonneg delay)) _) }
  | enqueue entry =>
    unfold Node.step at done
    dsimp only at done
    split at done
    case h_1 => cases done
    case h_2 q dropped refused =>
      cases done
      simpa [Node.leave] using kept.enqueue refused
    case h_3 q dropped entry accepted =>
      cases done
      exact kept.enqueue accepted
  | dequeue dst =>
    have trims := RequestQueue.dequeue_trims w.now dst kept.sorted
    unfold Node.step at done
    dsimp only at done
    split at done
    case h_1 q expired eq =>
      cases done
      rw [eq] at trims
      exact kept.drop (by simpa using trims)
    case h_2 q expired entry eq =>
      cases done
      rw [eq] at trims
      refine kept.leave (by simpa [map_told] using trims) fun x mem => ?_
      rcases mem_append.mp mem with mem | last
      · exact told_noticed expired x mem
      · rw [mem_singleton.mp last]
        exact Exit.noConfusion
  | dropPacketWithDst dst =>
    cases done
    exact kept.drop (RequestQueue.dropPacketWithDst_trims dst kept.sorted)
  | purge =>
    cases done
    exact kept.drop (RequestQueue.purge_trims w.now kept.sorted)
  | sendPacketFromQueue dst route =>
    cases done
    exact { kept with }
  | turn tag => exact kept.turn fits done

end

theorem dequeue_fewer (now : Time) (dst : Address) (q : RequestQueue) :
    (q.dequeue now dst).1.queue.Sublist q.queue ∧ ∀ entry ∈ (q.dequeue now dst).2.2,
      entry ∈ q.queue ∧ (q.dequeue now dst).1.queue.length < q.queue.length := by
  have purged : (q.purge now).1.queue.Sublist q.queue := filter_sublist
  unfold RequestQueue.dequeue
  cases found : (q.purge now).1.queue.find? fun e => e.dst = dst with
  | none => simpa [found] using purged
  | some entry =>
    have mem := mem_of_find?_eq_some found
    have here := find?_some found
    have taken : ((q.purge now).1.queue.eraseP fun e => e.dst = dst).length + 1 =
        (q.purge now).1.queue.length := length_eraseP_add_one mem here
    simp only [found, Option.mem_some_iff, forall_eq']
    exact ⟨eraseP_sublist.trans purged, purged.subset mem, taken.trans_le purged.length_le⟩

theorem sendTurn_queue (now : Time) (tag : Packet → Option Int) (dst : Address) (route : Route) :
    (sendTurn now tag dst route q).1 = (q.dequeue now dst).1 ∧
      ((sendTurn now tag dst route q).2.2 = true → ∃ entry, entry ∈ (q.dequeue now dst).2.2) := by
  unfold sendTurn
  rcases q.dequeue now dst with ⟨q', expired, _ | entry⟩
  · exact ⟨rfl, fun on => by cases on⟩
  · dsimp only
    split <;> exact ⟨rfl, fun _ => ⟨entry, rfl⟩⟩

/-- **A call returns** when nothing comes between its turns. If the packets may leave through the
interface of its route, none is left for its destination. -/
theorem call_returns (tag : Packet → Option Int) {dst : Address} {route : Route}
    {rest : List (Address × Route)} (calls : w.calls = (dst, route) :: rest) :
    ∃ w', Reaches step (fun _ event => event = .turn tag) (· = w) w' ∧ w'.calls = rest ∧
      ((∀ e ∈ w.requests.queue, mismatch (tag e.packet) route = false) →
        ∀ e ∈ w'.requests.queue, e.dst ≠ dst) := by
  suffices later : ∀ n v, v.requests.queue.length = n → v.calls = (dst, route) :: rest →
      v.requests.queue.Sublist w.requests.queue →
      Reaches step (fun _ event => event = .turn tag) (· = w) v →
      ∃ w', Reaches step (fun _ event => event = .turn tag) (· = w) w' ∧ w'.calls = rest ∧
        ((∀ e ∈ w.requests.queue, mismatch (tag e.packet) route = false) →
          ∀ e ∈ w'.requests.queue, e.dst ≠ dst) from
    later _ w rfl calls (.refl _) (.start rfl)
  intro n
  induction n using Nat.strongRecOn with
  | ind n ih =>
    intro v length calls fewer reached
    obtain ⟨left, taken⟩ := dequeue_fewer v.now dst v.requests
    obtain ⟨same, answered⟩ := sendTurn_queue (q := v.requests) v.now tag dst route
    cases on : (sendTurn v.now tag dst route v.requests).2.2 with
    | true =>
      have next : v.step (.turn tag) = some (v.leave (sendTurn v.now tag dst route v.requests).1
          (sendTurn v.now tag dst route v.requests).2.1) := by simp [step, calls, on]
      obtain ⟨entry, found⟩ := answered on
      rw [same] at next
      exact ih _ (length ▸ (taken entry found).2) (v.leave _ _) rfl calls (left.trans fewer)
        (reached.next rfl next)
    | false =>
      refine ⟨_, reached.next rfl (by simp only [step, calls, on]; rfl), rfl, fun matching => ?_⟩
      exact sendTurn_ended
        (fun entry found => matching entry (fewer.subset (taken entry found).1)) on

theorem step_total (fits : w.Fits event) : ∃ w', w.step event = some w' := by
  cases event with
  | enqueue entry =>
    have total := RequestQueue.enqueue_total w.now entry fits
    unfold step
    dsimp only
    split
    case h_1 none => exact absurd none total
    case h_2 => exact ⟨_, rfl⟩
    case h_3 => exact ⟨_, rfl⟩
  | dequeue dst =>
    unfold step
    dsimp only
    split
    all_goals exact ⟨_, rfl⟩
  | turn tag =>
    unfold step
    dsimp only
    split
    case h_1 => exact ⟨_, rfl⟩
    case h_2 =>
      split
      all_goals exact ⟨_, rfl⟩
  | _ => exact ⟨_, rfl⟩

/-- A step that does not fit takes the front of an empty queue, or a packet is lost. -/
theorem fits_of_accounted (kept : w.Kept) (done : w.step event = some w')
    (accounted : w'.Accounted) : w.Fits event := by
  cases event with
  | enqueue entry =>
    intro none
    have empty : w.requests.queue = [] :=
      length_eq_zero_iff.mp (Nat.le_zero.mp (none ▸ kept.bounded))
    simp [step, RequestQueue.enqueue, RequestQueue.purge, empty, none] at done
  | turn tag =>
    intro call top entry next
    cases calls : w.calls with
    | nil => simp [calls] at top
    | cons first rest =>
      obtain rfl : first = call := by simpa [calls] using top
      by_contra other
      have lost := sendTurn_lost first.2 next (by simpa using other)
      refine accounted.noticed (entry, .lost) ?_ rfl
      simp only [step, calls] at done
      split at done
      all_goals
        cases done
        exact mem_append_right _ lost
  | _ => exact trivial

/-- **Deferred packets are accounted for.** In every run whose steps fit, and there a step
keeps the account exactly when it fits. -/
theorem rqueue_accounted {maxLen : Nat} {queueTimeout now : Time} {w : Node}
    (reaches : Reaches step Fits (· = new maxLen queueTimeout now) w) :
    w.Accounted ∧ ∀ event, w.Fits event ↔ ∃ w', w.step event = some w' ∧ w'.Accounted := by
  have kept : w.Kept := reaches.invariant Kept
    (fun _ first => first ▸ new_kept maxLen queueTimeout now)
    (fun _ _ _ kept fits done => kept.step fits done)
  refine ⟨kept.accounted, fun event => ⟨fun fits => ?_, fun ⟨w', done, accounted⟩ =>
    fits_of_accounted kept done accounted⟩⟩
  obtain ⟨w', done⟩ := step_total fits
  exact ⟨w', done, (kept.step fits done).accounted⟩

/-! ## Two packets, the first for another interface -/

def packet (uid : Nat) : QueueEntry := ⟨⟨uid, uid⟩, ⟨1, 9, 64⟩, 0, 0, 0⟩

/-- The first packet asks for interface 1. -/
def asks (p : Packet) : Option Int := if p.uid = 1 then some 1 else none

def found : List Event :=
  [.enqueue (packet 1), .enqueue (packet 2), .sendPacketFromQueue 9 ⟨7, 2⟩, .turn asks]

theorem packet_lost : ∃ w, found.foldlM step (new 64 30 0) = some w ∧ w.calls = [] ∧
    ({ packet 1 with expire := 30 }, Exit.lost) ∈ w.exits ∧
    { packet 2 with expire := 30 } ∈ w.requests.queue ∧ ¬ w.Accounted := by
  refine ⟨_, rfl, rfl, by decide, by decide, fun accounted => ?_⟩
  exact accounted.noticed ({ packet 1 with expire := 30 }, .lost) (by decide) rfl

theorem packet_forwarded : ∃ w, [Event.enqueue (packet 2), .sendPacketFromQueue 9 ⟨7, 2⟩,
    .turn asks, .turn asks].foldlM step (new 64 30 0) = some w ∧ w.Accounted ∧ w.calls = [] := by
  have first : Reaches step Fits (· = new 64 30 0) (new 64 30 0) := .start rfl
  have enqueued := first.next (e := .enqueue (packet 2)) (by exact Nat.succ_ne_zero 63) rfl
  have called := enqueued.next (e := .sendPacketFromQueue 9 ⟨7, 2⟩) (by exact trivial) rfl
  have sent := called.next (e := .turn asks) (by
    rintro _ ⟨⟩ _ ⟨⟩
    rfl) rfl
  have ended := sent.next (e := .turn asks) (by
    rintro _ ⟨⟩ _ ⟨⟩) rfl
  exact ⟨_, rfl, (rqueue_accounted ended).1, rfl⟩

theorem call_returned : ∃ w', Reaches step (fun _ event => event = .turn asks)
      (· = { new 64 30 0 with requests := ⟨[packet 2], 64, 30⟩, calls := [(9, ⟨7, 2⟩)] }) w' ∧
      w'.calls = [] ∧ ∀ e ∈ w'.requests.queue, e.dst ≠ 9 := by
  obtain ⟨w', reached, returned, left⟩ := call_returns (w := { new 64 30 0 with
    requests := ⟨[packet 2], 64, 30⟩, calls := [(9, ⟨7, 2⟩)] }) asks rfl
  exact ⟨w', reached, returned, left (by decide)⟩

end Node

end Ns3.Aodv
