import Ns3.Core.HeapQueue

/-!
# `CalendarScheduler`

The buckets are lists that are kept sorted. Priorities and widths are `uint64_t`.
The size would wrap only with every `uint32_t` uid in use. `none` is a look into an
empty queue, or a failed `NS_ASSERT`.
-/

namespace Ns3.Core

structure CalendarScheduler where
  buckets : List (List Event)
  width : Nat
  lastBucket : Nat
  bucketTop : Nat
  lastPrio : Nat
  qSize : Nat
  reverse : Bool

namespace CalendarScheduler

/-- `Order`: whether the first event is placed before the second. -/
def order (reverse : Bool) (a b : Event) : Prop :=
  if reverse then b.key.Lt a.key else a.key.Lt b.key

instance (reverse : Bool) (a b : Event) : Decidable (order reverse a b) :=
  inferInstanceAs (Decidable (if reverse then _ else _))

/-- `NextEvent` -/
def nextEvent (reverse : Bool) (bucket : List Event) : Option Event :=
  if reverse then bucket.getLast? else bucket.head?

def pop (reverse : Bool) (bucket : List Event) : List Event :=
  if reverse then bucket.dropLast else bucket.tail

variable (s : CalendarScheduler)

def nBuckets : Nat := s.buckets.length

def hash (ts : Nat) : Nat := ts / s.width % s.nBuckets

def init (nBuckets width startPrio : Nat) : CalendarScheduler :=
  let s := { s with buckets := List.replicate nBuckets [], width, lastPrio := startPrio }
  { s with
    lastBucket := s.hash startPrio
    bucketTop := (startPrio / width + 1) * width % 2 ^ 64 }

def create (reverse : Bool) : CalendarScheduler :=
  init ⟨[], 0, 0, 0, 0, 0, reverse⟩ 2 1 0

def doInsert (ev : Event) : CalendarScheduler :=
  { s with
    buckets := s.buckets.modify (s.hash ev.key.ts) (List.orderedInsert (order s.reverse) ev) }

def isEmpty : Bool := s.qSize = 0

/-- Where the loops find the next event: before the top of its bucket, or as the least of the
first events. -/
inductive Found where
  | inBucket (i bucketTop : Nat) (next : Event)
  | direct (min : Option (Nat × Event))

/-- The loop over the buckets, from the bucket `i`. It comes back to the first one after as many
rounds as there are buckets. -/
def search (minKey : EventKey) : (rounds i bucketTop : Nat) → (min : Option (Nat × Event)) → Found
  | 0, _, _, min => .direct min
  | rounds + 1, i, bucketTop, min =>
    match nextEvent s.reverse (s.buckets.getD i []) with
    | some next =>
      if next.key.ts < bucketTop then .inBucket i bucketTop next
      else
        let least := (min.map fun m => m.2.key).getD minKey
        let min := if next.key.Lt least then some (i, next) else min
        search minKey rounds ((i + 1) % s.nBuckets) ((bucketTop + s.width) % 2 ^ 64) min
    | none => search minKey rounds ((i + 1) % s.nBuckets) ((bucketTop + s.width) % 2 ^ 64) min

def peekNext : Option Event :=
  match s.search ⟨2 ^ 64 - 1, 2 ^ 32 - 1, 0⟩ s.nBuckets s.lastBucket s.bucketTop none with
  | .inBucket _ _ next => some next
  | .direct min => min.map Prod.snd

def doRemoveNext : Option (Event × CalendarScheduler) :=
  match s.search ⟨2 ^ 64 - 1, 0, 2 ^ 32 - 1⟩ s.nBuckets s.lastBucket s.bucketTop none with
  | .inBucket i bucketTop next =>
    some (next, { s with
      lastBucket := i, lastPrio := next.key.ts, bucketTop
      buckets := s.buckets.modify i (pop s.reverse) })
  | .direct (some (minBucket, min)) => do
    let next ← nextEvent s.reverse (s.buckets.getD minBucket [])
    return (next, { s with
      lastPrio := min.key.ts
      lastBucket := s.hash min.key.ts
      bucketTop := (min.key.ts / s.width + 1) * s.width % 2 ^ 64
      buckets := s.buckets.modify minBucket (pop s.reverse) })
  | .direct none => none

/-! ## Resizing -/

/-- The first events, and what is left. -/
def gather : (nSamples : Nat) → CalendarScheduler → Option (List Event × CalendarScheduler)
  | 0, s => some ([], s)
  | nSamples + 1, s => do
    let (ev, s) ← s.doRemoveNext
    let (samples, s) ← gather nSamples s
    return (ev :: samples, s)

/-- The differences of the timestamps of neighbours. -/
def separations (samples : List Event) : List Nat :=
  List.zipWith (fun cur next => (next.key.ts + 2 ^ 64 - cur.key.ts) % 2 ^ 64) samples samples.tail

/-- The width that the separations give. -/
def widthOf (nSamples : Nat) (separations : List Nat) : Nat :=
  let total := separations.foldl (fun total diff => (total + diff) % 2 ^ 64) 0
  let twiceAvg := total / (nSamples - 1) * 2 % 2 ^ 64
  let near := separations.foldl
    (fun total diff => if diff ≤ twiceAvg then (total + diff) % 2 ^ 64 else total) 0
  max (near * 3 % 2 ^ 64) 1

/-- `CalculateNewWidth`, with the samples removed and put back. -/
def calculateNewWidth : Option (Nat × CalendarScheduler) := do
  if s.qSize < 2 then return (1, s)
  let nSamples := min (if s.qSize ≤ 5 then s.qSize else 5 + s.qSize / 10) 25
  let (samples, left) ← gather nSamples s
  let back := samples.foldl doInsert left
  let restored := { back with
    lastBucket := s.lastBucket, bucketTop := s.bucketTop, lastPrio := s.lastPrio }
  return (widthOf nSamples (separations samples), restored)

def doResize (newSize newWidth : Nat) : CalendarScheduler :=
  s.buckets.flatten.foldl doInsert (s.init newSize newWidth s.lastPrio)

def resize (newSize : Nat) : Option CalendarScheduler := do
  let (newWidth, s) ← s.calculateNewWidth
  return s.doResize newSize newWidth

def resizeUp : Option CalendarScheduler :=
  if s.nBuckets * 2 < s.qSize ∧ s.nBuckets < 32768 then s.resize (s.nBuckets * 2) else some s

def resizeDown : Option CalendarScheduler :=
  if s.qSize < s.nBuckets / 2 then s.resize (s.nBuckets / 2) else some s

/-! ## The queue -/

def insert (ev : Event) : Option CalendarScheduler :=
  let s := s.doInsert ev
  resizeUp { s with qSize := s.qSize + 1 }

def removeNext : Option (Event × CalendarScheduler) := do
  let (ev, s) ← s.doRemoveNext
  let s ← resizeDown { s with qSize := s.qSize - 1 }
  return (ev, s)

def remove (ev : Event) : Option CalendarScheduler :=
  let bucket := s.hash ev.key.ts
  if (s.buckets.getD bucket []).any fun e => e.key.uid = ev.key.uid then
    resizeDown { s with
      buckets := s.buckets.modify bucket fun events =>
        events.eraseP fun e => e.key.uid = ev.key.uid
      qSize := s.qSize - 1 }
  else none

open HeapScheduler (HeapEvent)

def step (s : CalendarScheduler) : HeapEvent → Option (CalendarScheduler × List Event)
  | .insert ev => do return (← s.insert ev, [])
  | .peekNext => do return (s, [← s.peekNext])
  | .removeNext => do
    let (next, s) ← s.removeNext
    return (s, [next])
  | .remove ev => do return (← s.remove ev, [])

/-! ## The events that are stored -/

/-- A queue of events with different uids, and the time of the last event that was taken. No event
is inserted before it. -/
structure Queue where
  stored : List Event
  last : Nat
  deriving DecidableEq

def queueStep (q : Queue) : HeapEvent → Option (Queue × List Event)
  | .insert ev =>
    if ev.key.uid ∉ q.stored.map (·.key.uid) ∧ q.last ≤ ev.key.ts ∧ ev.key.ts < 2 ^ 63 then
      some ({ q with stored := ev :: q.stored }, [])
    else none
  | .peekNext => do return (q, [← HeapScheduler.first q.stored])
  | .removeNext => do
    let next ← HeapScheduler.first q.stored
    return (⟨q.stored.erase next, next.key.ts⟩, [next])
  | .remove ev => if ev ∈ q.stored then some ({ q with stored := q.stored.erase ev }, []) else none

end CalendarScheduler

end Ns3.Core

/-!
## The calendar as a queue

The search starts at the day of the last event that was taken. Each bucket on
the way has nothing of an earlier day, so the first event that is before the
top of its bucket is the next one.
-/

namespace Ns3.Core.CalendarScheduler

open List Nat

open HeapScheduler (before_weakOrder)

/-! ## Buckets -/

def Sorted (reverse : Bool) (bucket : List Event) : Prop :=
  bucket.Pairwise fun a b => ¬ order reverse b a

variable {reverse : Bool} {bucket : List Event} {next ev : Event} {i : Nat}
  {min : Option (Nat × Event)}

theorem order_trans {a b c : Event} (first : order reverse a b) (next : order reverse b c) :
    order reverse a c := by
  cases reverse with
  | false => exact first.trans next
  | true => exact next.trans first

theorem order_irrefl (reverse : Bool) (a : Event) : ¬ order reverse a a := by
  cases reverse <;> exact EventKey.lt_irrefl _

theorem orderedInsert_sorted (sorted : Sorted reverse bucket) (ev : Event) :
    Sorted reverse (bucket.orderedInsert (order reverse) ev) := by
  induction bucket with
  | nil => exact pairwise_singleton _ _
  | cons e rest ih =>
    obtain ⟨first, others⟩ := pairwise_cons.mp sorted
    rw [orderedInsert_cons]
    split
    case isTrue before =>
      apply pairwise_cons.mpr
      refine ⟨?_, sorted⟩
      intro x mem back
      cases mem_cons.mp mem with
      | inl is =>
        rw [is] at back
        exact order_irrefl _ _ (order_trans before back)
      | inr later => exact first x later (order_trans back before)
    case isFalse not_before =>
      apply pairwise_cons.mpr
      refine ⟨?_, ih others⟩
      intro x mem
      cases mem_orderedInsert _ |>.mp mem with
      | inl is =>
        rw [is]
        exact not_before
      | inr later => exact first x later

theorem nextEvent_spec (sorted : Sorted reverse bucket)
    (is : nextEvent reverse bucket = some next) :
    bucket.Perm (next :: pop reverse bucket) ∧ Sorted reverse (pop reverse bucket) ∧
      ∀ ev ∈ bucket, ¬ ev.key.Lt next.key := by
  cases reverse with
  | false =>
    cases bucket with
    | nil => cases is
    | cons e rest =>
      cases is
      obtain ⟨first, others⟩ := pairwise_cons.mp sorted
      refine ⟨.refl _, others, ?_⟩
      intro ev mem
      cases mem_cons.mp mem with
      | inl same =>
        rw [same]
        exact EventKey.lt_irrefl _
      | inr later => exact first ev later
  | true =>
    obtain ⟨rest, rfl⟩ : ∃ rest, bucket = rest ++ [next] := getLast?_eq_some_iff.mp is
    have popped : pop true (rest ++ [next]) = rest := dropLast_concat
    obtain ⟨others, -, last⟩ := pairwise_append.mp sorted
    rw [popped]
    refine ⟨perm_append_comm, others, ?_⟩
    intro ev mem
    cases mem_append.mp mem with
    | inl before => exact last ev before next (mem_singleton_self _)
    | inr same =>
      rw [mem_singleton.mp same]
      exact EventKey.lt_irrefl _

theorem nextEvent_eq_none (is : nextEvent reverse bucket = none) : bucket = [] := by
  cases reverse with
  | false => exact head?_eq_none_iff.mp is
  | true => exact getLast?_eq_none_iff.mp is

/-- Which events are stored, and in which bucket. -/
def contents (s : CalendarScheduler) : List Event := s.buckets.flatten

structure Filed (s : CalendarScheduler) : Prop where
  width : 0 < s.width ∧ s.width < 2 ^ 64
  nBuckets : 0 < s.nBuckets
  sorted : ∀ i, Sorted s.reverse (s.buckets.getD i [])
  hashed : ∀ i, ∀ ev ∈ s.buckets.getD i [], s.hash ev.key.ts = i

/-- Where the search starts: no event is before the last one that was taken. -/
structure Cursor (s : CalendarScheduler) : Prop where
  later : ∀ ev ∈ s.contents, s.lastPrio ≤ ev.key.ts ∧ ev.key.ts < 2 ^ 63
  lastPrio : s.lastPrio < 2 ^ 63
  lastBucket : s.lastBucket = s.hash s.lastPrio
  bucketTop : s.bucketTop = (s.lastPrio / s.width + 1) * s.width

variable {s : CalendarScheduler}

theorem Filed.hash_lt (filed : Filed s) (ts : Nat) : s.hash ts < s.nBuckets :=
  mod_lt _ filed.nBuckets

theorem mem_contents_of_bucket (mem : ev ∈ s.buckets.getD i []) : ev ∈ s.contents := by
  rw [getD_eq_getElem?_getD] at mem
  cases found : s.buckets[i]? with
  | none =>
    rw [found] at mem
    cases mem
  | some bucket =>
    rw [found] at mem
    exact mem_flatten_of_mem (mem_of_getElem? found) mem

theorem Filed.mem_bucket (filed : Filed s) (mem : ev ∈ s.contents) :
    ev ∈ s.buckets.getD (s.hash ev.key.ts) [] := by
  obtain ⟨bucket, held, mem⟩ := mem_flatten.mp mem
  obtain ⟨i, found⟩ := mem_iff_getElem?.mp held
  have mem : ev ∈ s.buckets.getD i [] := by
    rw [getD_eq_getElem?_getD, found]
    exact mem
  rw [filed.hashed i ev mem]
  exact mem

theorem top_lt {ts width : Nat} (small : ts < 2 ^ 63) (fits : width < 2 ^ 64) :
    (ts / width + 1) * width < 2 ^ 64 := by
  by_cases wide : width ≤ 2 ^ 63
  · have := div_mul_le_self ts width
    rw [Nat.add_mul, Nat.one_mul]
    omega
  · rw [div_eq_of_lt (by omega)]
    omega

/-! ## The search -/

/-- The least of the first events in the buckets that were seen. -/
def Least (s : CalendarScheduler) (seen : Nat) : Option (Nat × Event) → Prop
  | none => ∀ j < seen, s.buckets.getD ((s.lastBucket + j) % s.nBuckets) [] = []
  | some (i, min) => nextEvent s.reverse (s.buckets.getD i []) = some min ∧
      ∀ j < seen, ∀ ev ∈ s.buckets.getD ((s.lastBucket + j) % s.nBuckets) [], ¬ ev.key.Lt min.key

def FoundValid (s : CalendarScheduler) : Found → Prop
  | .inBucket i bucketTop next => nextEvent s.reverse (s.buckets.getD i []) = some next ∧
      i = s.hash next.key.ts ∧ bucketTop = (next.key.ts / s.width + 1) * s.width ∧
      ∀ ev ∈ s.contents, ¬ ev.key.Lt next.key
  | .direct (some (i, min)) => nextEvent s.reverse (s.buckets.getD i []) = some min ∧
      ∀ ev ∈ s.contents, ¬ ev.key.Lt min.key
  | .direct none => s.contents = []

/-- Every bucket is seen in as many rounds as there are buckets. -/
theorem exists_round {n start : Nat} (inside : start < n) (lt : i < n) :
    ∃ j < n, (start + j) % n = i := by
  by_cases after : start ≤ i
  · exact ⟨i - start, by omega, by rw [Nat.add_sub_cancel' after, mod_eq_of_lt lt]⟩
  · refine ⟨i + n - start, by omega, ?_⟩
    rw [Nat.add_sub_cancel' (by omega), add_mod_right, mod_eq_of_lt lt]

theorem not_lt_of_day {width day : Nat} (width_pos : 0 < width)
    (before : next.key.ts < (day + 1) * width) (ev_day : day ≤ ev.key.ts / width)
    (other : ev.key.ts / width ≠ day) : ¬ ev.key.Lt next.key := by
  have late : (day + 1) * width ≤ ev.key.ts := by
    rw [← Nat.le_div_iff_mul_le width_pos]
    omega
  unfold EventKey.Lt
  omega

section Search

variable (filed : Filed s) (cursor : Cursor s) {k i bucketTop : Nat} {next : Event}
  (at_bucket : i = (s.lastBucket + k) % s.nBuckets)
  (at_top : bucketTop = (s.lastPrio / s.width + k + 1) * s.width % 2 ^ 64)
  (days : ∀ ev ∈ s.contents, s.lastPrio / s.width + k ≤ ev.key.ts / s.width)
include filed cursor at_bucket

theorem mem_of_day {ev : Event} (mem : ev ∈ s.contents)
    (day : ev.key.ts / s.width = s.lastPrio / s.width + k) : ev ∈ s.buckets.getD i [] := by
  have hashed := filed.mem_bucket mem
  have same : s.hash ev.key.ts = i := by
    rw [at_bucket, cursor.lastBucket]
    unfold hash
    simp [day]
  rw [same] at hashed
  exact hashed

include at_top days

theorem before_top (is : nextEvent s.reverse (s.buckets.getD i []) = some next)
    (before : next.key.ts < bucketTop) : FoundValid s (.inBucket i bucketTop next) := by
  obtain ⟨perm, -, least⟩ := nextEvent_spec (filed.sorted i) is
  have mem : next ∈ s.buckets.getD i [] := perm.mem_iff.mpr mem_cons_self
  have stored := mem_contents_of_bucket mem
  have below : next.key.ts < (s.lastPrio / s.width + k + 1) * s.width := by
    rw [at_top] at before
    omega
  have day : next.key.ts / s.width = s.lastPrio / s.width + k := by
    have := (Nat.div_lt_iff_lt_mul filed.width.1).mpr below
    have := days next stored
    omega
  have top : bucketTop = (next.key.ts / s.width + 1) * s.width := by
    have fits := top_lt (cursor.later next stored).2 filed.width.2
    rw [at_top, ← day, mod_eq_of_lt fits]
  refine ⟨is, (filed.hashed i next mem).symm, top, ?_⟩
  intro ev held
  by_cases same : ev.key.ts / s.width = s.lastPrio / s.width + k
  · exact least ev (mem_of_day filed cursor at_bucket held same)
  · exact not_lt_of_day filed.width.1 below (days ev held) same

/-- A bucket whose first event is not before the top has nothing of the day. -/
theorem after_top (is : nextEvent s.reverse (s.buckets.getD i []) = some next)
    (after : ¬ next.key.ts < bucketTop) :
    ∀ ev ∈ s.contents, s.lastPrio / s.width + (k + 1) ≤ ev.key.ts / s.width := by
  obtain ⟨perm, -, least⟩ := nextEvent_spec (filed.sorted i) is
  have stored := mem_contents_of_bucket (perm.mem_iff.mpr mem_cons_self)
  have later : s.lastPrio / s.width + k ≠ next.key.ts / s.width := by
    intro day
    have fits := top_lt (cursor.later next stored).2 filed.width.2
    rw [at_top, day, mod_eq_of_lt fits] at after
    have before : next.key.ts < (next.key.ts / s.width + 1) * s.width :=
      (Nat.div_lt_iff_lt_mul filed.width.1).mp (lt_succ_self _)
    exact after before
  intro ev held
  have from_day := days ev held
  have next_day := days next stored
  by_cases same : ev.key.ts / s.width = s.lastPrio / s.width + k
  · have not_before := least ev (mem_of_day filed cursor at_bucket held same)
    have : next.key.ts ≤ ev.key.ts := by
      unfold EventKey.Lt at not_before
      omega
    have := Nat.div_le_div_right (c := s.width) this
    omega
  · omega

omit at_top in
theorem empty_day (is : nextEvent s.reverse (s.buckets.getD i []) = none) :
    ∀ ev ∈ s.contents, s.lastPrio / s.width + (k + 1) ≤ ev.key.ts / s.width := by
  intro ev held
  have from_day := days ev held
  by_cases same : ev.key.ts / s.width = s.lastPrio / s.width + k
  · have mem := mem_of_day filed cursor at_bucket held same
    rw [nextEvent_eq_none is] at mem
    cases mem
  · omega

end Search

theorem Least.skip {seen : Nat} (least : Least s seen min)
    (at_bucket : i = (s.lastBucket + seen) % s.nBuckets)
    (not_less : ∀ ev ∈ s.buckets.getD i [], ∀ m ∈ min, ¬ ev.key.Lt m.2.key)
    (empty : min = none → s.buckets.getD i [] = []) : Least s (seen + 1) min := by
  cases min with
  | none =>
    intro j before
    by_cases last : j = seen
    · rw [last, ← at_bucket]
      exact empty rfl
    · exact least j (by omega)
  | some m =>
    refine ⟨least.1, ?_⟩
    intro j before ev mem
    by_cases last : j = seen
    · rw [last, ← at_bucket] at mem
      exact not_less ev mem m rfl
    · exact least.2 j (by omega) ev mem

/-- The first event of a bucket is less than those that were seen. -/
theorem Least.take {seen : Nat} (least : Least s seen min) (filed : Filed s)
    (at_bucket : i = (s.lastBucket + seen) % s.nBuckets)
    (is : nextEvent s.reverse (s.buckets.getD i []) = some next)
    (less : ∀ m ∈ min, next.key.Lt m.2.key) : Least s (seen + 1) (some (i, next)) := by
  refine ⟨is, ?_⟩
  intro j before ev mem
  by_cases last : j = seen
  · rw [last, ← at_bucket] at mem
    exact (nextEvent_spec (filed.sorted i) is).2.2 ev mem
  · cases min with
    | none =>
      rw [least j (by omega)] at mem
      cases mem
    | some m =>
      intro back
      exact least.2 j (by omega) ev mem (back.trans (less m rfl))

theorem Least.found (least : Least s s.nBuckets min) (filed : Filed s)
    (inside : s.lastBucket < s.nBuckets) : FoundValid s (.direct min) := by
  have seen : ∀ ev ∈ s.contents, ∃ j < s.nBuckets,
      ev ∈ s.buckets.getD ((s.lastBucket + j) % s.nBuckets) [] := by
    intro ev held
    obtain ⟨j, before, at_bucket⟩ := exists_round inside (filed.hash_lt ev.key.ts)
    refine ⟨j, before, ?_⟩
    rw [at_bucket]
    exact filed.mem_bucket held
  cases min with
  | none =>
    apply eq_nil_iff_forall_not_mem.mpr
    intro ev held
    obtain ⟨j, before, mem⟩ := seen ev held
    rw [least j before] at mem
    cases mem
  | some m =>
    refine ⟨least.1, ?_⟩
    intro ev held
    obtain ⟨j, before, mem⟩ := seen ev held
    exact least.2 j before ev mem

theorem search_valid (filed : Filed s) (cursor : Cursor s) {minKey : EventKey}
    (large : 2 ^ 63 ≤ minKey.ts) {rounds k bucketTop : Nat} (left : rounds + k = s.nBuckets)
    (at_bucket : i = (s.lastBucket + k) % s.nBuckets)
    (at_top : bucketTop = (s.lastPrio / s.width + k + 1) * s.width % 2 ^ 64)
    (days : ∀ ev ∈ s.contents, s.lastPrio / s.width + k ≤ ev.key.ts / s.width)
    (least : Least s k min) : FoundValid s (s.search minKey rounds i bucketTop min) := by
  induction rounds generalizing k i bucketTop min with
  | zero =>
    have all : k = s.nBuckets := by omega
    rw [all] at least
    apply least.found filed
    rw [cursor.lastBucket]
    exact filed.hash_lt _
  | succ rounds ih =>
    have left' : rounds + (k + 1) = s.nBuckets := by omega
    have at_bucket' : (i + 1) % s.nBuckets = (s.lastBucket + (k + 1)) % s.nBuckets := by
      simp [at_bucket, Nat.add_assoc]
    have at_top' : (bucketTop + s.width) % 2 ^ 64 =
        (s.lastPrio / s.width + (k + 1) + 1) * s.width % 2 ^ 64 := by
      rw [at_top, mod_add_mod, ← succ_mul]
      rfl
    unfold search
    cases is : nextEvent s.reverse (s.buckets.getD i []) with
    | none =>
      have empty := nextEvent_eq_none is
      apply ih left' at_bucket' at_top' (empty_day filed cursor at_bucket days is)
      apply least.skip at_bucket
      · rw [empty]
        exact nofun
      · exact fun _ => empty
    | some next =>
      dsimp only
      by_cases before : next.key.ts < bucketTop
      · rw [if_pos before]
        exact before_top filed cursor at_bucket at_top days is before
      · rw [if_neg before]
        apply ih left' at_bucket' at_top' (after_top filed cursor at_bucket at_top days is before)
        obtain ⟨perm, -, first⟩ := nextEvent_spec (filed.sorted i) is
        have stored := mem_contents_of_bucket (perm.mem_iff.mpr mem_cons_self)
        have small := (cursor.later next stored).2
        cases min with
        | none =>
          have less : next.key.Lt minKey := .inl (by omega)
          rw [Option.map_none, Option.getD_none, if_pos less]
          exact least.take filed at_bucket is nofun
        | some m =>
          rw [Option.map_some, Option.getD_some]
          by_cases less : next.key.Lt m.2.key
          · rw [if_pos less]
            apply least.take filed at_bucket is
            intro m' same
            cases same
            exact less
          · rw [if_neg less]
            apply least.skip at_bucket
            · intro ev mem m' same
              cases same
              exact before_weakOrder.not_trans _ _ _ (first ev mem) less
            · exact nofun

theorem search_start (filed : Filed s) (cursor : Cursor s) (minKey : EventKey)
    (large : 2 ^ 63 ≤ minKey.ts) :
    FoundValid s (s.search minKey s.nBuckets s.lastBucket s.bucketTop none) := by
  apply search_valid filed cursor large (k := 0) rfl
  · rw [cursor.lastBucket, Nat.add_zero, mod_eq_of_lt (filed.hash_lt _)]
  · rw [cursor.bucketTop, Nat.add_zero, mod_eq_of_lt (top_lt cursor.lastPrio filed.width.2)]
  · intro ev held
    exact Nat.div_le_div_right (cursor.later ev held).1
  · exact fun j before => absurd before (Nat.not_lt_zero j)

end Ns3.Core.CalendarScheduler
