import Ns3.Core.CalendarQueue
import Ns3.Core.ListScheduler

/-!
# Resizing the calendar

The samples are the next events. They are taken out and put back, then all
events are filed again under the new width.
-/

namespace Ns3.Core.CalendarScheduler

open List

variable {s s' : CalendarScheduler}

/-! ## One bucket changes -/

variable {xs : List (List Event)} {i : Nat} {f : List Event → List Event}

section

variable (inside : i < xs.length)
include inside

theorem getD_modify (f : List Event → List Event) (j : Nat) :
    (xs.modify i f).getD j [] = if i = j then f (xs.getD j []) else xs.getD j [] := by
  rw [getD_eq_getElem?_getD, getD_eq_getElem?_getD, getElem?_modify]
  by_cases same : i = j
  · rw [← same, getElem?_eq_getElem inside, if_pos rfl]
    simp
  · rw [if_neg same]
    cases xs[j]? <;> simp [same]

theorem flatten_modify (f : List Event → List Event) :
    ((xs.modify i f).flatten ++ xs.getD i []).Perm (xs.flatten ++ f (xs.getD i [])) := by
  induction xs generalizing i with
  | nil => cases inside
  | cons x xs ih =>
    rw [perm_iff_count]
    intro ev
    cases i with
    | zero =>
      simp only [modify_zero_cons, flatten_cons, count_append, getD_cons_zero]
      omega
    | succ i =>
      have rest := perm_iff_count.mp (ih (Nat.lt_of_succ_lt_succ inside)) ev
      simp only [modify_succ_cons, flatten_cons, count_append, getD_cons_succ] at rest ⊢
      omega

theorem flatten_modify_cons {ev : Event} (more : (f (xs.getD i [])).Perm (ev :: xs.getD i [])) :
    (xs.modify i f).flatten.Perm (ev :: xs.flatten) := by
  have moved := (flatten_modify inside f).trans (more.append_left _)
  rw [perm_iff_count] at moved ⊢
  intro other
  have := moved other
  simp only [count_append, count_cons] at this ⊢
  omega

theorem flatten_modify_less {ev : Event} (less : (xs.getD i []).Perm (ev :: f (xs.getD i []))) :
    xs.flatten.Perm (ev :: (xs.modify i f).flatten) := by
  have moved := (less.append_left _).symm.trans (flatten_modify inside f)
  rw [perm_iff_count] at moved ⊢
  intro other
  have := moved other
  simp only [count_append, count_cons] at this ⊢
  omega

end

theorem Filed.congr (filed : Filed s) (buckets : s'.buckets = s.buckets)
    (width : s'.width = s.width) (reverse : s'.reverse = s.reverse) : Filed s' := by
  have hash : ∀ ts, s'.hash ts = s.hash ts := by
    intro ts
    unfold CalendarScheduler.hash CalendarScheduler.nBuckets
    rw [buckets, width]
  constructor
  · rw [width]
    exact filed.width
  · unfold CalendarScheduler.nBuckets
    rw [buckets]
    exact filed.nBuckets
  · rw [buckets, reverse]
    exact filed.sorted
  · intro i ev mem
    rw [buckets] at mem
    rw [hash]
    exact filed.hashed i ev mem

theorem Filed.modify (filed : Filed s) (inside : i < s.nBuckets)
    (sorted : Sorted s.reverse (f (s.buckets.getD i [])))
    (hashed : ∀ ev ∈ f (s.buckets.getD i []), s.hash ev.key.ts = i)
    (buckets : s'.buckets = s.buckets.modify i f) (width : s'.width = s.width)
    (reverse : s'.reverse = s.reverse) : Filed s' := by
  have length : s'.nBuckets = s.nBuckets := by
    unfold CalendarScheduler.nBuckets
    simp [buckets]
  have hash : ∀ ts, s'.hash ts = s.hash ts := by
    intro ts
    unfold CalendarScheduler.hash
    rw [length, width]
  constructor
  · rw [width]
    exact filed.width
  · rw [length]
    exact filed.nBuckets
  · intro j
    rw [buckets, reverse, getD_modify inside]
    split
    case isTrue same =>
      rw [← same]
      exact sorted
    case isFalse => exact filed.sorted j
  · intro j ev mem
    rw [buckets, getD_modify inside] at mem
    rw [hash]
    split at mem
    case isTrue same =>
      rw [← same] at mem ⊢
      exact hashed ev mem
    case isFalse => exact filed.hashed j ev mem

/-- What taking events and putting them in leave alone. -/
structure Same (s s' : CalendarScheduler) : Prop where
  width : s'.width = s.width
  nBuckets : s'.nBuckets = s.nBuckets
  reverse : s'.reverse = s.reverse
  qSize : s'.qSize = s.qSize

theorem Same.refl (s : CalendarScheduler) : Same s s := ⟨rfl, rfl, rfl, rfl⟩

theorem Same.trans {s'' : CalendarScheduler} (first : Same s s') (next : Same s' s'') :
    Same s s'' :=
  ⟨next.width.trans first.width, next.nBuckets.trans first.nBuckets,
    next.reverse.trans first.reverse, next.qSize.trans first.qSize⟩

theorem Same.hash (same : Same s s') (ts : Nat) : s'.hash ts = s.hash ts := by
  unfold CalendarScheduler.hash
  rw [same.width, same.nBuckets]

/-! ## Inserting and taking events -/

theorem doInsert_spec (filed : Filed s) (ev : Event) :
    Filed (s.doInsert ev) ∧ (s.doInsert ev).contents.Perm (ev :: s.contents) ∧
      Same s (s.doInsert ev) := by
  have inside := filed.hash_lt ev.key.ts
  have perm := perm_orderedInsert (order s.reverse) ev (s.buckets.getD (s.hash ev.key.ts) [])
  refine ⟨?_, flatten_modify_cons inside perm, ⟨rfl, length_modify .., rfl, rfl⟩⟩
  refine filed.modify inside (orderedInsert_sorted (filed.sorted _) ev) ?_ rfl rfl rfl
  intro other mem
  cases mem_cons.mp (perm.mem_iff.mp mem) with
  | inl is => rw [is]
  | inr held => exact filed.hashed _ other held

/-- An event is taken that no stored one comes before. -/
structure Taken (s : CalendarScheduler) (next : Event) (s' : CalendarScheduler) : Prop where
  filed : Filed s'
  cursor : Cursor s'
  perm : s.contents.Perm (next :: s'.contents)
  least : ∀ ev ∈ s.contents, ¬ ev.key.Lt next.key
  lastPrio : s'.lastPrio = next.key.ts
  same : Same s s'

theorem taken_next (filed : Filed s) (cursor : Cursor s) {next : Event}
    (is : nextEvent s.reverse (s.buckets.getD i []) = some next)
    (least : ∀ ev ∈ s.contents, ¬ ev.key.Lt next.key) (same : Same s s')
    (buckets : s'.buckets = s.buckets.modify i (pop s.reverse))
    (lastPrio : s'.lastPrio = next.key.ts) (lastBucket : s'.lastBucket = s.hash next.key.ts)
    (bucketTop : s'.bucketTop = (next.key.ts / s.width + 1) * s.width) : Taken s next s' := by
  obtain ⟨perm, sorted, -⟩ := nextEvent_spec (filed.sorted i) is
  have mem : next ∈ s.buckets.getD i [] := perm.mem_iff.mpr mem_cons_self
  have stored := mem_contents_of_bucket mem
  have inside : i < s.nBuckets := by
    rw [← filed.hashed i next mem]
    exact filed.hash_lt _
  have left : s.contents.Perm (next :: s'.contents) := by
    unfold contents
    rw [buckets]
    exact flatten_modify_less inside perm
  refine ⟨?_, ⟨?_, ?_, ?_, ?_⟩, left, least, lastPrio, same⟩
  · refine filed.modify inside sorted ?_ buckets same.width same.reverse
    intro ev held
    exact filed.hashed i ev (perm.mem_iff.mpr (mem_cons_of_mem _ held))
  · intro ev held
    have before := left.mem_iff.mpr (mem_cons_of_mem _ held)
    have := least ev before
    rw [lastPrio]
    refine ⟨?_, (cursor.later ev before).2⟩
    unfold EventKey.Lt at this
    omega
  · rw [lastPrio]
    exact (cursor.later next stored).2
  · rw [lastBucket, lastPrio, same.hash]
  · rw [bucketTop, lastPrio, same.width]

/-- **The next event.** -/
theorem doRemoveNext_spec (filed : Filed s) (cursor : Cursor s) (stored : s.contents ≠ []) :
    ∃ next s', s.doRemoveNext = some (next, s') ∧ Taken s next s' := by
  have found := search_start filed cursor ⟨2 ^ 64 - 1, 0, 2 ^ 32 - 1⟩ (by decide)
  unfold doRemoveNext
  cases is : s.search ⟨2 ^ 64 - 1, 0, 2 ^ 32 - 1⟩ s.nBuckets s.lastBucket s.bucketTop none with
  | inBucket i bucketTop next =>
    rw [is] at found
    obtain ⟨first, hashed, top, least⟩ := found
    exact ⟨next, _, rfl, taken_next filed cursor first least 
      ⟨rfl, length_modify .., rfl, rfl⟩ rfl rfl hashed top⟩
  | direct min =>
    rw [is] at found
    cases min with
    | none => exact absurd found stored
    | some m =>
      obtain ⟨first, least⟩ := found
      have held := mem_contents_of_bucket
        ((nextEvent_spec (filed.sorted m.1) first).1.mem_iff.mpr mem_cons_self)
      have fits := top_lt (cursor.later _ held).2 filed.width.2
      dsimp only
      rw [first, Option.bind_eq_bind, Option.bind_some]
      exact ⟨m.2, _, rfl, taken_next filed cursor first least 
        ⟨rfl, length_modify .., rfl, rfl⟩ rfl rfl rfl (Nat.mod_eq_of_lt fits)⟩

theorem peekNext_spec (filed : Filed s) (cursor : Cursor s) (stored : s.contents ≠ []) :
    ∃ next ∈ s.contents, s.peekNext = some next ∧ ∀ ev ∈ s.contents, ¬ ev.key.Lt next.key := by
  have found := search_start filed cursor ⟨2 ^ 64 - 1, 2 ^ 32 - 1, 0⟩ (by decide)
  have in_bucket : ∀ {i next}, nextEvent s.reverse (s.buckets.getD i []) = some next →
      next ∈ s.contents := by
    intro i next first
    exact mem_contents_of_bucket
      ((nextEvent_spec (filed.sorted i) first).1.mem_iff.mpr mem_cons_self)
  unfold peekNext
  cases is : s.search ⟨2 ^ 64 - 1, 2 ^ 32 - 1, 0⟩ s.nBuckets s.lastBucket s.bucketTop none with
  | inBucket i bucketTop next =>
    rw [is] at found
    obtain ⟨first, -, -, least⟩ := found
    exact ⟨next, in_bucket first, rfl, least⟩
  | direct min =>
    rw [is] at found
    cases min with
    | none => exact absurd found stored
    | some m =>
      obtain ⟨first, least⟩ := found
      exact ⟨m.2, in_bucket first, rfl, least⟩

/-! ## The new width -/

theorem Cursor.congr (cursor : Cursor s)
    (later : ∀ ev ∈ s'.contents, s.lastPrio ≤ ev.key.ts ∧ ev.key.ts < 2 ^ 63)
    (width : s'.width = s.width) (nBuckets : s'.nBuckets = s.nBuckets)
    (lastPrio : s'.lastPrio = s.lastPrio) (lastBucket : s'.lastBucket = s.lastBucket)
    (bucketTop : s'.bucketTop = s.bucketTop) : Cursor s' := by
  constructor
  · rw [lastPrio]
    exact later
  · rw [lastPrio]
    exact cursor.lastPrio
  · unfold CalendarScheduler.hash
    rw [lastBucket, lastPrio, width, nBuckets]
    exact cursor.lastBucket
  · rw [bucketTop, lastPrio, width]
    exact cursor.bucketTop

theorem gather_spec {nSamples : Nat} (filed : Filed s) (cursor : Cursor s)
    (enough : nSamples ≤ s.contents.length) :
    ∃ samples left, gather nSamples s = some (samples, left) ∧ Filed left ∧ Same s left ∧
      s.contents.Perm (samples ++ left.contents) := by
  induction nSamples generalizing s with
  | zero => exact ⟨[], s, rfl, filed, .refl s, .refl _⟩
  | succ nSamples ih =>
    have stored : s.contents ≠ [] := ne_nil_of_length_pos (by omega)
    obtain ⟨next, s', is, taken⟩ := doRemoveNext_spec filed cursor stored
    have length := taken.perm.length_eq
    rw [length_cons] at length
    obtain ⟨samples, left, rest, filed', same, perm⟩ := ih taken.filed taken.cursor (by omega)
    refine ⟨next :: samples, left, ?_, filed', taken.same.trans same,
      taken.perm.trans (perm.cons next)⟩
    simp [gather, is, rest]

theorem foldl_doInsert_spec (filed : Filed s) (evs : List Event) :
    Filed (evs.foldl doInsert s) ∧ Same s (evs.foldl doInsert s) ∧
      (evs.foldl doInsert s).contents.Perm (evs ++ s.contents) := by
  induction evs generalizing s with
  | nil => exact ⟨filed, .refl s, .refl _⟩
  | cons ev evs ih =>
    obtain ⟨filed', perm, same⟩ := doInsert_spec filed ev
    obtain ⟨filed'', same', perm'⟩ := ih filed'
    exact ⟨filed'', same.trans same', perm'.trans ((perm.append_left evs).trans perm_middle)⟩

theorem foldl_doInsert_cursor (evs : List Event) : (evs.foldl doInsert s).lastPrio = s.lastPrio ∧
      (evs.foldl doInsert s).lastBucket = s.lastBucket ∧
      (evs.foldl doInsert s).bucketTop = s.bucketTop := by
  induction evs generalizing s with
  | nil => exact ⟨rfl, rfl, rfl⟩
  | cons ev evs ih => exact ih

/-- What holds between two operations. -/
structure Good (s : CalendarScheduler) : Prop where
  filed : Filed s
  cursor : Cursor s
  size : s.qSize = s.contents.length

/-- The events and the time of the last one taken stay. -/
structure Kept (s s' : CalendarScheduler) : Prop where
  good : Good s'
  perm : s'.contents.Perm s.contents
  lastPrio : s'.lastPrio = s.lastPrio

theorem widthOf_spec (nSamples : Nat) (separations : List Nat) :
    0 < widthOf nSamples separations ∧ widthOf nSamples separations < 2 ^ 64 := by
  unfold widthOf
  dsimp only
  omega

/-- **The width is new, and the samples are back.** -/
theorem calculateNewWidth_spec (good : Good s) :
    ∃ width s', s.calculateNewWidth = some (width, s') ∧ (0 < width ∧ width < 2 ^ 64) ∧
      Kept s s' := by
  unfold calculateNewWidth
  by_cases few : s.qSize < 2
  · rw [if_pos few]
    exact ⟨1, s, rfl, by decide, good, .refl _, rfl⟩
  · rw [if_neg few]
    dsimp only
    generalize sampled : min (if s.qSize ≤ 5 then s.qSize else 5 + s.qSize / 10) 25 = nSamples
    have enough : nSamples ≤ s.contents.length := by
      rw [← sampled, ← good.size]
      split <;> omega
    obtain ⟨samples, left, is, filed, same, perm⟩ := gather_spec good.filed good.cursor enough
    obtain ⟨filed', same', perm'⟩ := foldl_doInsert_spec filed samples
    have together := same.trans same'
    have back := perm'.trans perm.symm
    have restored : Kept s { samples.foldl doInsert left with
        lastBucket := s.lastBucket, bucketTop := s.bucketTop, lastPrio := s.lastPrio } := by
      refine ⟨⟨filed'.congr rfl rfl rfl, ?_, ?_⟩, back, rfl⟩
      · refine good.cursor.congr ?_ together.width together.nBuckets rfl rfl rfl
        intro ev held
        exact good.cursor.later ev (back.mem_iff.mp held)
      · exact together.qSize.trans (good.size.trans back.length_eq.symm)
    rw [is]
    exact ⟨_, _, rfl, widthOf_spec _ _, restored⟩

/-! ## The new buckets -/

theorem init_spec {nBuckets width : Nat} (nonempty : 0 < nBuckets)
    (fits : 0 < width ∧ width < 2 ^ 64) (small : s.lastPrio < 2 ^ 63) :
    Filed (s.init nBuckets width s.lastPrio) ∧ Cursor (s.init nBuckets width s.lastPrio) ∧
      (s.init nBuckets width s.lastPrio).contents = [] := by
  have empty : ∀ i, (List.replicate nBuckets ([] : List Event)).getD i [] = [] := by
    intro i
    rw [getD_eq_getElem?_getD, getElem?_replicate]
    split <;> rfl
  have none : (List.replicate nBuckets ([] : List Event)).flatten = [] := flatten_replicate_nil
  refine ⟨⟨fits, ?_, ?_, ?_⟩, ⟨?_, small, rfl, Nat.mod_eq_of_lt (top_lt small fits.2)⟩, none⟩
  · unfold CalendarScheduler.nBuckets init
    rw [length_replicate]
    exact nonempty
  · intro i
    unfold init
    rw [empty]
    exact .nil
  · intro i ev mem
    unfold init at mem
    rw [empty] at mem
    cases mem
  · intro ev mem
    have mem : ev ∈ (List.replicate nBuckets ([] : List Event)).flatten := mem
    rw [none] at mem
    cases mem

/-- **All events are filed again.** -/
theorem doResize_spec (good : Good s) {newSize newWidth : Nat} (nonempty : 0 < newSize)
    (fits : 0 < newWidth ∧ newWidth < 2 ^ 64) : Kept s (s.doResize newSize newWidth) := by
  obtain ⟨filed, cursor, empty⟩ := init_spec nonempty fits good.cursor.lastPrio
  obtain ⟨filed', same, perm⟩ := foldl_doInsert_spec filed s.buckets.flatten
  obtain ⟨lastPrio, lastBucket, bucketTop⟩ :=
    foldl_doInsert_cursor (s := s.init newSize newWidth s.lastPrio) s.buckets.flatten
  rw [empty, append_nil] at perm
  refine ⟨⟨filed', ?_, ?_⟩, perm, lastPrio⟩
  · refine cursor.congr ?_ same.width same.nBuckets lastPrio lastBucket bucketTop
    intro ev held
    exact good.cursor.later ev (perm.mem_iff.mp held)
  · exact same.qSize.trans (good.size.trans perm.length_eq.symm)

theorem Kept.trans {s'' : CalendarScheduler} (first : Kept s s') (next : Kept s' s'') :
    Kept s s'' :=
  ⟨next.good, next.perm.trans first.perm, next.lastPrio.trans first.lastPrio⟩

theorem resize_spec (good : Good s) {newSize : Nat} (nonempty : 0 < newSize) :
    ∃ s', s.resize newSize = some s' ∧ Kept s s' := by
  obtain ⟨width, s', is, fits, kept⟩ := calculateNewWidth_spec good
  refine ⟨s'.doResize newSize width, ?_, kept.trans (doResize_spec kept.good nonempty fits)⟩
  simp [resize, is]

theorem resizeUp_spec (good : Good s) : ∃ s', s.resizeUp = some s' ∧ Kept s s' := by
  unfold resizeUp
  split
  case isTrue =>
    have := good.filed.nBuckets
    exact resize_spec good (by omega)
  case isFalse => exact ⟨s, rfl, good, .refl _, rfl⟩

theorem resizeDown_spec (good : Good s) : ∃ s', s.resizeDown = some s' ∧ Kept s s' := by
  unfold resizeDown
  split
  case isTrue few => exact resize_spec good (by omega)
  case isFalse => exact ⟨s, rfl, good, .refl _, rfl⟩

end Ns3.Core.CalendarScheduler

/-!
## The calendar is a priority queue

Each operation does what a queue of events does, and resizes without a trace.
-/

namespace Ns3.Core.CalendarScheduler

open List

open HeapScheduler (HeapEvent)

variable {s : CalendarScheduler} {q q' : Queue}

/-- The calendar holds what is stored. -/
structure Holds (s : CalendarScheduler) (q : Queue) : Prop where
  good : Good s
  perm : s.contents.Perm q.stored
  distinct : (q.stored.map (·.key.uid)).Nodup
  last : s.lastPrio = q.last

section

variable (holds : Holds s q)
include holds

theorem Holds.isEmpty : s.isEmpty = q.stored.isEmpty := by
  unfold CalendarScheduler.isEmpty
  rw [holds.good.size, holds.perm.length_eq]
  cases q.stored <;> rfl

theorem Holds.first {next first : Event} (held : next ∈ s.contents)
    (least : ∀ ev ∈ s.contents, ¬ ev.key.Lt next.key)
    (is : HeapScheduler.first q.stored = some first) : next = first := by
  obtain ⟨none, -⟩ | ⟨least', found, member, before⟩ := HeapScheduler.first_spec q.stored
  · exact nomatch none.symm.trans is
  cases found.symm.trans is
  have stored := holds.perm.mem_iff.mp held
  have sameUid : next.key.uid = first.key.uid := by
    have order := least first (holds.perm.mem_iff.mpr member)
    have other := before next stored
    unfold HeapScheduler.Before EventKey.Lt at other
    unfold EventKey.Lt at order
    omega
  exact inj_on_of_nodup_map holds.distinct stored member sameUid

theorem Holds.nonempty {first : Event}
    (is : HeapScheduler.first q.stored = some first) : s.contents ≠ [] := by
  intro empty
  have stored := holds.perm
  rw [empty] at stored
  rw [stored.symm.eq_nil] at is
  cases is

theorem insert_holds {ev : Event} (new : ev.key.uid ∉ q.stored.map (·.key.uid))
    (later : q.last ≤ ev.key.ts) (small : ev.key.ts < 2 ^ 63) :
    ∃ s', s.insert ev = some s' ∧ Holds s' { q with stored := ev :: q.stored } := by
  obtain ⟨filed, perm, same⟩ := doInsert_spec holds.good.filed ev
  have good : Good { s.doInsert ev with qSize := (s.doInsert ev).qSize + 1 } := by
    refine ⟨filed.congr rfl rfl rfl, ?_, ?_⟩
    · refine holds.good.cursor.congr ?_ same.width same.nBuckets rfl rfl rfl
      intro other held
      cases mem_cons.mp (perm.mem_iff.mp held) with
      | inl is =>
        rw [is, holds.last]
        exact ⟨later, small⟩
      | inr before => exact holds.good.cursor.later other before
    · have := perm.length_eq
      have size := same.qSize.trans holds.good.size
      rw [length_cons, ← size] at this
      exact this.symm
  obtain ⟨s', is, kept⟩ := resizeUp_spec good
  refine ⟨s', is, kept.good, kept.perm.trans (perm.trans (holds.perm.cons ev)), ?_,
    kept.lastPrio.trans holds.last⟩
  rw [map_cons, nodup_cons]
  exact ⟨new, holds.distinct⟩

/-- An event left the buckets, and the calendar may get smaller. -/
theorem leave_holds {left : CalendarScheduler} {ev : Event} {last : Nat}
    (member : ev ∈ q.stored) (filed : Filed left) (cursor : Cursor left)
    (perm : s.contents.Perm (ev :: left.contents)) (size : left.qSize = s.qSize - 1)
    (at_last : left.lastPrio = last) :
    ∃ s', left.resizeDown = some s' ∧ Holds s' ⟨q.stored.erase ev, last⟩ := by
  have length := perm.length_eq
  rw [length_cons, ← holds.good.size] at length
  obtain ⟨s', is, kept⟩ := resizeDown_spec ⟨filed, cursor, by omega⟩
  have both := (perm.symm.trans holds.perm).trans (perm_cons_erase member)
  exact ⟨s', is, kept.good, kept.perm.trans both.cons_inv,
    holds.distinct.sublist (erase_sublist.map _), kept.lastPrio.trans at_last⟩

theorem removeNext_holds {next : Event} (is : HeapScheduler.first q.stored = some next) :
    ∃ s', s.removeNext = some (next, s') ∧ Holds s' ⟨q.stored.erase next, next.key.ts⟩ := by
  obtain ⟨ev, left, removed, taken⟩ :=
    doRemoveNext_spec holds.good.filed holds.good.cursor (holds.nonempty is)
  have held := taken.perm.mem_iff.mpr mem_cons_self
  cases holds.first held taken.least is
  have cursor : Cursor { left with qSize := left.qSize - 1 } :=
    taken.cursor.congr (fun ev held => taken.cursor.later ev held) rfl rfl rfl rfl rfl
  have filed : Filed { left with qSize := left.qSize - 1 } := taken.filed.congr rfl rfl rfl
  obtain ⟨s', resized, holds'⟩ := leave_holds holds (holds.perm.mem_iff.mp held) filed cursor
    taken.perm (congrArg (· - 1) taken.same.qSize) taken.lastPrio
  refine ⟨s', ?_, holds'⟩
  simp [removeNext, removed, resized]

theorem remove_holds {ev : Event} (member : ev ∈ q.stored) :
    ∃ s', s.remove ev = some s' ∧ Holds s' { q with stored := q.stored.erase ev } := by
  have filed := holds.good.filed
  have inside := filed.hash_lt ev.key.ts
  have stored := filed.mem_bucket (holds.perm.mem_iff.mpr member)
  have distinct : ((s.buckets.getD (s.hash ev.key.ts) []).map (·.key.uid)).Nodup := by
    have all := (holds.perm.map (·.key.uid)).nodup_iff.mpr holds.distinct
    apply all.sublist (List.Sublist.map _ _)
    apply sublist_flatten_of_mem
    rw [getD_eq_getElem?_getD, getElem?_eq_getElem inside, Option.getD_some]
    exact getElem_mem inside
  have less := ListScheduler.listRemove_perm stored distinct
  have found : ((s.buckets.getD (s.hash ev.key.ts) []).any
      fun e => e.key.uid = ev.key.uid) = true :=
    any_eq_true.mpr ⟨ev, stored, decide_eq_true rfl⟩
  have perm := flatten_modify_less inside less
  have filed' : Filed { s with
      buckets := s.buckets.modify (s.hash ev.key.ts) (ListScheduler.listRemove ev)
      qSize := s.qSize - 1 } := by
    refine filed.modify inside ?_ ?_ rfl rfl rfl
    · exact (filed.sorted _).sublist eraseP_sublist
    · intro other mem
      exact filed.hashed _ other (mem_of_mem_eraseP mem)
  have cursor : Cursor { s with
      buckets := s.buckets.modify (s.hash ev.key.ts) (ListScheduler.listRemove ev)
      qSize := s.qSize - 1 } := by
    refine holds.good.cursor.congr ?_ rfl (length_modify ..) rfl rfl rfl
    intro other held
    exact holds.good.cursor.later other (perm.mem_iff.mpr (mem_cons_of_mem _ held))
  obtain ⟨s', resized, holds'⟩ := leave_holds holds member filed' cursor perm rfl holds.last
  refine ⟨s', ?_, holds'⟩
  unfold remove
  rw [if_pos found]
  exact resized

end

/-- **A step.** -/
theorem calendar_refines : Machine.Refines step queueStep (fun _ _ => True) Holds := by
  intro s q event q' out holds _ done
  cases event with
  | insert ev =>
    simp only [queueStep, Option.ite_none_right_eq_some] at done
    obtain ⟨⟨new, later, small⟩, eq⟩ := done
    cases eq
    obtain ⟨s', is, holds'⟩ := insert_holds holds new later small
    refine ⟨s', ?_, holds'⟩
    simp [step, is]
  | peekNext =>
    obtain ⟨next, is, eq⟩ := Option.bind_eq_some_iff.mp done
    cases eq
    obtain ⟨ev, held, peeked, least⟩ :=
      peekNext_spec holds.good.filed holds.good.cursor (holds.nonempty is)
    cases holds.first held least is
    refine ⟨s, ?_, holds⟩
    simp [step, peeked]
  | removeNext =>
    obtain ⟨next, is, eq⟩ := Option.bind_eq_some_iff.mp done
    cases eq
    obtain ⟨s', removed, holds'⟩ := removeNext_holds holds is
    refine ⟨s', ?_, holds'⟩
    simp [step, removed]
  | remove ev =>
    simp only [queueStep, Option.ite_none_right_eq_some] at done
    obtain ⟨member, eq⟩ := done
    cases eq
    obtain ⟨s', is, holds'⟩ := remove_holds holds member
    refine ⟨s', ?_, holds'⟩
    simp [step, is]

theorem holds_create (reverse : Bool) : Holds (create reverse) ⟨[], 0⟩ := by
  have fits : 0 < 1 ∧ 1 < 2 ^ 64 := by decide
  obtain ⟨filed, cursor, empty⟩ :=
    init_spec (s := ⟨[], 0, 0, 0, 0, 0, reverse⟩) Nat.two_pos fits (Nat.two_pow_pos 63)
  refine ⟨⟨filed, cursor, ?_⟩, ?_, .nil, rfl⟩
  · exact (congrArg List.length empty).symm
  · exact .of_eq empty

/-- **The calendar is a priority queue** in every run. -/
theorem calendar_is_queue {reverse : Bool} {events : List HeapEvent} {q : Queue}
    {out : List Event} (run : Machine.run queueStep ⟨[], 0⟩ events = some (q, out)) :
    ∃ s, Machine.run step (create reverse) events = some (s, out) ∧ Holds s q ∧
      s.isEmpty = q.stored.isEmpty := by
  obtain ⟨s, done, holds⟩ :=
    calendar_refines.run (holds_create reverse) (.of_always (fun _ _ => trivial) events) run
  exact ⟨s, done, holds, holds.isEmpty⟩

open HeapScheduler (inserts timed)

/-- The buckets become more with the fifth event, and fewer again. -/
theorem calendar_resizes_unseen : ∃ s, Machine.run step (create true)
        (inserts [1, 300, 2, 70, 12] ++ [.removeNext, .remove (timed 12), .removeNext,
          .removeNext, .peekNext]) =
      some (s, [timed 1, timed 2, timed 70, timed 300]) ∧
    Holds s ⟨[timed 300], 70⟩ ∧ s.isEmpty = false :=
  calendar_is_queue (by decide)

end Ns3.Core.CalendarScheduler
