import Mathlib
import Ns3.Network.Buffer

/-!
# What the operations do to a heap of buffers

The invariants hold of a list of all buffers that there are, and an operation on one of them
leaves the bytes of the others as they were.
-/

namespace Ns3.Network.Buffer

open Regions List Option Heap

theorem guard_some {p : Prop} [Decidable p] (holds : p) : (guard p : Option Unit) = some () :=
  if_pos holds

/-- The storages are counted by their references, and none of those is on the free list. -/
structure Tidy (h : Heap) (refs : List Nat) : Prop where
  live : ∀ a ∈ refs, ∃ d, h.data a = some d
  counted : ∀ a d, h.data a = some d → d.count = refs.count a
  sized : ∀ a d, h.data a = some d → d.size + 20 ≤ 4294967296
  free : ∀ a ∈ h.freeList, a ∉ refs ∧ ∃ d, h.data a = some d
  distinct : h.freeList.Nodup
  unused : ∀ a, h.next ≤ a → h.data a = none

/-- The storages of the references are the same but for their counts. -/
def Recounted (h h' : Heap) (refs : List Nat) : Prop :=
  ∀ a ∈ refs, ∀ d, h.data a = some d → ∃ n, h'.data a = some { d with count := n }

/-- What no reference leads to is filled with one byte, and so is new memory. -/
structure Stale (h : Heap) (refs : List Nat) (x : UInt8) : Prop where
  garbage : ∀ a i, h.garbage a i = x
  filled : ∀ a, a ∉ refs → ∀ d, h.data a = some d → ∀ i, d.data i = x

variable {h h' : Heap} {refs : List Nat} {a a' n size : Nat} {d d' : Data}

theorem Heap.data_put : (h.put a d).data a' = if a' = a then some d else h.data a' :=
  Function.update_apply _ _ _ _

@[simp] theorem Heap.data_put_self : (h.put a d).data a = some d := Function.update_self _ _ _

theorem Heap.data_put_of_ne (ne : a' ≠ a) : (h.put a d).data a' = h.data a' :=
  Function.update_of_ne ne _ _

@[simp] theorem Heap.freeList_put : (h.put a d).freeList = h.freeList := rfl

@[simp] theorem Heap.next_put : (h.put a d).next = h.next := rfl

theorem Heap.data_erase_of_ne (ne : a' ≠ a) : (h.erase a).data a' = h.data a' :=
  Function.update_of_ne ne _ _

theorem Heap.data_of_erase (there : (h.erase a).data a' = some d) : h.data a' = some d := by
  by_cases same : a' = a
  · subst same
    have gone : (h.erase a').data a' = none := Function.update_self _ _ _
    exact nomatch gone.symm.trans there
  · rw [← data_erase_of_ne same]
    exact there

theorem Heap.deallocate_eq (at_ : h.data a = some d) (count : d.count = 0) :
    h.deallocate a = some (h.erase a) := by
  simp only [deallocate, at_, bind_eq_bind, bind_some, guard_some count]
  rfl

theorem Recounted.trans {h'' : Heap} (first : Recounted h h' refs)
    (second : Recounted h' h'' refs) : Recounted h h'' refs := by
  intro a mem d at_
  obtain ⟨n, at'⟩ := first a mem d at_
  obtain ⟨n', at''⟩ := second a mem _ at'
  exact ⟨n', at''⟩

namespace Tidy

section

variable (tidy : Tidy h refs)
include tidy

theorem perm {refs' : List Nat} (perm : refs.Perm refs') : Tidy h refs' where
  live a mem := tidy.live a (perm.mem_iff.mpr mem)
  counted a d at_ := (tidy.counted a d at_).trans (perm.count_eq a)
  sized := tidy.sized
  free a mem := ⟨fun there => (tidy.free a mem).1 (perm.mem_iff.mpr there), (tidy.free a mem).2⟩
  distinct := tidy.distinct
  unused := tidy.unused

theorem below_next (at_ : h.data a = some d) : a < h.next := by
  apply Nat.lt_of_not_le
  intro from_
  exact nomatch at_.symm.trans (tidy.unused a from_)

theorem off_free (mem : a ∈ refs) : a ∉ h.freeList :=
  fun there => (tidy.free a there).1 mem

theorem recount {refs' : List Nat} (off : a ∉ h.freeList) (old : a < h.next)
    (count : d.count = refs'.count a) (others : ∀ a', a' ≠ a → refs'.count a' = refs.count a')
    (sized : d.size + 20 ≤ 4294967296) : Tidy (h.put a d) refs' where
  live a' mem := by
    rw [data_put]
    split
    case isTrue => exact ⟨d, rfl⟩
    case isFalse ne =>
      have counts := count_pos_iff.mpr mem
      rw [others a' ne] at counts
      exact tidy.live a' (count_pos_iff.mp counts)
  counted a' e there := by
    rw [data_put] at there
    split at there
    case isTrue same =>
      cases there
      rw [same, count]
    case isFalse ne => rw [others a' ne, tidy.counted a' e there]
  sized a' e there := by
    rw [data_put] at there
    split at there
    · cases there
      exact sized
    · exact tidy.sized a' e there
  free a' mem := by
    obtain ⟨nowhere, e, there⟩ := tidy.free a' mem
    have ne : a' ≠ a := ne_of_mem_of_not_mem mem off
    rw [← count_eq_zero, others a' ne, count_eq_zero, data_put_of_ne ne]
    exact ⟨nowhere, e, there⟩
  distinct := tidy.distinct
  unused a' from_ := by
    rw [data_put_of_ne (Nat.ne_of_gt (lt_of_lt_of_le old from_))]
    exact tidy.unused a' from_

/-- The dirty area and the bytes of a storage do not count. -/
theorem put (mem : a ∈ refs) (at_ : h.data a = some d)
    (count : d'.count = d.count) (size : d'.size = d.size) : Tidy (h.put a d') refs :=
  tidy.recount (tidy.off_free mem) (tidy.below_next at_) (count.trans (tidy.counted a d at_))
    (fun _ _ => rfl) (size ▸ tidy.sized a d at_)

theorem onFreeList {freeList : List Nat} (fewer : freeList.Sublist h.freeList) :
    Tidy { h with freeList := freeList } refs where
  live := tidy.live
  counted := tidy.counted
  sized := tidy.sized
  free a mem := tidy.free a (fewer.subset mem)
  distinct := tidy.distinct.sublist fewer
  unused := tidy.unused

theorem claim (unused : a ∉ refs) (off : a ∉ h.freeList) (old : a < h.next)
    (count : d.count = 1) (sized : d.size + 20 ≤ 4294967296) : Tidy (h.put a d) (a :: refs) := by
  apply tidy.recount off old _ _ sized
  · rw [count_cons_self, count_eq_zero.mpr unused, count]
  · intro a' ne
    exact count_cons_of_ne (Ne.symm ne)

theorem erase (unused : a ∉ refs) (off : a ∉ h.freeList) : Tidy (h.erase a) refs where
  live a' mem := by
    rw [data_erase_of_ne (ne_of_mem_of_not_mem mem unused)]
    exact tidy.live a' mem
  counted a' e there := tidy.counted a' e (data_of_erase there)
  sized a' e there := tidy.sized a' e (data_of_erase there)
  free a' mem := by
    rw [data_erase_of_ne (ne_of_mem_of_not_mem mem off)]
    exact tidy.free a' mem
  distinct := tidy.distinct
  unused a' from_ := by
    cases there : (h.erase a).data a' with
    | none => rfl
    | some e => exact nomatch (tidy.unused a' from_).symm.trans (data_of_erase there)

theorem count_zero (at_ : h.data a = some d) (unused : a ∉ refs) : d.count = 0 :=
  (tidy.counted a d at_).trans (count_eq_zero.mpr unused)

/-- A new reference has a storage of the size, and the others keep theirs. -/
structure Given (h : Heap) (refs : List Nat) (size : Nat) (h' : Heap) (a : Nat) (d : Data) :
    Prop where
  tidy : Tidy h' (a :: refs)
  unused : a ∉ refs
  there : h'.data a = some d
  least : size ≤ d.size
  same : ∀ a' ∈ refs, h'.data a' = h.data a'
  start : h'.recommendedStart = h.recommendedStart
  stale : ∀ x, Stale h refs x → ∀ i, d.data i = x

theorem allocate (none_free : h.freeList = []) (room : size + 120 ≤ 4294967296) :
    ∃ h' a d, h.allocate size = some (h', a) ∧ Given h refs size h' a d := by
  let reqSize := (if size = 0 then 1 else size) + 100
  have least : size ≤ reqSize ∧ reqSize + 20 ≤ 4294967296 := by
    simp only [reqSize]
    split <;> omega
  have unused : h.next ∉ refs := by
    intro mem
    obtain ⟨d, at_⟩ := tidy.live _ mem
    exact lt_irrefl _ (tidy.below_next at_)
  have later : Tidy { h with next := h.next + 1 } refs :=
    ⟨tidy.live, tidy.counted, tidy.sized, tidy.free, tidy.distinct,
      fun a from_ => tidy.unused a (Nat.le_of_succ_le from_)⟩
  let d : Data := ⟨1, reqSize, 0, 0, h.garbage h.next⟩
  refine ⟨Heap.put { h with next := h.next + 1 } h.next d, h.next, d, ?_, ?_, unused,
    Heap.data_put_self, least.1, ?_, rfl, fun x stale => stale.garbage h.next⟩
  · have small : reqSize - 1 + 20 < 4294967296 := by omega
    simp only [Heap.allocate]
    rw [guard_some small]
    rfl
  · exact later.claim unused (by rw [none_free]; exact not_mem_nil) (Nat.lt_succ_self _) rfl least.2
  · intro a mem
    exact data_put_of_ne fun same => unused (same ▸ mem)

end

theorem createFrom {freeList : List Nat} (tidy : Tidy { h with freeList := freeList } refs)
    (room : size + 120 ≤ 4294967296) :
    ∃ h' a d, h.createFrom size freeList = some (h', a) ∧ Given h refs size h' a d := by
  induction freeList generalizing h with
  | nil =>
    obtain ⟨h', a, d, done, given⟩ := tidy.allocate rfl room
    exact ⟨h', a, d, done, { given with
      stale := fun x filled => given.stale x ⟨filled.garbage, filled.filled⟩ }⟩
  | cons a freeList ih =>
    obtain ⟨unused, d, at_⟩ := tidy.free a mem_cons_self
    have below : a < h.next := tidy.below_next at_
    have off : a ∉ freeList := (nodup_cons.mp tidy.distinct).1
    have fewer : Tidy { h with freeList := freeList } refs :=
      tidy.onFreeList (sublist_cons_self a freeList)
    by_cases large : d.size ≥ size
    · refine ⟨Heap.put { h with freeList := freeList } a { d with count := 1 }, a,
        { d with count := 1 }, ?_, ?_, unused, Heap.data_put_self, large, ?_, rfl,
        fun x stale => stale.filled a unused d at_⟩
      · simp only [createFrom]
        rw [at_, bind_eq_bind, bind_some, if_pos large]
        rfl
      · exact fewer.claim unused off below rfl (tidy.sized a d at_)
      · intro a' mem
        exact data_put_of_ne fun same => unused (same ▸ mem)
    · have freed : Tidy ({ h with freeList := freeList }.erase a) refs := fewer.erase unused off
      obtain ⟨h', a', e, done, given⟩ := @ih (h.erase a) freed
      refine ⟨h', a', e, ?_, { given with
        same := fun b mem => (given.same b mem).trans ?_
        stale := fun x filled => given.stale x ⟨filled.garbage, fun a' ne d there' =>
          filled.filled a' ne d (data_of_erase there')⟩ }⟩
      · have here : h.data a = some d := at_
        simp only [createFrom]
        rw [here, bind_eq_bind, bind_some, if_neg large,
          deallocate_eq here (fewer.count_zero here unused)]
        exact done
      · exact data_erase_of_ne (ne_of_mem_of_not_mem mem unused)

/-- **A storage is created** for a new reference. -/
theorem create (tidy : Tidy h refs) (room : size + 120 ≤ 4294967296) :
    ∃ h' a d, h.create size = some (h', a) ∧ Given h refs size h' a d :=
  tidy.createFrom room

theorem lessen (tidy : Tidy h (a :: refs)) (at_ : h.data a = some d) :
    Tidy (h.put a { d with count := d.count - 1 }) refs := by
  refine tidy.recount (tidy.off_free mem_cons_self) (tidy.below_next at_) ?_ ?_ (tidy.sized a d at_)
  · show d.count - 1 = refs.count a
    simp [tidy.counted a d at_]
  · intro a' ne
    exact (count_cons_of_ne (Ne.symm ne)).symm

theorem withMaxSize (tidy : Tidy h refs) (maxSize : Nat) :
    Tidy { h with maxSize := maxSize } refs :=
  { tidy with }

theorem recycle (tidy : Tidy h refs) (at_ : h.data a = some d) (unused : a ∉ refs)
    (off : a ∉ h.freeList) :
    ∃ h', h.recycle a = some h' ∧ Tidy h' refs ∧ h'.recommendedStart = h.recommendedStart ∧
      ∀ a' ∈ refs, h'.data a' = h.data a' := by
  have count := tidy.count_zero at_ unused
  let larger : Heap := { h with maxSize := max h.maxSize d.size }
  have tidy' : Tidy larger refs := tidy.withMaxSize _
  by_cases drop : d.size < max h.maxSize d.size ∨ h.freeList.length > 1000
  · refine ⟨larger.erase a, ?_, tidy'.erase unused off, rfl, ?_⟩
    · simp only [Heap.recycle, at_, bind_eq_bind, bind_some, guard_some count]
      rw [if_pos drop]
      exact deallocate_eq at_ count
    · intro a' mem
      exact data_erase_of_ne (ne_of_mem_of_not_mem mem unused)
  · refine ⟨{ larger with freeList := a :: h.freeList }, ?_, ?_, rfl, fun _ _ => rfl⟩
    · simp only [Heap.recycle, at_, bind_eq_bind, bind_some, guard_some count]
      rw [if_neg drop]
      rfl
    · refine ⟨tidy.live, tidy.counted, tidy.sized, ?_, nodup_cons.mpr ⟨off, tidy.distinct⟩,
        tidy.unused⟩
      intro a' mem
      rcases mem_cons.mp mem with rfl | mem
      · exact ⟨unused, d, at_⟩
      · exact tidy.free a' mem

/-- **A reference is dropped.** -/
theorem release (tidy : Tidy h (a :: refs)) :
    ∃ h', h.release a = some h' ∧ Tidy h' refs ∧ h'.recommendedStart = h.recommendedStart ∧
      Recounted h h' refs := by
  obtain ⟨d, at_⟩ := tidy.live a mem_cons_self
  have count := tidy.counted a d at_
  rw [count_cons_self] at count
  let d' : Data := { d with count := d.count - 1 }
  have less : Tidy (h.put a d') refs := tidy.lessen at_
  have recounted : Recounted h (h.put a d') refs := by
    intro a' mem e there
    rw [data_put]
    split
    case isTrue same =>
      subst same
      cases at_.symm.trans there
      exact ⟨d.count - 1, rfl⟩
    case isFalse => exact ⟨e.count, there⟩
  by_cases last : d.count - 1 = 0
  · have unused : a ∉ refs := count_eq_zero.mp (by omega)
    have off : a ∉ h.freeList := tidy.off_free mem_cons_self
    obtain ⟨h', done, tidy', start, same⟩ := less.recycle data_put_self unused off
    refine ⟨h', ?_, tidy', start, ?_⟩
    · simp only [Heap.release, at_, bind_eq_bind, bind_some]
      rw [if_pos last]
      exact done
    · intro a' mem e there
      rw [same a' mem]
      exact recounted a' mem e there
  · refine ⟨h.put a d', ?_, less, rfl, recounted⟩
    simp only [Heap.release, at_, bind_eq_bind, bind_some]
    rw [if_neg last]
    rfl

/-- **A reference is added.** -/
theorem retain (tidy : Tidy h refs) (mem : a ∈ refs) :
    ∃ h', h.retain a = some h' ∧ Tidy h' (a :: refs) ∧
      h'.recommendedStart = h.recommendedStart ∧ Recounted h h' refs := by
  obtain ⟨d, at_⟩ := tidy.live a mem
  refine ⟨h.put a { d with count := d.count + 1 }, ?_, ?_, rfl, ?_⟩
  · simp only [Heap.retain, at_]
    rfl
  · refine tidy.recount (tidy.off_free mem) (tidy.below_next at_) ?_ ?_ (tidy.sized a d at_)
    · show d.count + 1 = (a :: refs).count a
      simp [tidy.counted a d at_]
    · intro a' ne
      exact count_cons_of_ne (Ne.symm ne)
  · intro a' mem' e there
    rw [data_put]
    split
    case isTrue same =>
      subst same
      cases at_.symm.trans there
      exact ⟨_, rfl⟩
    case isFalse => exact ⟨e.count, there⟩

end Tidy

end Ns3.Network.Buffer
