import Ns3.Core.HeapScheduler
import Ns3.Core.SimulatorInvariant

/-!
# The heap as a queue

The heap order survives a removal when the last event does not come before the
parent of the place it takes.
-/

namespace Ns3.Core.HeapScheduler

open HeapOrder List EventKey

def Before (a b : Event) : Prop := a.key.Lt b.key

theorem before_weakOrder : WeakOrder Before where
  asymm a b before after := lt_irrefl _ (before.trans after)
  trans a b c before after := before.trans after
  not_trans a b c := by
    unfold Before Lt
    omega

/-- The heap order, and the unused entry. -/
structure Heaped (heap : Heap) : Prop where
  unused : 0 < heap.length
  ordered : Ordered Before (entry heap) (last heap)

variable {heap : Heap} {a b index : Nat} {ev : Event}

theorem entry_exch (ha : a < heap.length) (hb : b < heap.length) :
    entry (exch heap a b) = HeapOrder.exch (entry heap) a b := by
  funext i
  simp only [entry, exch, HeapOrder.exch]
  by_cases right : b = i
  · subst right
    by_cases both : b = a
    · simp [both, ha]
    · simp [both, hb]
  · by_cases left : a = i
    · subst left
      simp [right, ha]
    · simp [left, right, Ne.symm left, Ne.symm right]

theorem length_exch (heap : Heap) (a b : Nat) : (exch heap a b).length = heap.length := by
  simp [exch]

theorem tail_exch (oneA : 1 ≤ a) (oneB : 1 ≤ b) (ha : a < heap.length) (hb : b < heap.length) :
    (exch heap a b).tail.Perm heap.tail := by
  obtain ⟨a, rfl⟩ := Nat.exists_eq_add_of_le' oneA
  obtain ⟨b, rfl⟩ := Nat.exists_eq_add_of_le' oneB
  cases heap with
  | nil => cases ha
  | cons unused rest =>
    have ha' : a < rest.length := Nat.lt_of_succ_lt_succ ha
    have hb' : b < rest.length := Nat.lt_of_succ_lt_succ hb
    simp only [exch, entry, set_cons_succ, tail_cons, getD_eq_getElem?_getD,
      getElem?_cons_succ, getElem?_eq_getElem ha', getElem?_eq_getElem hb',
      Option.getD_some]
    exact set_set_perm ha' hb'

theorem isLessStrictly_iff :
    isLessStrictly heap a b = true ↔ Before (entry heap a) (entry heap b) := decide_eq_true_iff

/-- **Moving up.** -/
theorem bottomUp_spec {rounds : Nat} (one : 1 ≤ index) (inside : index < heap.length)
    (enough : index ≤ rounds) (rising : Rising Before (entry heap) (last heap) index) :
    Heaped (bottomUp rounds index heap) ∧
    (bottomUp rounds index heap).tail.Perm heap.tail := by
  induction rounds generalizing index heap with
  | zero => omega
  | succ rounds ih =>
    unfold bottomUp
    by_cases up : index ≠ 1 ∧ isLessStrictly heap index (index / 2) = true
    · rw [if_pos up]
      obtain ⟨notRoot, less⟩ := up
      have parent : index / 2 < heap.length := by omega
      have swapped := rising.exch before_weakOrder (by omega) (Nat.le_sub_one_of_lt inside)
        (isLessStrictly_iff.mp less)
      rw [← entry_exch inside parent] at swapped
      have same : last (exch heap index (index / 2)) = last heap := by simp [last, length_exch]
      obtain ⟨heaped, perm⟩ := ih (by omega) (by rwa [length_exch]) (by omega) (same.symm ▸ swapped)
      exact ⟨heaped, perm.trans (tail_exch one (by omega) inside parent)⟩
    · rw [if_neg up]
      refine ⟨⟨by omega, rising.ordered ?_⟩, .refl _⟩
      intro two less
      exact up ⟨by omega, isLessStrictly_iff.mpr less⟩

theorem smallest_spec (heap : Heap) (a b : Nat) : (smallest heap a b = a ∨ smallest heap a b = b) ∧
    ¬ Before (entry heap a) (entry heap (smallest heap a b)) ∧
    ¬ Before (entry heap b) (entry heap (smallest heap a b)) := by
  unfold smallest
  by_cases less : isLessStrictly heap a b = true
  · rw [if_pos less]
    have before := isLessStrictly_iff.mp less
    exact ⟨.inl rfl, lt_irrefl _, before_weakOrder.asymm _ _ before⟩
  · rw [if_neg less]
    exact ⟨.inr rfl, fun before => less (isLessStrictly_iff.mpr before), lt_irrefl _⟩

/-- **Moving down.** -/
theorem topDown_spec {rounds : Nat} (one : 1 ≤ index) (some : 0 < heap.length)
    (enough : heap.length ≤ index + rounds)
    (sinking : Sinking Before (entry heap) (last heap) index) :
    Heaped (topDown rounds index heap) ∧
    (topDown rounds index heap).tail.Perm heap.tail := by
  have range (i : Nat) (le : i ≤ last heap) : i < heap.length := by
    unfold last at le
    omega
  induction rounds generalizing index heap with
  | zero =>
    refine ⟨⟨some, sinking.ordered ?_⟩, .refl _⟩
    intro c two child le
    have := range c le
    omega
  | succ rounds ih =>
    unfold topDown
    by_cases both : 2 * index + 1 < heap.length
    · rw [if_pos both]
      obtain ⟨which, notLeft, notRight⟩ := smallest_spec heap (2 * index) (2 * index + 1)
      generalize smallest heap (2 * index) (2 * index + 1) = least at which notLeft notRight ⊢
      have children (c : Nat) (two : 2 ≤ c) (child : c / 2 = index) :
          ¬ Before (entry heap c) (entry heap least) := by
        have cases : c = 2 * index ∨ c = 2 * index + 1 := by omega
        obtain rfl | rfl := cases
        · exact notLeft
        · exact notRight
      by_cases less : isLessStrictly heap index least = true
      · rw [if_pos less]
        refine ⟨⟨some, sinking.ordered ?_⟩, .refl _⟩
        intro c two child _ before
        exact children c two child (before_weakOrder.trans _ _ _ before
          (isLessStrictly_iff.mp less))
      · rw [if_neg less]
        have inside : least < heap.length := by omega
        have swapped := sinking.exch one (by omega) (Nat.le_sub_one_of_lt inside)
          (fun c two child _ => children c two child)
          (fun before => less (isLessStrictly_iff.mpr before))
        rw [← entry_exch (by omega) inside] at swapped
        have same : last (exch heap index least) = last heap := by simp [last, length_exch]
        obtain ⟨heaped, perm⟩ := ih (by omega) (by rwa [length_exch])
          (by rw [length_exch]; omega) (same.symm ▸ swapped)
          (by intro i le; rw [length_exch]; exact range i (same ▸ le))
        exact ⟨heaped, perm.trans (tail_exch one (by omega) (by omega) inside)⟩
    · rw [if_neg both]
      by_cases out : heap.length ≤ index
      · rw [if_pos out]
        refine ⟨⟨some, sinking.ordered ?_⟩, .refl _⟩
        intro c two child le
        have := range c le
        omega
      rw [if_neg out]
      by_cases leaf : heap.length ≤ 2 * index
      · rw [if_pos leaf]
        refine ⟨⟨some, sinking.ordered ?_⟩, .refl _⟩
        intro c two child le
        have := range c le
        omega
      rw [if_neg leaf]
      have only (c : Nat) (child : c / 2 = index) (le : c ≤ last heap) : c = 2 * index := by
        have := range c le
        omega
      by_cases less : isLessStrictly heap index (2 * index) = true
      · rw [if_pos less]
        refine ⟨⟨some, sinking.ordered ?_⟩, .refl _⟩
        intro c two child le
        rw [only c child le]
        exact before_weakOrder.asymm _ _ (isLessStrictly_iff.mp less)
      · rw [if_neg less]
        have inside : 2 * index < heap.length := by omega
        have swapped := sinking.exch one (by omega) (Nat.le_sub_one_of_lt inside)
          (fun c two child le => by
            rw [only c child le]
            exact lt_irrefl _)
          (fun before => less (isLessStrictly_iff.mpr before))
        rw [← entry_exch (by omega) inside] at swapped
        have same : last (exch heap index (2 * index)) = last heap := by simp [last, length_exch]
        rw [← same] at swapped
        refine ⟨⟨by rwa [length_exch], swapped.ordered ?_⟩, ?_⟩
        · intro c two child le
          have := range c (same ▸ le)
          omega
        · exact tail_exch one (by omega) (by omega) inside

theorem insert_spec (heaped : Heaped heap) (ev : Event) :
    Heaped (insert heap ev) ∧ (insert heap ev).tail.Perm (ev :: heap.tail) := by
  have unused := heaped.unused
  have behind : last (heap ++ [ev]) = last heap + 1 := by
    simp only [last, length_append, length_singleton]
    omega
  have before : Ordered Before (entry (heap ++ [ev])) (last heap) := by
    apply heaped.ordered.congr
    intro i one le
    have inside : i < heap.length := by
      unfold last at le
      omega
    simp [entry, getD_eq_getElem?_getD, getElem?_append_left inside]
  have rising := before.rising
  rw [← behind] at rising
  have inside : last heap + 1 < (heap ++ [ev]).length := by
    simp only [last, length_append, length_singleton]
    omega
  rw [← behind] at inside
  obtain ⟨result, perm⟩ := bottomUp_spec (by omega) inside (Nat.le_refl _) rising
  refine ⟨result, perm.trans ?_⟩
  cases heap with
  | nil => cases unused
  | cons entry rest => exact perm_append_singleton ev rest

theorem topDown_stays (rounds : Nat) (heap : Heap) (one : 1 ≤ index)
    (less : ∀ c, 2 ≤ c → c / 2 = index → c ≤ last heap → Before (entry heap index) (entry heap c)) :
    topDown rounds index heap = heap := by
  have child (c : Nat) (is : c = 2 * index ∨ c = 2 * index + 1) (inside : c < heap.length) :
      isLessStrictly heap index c = true :=
    isLessStrictly_iff.mpr (less c (by omega) (by omega) (Nat.le_sub_one_of_lt inside))
  cases rounds with
  | zero => rfl
  | succ rounds =>
    unfold topDown
    by_cases both : 2 * index + 1 < heap.length
    · have which := (smallest_spec heap (2 * index) (2 * index + 1)).1
      rw [if_pos both, if_pos (child _ which (by omega))]
    · rw [if_neg both]
      by_cases out : heap.length ≤ index
      · rw [if_pos out]
      by_cases leaf : heap.length ≤ 2 * index
      · rw [if_neg out, if_pos leaf]
      · simp [if_pos (child _ (.inl rfl) (by omega))]

/-- The heap with the last event in the place of another. -/
def popped (heap : Heap) (id : Nat) : Heap := (exch heap id (last heap)).dropLast

theorem length_popped (heap : Heap) (id : Nat) : (popped heap id).length = heap.length - 1 := by
  simp [popped, length_exch]

section
variable {heap : Heap} {id : Nat} (one : 1 ≤ id) (inside : id < heap.length)
include one inside

theorem entry_popped {i : Nat} (le : i < last heap) :
    entry (popped heap id) i = HeapOrder.exch (entry heap) id (last heap) i := by
  rw [← entry_exch inside (by unfold last; omega)]
  simp only [popped, entry, getD_eq_getElem?_getD, dropLast_eq_take, getElem?_take, length_exch]
  exact congrArg (Option.getD · emptyEvent) (if_pos le)

theorem tail_popped : heap.tail.Perm (entry heap id :: (popped heap id).tail) := by
  have bound : last heap < heap.length := by
    unfold last
    omega
  have swapped := tail_exch one (b := last heap) (by unfold last; omega) inside bound
  have moved : entry (exch heap id (last heap)) (last heap) = entry heap id := by
    rw [entry_exch inside bound, exch_right]
  have split : exch heap id (last heap) = popped heap id ++ [entry heap id] := by
    rw [← moved]
    have length : last heap = (exch heap id (last heap)).length - 1 := by
      rw [length_exch]
      rfl
    have nonempty : exch heap id (last heap) ≠ [] := by
      intro none
      have := congrArg List.length none
      rw [length_exch, length_nil] at this
      omega
    have final : entry (exch heap id (last heap)) (last heap) =
        (exch heap id (last heap)).getLast nonempty := by
      rw [entry, getD_eq_getElem?_getD, getLast_eq_getElem,
        getElem?_eq_getElem (by rwa [length_exch])]
      simp [← length]
    rw [final, popped, dropLast_append_getLast]
  have some : popped heap id ≠ [] := by
    intro none
    have := congrArg List.length none
    rw [length_popped heap id, length_nil] at this
    omega
  rw [split, tail_append_of_ne_nil some] at swapped
  exact swapped.symm.trans (perm_append_singleton _ _)

/-- **Taking out.** The order survives when the last event does not come before the parent of
the place. -/
theorem takeOut_spec (heaped : Heaped heap)
    (above : 2 ≤ id → id < last heap → ¬ Before (entry heap (last heap)) (entry heap (id / 2))) :
    Heaped (takeOut heap id) ∧ heap.tail.Perm (entry heap id :: (takeOut heap id).tail) := by
  have length := length_popped heap id
  have back : last heap = last (popped heap id) + 1 := by
    unfold last
    omega
  have ordered := heaped.ordered
  rw [back] at ordered
  have filled := ordered.fill (j := id) one
    (by rw [← back]; intro two le; exact above two (by omega)) before_weakOrder
  have sinking : Sinking Before (entry (popped heap id)) (last (popped heap id)) id := by
    apply filled.congr
    intro i _ le
    rw [← back]
    exact (entry_popped one inside (by omega)).symm
  have enough : (popped heap id).length ≤ id + (popped heap id).length := Nat.le_add_left _ _
  obtain ⟨result, perm⟩ := topDown_spec one (by omega) enough sinking
  exact ⟨result, (tail_popped one inside).trans (.cons _ perm.symm)⟩

/-- Else the event stays where it is out of order. -/
theorem takeOut_unordered (heaped : Heaped heap) (two : 2 ≤ id) (notLast : id < last heap)
    (before : Before (entry heap (last heap)) (entry heap (id / 2))) :
    ¬ Heaped (takeOut heap id) := by
  have length := length_popped heap id
  have back : last heap = last (popped heap id) + 1 := by
    unfold last at notLast ⊢
    omega
  have filled : entry (popped heap id) id = entry heap (last heap) := by
    rw [entry_popped one inside notLast, exch_left]
  have kept (i : Nat) (ne : i ≠ id) (le : i < last heap) :
      entry (popped heap id) i = entry heap i := by
    rw [entry_popped one inside le, exch_other ne (by omega)]
  have stays : takeOut heap id = popped heap id := by
    apply topDown_stays (popped heap id).length (popped heap id) one
    intro c two' child le
    rw [filled, kept c (by omega) (by omega)]
    by_contra after
    have lower := heaped.ordered c two' (by omega)
    rw [child] at lower
    have parent := heaped.ordered id two (by omega)
    exact before_weakOrder.not_trans _ _ _ after
      (before_weakOrder.not_trans _ _ _ lower parent) before
  rw [stays]
  intro again
  apply again.ordered id two (by omega)
  rwa [filled, kept (id / 2) (by omega) (by omega)]

end

theorem find_spec (stored : ev ∈ heap.tail) (distinct : (heap.tail.map (·.key.uid)).Nodup) :
    ∃ id, find heap ev.key.uid = some id ∧ 1 ≤ id ∧ id < heap.length ∧ entry heap id = ev := by
  obtain ⟨i, found⟩ : ∃ i, heap.tail.findIdx? (fun e => e.key.uid = ev.key.uid) = some i := by
    rw [← Option.isSome_iff_exists, findIdx?_isSome, any_eq_true]
    exact ⟨ev, stored, decide_eq_true rfl⟩
  obtain ⟨bound, same, -⟩ := findIdx?_eq_some_iff_getElem.mp found
  have bound' := bound
  rw [length_tail] at bound'
  refine ⟨i + 1, by simp [find, found], by omega, by omega, ?_⟩
  have eq : entry heap (i + 1) = heap.tail[i] := by
    rw [entry, getD_eq_getElem?_getD, getElem?_eq_getElem (by omega), getElem_tail]
    rfl
  rw [eq]
  exact inj_on_of_nodup_map distinct (getElem_mem bound) stored (of_decide_eq_true same)

/-! ## Runs -/

/-- The last event may take the place of the event that is removed. -/
def Fits (heap : Heap) : HeapEvent → Prop
  | .remove ev => ∀ id, find heap ev.key.uid = some id → 2 ≤ id → id < last heap →
      ¬ Before (entry heap (last heap)) (entry heap (id / 2))
  | _ => True

instance (heap : Heap) (id : Nat) :
    Decidable (Before (entry heap (last heap)) (entry heap (id / 2))) :=
  inferInstanceAs (Decidable (Lt _ _))

/-- `Fits` as a test. -/
def fits (heap : Heap) : HeapEvent → Bool
  | .remove ev => (find heap ev.key.uid).all fun id =>
      2 ≤ id → id < last heap → ¬ Before (entry heap (last heap)) (entry heap (id / 2))
  | _ => true

theorem fits_sound (heap : Heap) (event : HeapEvent) (ok : fits heap event = true) :
    Fits heap event := by
  cases event with
  | remove ev =>
    intro id found
    simp only [fits, found] at ok
    exact of_decide_eq_true ok
  | _ => exact trivial

/-- The heap holds the events that are stored. -/
structure Holds (heap : Heap) (stored : List Event) : Prop where
  heaped : Heaped heap
  perm : heap.tail.Perm stored
  distinct : (stored.map (·.key.uid)).Nodup

theorem first_spec (stored : List Event) : (first stored = none ∧ stored = []) ∨
    ∃ e, first stored = some e ∧ e ∈ stored ∧ ∀ e' ∈ stored, ¬ Before e' e := by
  induction stored with
  | nil => exact .inl ⟨rfl, rfl⟩
  | cons e rest ih =>
    right
    unfold first
    obtain ⟨none, rfl⟩ | ⟨least, found, member, before⟩ := ih
    · rw [none]
      refine ⟨e, rfl, mem_cons_self, ?_⟩
      intro e' member
      rw [mem_singleton.mp member]
      exact lt_irrefl _
    · rw [found]
      dsimp only
      by_cases less : least.key.Lt e.key
      · rw [if_pos less]
        refine ⟨least, rfl, mem_cons_of_mem _ member, ?_⟩
        intro e' member'
        rcases mem_cons.mp member' with rfl | inRest
        · exact before_weakOrder.asymm _ _ less
        · exact before e' inRest
      · rw [if_neg less]
        refine ⟨e, rfl, mem_cons_self, ?_⟩
        intro e' member'
        rcases mem_cons.mp member' with rfl | inRest
        · exact lt_irrefl _
        · exact before_weakOrder.not_trans _ _ _ (before e' inRest) less

theorem Holds.first {stored : List Event} (holds : Holds heap stored) {next : Event}
    (is : first stored = some next) :
    heap[1]? = some next ∧ 1 < heap.length ∧ entry heap 1 = next := by
  obtain ⟨none, -⟩ | ⟨least, found, member, before⟩ := first_spec stored
  · exact nomatch none.symm.trans is
  cases found.symm.trans is
  have more : 1 < heap.length := by
    have length := length_pos_of_mem (holds.perm.mem_iff.mpr member)
    rw [length_tail] at length
    omega
  have root : heap[1]? = some (entry heap 1) := by
    rw [entry, getD_eq_getElem?_getD, getElem?_eq_getElem more]
    rfl
  have inTail : ∀ i, 1 ≤ i → i < heap.length → entry heap i ∈ heap.tail := by
    intro i one bound
    rw [entry, getD_eq_getElem?_getD, getElem?_eq_getElem bound, Option.getD_some]
    exact mem_iff_getElem.mpr ⟨i - 1, by rw [length_tail]; omega, by
      rw [getElem_tail]
      congr 1
      omega⟩
  have rootStored := holds.perm.mem_iff.mp (inTail 1 (Nat.le_refl _) more)
  obtain ⟨i, bound, at_⟩ := mem_iff_getElem.mp (holds.perm.mem_iff.mpr member)
  rw [getElem_tail] at at_
  rw [length_tail] at bound
  have least_ : entry heap (i + 1) = next := by
    rw [entry, getD_eq_getElem?_getD, getElem?_eq_getElem (by omega), ← at_]
    rfl
  have order := holds.heaped.ordered.first before_weakOrder (i := i + 1) (by omega)
    (by unfold last; omega)
  rw [least_] at order
  have sameUid : (entry heap 1).key.uid = next.key.uid := by
    have other := before _ rootStored
    unfold Before Lt at order other
    omega
  have same := inj_on_of_nodup_map holds.distinct rootStored member sameUid
  exact ⟨same ▸ root, more, same⟩

theorem Holds.leave {heap' : Heap} {stored : List Event} (holds : Holds heap stored)
    (heaped : Heaped heap') (member : ev ∈ stored) (perm : heap.tail.Perm (ev :: heap'.tail)) :
    Holds heap' (stored.erase ev) where
  heaped := heaped
  perm := by
    have both := (holds.perm.symm.trans perm).symm.trans (perm_cons_erase member)
    exact both.cons_inv
  distinct := (holds.distinct).sublist (erase_sublist.map _)

/-- **A step.** -/
theorem heap_refines : Machine.Refines step queueStep Fits Holds := by
  intro heap stored event stored' out holds fits done
  cases event with
  | insert ev =>
    simp only [queueStep, Option.ite_none_left_eq_some] at done
    obtain ⟨new, eq⟩ := done
    cases eq
    obtain ⟨heaped, perm⟩ := insert_spec holds.heaped ev
    refine ⟨_, rfl, heaped, perm.trans (holds.perm.cons ev), ?_⟩
    rw [map_cons, nodup_cons]
    exact ⟨new, holds.distinct⟩
  | peekNext =>
    obtain ⟨next, is, eq⟩ := Option.bind_eq_some_iff.mp done
    cases eq
    obtain ⟨root, -, -⟩ := holds.first is
    refine ⟨heap, ?_, holds⟩
    simp [step, peekNext, root]
  | removeNext =>
    obtain ⟨next, is, eq⟩ := Option.bind_eq_some_iff.mp done
    cases eq
    obtain ⟨root, some, same⟩ := holds.first is
    obtain ⟨heaped, perm⟩ := takeOut_spec (Nat.le_refl 1) some holds.heaped (by omega)
    rw [same] at perm
    refine ⟨takeOut heap 1, ?_, holds.leave heaped ?_ perm⟩
    · simp [step, removeNext, root]
    · exact holds.perm.mem_iff.mp (perm.mem_iff.mpr mem_cons_self)
  | remove ev =>
    simp only [queueStep, Option.ite_none_right_eq_some] at done
    obtain ⟨member, eq⟩ := done
    cases eq
    have distinct := (holds.perm.map (·.key.uid)).nodup_iff.mpr holds.distinct
    obtain ⟨id, found, one, inside, same⟩ := find_spec (holds.perm.mem_iff.mpr member) distinct
    obtain ⟨heaped, perm⟩ := takeOut_spec one inside holds.heaped (fits id found)
    rw [same] at perm
    refine ⟨takeOut heap id, ?_, holds.leave heaped member perm⟩
    simp [step, remove, found]

theorem holds_create : Holds create [] where
  heaped := ⟨by decide, fun i two le => absurd le (by
    have : last create = 0 := rfl
    omega)⟩
  perm := .refl _
  distinct := .nil

/-- A removal keeps the order exactly when the last event fits. -/
theorem remove_heaped_iff (heaped : Heaped heap) (distinct : (heap.tail.map (·.key.uid)).Nodup)
    (stored : ev ∈ heap.tail) :
    Heaped (remove heap ev) ↔ Fits heap (.remove ev) := by
  obtain ⟨id, found, one, inside, -⟩ := find_spec stored distinct
  have is : remove heap ev = takeOut heap id := by rw [remove, found]
  rw [is]
  constructor
  · intro after id' found' two notLast before
    cases found.symm.trans found'
    exact takeOut_unordered one inside heaped two notLast before after
  · intro fits
    exact (takeOut_spec one inside heaped (fits id found)).1

/-- **The heap is a priority queue** in runs where the last event fits at each removal, and in
what such a run comes to, the order survives a removal only then. -/
theorem heap_is_queue {events : List HeapEvent} {stored out : List Event}
    (meets : Machine.Meets step Fits create events)
    (run : Machine.run queueStep [] events = some (stored, out)) :
    ∃ heap, Machine.run step create events = some (heap, out) ∧ Holds heap stored ∧
      ∀ ev ∈ stored, (Heaped (remove heap ev) ↔ Fits heap (.remove ev)) := by
  obtain ⟨heap, done, holds⟩ := heap_refines.run holds_create meets run
  refine ⟨heap, done, holds, ?_⟩
  intro ev mem
  apply remove_heaped_iff holds.heaped
  · exact (holds.perm.map (·.key.uid)).nodup_iff.mpr holds.distinct
  · exact holds.perm.mem_iff.mpr mem

/-- An event at a time. -/
def timed (ts : Nat) : Event := ⟨ts, ⟨ts, ts + 4, 0⟩⟩

def inserts (times : List Nat) : List HeapEvent := times.map fun ts => .insert (timed ts)

/-- The last event is before none of the places it takes. -/
theorem removals_answered : ∃ heap, Machine.run step create
        (inserts [1, 3, 2, 11, 12, 10] ++ [.remove (timed 11), .removeNext, .peekNext]) =
      some (heap, [timed 1, timed 2]) ∧
    Holds heap [timed 10, timed 12, timed 2, timed 3] ∧
    (Heaped (remove heap (timed 3)) ↔ Fits heap (.remove (timed 3))) := by
  have meets : Machine.Meets step Fits create
      (inserts [1, 3, 2, 11, 12, 10] ++ [.remove (timed 11), .removeNext, .peekNext]) :=
    .of_checks fits_sound (by decide)
  have queue : Machine.run queueStep []
      (inserts [1, 3, 2, 11, 12, 10] ++ [.remove (timed 11), .removeNext, .peekNext]) =
      some ([timed 10, timed 12, timed 2, timed 3], [timed 1, timed 2]) := by decide
  obtain ⟨heap, run, holds, removals⟩ := heap_is_queue meets queue
  exact ⟨heap, run, holds, removals (timed 3) (by decide)⟩

/-- The event at 3 takes the place of the one at 11 below the one at 10, and the heap hands
out the event at 10 before it. -/
theorem removal_breaks_order :
    let events := inserts [1, 10, 2, 11, 12, 3] ++ .remove (timed 11) :: inserts [20, 21] ++
      [.removeNext, .removeNext, .removeNext]
    (Machine.run queueStep [] events).map Prod.snd = some [timed 1, timed 2, timed 3] ∧
    (Machine.run step create events).map Prod.snd = some [timed 1, timed 2, timed 10] := by
  decide

end Ns3.Core.HeapScheduler
