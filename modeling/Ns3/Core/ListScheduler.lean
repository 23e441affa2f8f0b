import Ns3.Core.SimulatorEvents

/-!
# `ListScheduler`

It keeps its events sorted, so it is a priority queue.
-/

namespace Ns3.Core

open List

/-- No event is before an earlier one. -/
def InOrder (events : List Event) : Prop := events.Pairwise fun a b => ¬ b.key.Lt a.key

structure ListScheduler where
  events : List Event
  inOrder : InOrder events

namespace ListScheduler

def listInsert (ev : Event) : List Event → List Event
  | [] => [ev]
  | e :: rest => if ev.key.Lt e.key then ev :: e :: rest else e :: listInsert ev rest

theorem listInsert_perm (ev : Event) (events : List Event) :
    (listInsert ev events).Perm (ev :: events) := by
  induction events with
  | nil => exact .refl _
  | cons e rest ih =>
    rw [listInsert]
    split
    · exact .refl _
    · exact (ih.cons e).trans (.swap ev e rest)

theorem listInsert_inOrder (ev : Event) {events : List Event} (inOrder : InOrder events) :
    InOrder (listInsert ev events) := by
  induction events with
  | nil => exact pairwise_singleton _ _
  | cons e rest ih =>
    obtain ⟨first, others⟩ := pairwise_cons.1 inOrder
    rw [listInsert]
    split
    case isTrue before =>
      refine pairwise_cons.2 ⟨?_, inOrder⟩
      intro x mem back
      rcases mem_cons.1 mem with rfl | mem
      · exact EventKey.lt_irrefl _ (before.trans back)
      · exact first x mem (back.trans before)
    case isFalse not_before =>
      refine pairwise_cons.2 ⟨?_, ih others⟩
      intro x mem
      rcases mem_cons.1 ((listInsert_perm ev rest).mem_iff.1 mem) with rfl | mem
      · exact not_before
      · exact first x mem

/-- The event with the uid leaves. -/
def listRemove (ev : Event) (events : List Event) : List Event :=
  events.eraseP fun e => e.key.uid = ev.key.uid

theorem listRemove_perm {ev : Event} {events : List Event} (mem : ev ∈ events)
    (once : (events.map fun e => e.key.uid).Nodup) :
    events.Perm (ev :: listRemove ev events) := by
  induction events with
  | nil => cases mem
  | cons e rest ih =>
    rw [map_cons, nodup_cons] at once
    rw [listRemove]
    rcases mem_cons.1 mem with rfl | mem
    · rw [eraseP_cons_of_pos (by simp)]
    · have differ : e.key.uid ≠ ev.key.uid := by
        intro same
        exact once.1 (same ▸ mem_map_of_mem mem)
      rw [eraseP_cons_of_neg (by simpa using differ)]
      exact ((ih mem once.2).cons e).trans (.swap ev e _)

/-- `ListScheduler` as a scheduler. -/
def scheduler : Scheduler ListScheduler where
  empty := ⟨[], .nil⟩
  insert ev l := ⟨listInsert ev l.events, listInsert_inOrder ev l.inOrder⟩
  isEmpty l := l.events.isEmpty
  removeNext
    | ⟨[], _⟩ => none
    | ⟨next :: rest, inOrder⟩ => some (next, ⟨rest, inOrder.of_cons⟩)
  remove ev l := ⟨listRemove ev l.events, l.inOrder.sublist eraseP_sublist⟩
  contents l := l.events
  contents_empty := rfl
  contents_insert ev l := listInsert_perm ev l.events
  isEmpty_iff _ := List.isEmpty_iff
  removeNext_least
    | ⟨[], _⟩, nonempty => absurd rfl nonempty
    | ⟨next :: rest, inOrder⟩, _ =>
      ⟨next, ⟨rest, inOrder.of_cons⟩, rfl, .refl _, (pairwise_cons.1 inOrder).1⟩
  contents_remove _ _ mem once := listRemove_perm mem once

end ListScheduler

end Ns3.Core
