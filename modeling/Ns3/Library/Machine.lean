import Mathlib.Data.List.Basic

/-!
# Runs of a partial machine

A machine takes an event, may fail, and answers with outputs. An observer sees
some of the events and some of the outputs. A machine refines another that
answers alike.
-/

namespace Machine

open List

variable {State Event Output : Type}

/-- The run over a list of events, with the outputs in order. -/
def run (step : State → Event → Option (State × List Output)) :
    State → List Event → Option (State × List Output)
  | s, [] => some (s, [])
  | s, e :: events => do
    let (s', first) ← step s e
    let (s'', rest) ← run step s' events
    return (s'', first ++ rest)

variable {step : State → Event → Option (State × List Output)}

variable {s s'' s' : State} {e : Event} {events : List Event} {out : List Output}
  {allowed : State → Event → Prop}

theorem run_cons {outputs : List Output} (h : run step s (e :: events) = some (s'', outputs)) :
    ∃ s' first rest, step s e = some (s', first) ∧ run step s' events = some (s'', rest) ∧
      outputs = first ++ rest := by
  simp only [run, Option.bind_eq_bind, Option.bind_eq_some_iff] at h
  obtain ⟨⟨s', first⟩, here, ⟨last, rest⟩, later, done⟩ := h
  obtain ⟨rfl, rfl⟩ := by simpa using done
  exact ⟨s', first, rest, here, later, rfl⟩

theorem run_of_step {first rest : List Output} (here : step s e = some (s', first))
    (later : run step s' events = some (s'', rest)) :
    run step s (e :: events) = some (s'', first ++ rest) := by simp [run, here, later]

theorem run_append {more : List Event} {first rest : List Output}
    (here : run step s events = some (s', first)) (later : run step s' more = some (s'', rest)) :
    run step s (events ++ more) = some (s'', first ++ rest) := by
  induction events generalizing s first with
  | nil =>
    obtain ⟨rfl, rfl⟩ := by simpa [run] using here
    exact later
  | cons e events ih =>
    obtain ⟨mid, one, others, head, tail, rfl⟩ := run_cons here
    rw [append_assoc]
    exact run_of_step head (ih tail)

theorem run_single (here : step s e = some (s', out)) : run step s [e] = some (s', out) := by
  simp [run, here]

/-- Two states that look the same to the observer: an event it does not see
changes neither, and one it sees changes both alike. -/
structure Unwinding (step : State → Event → Option (State × List Output))
    (visible : Event → Bool) (heard : Output → Bool) (View : State → State → Prop) : Prop where
  hidden : ∀ s t e s' out, View s t → visible e = false → step s e = some (s', out) →
    View s' t ∧ out.filter heard = []
  shown : ∀ s t e s' out, View s t → visible e = true → step s e = some (s', out) →
    ∃ t' out', step t e = some (t', out') ∧ View s' t' ∧ out.filter heard = out'.filter heard

/-- The observer hears the same from a run and from the run of the events it sees. -/
theorem Unwinding.run_visible {visible : Event → Bool} {heard : Output → Bool}
    {View : State → State → Prop} (unwinding : Unwinding step visible heard View) {t : State}
    (view : View s t) (h : run step s events = some (s', out)) :
    ∃ t' out', run step t (events.filter visible) = some (t', out') ∧ View s' t' ∧
      out.filter heard = out'.filter heard := by
  induction events generalizing s t out with
  | nil =>
    obtain ⟨rfl, rfl⟩ := by simpa [run] using h
    exact ⟨t, [], rfl, view, rfl⟩
  | cons e events ih =>
    obtain ⟨mid, first, rest, here, later, rfl⟩ := run_cons h
    cases seen : visible e with
    | false =>
      obtain ⟨view', silent⟩ := unwinding.hidden _ _ _ _ _ view seen here
      obtain ⟨t', out', ht, hview, heq⟩ := ih view' later
      refine ⟨t', out', ?_, hview, ?_⟩
      · rwa [filter_cons_of_neg (by simp [seen])]
      · simp [silent, heq]
    | true =>
      obtain ⟨mid', first', there, view', same⟩ := unwinding.shown _ _ _ _ _ view seen here
      obtain ⟨t', rest', ht, hview, heq⟩ := ih view' later
      refine ⟨t', first' ++ rest', ?_, hview, ?_⟩
      · rw [filter_cons_of_pos seen]
        exact run_of_step there ht
      · simp [same, heq]

/-- Each event is allowed when its turn comes. -/
inductive Meets (step : State → Event → Option (State × List Output))
    (allowed : State → Event → Prop) : State → List Event → Prop where
  | nil {s : State} : Meets step allowed s []
  | cons {s : State} {e : Event} {events : List Event} : allowed s e →
      (∀ s' out, step s e = some (s', out) → Meets step allowed s' events) →
      Meets step allowed s (e :: events)

/-- Whether a run meets a test at each event. -/
def checks (step : State → Event → Option (State × List Output)) (ok : State → Event → Bool) :
    State → List Event → Bool
  | _, [] => true
  | s, e :: events => ok s e && match step s e with
    | none => true
    | some (s', _) => checks step ok s' events

theorem Meets.of_checks {ok : State → Event → Bool} (sound : ∀ s e, ok s e = true → allowed s e)
    (h : checks step ok s events = true) : Meets step allowed s events := by
  induction events generalizing s with
  | nil => exact .nil
  | cons e events ih =>
    obtain ⟨here, later⟩ := Bool.and_eq_true_iff.mp h
    refine .cons (sound s e here) ?_
    intro s' out done
    rw [done] at later
    exact ih later

theorem Meets.of_always (always : ∀ s e, allowed s e) (events : List Event) :
    Meets step allowed s events := by
  induction events generalizing s with
  | nil => exact .nil
  | cons e events ih => exact .cons (always s e) fun _ _ _ => ih

theorem Meets.of_forall {allowed : Event → Prop} (all : ∀ e ∈ events, allowed e) :
    Meets step (fun _ => allowed) s events := by
  induction events generalizing s with
  | nil => exact .nil
  | cons e events ih =>
    obtain ⟨here, later⟩ := forall_mem_cons.mp all
    exact .cons here fun _ _ _ => ih later

theorem outputs_cons (s : State) (e : Event) (events : List Event) :
    (run step s (e :: events)).map Prod.snd = (step s e).bind fun next =>
        ((run step next.1 events).map Prod.snd).map (next.2 ++ ·) := by
  simp only [run]
  cases step s e with
  | none => rfl
  | some next => cases h : run step next.1 events <;> simp [h]

/-- A run that answers as the first one does at each event, from states that stay related. -/
theorem run_alike {Other Event' : Type} {step' : Other → Event' → Option (Other × List Output)}
    {Rel : State → Other → Prop} (image : Event → Event')
    {t : Other}
    (alike : ∀ s t, ∀ e ∈ events, Rel s t → allowed s e →
      Option.Rel (fun first second => Rel first.1 second.1 ∧ first.2 = second.2) (step s e)
        (step' t (image e)))
    (related : Rel s t) (meets : Meets step allowed s events) :
    (run step' t (events.map image)).map Prod.snd = (run step s events).map Prod.snd := by
  induction meets generalizing t with
  | nil => rfl
  | @cons s e events here later ih =>
    have first := alike s t e mem_cons_self related here
    rw [map_cons, outputs_cons, outputs_cons]
    revert first later ih
    cases step s e <;> cases step' t (image e) <;> intro later ih first
    · rfl
    · cases first
    · cases first
    · obtain ⟨kept, answers⟩ := Option.rel_some_some.mp first
      have rest := ih _ _ rfl (fun s t e mem => alike s t e (mem_cons_of_mem _ mem)) kept
      rw [Option.bind_some, Option.bind_some, rest, answers]

variable {Spec : Type} {spec : Spec → Event → Option (Spec × List Output)}
  {allowed : State → Event → Prop}

/-- What the specification can do on an allowed event, the machine does, with
the same answers. -/
def Refines (step : State → Event → Option (State × List Output))
    (spec : Spec → Event → Option (Spec × List Output)) (allowed : State → Event → Prop)
    (Rel : State → Spec → Prop) : Prop :=
  ∀ s t e t' out, Rel s t → allowed s e → spec t e = some (t', out) →
    ∃ s', step s e = some (s', out) ∧ Rel s' t'

theorem Refines.run {Rel : State → Spec → Prop} (refines : Refines step spec allowed Rel)
    {t t' : Spec} (related : Rel s t) (meets : Meets step allowed s events)
    (h : run spec t events = some (t', out)) :
    ∃ s', run step s events = some (s', out) ∧ Rel s' t' := by
  induction events generalizing s t out with
  | nil =>
    obtain ⟨rfl, rfl⟩ := by simpa [Machine.run] using h
    exact ⟨s, rfl, related⟩
  | cons e events ih =>
    cases meets with
    | cons ok later =>
      obtain ⟨mid, first, rest, here, after, rfl⟩ := run_cons h
      obtain ⟨s', done, related'⟩ := refines _ _ _ _ _ related ok here
      obtain ⟨s'', run, related''⟩ := ih related' (later _ _ done) after
      exact ⟨s'', run_of_step done run, related''⟩

end Machine

/-!
## States a partial machine reaches

The step takes an event and may fail. What is proved of one allowed step holds
of every state a run of allowed steps comes to.
-/

namespace Machine

variable {State Event : Type}

/-- The states that allowed events lead to. -/
inductive Reaches (step : State → Event → Option State) (allowed : State → Event → Prop)
    (Start : State → Prop) : State → Prop where
  | start {s : State} : Start s → Reaches step allowed Start s
  | next {s s' : State} {e : Event} : Reaches step allowed Start s → allowed s e →
      step s e = some s' → Reaches step allowed Start s'

variable {step : State → Event → Option State} {allowed : State → Event → Prop}
  {Start : State → Prop}

theorem Reaches.invariant {s : State} (reaches : Reaches step allowed Start s)
    (Inv : State → Prop) (starts : ∀ s, Start s → Inv s)
    (keeps : ∀ s e s', Inv s → allowed s e → step s e = some s' → Inv s') : Inv s := by
  induction reaches with
  | start first => exact starts _ first
  | next _ may here ih => exact keeps _ _ _ ih may here

/-- A run that stops at the first event that is not allowed. -/
def runAllowed (step : State → Event → Option State) (allowed : State → Event → Prop)
    [∀ s e, Decidable (allowed s e)] : State → List Event → Option State
  | s, [] => some s
  | s, e :: events =>
    if allowed s e then (step s e).bind fun s' => runAllowed step allowed s' events else none

theorem Reaches.of_runAllowed [∀ s e, Decidable (allowed s e)] {s s' : State} {events : List Event}
    (reaches : Reaches step allowed Start s) (run : runAllowed step allowed s events = some s') :
    Reaches step allowed Start s' := by
  induction events generalizing s with
  | nil =>
    cases run
    exact reaches
  | cons e events ih =>
    rw [runAllowed, Option.ite_none_right_eq_some, Option.bind_eq_some_iff] at run
    obtain ⟨may, next, here, rest⟩ := run
    exact ih (reaches.next may here) rest

end Machine
