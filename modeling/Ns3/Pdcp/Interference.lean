import Ns3.Library.Machine
import Ns3.Pdcp.Entity

/-!
# Entities that share the bitmap

All receiving entities of a simulation read and write one bitmap, whose rows
are RNTIs: uplink, downlink and the other bearers of a UE share a row.
-/

namespace Ns3.Pdcp

variable {Sdu : Type}

structure Simulation where
  entities : Nat → LtePdcp
  numbers : PdcpSequenceNumbers

/-- One `DoReceivePdu` of one of the entities. -/
structure Call (Sdu : Type) where
  entity : Nat
  now : Time
  pdu : PdcpPdu Sdu

/-- An SDU handed up, with the entity that did so. -/
abbrev Delivery (Sdu : Type) := Nat × Sdu

def Simulation.receive (s : Simulation) (call : Call Sdu) :
    Option (Simulation × List (Delivery Sdu)) :=
  ((s.entities call.entity).doReceivePdu s.numbers call.now call.pdu).map
    fun (pdcp, numbers, handed) =>
      (⟨fun i => if i = call.entity then pdcp else s.entities i, numbers⟩,
        handed.toList.map fun sdu => (call.entity, sdu))

/-- What an entity hands up over a run of the simulation. -/
def Simulation.deliveredBy (s : Simulation) (entity : Nat) (calls : List (Call Sdu)) :
    Option (List (Delivery Sdu)) :=
  (Machine.run Simulation.receive s calls).map fun (_, handed) =>
    handed.filter fun d => d.1 == entity

theorem receive_cases {s s' : Simulation} {call : Call Sdu} {handed : List (Delivery Sdu)}
    (h : s.receive call = some (s', handed)) :
    ∃ pdcp numbers out, (s.entities call.entity).doReceivePdu s.numbers call.now call.pdu =
        some (pdcp, numbers, out) ∧
      s' = ⟨fun i => if i = call.entity then pdcp else s.entities i, numbers⟩ ∧
      handed = out.toList.map fun sdu => (call.entity, sdu) := by
  simp only [Simulation.receive, Option.map_eq_some_iff] at h
  obtain ⟨⟨pdcp, numbers, out⟩, received, done⟩ := h
  obtain ⟨rfl, rfl⟩ := by simpa using done
  exact ⟨pdcp, numbers, out, received, rfl, rfl⟩

/-! ## What a reception reads and writes -/

theorem doReceivePdu_reads (pdcp : LtePdcp) {numbers numbers' : PdcpSequenceNumbers}
    (now : Time) (p : PdcpPdu Sdu) (same : numbers pdcp.rnti = numbers' pdcp.rnti) :
    (pdcp.doReceivePdu numbers now p).map (fun r => (r.1, r.2.1 pdcp.rnti, r.2.2)) =
    (pdcp.doReceivePdu numbers' now p).map (fun r => (r.1, r.2.1 pdcp.rnti, r.2.2)) := by
  simp only [LtePdcp.doReceivePdu, same]
  split_ifs <;> simp [same, PdcpSequenceNumbers.setRow]

theorem doReceivePdu_writes {pdcp pdcp' : LtePdcp} {numbers numbers' : PdcpSequenceNumbers}
    {now : Time} {p : PdcpPdu Sdu} {out : Option Sdu}
    (h : pdcp.doReceivePdu numbers now p = some (pdcp', numbers', out)) {rnti : Nat}
    (other : rnti ≠ pdcp.rnti) : numbers' rnti = numbers rnti := by
  simp only [LtePdcp.doReceivePdu] at h
  split_ifs at h
  · cases h
    rfl
  · cases h
    rfl
  · cases h
    exact if_neg other

/-! ## One RNTI does not hear another -/

/-- The entities and the row of one RNTI are the same in both simulations.
No entity ever changes its RNTI. -/
structure SameRnti (rnti : Nat) (rntis : Nat → Nat) (s t : Simulation) : Prop where
  left : ∀ i, (s.entities i).rnti = rntis i
  right : ∀ i, (t.entities i).rnti = rntis i
  entities : ∀ i, rntis i = rnti → s.entities i = t.entities i
  row : s.numbers rnti = t.numbers rnti

theorem receive_rnti {s s' : Simulation} {call : Call Sdu} {handed : List (Delivery Sdu)}
    (h : s.receive call = some (s', handed)) (i : Nat) :
    (s'.entities i).rnti = (s.entities i).rnti := by
  obtain ⟨pdcp, numbers, out, received, rfl, -⟩ := receive_cases h
  by_cases hi : i = call.entity
  · subst hi
    simpa using (doReceivePdu_spec received).1
  · simp [hi]

theorem sameRnti_unwinding (entity : Nat) (rntis : Nat → Nat) :
    Machine.Unwinding (@Simulation.receive Sdu) (fun c => rntis c.entity == rntis entity)
      (fun d => d.1 == entity) (SameRnti (rntis entity) rntis) where
  hidden := by
    intro s t call s' out view unseen here
    have frame := receive_rnti here
    obtain ⟨pdcp, numbers, handed, received, rfl, rfl⟩ := receive_cases here
    have other : rntis entity ≠ (s.entities call.entity).rnti := by
      rw [view.left]
      exact fun h => by simp [h] at unseen
    refine ⟨⟨fun i => (frame i).trans (view.left i), view.right, ?_, ?_⟩, ?_⟩
    · intro i hi
      have away : i ≠ call.entity := by
        rintro rfl
        exact other (by rw [view.left, hi])
      simpa [away] using view.entities i hi
    · exact (doReceivePdu_writes received other).trans view.row
    · have away : call.entity ≠ entity := by
        rintro rfl
        simp at unseen
      simp [away]
  shown := by
    intro s t call s' out view seen here
    have frame := receive_rnti here
    obtain ⟨pdcp, numbers, handed, received, rfl, rfl⟩ := receive_cases here
    have mine : rntis call.entity = rntis entity := by simpa using seen
    have same := view.entities call.entity mine
    have rnti : (s.entities call.entity).rnti = rntis entity := (view.left _).trans mine
    have sameRow : s.numbers (s.entities call.entity).rnti =
        t.numbers (s.entities call.entity).rnti := by rw [rnti, view.row]
    have reads := doReceivePdu_reads (s.entities call.entity) call.now call.pdu sameRow
    rw [received, same] at reads
    rw [Option.map_some, eq_comm, Option.map_eq_some_iff] at reads
    obtain ⟨⟨pdcp', numbers', handed'⟩, there, done⟩ := reads
    obtain ⟨rfl, row, rfl⟩ := by simpa using done
    have step : t.receive call = some (⟨fun i => if i = call.entity then pdcp' else t.entities i,
        numbers'⟩, handed'.toList.map fun sdu => (call.entity, sdu)) := by
      simp [Simulation.receive, there]
    refine ⟨_, _, step, ⟨fun i => (frame i).trans (view.left i),
      fun i => (receive_rnti step i).trans (view.right i), ?_, ?_⟩, rfl⟩
    · intro i hi
      by_cases hcall : i = call.entity
      · simp [hcall]
      · simpa [hcall] using view.entities i hi
    · rw [← same, rnti] at row
      exact row.symm

/-- The bitmap has a row for the RNTI of every entity that is called. -/
def Inside (s : Simulation) (calls : List (Call Sdu)) : Prop :=
  ∀ c ∈ calls, (s.entities c.entity).rnti < 100

instance (s : Simulation) (calls : List (Call Sdu)) : Decidable (Inside s calls) :=
  inferInstanceAs (Decidable (∀ c ∈ calls, (s.entities c.entity).rnti < 100))

theorem receive_isSome (s : Simulation) (call : Call Sdu)
    (inside : (s.entities call.entity).rnti < 100) : (s.receive call).isSome = true := by
  simp only [Simulation.receive, Option.isSome_map]
  exact doReceivePdu_isSome _ _ _ inside

theorem run_isSome {s : Simulation} {calls : List (Call Sdu)} (inside : Inside s calls) :
    (Machine.run Simulation.receive s calls).isSome = true := by
  induction calls generalizing s with
  | nil => rfl
  | cons call calls ih =>
    have defined := receive_isSome s call (inside call (by simp))
    obtain ⟨⟨s', handed⟩, here⟩ := Option.isSome_iff_exists.mp defined
    have later : (Machine.run Simulation.receive s' calls).isSome = true := by
      apply ih
      intro c hc
      rw [receive_rnti here]
      exact inside c (by simp [hc])
    obtain ⟨⟨s'', rest⟩, there⟩ := Option.isSome_iff_exists.mp later
    rw [Machine.run_of_step here there]
    rfl

/-- **One RNTI.** What an entity hands up depends on the calls of the entities
of its RNTI only, and on its own only when no other entity has that RNTI. -/
theorem deliveredBy_own_rnti (s : Simulation) (entity : Nat) (calls : List (Call Sdu))
    (inside : Inside s calls) :
    (s.deliveredBy entity calls).isSome = true ∧
    s.deliveredBy entity calls = s.deliveredBy entity
      (calls.filter fun c => (s.entities c.entity).rnti == (s.entities entity).rnti) ∧
    ((∀ c ∈ calls, (s.entities c.entity).rnti = (s.entities entity).rnti → c.entity = entity) →
      s.deliveredBy entity calls =
        s.deliveredBy entity (calls.filter fun c => c.entity == entity)) := by
  obtain ⟨⟨s', handed⟩, run⟩ := Option.isSome_iff_exists.mp (run_isSome inside)
  have own : s.deliveredBy entity calls = s.deliveredBy entity
      (calls.filter fun c => (s.entities c.entity).rnti == (s.entities entity).rnti) := by
    obtain ⟨t', handed', there, -, same⟩ :=
      (sameRnti_unwinding entity fun i => (s.entities i).rnti).run_visible
        ⟨fun _ => rfl, fun _ => rfl, fun _ _ => rfl, rfl⟩ run
    simp [Simulation.deliveredBy, run, there, same]
  refine ⟨by simp [Simulation.deliveredBy, run], own, ?_⟩
  intro lone
  rw [own]
  congr 1
  apply List.filter_congr
  intro c hc
  apply Bool.eq_iff_iff.mpr
  simp only [beq_iff_eq]
  exact ⟨lone c hc, fun h => by rw [h]⟩

/-- Three bearers: entities 0 and 1 belong to RNTI 1, the others to RNTI 2. -/
def bearers : Simulation where
  entities i := .create (if i < 2 then 1 else 2) (3 + i) 0 0 true
  numbers := fun _ _ => false

/-- The first PDU of entity 2, and the first ones of two entities with RNTI 1. -/
def firstPdus : List (Call Nat) :=
  [⟨2, 0, ⟨⟨.dataPdu, 0⟩, 0, 9⟩⟩, ⟨0, 0, ⟨⟨.dataPdu, 0⟩, 0, 7⟩⟩, ⟨1, 0, ⟨⟨.dataPdu, 0⟩, 0, 8⟩⟩]

/-- Entity 2 is alone on its RNTI. -/
theorem lone_bearer_unaffected : bearers.deliveredBy 2 firstPdus = some [(2, 9)] :=
  ((deliveredBy_own_rnti bearers 2 firstPdus (by decide)).2.2 (by decide)).trans (by decide)

/-- The mark of entity 0 makes the first PDU of entity 1 a duplicate. -/
theorem sibling_bearer_silenced :
    ¬ ∀ (entity : Nat) (calls : List (Call Nat)), Inside bearers calls →
      bearers.deliveredBy entity calls =
        bearers.deliveredBy entity (calls.filter fun c => c.entity == entity) := by
  intro alone
  have same := alone 1 firstPdus (by decide)
  exact absurd same (by decide)

end Ns3.Pdcp
