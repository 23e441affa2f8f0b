import Ns3.Rlc.TmOrder

/-!
# Repetitions in a transmission buffer

Which entries the loop of `LteRlcTm` and `LteRlcUm` takes for repetitions. Neither
the table nor the sequence number of a tag is written before it is read, and
numbers share an entry of the table.
-/

namespace Ns3.Rlc

open List

namespace LteRlcTm

/-- What the tag of an entry gives, as an index of the table. -/
def Memory.residue (m : Memory) (i : Nat) : Nat := m.tags.getD i 0 % 100

/-- The loop over numbered entries. -/
def numberedLoop (m : Memory) (txBuffer : List TxPdu) :
    List (TxPdu × Nat) × List (TxPdu × Nat) :=
  discardRepetitions m.pdcpSequenceNumbers m.tags txBuffer.zipIdx

theorem discardRepetitions_map {Entry Other : Type} (f : Entry → Other)
    (pdcpSequenceNumbers : Nat → Nat) (tags : List Nat) (txBuffer : List Entry) :
    discardRepetitions pdcpSequenceNumbers tags (txBuffer.map f) =
      ((discardRepetitions pdcpSequenceNumbers tags txBuffer).1.map f,
        (discardRepetitions pdcpSequenceNumbers tags txBuffer).2.map f) := by
  induction txBuffer generalizing pdcpSequenceNumbers tags with
  | nil => rfl
  | cons p txBuffer ih =>
    rw [map_cons]
    unfold discardRepetitions
    dsimp only
    split <;> simp only [ih, map_cons]

theorem numberedLoop_eq (m : Memory) (txBuffer : List TxPdu) :
    discardRepetitions m.pdcpSequenceNumbers m.tags txBuffer =
      ((numberedLoop m txBuffer).1.map Prod.fst, (numberedLoop m txBuffer).2.map Prod.fst) := by
  have labelled := discardRepetitions_map Prod.fst m.pdcpSequenceNumbers m.tags txBuffer.zipIdx
  rwa [zipIdx_map_fst] at labelled

/-- An entry is taken when its residue is marked or has come before. -/
theorem mem_discarded {Entry : Type} (pdcpSequenceNumbers : Nat → Nat) (tags : List Nat)
    (residue : Nat → Nat) (reads : ∀ j, tags.getD j 0 % 100 = residue j)
    (txBuffer : List Entry) (n : Nat) (p : Entry) (i : Nat) :
    (p, n + i) ∈ (discardRepetitions pdcpSequenceNumbers tags (txBuffer.zipIdx n)).2 ↔
      txBuffer[i]? = some p ∧
        (pdcpSequenceNumbers (residue i) = 1 ∨ ∃ j < i, residue j = residue i) := by
  induction txBuffer generalizing pdcpSequenceNumbers tags residue n i with
  | nil => simp [discardRepetitions]
  | cons q txBuffer ih =>
    have first : tags.headD 0 % 100 = residue 0 := by
      rw [← reads 0]
      cases tags <;> rfl
    have next : ∀ j, tags.tail.getD j 0 % 100 = residue (j + 1) := by
      intro j
      rw [← reads (j + 1)]
      cases tags <;> rfl
    have later : ∀ table, (p, n) ∉ (discardRepetitions table tags.tail
        (txBuffer.zipIdx (n + 1))).2 := by
      intro table mem
      have := le_snd_of_mem_zipIdx ((discardRepetitions_sublist ..).2.subset mem)
      omega
    have before : ∀ i, (∃ j < i + 1, residue j = residue (i + 1)) ↔
        residue 0 = residue (i + 1) ∨ ∃ j < i, residue (j + 1) = residue (i + 1) := by
      intro i
      rw [Nat.exists_lt_succ_left]
    rw [zipIdx_cons]
    unfold discardRepetitions
    rw [first]
    by_cases marked : pdcpSequenceNumbers (residue 0) = 1
    · rw [if_pos marked, mem_cons]
      cases i with
      | zero => simp [later, marked, eq_comm]
      | succ i =>
        have other : (p, n + (i + 1)) ≠ (q, n) := by
          intro same
          have := congrArg Prod.snd same
          omega
        rw [or_iff_right other, add_comm i 1, ← add_assoc, ih _ _ _ next, add_comm 1 i,
          getElem?_cons_succ, before]
        apply and_congr_right
        intro _
        constructor
        · rintro (here | earlier)
          · exact Or.inl here
          · exact Or.inr (Or.inr earlier)
        · rintro (here | same | earlier)
          · exact Or.inl here
          · exact Or.inl (same ▸ marked)
          · exact Or.inr earlier
    · rw [if_neg marked]
      cases i with
      | zero => simp [later, marked]
      | succ i =>
        rw [add_comm i 1, ← add_assoc, ih _ _ _ next, add_comm 1 i, getElem?_cons_succ, before]
        apply and_congr_right
        intro _
        by_cases same : residue (i + 1) = residue 0
        · simp [same]
        · have unlike : ¬ residue 0 = residue (i + 1) := fun eq => same eq.symm
          rw [Function.update_of_ne same]
          simp [unlike]

/-! ## Which copies stay -/

/-- The first copy of each number reads a residue that is new and not marked, and each
later one a residue that is not. -/
structure TellsApart (m : Memory) (numbers : Nat → Nat) (entries : Nat) : Prop where
  first : ∀ i < entries, (∀ j < i, numbers j ≠ numbers i) →
    m.pdcpSequenceNumbers (m.residue i) ≠ 1 ∧ ∀ j < i, m.residue j ≠ m.residue i
  again : ∀ i < entries, (∃ j < i, numbers j = numbers i) →
    m.pdcpSequenceNumbers (m.residue i) = 1 ∨ ∃ j < i, m.residue j = m.residue i

/-- The loop takes an entry if and only if an earlier one has its number. -/
def KeepsFirst (m : Memory) (numbers : Nat → Nat) (txBuffer : List TxPdu) : Prop :=
  ∀ e ∈ txBuffer.zipIdx, e ∈ (numberedLoop m txBuffer).2 ↔ ∃ j < e.2, numbers j = numbers e.2

theorem keepsFirst_iff (m : Memory) (numbers : Nat → Nat) (txBuffer : List TxPdu) :
    KeepsFirst m numbers txBuffer ↔ TellsApart m numbers txBuffer.length := by
  have taken : ∀ p i, txBuffer[i]? = some p → ((p, i) ∈ (numberedLoop m txBuffer).2 ↔
      m.pdcpSequenceNumbers (m.residue i) = 1 ∨ ∃ j < i, m.residue j = m.residue i) := by
    intro p i here
    have all := mem_discarded m.pdcpSequenceNumbers m.tags m.residue (fun _ => rfl) txBuffer 0 p i
    rw [zero_add] at all
    unfold numberedLoop
    rw [all, and_iff_right here]
  constructor
  · intro keeps
    have entry : ∀ i < txBuffer.length, (m.pdcpSequenceNumbers (m.residue i) = 1 ∨
        ∃ j < i, m.residue j = m.residue i) ↔ ∃ j < i, numbers j = numbers i := by
      intro i inside
      have here : txBuffer[i]? = some txBuffer[i] := getElem?_eq_getElem inside
      rw [← taken _ i here]
      exact keeps (txBuffer[i], i) (mem_zipIdx_iff_getElem?.mpr here)
    constructor
    · intro i inside new
      have stays := mt (entry i inside).mp (by simpa using new)
      push Not at stays
      exact stays
    · intro i inside repeated
      exact (entry i inside).mpr repeated
  · rintro ⟨first, again⟩ ⟨p, i⟩ mem
    have here := mem_zipIdx_iff_getElem?.mp mem
    have inside := (List.getElem?_eq_some_iff.mp here).1
    rw [taken p i here]
    constructor
    · intro erased
      by_contra new
      push Not at new
      obtain ⟨unmarked, unseen⟩ := first i inside new
      rcases erased with marked | ⟨j, before, same⟩
      · exact unmarked marked
      · exact unseen j before same
    · exact again i inside

theorem exists_first (numbers : Nat → Nat) (i : Nat) :
    ∃ k ≤ i, numbers k = numbers i ∧ ∀ j < k, numbers j ≠ numbers k := by
  induction i using Nat.strong_induction_on with
  | h i ih =>
    by_cases repeated : ∃ j < i, numbers j = numbers i
    · obtain ⟨j, before, same⟩ := repeated
      obtain ⟨k, le, eq, new⟩ := ih j before
      exact ⟨k, by omega, eq.trans same, new⟩
    · push Not at repeated
      exact ⟨i, le_refl i, rfl, repeated⟩

/-- If the tags gave the numbers, no number of the buffer may have a marked entry of the
table, and no two may share one. -/
theorem tellsApart_iff {m : Memory} {numbers : Nat → Nat} {entries : Nat}
    (reads : ∀ i < entries, m.residue i = numbers i % 100) :
    TellsApart m numbers entries ↔ (∀ i < entries, m.pdcpSequenceNumbers (numbers i % 100) ≠ 1) ∧
        ∀ i < entries, ∀ j < entries, numbers j % 100 = numbers i % 100 →
          numbers j = numbers i := by
  constructor
  · rintro ⟨first, -⟩
    constructor
    · intro i inside
      obtain ⟨k, le, same, new⟩ := exists_first numbers i
      have unmarked := (first k (by omega) new).1
      rwa [reads k (by omega), same] at unmarked
    · intro i inside j inside' residues
      obtain ⟨k, le, same, new⟩ := exists_first numbers i
      obtain ⟨k', le', same', new'⟩ := exists_first numbers j
      have shared : m.residue k = m.residue k' := by
        rw [reads k (by omega), reads k' (by omega), same, same', residues]
      rcases Nat.lt_trichotomy k k' with less | rfl | more
      · exact absurd shared ((first k' (by omega) new').2 k less)
      · exact same'.symm.trans same
      · exact absurd shared.symm ((first k (by omega) new).2 k' more)
  · rintro ⟨unmarked, apart⟩
    constructor
    · intro i inside new
      rw [reads i inside]
      refine ⟨unmarked i inside, fun j before same => new j before ?_⟩
      rw [reads j (by omega)] at same
      exact apart i inside j (by omega) same
    · rintro i inside ⟨j, before, same⟩
      refine Or.inr ⟨j, before, ?_⟩
      rw [reads i inside, reads j (by omega), same]

end LteRlcTm

open LteRlcTm

/-- **Repetitions.** What the report of `LteRlcTm` and the timer of `LteRlcUm` keep of the
entries in time is what the loop keeps. It keeps the first copy of each number if and
only if it tells the numbers apart. -/
theorem repetitions_iff (now : Time) (m : Memory) : (∀ (a : TmAttributes) (t : LteRlcTm),
      a.discardingRepetitionPacketInTheSameQueue = true →
        (t.doReportBufferStatus a now m).1.txBuffer =
          (numberedLoop m (t.txBuffer.filter fun p => !late a now p)).1.map Prod.fst) ∧
    (∀ (a : UmAttributes) (t : UmTransmitter), a.discardingRepetitionPacketInTheSameQueue = true →
        (t.packetDeadlineTimer a now m.pdcpSequenceNumbers m.tags).1.txBuffer =
          (numberedLoop m (t.txBuffer.filter fun p => !UmTransmitter.late a now p)).1.map
            Prod.fst) ∧
    ∀ (numbers : Nat → Nat) (txBuffer : List TxPdu),
      (KeepsFirst m numbers txBuffer ↔ TellsApart m numbers txBuffer.length) ∧
        ((∀ i < txBuffer.length, m.residue i = numbers i % 100) → (KeepsFirst m numbers txBuffer ↔
            (∀ i < txBuffer.length, m.pdcpSequenceNumbers (numbers i % 100) ≠ 1) ∧
              ∀ i < txBuffer.length, ∀ j < txBuffer.length,
                numbers j % 100 = numbers i % 100 → numbers j = numbers i)) := by
  refine ⟨fun a t enabled => ?_, fun a t enabled => ?_, fun numbers txBuffer => ?_⟩
  · have kept : (t.doReportBufferStatus a now m).1.txBuffer =
        (discardLoops a now m t.txBuffer).1 := rfl
    rw [kept, discardLoops, if_pos enabled, numberedLoop_eq]
  · have kept : (t.packetDeadlineTimer a now m.pdcpSequenceNumbers m.tags).1.txBuffer =
        (UmTransmitter.deadlineLoops a now m.pdcpSequenceNumbers m.tags t.txBuffer).1 := rfl
    rw [kept, UmTransmitter.deadlineLoops]
    simp only [partition_eq_filter_filter, enabled, ← discardRepetitions_eq]
    exact congrArg Prod.fst (numberedLoop_eq m (t.txBuffer.filter fun p =>
      !UmTransmitter.late a now p))
  · have iff := keepsFirst_iff m numbers txBuffer
    exact ⟨iff, fun reads => iff.trans (tellsApart_iff reads)⟩

/-- No deadline, repetitions are discarded. -/
def repeating : TmAttributes := ⟨100, 0, true⟩

/-- The same value in each tag that is not written, under a table with no marks. -/
def sameTags : Memory := ⟨fun _ => 0, [7, 7, 7]⟩

theorem repetitions_single :
    KeepsFirst sameTags (fun _ => 4) [⟨[0x01], .fullSdu, 0⟩, ⟨[0x01], .fullSdu, 0⟩] :=
  (((repetitions_iff 0 sameTags).2.2 (fun _ => 4) _).1).mpr ⟨by decide, by decide⟩

/-- Packets 0 and 1 stand in the buffer. The report takes the second for a copy of the first. -/
theorem fresh_packet_discarded :
    ((((create.doTransmitPdcpPdu repeating 0 sameTags [0x00] 0).1).doTransmitPdcpPdu repeating 0
        sameTags [0x01] 0).2.1 = [[0x01]]) ∧
      ¬ KeepsFirst sameTags id [⟨[0x00], .fullSdu, 0⟩, ⟨[0x01], .fullSdu, 0⟩] := by
  refine ⟨by decide, fun keeps => ?_⟩
  have second := keeps (⟨[0x01], .fullSdu, 0⟩, 1) (by decide)
  revert second
  decide

end Ns3.Rlc
