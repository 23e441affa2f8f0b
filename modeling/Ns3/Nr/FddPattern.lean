import Mathlib
import Ns3.Nr.TddRun

/-!
# Patterns of one direction

`GenerateStructuresFromPattern` takes a pattern for FDD where only one of DL and UL is in it. The
tables are then made with F slots only, and those of the other direction are cleared. Which is the
other direction is asked of `HasUlSlot`, which counts S slots.
-/

namespace Ns3.Nr

open LteNrTddSlotType List

namespace Pattern

variable {pattern : Pattern} {maps : OffsetMap × OffsetMap} {n latency m : Nat}

/-- Some position of the table triggers the scheduling for this one. -/
def Triggers (pattern : Pattern) (generate : OffsetMap) (pos : Nat) : Prop :=
  ∃ index < pattern.length, ∃ k ∈ generate index, (index + k) % pattern.length = pos

theorem triggers_pushBack {generate : OffsetMap} {pos k : Nat} (inside : m < pattern.length) :
    pattern.Triggers (generate.pushBack (pattern.before m k) k) pos ↔
      pattern.Triggers generate pos ∨ pos = m := by
  have below := before_lt (lt_of_le_of_lt (Nat.zero_le m) inside) m k
  constructor
  · rintro ⟨index, index_lt, j, mem, leads⟩
    unfold OffsetMap.pushBack at mem
    split at mem
    case isTrue here =>
      rw [mem_append, mem_singleton] at mem
      rcases mem with mem | rfl
      · exact .inl ⟨index, index_lt, j, mem, leads⟩
      · right
        rw [← leads, here]
        exact add_before inside j
    case isFalse => exact .inl ⟨index, index_lt, j, mem, leads⟩
  · rintro (⟨index, index_lt, j, mem, leads⟩ | rfl)
    · refine ⟨index, index_lt, j, ?_, leads⟩
      unfold OffsetMap.pushBack
      split
      · exact mem_append_left _ mem
      · exact mem
    · refine ⟨pattern.before pos k, below, k, ?_, add_before inside k⟩
      unfold OffsetMap.pushBack
      simp

theorem triggers_sorted {generate : OffsetMap} {pos : Nat} :
    pattern.Triggers (fun index => (generate index).insertionSort (· ≤ ·)) pos ↔
      pattern.Triggers generate pos := by
  unfold Triggers
  simp

theorem triggers_of_length {other : Pattern} (same : other.length = pattern.length)
    {generate : OffsetMap} {pos : Nat} :
    other.Triggers generate pos ↔ pattern.Triggers generate pos := by
  unfold Triggers
  rw [same]

/-! ## The loop over F slots -/

/-- The pattern of F slots that the tables are made with. -/
def allF (pattern : Pattern) : Pattern := List.replicate pattern.length f

theorem length_allF : pattern.allF.length = pattern.length := length_replicate

theorem typeAt_allF (inside : m < pattern.length) : pattern.allF.typeAt m = f := by
  unfold typeAt allF
  simp [getElem?_replicate, inside]

theorem allF_carrier {t : LteNrTddSlotType} (other : t ≠ f) (inside : m < pattern.length) :
    ∃ u ∈ pattern.allF, u ≠ t :=
  ⟨f, mem_replicate.mpr ⟨by omega, rfl⟩, other.symm⟩

/-- The tables after the first positions: DL is triggered for all of them, UL for all but S. -/
structure FilledAllF (pattern : Pattern) (m : Nat) (tables : Tables) : Prop where
  dl : ∀ pos, pattern.Triggers tables.generateDl pos ↔ pos < m
  ul : ∀ pos, pattern.Triggers tables.generateUl pos ↔ pos < m ∧ pattern.typeAt pos ≠ s

section

variable {d : Delays} {rounds : Nat} {tables : Tables}

theorem generateDciMaps_triggers (inside : m < pattern.length)
    (small : n + latency + 2 * pattern.length < 2 ^ 31) (enough : pattern.length ≤ rounds) :
    ∃ maps', pattern.allF.generateDciMaps rounds maps m n latency = some maps' ∧
      ∀ pos, pattern.Triggers maps'.2 pos ↔ pattern.Triggers maps.2 pos ∨ pos = m := by
  rw [← length_allF] at inside small enough
  obtain ⟨ahead, -, generated⟩ := @generateDciMaps_eq pattern.allF n latency m maps inside
    (allF_carrier (by decide) (length_allF ▸ inside)) small rounds enough
  refine ⟨_, generated, fun pos => ?_⟩
  have pushed := @triggers_pushBack pattern.allF m maps.2 pos (ahead + latency) inside
  rwa [triggers_of_length length_allF, triggers_of_length length_allF] at pushed

/-- **One position** of the loop. -/
theorem generateSlot_allF (small : SmallDelays d pattern.length) (enough : pattern.length ≤ rounds)
    (inside : m < pattern.length) (filled : pattern.FilledAllF m tables) :
    ∃ tables', Pattern.generateSlot pattern.allF pattern d rounds tables m = some tables' ∧
      pattern.FilledAllF (m + 1) tables' := by
  obtain ⟨dl_maps, dl_made, dl_triggers⟩ :=
    @generateDciMaps_triggers pattern tables.dl _ _ m rounds inside small.n0 enough
  obtain ⟨ul_maps, ul_made, ul_triggers⟩ :=
    @generateDciMaps_triggers pattern tables.ul _ _ m rounds inside small.n2 enough
  have harq (t : Tables) : ∃ map, pattern.allF.generateHarq d rounds m t =
      some { t with dlHarqfbPosition := map } := by
    have bound := small.n1
    rw [← length_allF] at inside bound enough
    obtain ⟨k1, -, -, found⟩ := @returnHarqSlot_spec pattern.allF m d.n1 rounds inside
      (allF_carrier (by decide) (length_allF ▸ inside)) (by omega) enough
    exact ⟨_, by simp [generateHarq, found, Tables.insertHarq]; rfl⟩
  have dl_filled : ∀ pos, pattern.Triggers dl_maps.2 pos ↔ pos < m + 1 := by
    intro pos
    rw [dl_triggers, show tables.dl.2 = tables.generateDl from rfl, filled.dl,
      Nat.lt_succ_iff_lt_or_eq]
  unfold generateSlot
  rw [typeAt_allF inside]
  by_cases special : pattern.typeAt m = s
  · obtain ⟨map, fed⟩ := harq { tables with dl := dl_maps }
    refine ⟨{ tables with dl := dl_maps, dlHarqfbPosition := map }, ?_, dl_filled, ?_⟩
    · simp [special, generateDl, dl_made, fed]
    · intro pos
      change pattern.Triggers tables.generateUl pos ↔ _
      rw [filled.ul]
      constructor
      · exact And.imp_left Nat.lt_succ_of_lt
      · rintro ⟨lt, other⟩
        obtain lt | rfl := Nat.lt_succ_iff_lt_or_eq.mp lt
        · exact ⟨lt, other⟩
        · exact absurd special other
  · obtain ⟨map, fed⟩ := harq { tables with dl := dl_maps, ul := ul_maps }
    refine ⟨{ dl := dl_maps, ul := ul_maps, dlHarqfbPosition := map }, ?_, dl_filled, ?_⟩
    · simp [special, generateDl, dl_made, generateUl, ul_made, fed]
    · intro pos
      change pattern.Triggers ul_maps.2 pos ↔ _
      rw [ul_triggers, show tables.ul.2 = tables.generateUl from rfl, filled.ul]
      constructor
      · rintro (⟨lt, other⟩ | rfl)
        · exact ⟨Nat.lt_succ_of_lt lt, other⟩
        · exact ⟨Nat.lt_succ_self _, special⟩
      · rintro ⟨lt, other⟩
        obtain lt | rfl := Nat.lt_succ_iff_lt_or_eq.mp lt
        · exact .inl ⟨lt, other⟩
        · exact .inr rfl

theorem generateSlots_allF (small : SmallDelays d pattern.length)
    (enough : pattern.length ≤ rounds) (within : m ≤ pattern.length) :
    ∃ tables, (List.range m).foldlM (Pattern.generateSlot pattern.allF pattern d rounds)
        Tables.empty = some tables ∧ pattern.FilledAllF m tables := by
  induction m with
  | zero =>
    refine ⟨Tables.empty, rfl, fun pos => ?_, fun pos => ?_⟩ <;>
    · simp [Triggers, Tables.empty, Tables.generateDl, Tables.generateUl]
  | succ m ih =>
    obtain ⟨tables, looped, filled⟩ := ih (by omega)
    obtain ⟨tables', stepped, filled'⟩ := generateSlot_allF small enough (by omega) filled
    refine ⟨tables', ?_, filled'⟩
    simp [range_succ, foldlM_append, looped, stepped]

/-! ## Which direction is cleared -/

/-- Every position is triggered in the one table, and none in the other. -/
def KeepsOnly (pattern : Pattern) (kept dropped : OffsetMap) : Prop :=
  (∀ pos < pattern.length, pattern.Triggers kept pos) ∧ ∀ index, dropped index = []

theorem not_isTdd (no_f : f ∉ pattern) (one : dl ∈ pattern ↔ ul ∉ pattern) :
    pattern.isTdd = false := by
  unfold isTdd
  have any_iff (t : LteNrTddSlotType) : pattern.any (· = t) = decide (t ∈ pattern) := by
    rw [Bool.eq_iff_iff]
    simp
  rw [any_iff, any_iff, any_iff]
  by_cases uplink : ul ∈ pattern
  · have no_dl : dl ∉ pattern := fun downlink => one.mp downlink uplink
    simp [no_f, uplink, no_dl]
  · simp [no_f, uplink, one.mpr uplink]

theorem hasUlSlot_iff (no_f : f ∉ pattern) :
    pattern.hasUlSlot = true ↔ ul ∈ pattern ∨ s ∈ pattern := by
  unfold hasUlSlot
  rw [any_eq_true]
  constructor
  · rintro ⟨t, mem, is⟩
    cases t with
    | dl => cases is
    | s => exact .inr mem
    | f => exact absurd mem no_f
    | ul => exact .inl mem
  · rintro (mem | mem)
    · exact ⟨ul, mem, rfl⟩
    · exact ⟨s, mem, rfl⟩

/-- **Patterns of one direction.** The tables are made. A pattern of DL keeps its triggers, and
only those, if and only if there is no S slot in it; so does one of UL for all of its slots, and it
keeps those of its UL slots in any case. -/
theorem fdd_classification {pattern : Pattern} {d : Delays} {rounds : Nat}
    (small : SmallDelays d pattern.length) (enough : pattern.length ≤ rounds)
    (no_f : f ∉ pattern) (one : dl ∈ pattern ↔ ul ∉ pattern) :
    ∃ tables, pattern.generateStructuresFromPattern d rounds = some tables ∧
      (dl ∈ pattern → (pattern.KeepsOnly tables.generateDl tables.generateUl ↔ s ∉ pattern)) ∧
      (ul ∈ pattern → (pattern.KeepsOnly tables.generateUl tables.generateDl ↔ s ∉ pattern) ∧
        (∀ pos < pattern.length, pattern.typeAt pos = ul → pattern.Triggers tables.generateUl pos) ∧
        ∀ index, tables.generateDl index = []) := by
  obtain ⟨tables, looped, filled⟩ := generateSlots_allF small enough le_rfl
  have fdd := not_isTdd no_f one
  by_cases has_ul : pattern.hasUlSlot = true
  · have made : pattern.generateStructuresFromPattern d rounds = some { tables with
        dl := (tables.dl.1, fun _ => [])
        ul := (tables.ul.1, fun i => (tables.ul.2 i).insertionSort (· ≤ ·)) } := by
      have all : List.replicate pattern.length f = pattern.allF := rfl
      simp [generateStructuresFromPattern, fdd, has_ul, all, looped]
    refine ⟨_, made, fun downlink => ?_, fun uplink => ⟨?_, ?_, fun _ => rfl⟩⟩
    · have special : s ∈ pattern := ((hasUlSlot_iff no_f).mp has_ul).resolve_left (one.mp downlink)
      constructor
      · rintro ⟨kept, -⟩
        obtain ⟨_, _, _, mem, _⟩ := kept 0 (length_pos_of_mem downlink)
        cases mem
      · exact fun none_special => absurd special none_special
    · constructor
      · rintro ⟨kept, -⟩ special
        obtain ⟨pos, inside, type⟩ := typeAt_of_mem special
        have triggered := triggers_sorted.mp (kept pos inside)
        exact ((filled.ul pos).mp triggered).2 type
      · intro none_special
        refine ⟨fun pos inside => triggers_sorted.mpr ((filled.ul pos).mpr ⟨inside, ?_⟩),
          fun _ => rfl⟩
        intro type
        apply none_special
        rw [← type, typeAt, getD_eq_getElem _ _ inside]
        exact getElem_mem inside
    · intro pos inside type
      apply triggers_sorted.mpr
      exact (filled.ul pos).mpr ⟨inside, by rw [type]; decide⟩
  · have made : pattern.generateStructuresFromPattern d rounds = some { tables with
        dl := (tables.dl.1, fun i => (tables.dl.2 i).insertionSort (· ≤ ·))
        ul := (tables.ul.1, fun _ => []) } := by
      have all : List.replicate pattern.length f = pattern.allF := rfl
      simp [generateStructuresFromPattern, fdd, has_ul, all, looped]
    have none := (not_congr (hasUlSlot_iff no_f)).mp has_ul
    refine ⟨_, made, fun _ => ?_, fun uplink => absurd (.inl uplink) none⟩
    exact iff_of_true
      ⟨fun pos inside => triggers_sorted.mpr ((filled.dl pos).mpr inside), fun _ => rfl⟩
      fun special => none (.inr special)

theorem fdd_classification_dl : ∃ tables,
    generateStructuresFromPattern [dl, dl] ⟨0, 2, 2, 2⟩ 2 = some tables ∧
      KeepsOnly [dl, dl] tables.generateDl tables.generateUl := by
  obtain ⟨tables, made, downlink, -⟩ := @fdd_classification [dl, dl] ⟨0, 2, 2, 2⟩ 2
    ⟨by decide, by decide, by decide⟩ (by decide) (by decide) (by decide)
  exact ⟨tables, made, (downlink (by decide)).mpr (by decide)⟩

/-- With an S slot the triggers of DL are cleared instead of those of UL. -/
theorem special_slot_clears_dl : ∃ tables,
    generateStructuresFromPattern [dl, s] ⟨0, 2, 2, 2⟩ 2 = some tables ∧
      (∀ index, tables.generateDl index = []) ∧ tables.generateUl 0 ≠ [] ∧
      ¬ KeepsOnly [dl, s] tables.generateDl tables.generateUl := by
  refine ⟨_, rfl, fun _ => rfl, by decide, ?_⟩
  rintro ⟨kept, -⟩
  obtain ⟨_, _, _, mem, _⟩ := kept 0 (by decide)
  cases mem

end

end Pattern

end Ns3.Nr
