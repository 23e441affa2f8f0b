import Ns3.Nr.TddPattern
import Mathlib.Algebra.BigOperators.Intervals
import Mathlib.Algebra.Order.BigOperators.Group.Finset

/-!
# Indications over a run

What the loop of `GenerateStructuresFromPattern` puts into the tables, and how often each slot
is indicated when every slot calls the MAC.
-/

namespace Ns3.Nr

open LteNrTddSlotType List Nat

/-! ## Entries of a map of lists -/

/-- The entries of the lists, each once. -/
def OffsetMap.Holds (map : OffsetMap) (entry : Nat → Nat → Prop) : Prop :=
  ∀ index, (map index).Nodup ∧ ∀ k, k ∈ map index ↔ entry index k

namespace OffsetMap

variable {map : OffsetMap} {entry entry' : Nat → Nat → Prop}

theorem Holds.congr (holds : map.Holds entry) (same : ∀ index k, entry index k ↔ entry' index k) :
    map.Holds entry' :=
  fun index => ⟨(holds index).1, fun k => ((holds index).2 k).trans (same index k)⟩

theorem Holds.pushBack (holds : map.Holds entry) {i n : Nat} (fresh : ¬ entry i n) :
    (map.pushBack i n).Holds fun index k => entry index k ∨ index = i ∧ k = n := by
  intro index
  obtain ⟨nodup, mem⟩ := holds index
  unfold OffsetMap.pushBack
  by_cases here : index = i
  · subst here
    rw [if_pos rfl]
    refine ⟨?_, fun k => ?_⟩
    · rw [nodup_append]
      refine ⟨nodup, nodup_singleton n, ?_⟩
      rintro a there b only rfl
      rw [mem_singleton.mp only] at there
      exact fresh ((mem n).mp there)
    · rw [mem_append, mem_singleton, mem]
      simp
  · rw [if_neg here]
    exact ⟨nodup, fun k => by simp [mem, here]⟩

theorem Holds.sorted (holds : map.Holds entry) :
    (OffsetMap.Holds fun index => (map index).insertionSort (· ≤ ·)) entry := by
  intro index
  have perm := perm_insertionSort (· ≤ ·) (map index)
  exact ⟨perm.nodup_iff.mpr (holds index).1, fun k => perm.mem_iff.trans ((holds index).2 k)⟩

end OffsetMap

namespace Pattern

variable {pattern : Pattern}

/-! ## The loop -/

/-- The data slots among the first positions, each at the position of its DCI or so many slots
earlier. -/
def Served (pattern : Pattern) (data : LteNrTddSlotType → Prop) (n latency m index k : Nat) : Prop :=
  ∃ pos < m, data (pattern.typeAt pos) ∧ ∃ ahead, pattern.Latest pos n ahead ∧
    k = ahead + latency ∧ pattern.before pos k = index

/-- `toSend` and `generate` after the first positions. -/
structure Serves (pattern : Pattern) (data : LteNrTddSlotType → Prop) (n latency m : Nat)
    (maps : OffsetMap × OffsetMap) : Prop where
  toSend : maps.1.Holds (pattern.Served data n 0 m)
  generate : maps.2.Holds (pattern.Served data n latency m)

theorem Serves.empty (data : LteNrTddSlotType → Prop) (n latency : Nat) :
    pattern.Serves data n latency 0 (fun _ => [], fun _ => []) := by
  constructor <;>
  · intro index
    exact ⟨nodup_nil, fun k => ⟨nofun, fun ⟨_, lt, _⟩ => absurd lt (Nat.not_lt_zero _)⟩⟩

variable {data : LteNrTddSlotType → Prop} {n latency m : Nat} {maps : OffsetMap × OffsetMap}

theorem Served.skip (other : ¬ data (pattern.typeAt m)) (index k : Nat) :
    pattern.Served data n latency m index k ↔ pattern.Served data n latency (m + 1) index k := by
  constructor
  · rintro ⟨pos, lt, rest⟩
    exact ⟨pos, lt_succ_of_lt lt, rest⟩
  · rintro ⟨pos, lt, here, rest⟩
    obtain lt | rfl := Nat.lt_succ_iff_lt_or_eq.mp lt
    · exact ⟨pos, lt, here, rest⟩
    · exact absurd here other

theorem Served.push (inside : m < pattern.length) (here : data (pattern.typeAt m)) {ahead : Nat}
    (latest : pattern.Latest m n ahead) (index k : Nat) :
    pattern.Served data n latency m index k ∨
        index = pattern.before m (ahead + latency) ∧ k = ahead + latency ↔
      pattern.Served data n latency (m + 1) index k := by
  constructor
  · rintro (⟨pos, lt, rest⟩ | ⟨rfl, rfl⟩)
    · exact ⟨pos, lt_succ_of_lt lt, rest⟩
    · exact ⟨m, lt_succ_self m, here, ahead, latest, rfl, rfl⟩
  · rintro ⟨pos, lt, data_, ahead', latest', rfl, rfl⟩
    obtain lt | rfl := Nat.lt_succ_iff_lt_or_eq.mp lt
    · exact .inl ⟨pos, lt, data_, ahead', latest', rfl, rfl⟩
    · rw [latest.unique latest']
      exact .inr ⟨rfl, rfl⟩

theorem Served.fresh (inside : m < pattern.length) (k : Nat) :
    ¬ pattern.Served data n latency m (pattern.before m k) k := by
  rintro ⟨pos, lt, _, _, _, _, same⟩
  have there := ((before_eq_iff (by omega)).mp same).2
  rw [add_before inside] at there
  omega

theorem generateDciMaps_eq (inside : m < pattern.length) (carrier : ∃ t ∈ pattern, t ≠ ul)
    (small : n + latency + 2 * pattern.length < 2 ^ 31) {rounds : Nat}
    (enough : pattern.length ≤ rounds) : ∃ ahead, pattern.Latest m n ahead ∧
      pattern.generateDciMaps rounds maps m n latency = some
        (maps.1.pushBack (pattern.before m ahead) ahead,
          maps.2.pushBack (pattern.before m (ahead + latency)) (ahead + latency)) := by
  obtain ⟨ahead, less, latest, found⟩ :=
    @returnDciSlot_spec pattern m n rounds inside carrier (by omega) enough
  have some_ : 0 < pattern.length := by omega
  have index_lt := before_lt some_ m ahead
  have first : int32 (pattern.before m ahead : Int) = pattern.before m ahead :=
    int32_natCast (by omega)
  have second : int32 (latency : Int) = latency := int32_natCast (by omega)
  have gen : modulo (int32 (int32 (pattern.before m ahead) - int32 latency)) pattern.length =
      pattern.before m (ahead + latency) := by
    rw [first, second, int32_eq (by omega) (by omega), modulo_eq _ some_, ← before_before inside]
    rfl
  have sum : (ahead + latency) % 2 ^ 32 = ahead + latency := mod_eq_of_lt (by omega)
  refine ⟨ahead, latest, ?_⟩
  unfold generateDciMaps
  rw [found]
  simp only [Option.bind_eq_bind, Option.bind_some, gen, sum]
  rfl

/-- **One position.** -/
theorem generateDciMaps_serves (serves : pattern.Serves data n latency m maps)
    (inside : m < pattern.length) (here : data (pattern.typeAt m)) (carrier : ∃ t ∈ pattern, t ≠ ul)
    (small : n + latency + 2 * pattern.length < 2 ^ 31) {rounds : Nat}
    (enough : pattern.length ≤ rounds) :
    ∃ maps', pattern.generateDciMaps rounds maps m n latency = some maps' ∧
      pattern.Serves data n latency (m + 1) maps' := by
  obtain ⟨ahead, latest, generated⟩ := @generateDciMaps_eq pattern n latency m maps inside carrier
    small rounds enough
  refine ⟨_, generated, ?_, ?_⟩
  · exact (serves.toSend.pushBack (Served.fresh inside ahead)).congr
      (Served.push inside here latest)
  · exact (serves.generate.pushBack (Served.fresh inside (ahead + latency))).congr
      (Served.push inside here latest)

theorem Serves.skip (serves : pattern.Serves data n latency m maps)
    (other : ¬ data (pattern.typeAt m)) : pattern.Serves data n latency (m + 1) maps :=
  ⟨serves.toSend.congr (Served.skip other), serves.generate.congr (Served.skip other)⟩

/-- Slots with DL data are all but the UL ones. -/
def DlData (t : LteNrTddSlotType) : Prop := t ≠ ul

/-- Slots with UL data. -/
def UlData (t : LteNrTddSlotType) : Prop := t = ul ∨ t = f

instance (t : LteNrTddSlotType) : Decidable (DlData t) := inferInstanceAs (Decidable (t ≠ ul))

instance (t : LteNrTddSlotType) : Decidable (UlData t) :=
  inferInstanceAs (Decidable (t = ul ∨ t = f))

/-- `dlHarqfbPosition` after the first positions. -/
def Feedback (pattern : Pattern) (n1 m : Nat) (map : Nat → Option Nat) : Prop :=
  ∀ pos, (pos < m ∧ DlData (pattern.typeAt pos) →
      ∃ k1, map pos = some k1 ∧ pattern.First pos n1 k1) ∧
    (¬ (pos < m ∧ DlData (pattern.typeAt pos)) → map pos = none)

/-- The tables after the first positions. -/
structure Filled (pattern : Pattern) (d : Delays) (m : Nat) (tables : Tables) : Prop where
  dl : pattern.Serves DlData d.n0 d.l1l2CtrlLatency m tables.dl
  ul : pattern.Serves UlData d.n2 d.l1l2CtrlLatency m tables.ul
  harq : pattern.Feedback d.n1 m tables.dlHarqfbPosition

/-- The delays are small enough for the casts. -/
structure SmallDelays (d : Delays) (length : Nat) : Prop where
  n0 : d.n0 + d.l1l2CtrlLatency + 2 * length < 2 ^ 31
  n1 : d.n1 + 2 * length < 2 ^ 31
  n2 : d.n2 + d.l1l2CtrlLatency + 2 * length < 2 ^ 31

theorem Feedback.skip {n1 : Nat} {map : Nat → Option Nat} (feedback : pattern.Feedback n1 m map)
    (other : ¬ DlData (pattern.typeAt m)) : pattern.Feedback n1 (m + 1) map := by
  intro pos
  obtain ⟨found, absent⟩ := feedback pos
  constructor
  · rintro ⟨lt, data⟩
    obtain lt | rfl := Nat.lt_succ_iff_lt_or_eq.mp lt
    · exact found ⟨lt, data⟩
    · exact absurd data other
  · intro outside
    exact absent fun ⟨lt, data⟩ => outside ⟨lt_succ_of_lt lt, data⟩

theorem Feedback.insert {n1 k1 : Nat} {tables : Tables}
    (feedback : pattern.Feedback n1 m tables.dlHarqfbPosition)
    (here : DlData (pattern.typeAt m)) (first : pattern.First m n1 k1) (small : k1 < 2 ^ 32) :
    pattern.Feedback n1 (m + 1) (tables.insertHarq m k1).dlHarqfbPosition := by
  have fresh : tables.dlHarqfbPosition m = none := (feedback m).2 fun ⟨lt, _⟩ => lt_irrefl m lt
  have stored : ((k1 : Int) % 2 ^ 32).toNat = k1 := by omega
  intro pos
  obtain ⟨found, absent⟩ := feedback pos
  unfold Tables.insertHarq
  dsimp only
  by_cases is : pos = m
  · subst is
    rw [if_pos rfl, fresh, stored]
    exact ⟨fun _ => ⟨k1, rfl, first⟩, fun outside => absurd ⟨lt_succ_self _, here⟩ outside⟩
  · rw [if_neg is]
    constructor
    · rintro ⟨lt, data⟩
      exact found ⟨by omega, data⟩
    · intro outside
      exact absent fun ⟨lt, data⟩ => outside ⟨lt_succ_of_lt lt, data⟩

/-- What each position may rely on: the pattern is TDD with carriers for both directions. -/
structure Fillable (pattern : Pattern) (d : Delays) (rounds : Nat) : Prop where
  dlCarrier : ∃ t ∈ pattern, t ≠ ul
  ulCarrier : ∃ t ∈ pattern, t ≠ dl
  small : SmallDelays d pattern.length
  enough : pattern.length ≤ rounds

section

variable {d : Delays} {rounds : Nat} {tables : Tables}

theorem generateHarq_spec (can : pattern.Fillable d rounds) (inside : m < pattern.length)
    (here : DlData (pattern.typeAt m))
    (feedback : pattern.Feedback d.n1 m tables.dlHarqfbPosition) :
    ∃ map, pattern.generateHarq d rounds m tables = some { tables with dlHarqfbPosition := map } ∧
      pattern.Feedback d.n1 (m + 1) map := by
  have small := can.small.n1
  obtain ⟨k1, less, first, found⟩ :=
    @returnHarqSlot_spec pattern m d.n1 rounds inside can.ulCarrier (by omega) can.enough
  refine ⟨_, ?_, feedback.insert here first (by omega)⟩
  simp [generateHarq, found, Tables.insertHarq]

/-- **One position** of the loop. -/
theorem generateSlot_filled (can : pattern.Fillable d rounds) (inside : m < pattern.length)
    (filled : pattern.Filled d m tables) :
    ∃ tables', Pattern.generateSlot pattern pattern d rounds tables m = some tables' ∧
      pattern.Filled d (m + 1) tables' := by
  have dl_maps (here : DlData (pattern.typeAt m)) :=
    generateDciMaps_serves filled.dl inside here can.dlCarrier can.small.n0 can.enough
  have ul_maps (here : UlData (pattern.typeAt m)) :=
    generateDciMaps_serves filled.ul inside here can.dlCarrier can.small.n2 can.enough
  have harq (here : DlData (pattern.typeAt m)) (tables' : Tables)
      (same : tables'.dlHarqfbPosition = tables.dlHarqfbPosition) :=
    @generateHarq_spec pattern m d rounds tables' can inside here (same ▸ filled.harq)
  unfold generateSlot
  cases type : pattern.typeAt m with
  | ul =>
    have data : UlData (pattern.typeAt m) := .inl type
    have none_dl : ¬ DlData (pattern.typeAt m) := fun carries => carries type
    obtain ⟨maps, generated, serves⟩ := ul_maps data
    refine ⟨{ tables with ul := maps }, by simp [generateUl, generated], ?_⟩
    exact ⟨filled.dl.skip none_dl, serves, filled.harq.skip none_dl⟩
  | dl | s =>
    have data : DlData (pattern.typeAt m) := by rw [type]; decide
    have none_ul : ¬ UlData (pattern.typeAt m) := by rw [type]; decide
    obtain ⟨maps, generated, serves⟩ := dl_maps data
    obtain ⟨map, fed, feedback⟩ := harq data { tables with dl := maps } rfl
    refine ⟨{ tables with dl := maps, dlHarqfbPosition := map }, ?_, ?_⟩
    · simp [generateDl, generated, fed]
    · exact ⟨serves, filled.ul.skip none_ul, feedback⟩
  | f =>
    have data : DlData (pattern.typeAt m) := by rw [type]; decide
    have data_ul : UlData (pattern.typeAt m) := .inr type
    obtain ⟨maps, generated, serves⟩ := dl_maps data
    obtain ⟨maps_ul, generated_ul, serves_ul⟩ := ul_maps data_ul
    obtain ⟨map, fed, feedback⟩ := harq data { tables with dl := maps, ul := maps_ul } rfl
    refine ⟨{ dl := maps, ul := maps_ul, dlHarqfbPosition := map }, ?_, ?_⟩
    · simp [generateDl, generated, generateUl, generated_ul, fed]
    · exact ⟨serves, serves_ul, feedback⟩

theorem generateSlots_filled (can : pattern.Fillable d rounds) (within : m ≤ pattern.length) :
    ∃ tables, (List.range m).foldlM (Pattern.generateSlot pattern pattern d rounds) Tables.empty =
      some tables ∧ pattern.Filled d m tables := by
  induction m with
  | zero =>
    refine ⟨Tables.empty, rfl, .empty _ _ _, .empty _ _ _, fun pos => ⟨?_, fun _ => rfl⟩⟩
    exact fun ⟨lt, _⟩ => absurd lt (Nat.not_lt_zero pos)
  | succ m ih =>
    obtain ⟨tables, looped, filled⟩ := ih (by omega)
    obtain ⟨tables', stepped, filled'⟩ := generateSlot_filled can (by omega) filled
    refine ⟨tables', ?_, filled'⟩
    simp [range_succ, foldlM_append, looped, stepped]

/-- A slot of DL and one of UL, which an F slot is both of. -/
structure Duplex (pattern : Pattern) : Prop where
  downlink : ∃ t ∈ pattern, t = dl ∨ t = f
  uplink : ∃ t ∈ pattern, t = ul ∨ t = f

theorem Duplex.isTdd (duplex : pattern.Duplex) : pattern.isTdd = true := by
  unfold Pattern.isTdd
  split
  case isTrue => rfl
  case isFalse none_f =>
    have no_f : ∀ t ∈ pattern, t ≠ f := by
      rintro _ mem rfl
      exact none_f (by simpa using mem)
    obtain ⟨t, t_mem, t_dl⟩ := duplex.downlink
    obtain ⟨u, u_mem, u_ul⟩ := duplex.uplink
    have has_dl : pattern.any (· = dl) = true :=
      any_eq_true.mpr ⟨t, t_mem, by simpa [no_f t t_mem] using t_dl⟩
    have has_ul : pattern.any (· = ul) = true :=
      any_eq_true.mpr ⟨u, u_mem, by simpa [no_f u u_mem] using u_ul⟩
    rw [has_dl, has_ul]
    rfl

theorem Duplex.fillable (duplex : pattern.Duplex) (small : SmallDelays d pattern.length)
    (enough : pattern.length ≤ rounds) : pattern.Fillable d rounds where
  dlCarrier := by
    obtain ⟨t, mem, rfl | rfl⟩ := duplex.downlink
    · exact ⟨_, mem, by decide⟩
    · exact ⟨_, mem, by decide⟩
  ulCarrier := by
    obtain ⟨t, mem, rfl | rfl⟩ := duplex.uplink
    · exact ⟨_, mem, by decide⟩
    · exact ⟨_, mem, by decide⟩
  small := small
  enough := enough

/-- **The tables** are made, and have every data slot. -/
theorem generateStructuresFromPattern_filled (duplex : pattern.Duplex)
    (small : SmallDelays d pattern.length) (enough : pattern.length ≤ rounds) :
    ∃ tables, pattern.generateStructuresFromPattern d rounds = some tables ∧
      pattern.Filled d pattern.length tables := by
  obtain ⟨tables, looped, filled⟩ := generateSlots_filled (duplex.fillable small enough) le_rfl
  have generated : pattern.generateStructuresFromPattern d rounds = some { tables with
      ul := (tables.ul.1, fun i => (tables.ul.2 i).insertionSort (· ≤ ·))
      dl := (tables.dl.1, fun i => (tables.dl.2 i).insertionSort (· ≤ ·)) } := by
    simp [generateStructuresFromPattern, duplex.isTdd, looped]
  exact ⟨_, generated, ⟨filled.dl.toSend, filled.dl.generate.sorted⟩,
    ⟨filled.ul.toSend, filled.ul.generate.sorted⟩, filled.harq⟩

end

/-! ## Indications -/

open SfnSf

/-- The indications of one slot that are for a slot so much later in the run. -/
def indicated (indications : List Indication) (t τ : Nat) : Nat :=
  indications.countP fun i => t + i.ahead = τ

/-- The `SlotDlIndication`s for a slot of the run. -/
def dlIndications (pattern : Pattern) (tables : Tables) (start : SfnSf) (τ : Nat) : Nat :=
  ∑ t ∈ Finset.range (τ + 1),
    indicated (pattern.callMacForSlotIndication tables (slotAt start t)).2 t τ

/-- The `SlotUlIndication`s for a slot of the run. -/
def ulIndications (pattern : Pattern) (tables : Tables) (start : SfnSf) (τ : Nat) : Nat :=
  ∑ t ∈ Finset.range (τ + 1),
    indicated (pattern.callMacForSlotIndication tables (slotAt start t)).1 t τ

section

variable {start : SfnSf} {τ : Nat}

theorem position_slotAt (valid : start.Valid)
    (steady : ∀ t ≤ τ, Steady pattern.length (slotAt start t)) {t : Nat} (within : t ≤ τ) :
    pattern.position (slotAt start t) = (start.index + t) % pattern.length :=
  normalize_slotAt valid steady within

/-- The table leads from a slot to another if that has data and the right distance. -/
theorem Served.slot_iff (some_ : 0 < pattern.length) (valid : start.Valid)
    (steady : ∀ t ≤ τ, Steady pattern.length (slotAt start t)) {t : Nat} (within : t ≤ τ) :
    pattern.Served data n latency pattern.length (pattern.position (slotAt start t)) (τ - t) ↔
      data (pattern.typeAt (pattern.position (slotAt start τ))) ∧
        ∃ ahead, pattern.Latest (pattern.position (slotAt start τ)) n ahead ∧
          τ - t = ahead + latency := by
  have goes_on : (pattern.position (slotAt start t) + (τ - t)) % pattern.length =
      pattern.position (slotAt start τ) := by
    rw [position_slotAt valid steady within, position_slotAt valid steady (le_refl τ), mod_add_mod]
    congr 1
    omega
  have below : pattern.position (slotAt start t) < pattern.length := mod_lt _ some_
  constructor
  · rintro ⟨pos, inside, here, ahead, latest, far, leads⟩
    have there := ((before_eq_iff inside).mp leads).2
    rw [goes_on] at there
    subst there
    exact ⟨here, ahead, latest, far⟩
  · rintro ⟨here, ahead, latest, far⟩
    have inside : pattern.position (slotAt start τ) < pattern.length := mod_lt _ some_
    exact ⟨_, inside, here, ahead, latest, far, (before_eq_iff inside).mpr ⟨below, goes_on⟩⟩

/-- **One indication** for a slot with data, and none for another. -/
theorem indications_eq [DecidablePred data] {generate : OffsetMap}
    (holds : generate.Holds (pattern.Served data n latency pattern.length))
    (carrier : ∃ t ∈ pattern, t ≠ ul) (small : n + latency + 2 * pattern.length < 2 ^ 31)
    (valid : start.Valid) (steady : ∀ t ≤ τ, Steady pattern.length (slotAt start t))
    (later : n + latency + pattern.length ≤ τ) :
    ∑ t ∈ Finset.range (τ + 1), indicated
        ((generate (pattern.position (slotAt start t))).map (pattern.indication (slotAt start t)))
        t τ =
      if data (pattern.typeAt (pattern.position (slotAt start τ))) then 1 else 0 := by
  have some_ : 0 < pattern.length := by
    obtain ⟨t, mem, -⟩ := carrier
    exact length_pos_of_mem mem
  have inside : pattern.position (slotAt start τ) < pattern.length := mod_lt _ some_
  have single : ∀ t ∈ Finset.range (τ + 1), indicated
      ((generate (pattern.position (slotAt start t))).map (pattern.indication (slotAt start t)))
      t τ = if τ - t ∈ generate (pattern.position (slotAt start t)) then 1 else 0 := by
    intro t mem
    have within := Finset.mem_range_succ_iff.mp mem
    have counts : indicated
        ((generate (pattern.position (slotAt start t))).map (pattern.indication (slotAt start t)))
        t τ = (generate (pattern.position (slotAt start t))).count (τ - t) := by
      unfold indicated List.count
      rw [countP_map]
      apply countP_congr
      intro k _
      change decide (t + k = τ) = true ↔ (k == τ - t) = true
      rw [decide_eq_true_iff, beq_iff_eq]
      omega
    rw [counts, (holds _).1.count]
  rw [Finset.sum_congr rfl single]
  obtain ⟨ahead, less, latest, -⟩ := @returnDciSlot_spec pattern _ n pattern.length inside carrier
    (by omega) le_rfl
  by_cases here : data (pattern.typeAt (pattern.position (slotAt start τ)))
  · rw [if_pos here, Finset.sum_eq_single (τ - (ahead + latency))]
    · have there : τ - (τ - (ahead + latency)) = ahead + latency := by omega
      rw [if_pos]
      rw [(holds _).2, Served.slot_iff some_ valid steady (sub_le _ _)]
      exact ⟨here, ahead, latest, there⟩
    · intro t mem other
      have within := Finset.mem_range_succ_iff.mp mem
      rw [if_neg]
      rw [(holds _).2, Served.slot_iff some_ valid steady within]
      rintro ⟨-, ahead', latest', far⟩
      rw [latest'.unique latest] at far
      omega
    · intro outside
      exact absurd (Finset.mem_range_succ_iff.mpr (sub_le _ _)) outside
  · rw [if_neg here]
    apply Finset.sum_eq_zero
    intro t mem
    have within := Finset.mem_range_succ_iff.mp mem
    rw [if_neg]
    rw [(holds _).2, Served.slot_iff some_ valid steady within]
    exact fun both => here both.1

theorem indication_eq {k : Nat} (valid : start.Valid) (short : k + 32 ≤ 2 ^ 32) (t : Nat) :
    pattern.indication (slotAt start t) k = ⟨k, slotAt start (t + k),
      pattern.typeAt (pattern.position (slotAt start (t + k)))⟩ := by
  unfold Pattern.indication
  rw [add_slotAt valid t short]

end

/-- What the tables do for a run. -/
structure Timed (pattern : Pattern) (d : Delays) (tables : Tables) : Prop where
  /-- Each DCI goes out in the latest slot for DL that is early enough. -/
  dlDcis : tables.toSendDl.Holds (pattern.Served DlData d.n0 0 pattern.length)
  ulDcis : tables.toSendUl.Holds (pattern.Served UlData d.n2 0 pattern.length)
  feedback : ∀ pos < pattern.length, DlData (pattern.typeAt pos) →
    ∃ k1, tables.dlHarqfbPosition pos = some k1 ∧ pattern.First pos d.n1 k1
  /-- From the transient on every slot with data is indicated once, as the slot it is. -/
  indications : ∀ start : SfnSf, start.Valid → ∀ τ, d.n0 + d.l1l2CtrlLatency + pattern.length ≤ τ →
    d.n2 + d.l1l2CtrlLatency + pattern.length ≤ τ →
    (∀ t ≤ τ, Steady pattern.length (slotAt start t)) → pattern.dlIndications tables start τ =
        (if DlData (pattern.typeAt (pattern.position (slotAt start τ))) then 1 else 0) ∧
      pattern.ulIndications tables start τ =
        (if UlData (pattern.typeAt (pattern.position (slotAt start τ))) then 1 else 0)
  named : ∀ start : SfnSf, start.Valid → ∀ t, ∀ i,
    i ∈ (pattern.callMacForSlotIndication tables (slotAt start t)).1 ∨
      i ∈ (pattern.callMacForSlotIndication tables (slotAt start t)).2 →
    i.targetSlot = slotAt start (t + i.ahead) ∧
      i.type = pattern.typeAt (pattern.position (slotAt start (t + i.ahead)))

/-- **TDD timing.** The tables are made, and serve every slot of a run once as long as the frame
product of its slots does not wrap within a pattern. -/
theorem tdd_timing {pattern : Pattern} {d : Delays} {rounds : Nat} (duplex : pattern.Duplex)
    (small : SmallDelays d pattern.length) (enough : pattern.length ≤ rounds) :
    ∃ tables, pattern.generateStructuresFromPattern d rounds = some tables ∧
      pattern.Timed d tables := by
  obtain ⟨tables, generated, filled⟩ := generateStructuresFromPattern_filled duplex small enough
  have carrier := (duplex.fillable small enough).dlCarrier
  have some_ : 0 < pattern.length := by
    obtain ⟨t, mem, -⟩ := carrier
    exact length_pos_of_mem mem
  have near {data : LteNrTddSlotType → Prop} {n index k : Nat}
      (bound : n + d.l1l2CtrlLatency + 2 * pattern.length < 2 ^ 31)
      (served : pattern.Served data n d.l1l2CtrlLatency pattern.length index k) :
      k + 32 ≤ 2 ^ 32 := by
    obtain ⟨pos, inside, -, ahead, latest, rfl, -⟩ := served
    obtain ⟨other, less, latest', -⟩ := @returnDciSlot_spec pattern pos n pattern.length inside
      carrier (by omega) le_rfl
    rw [latest.unique latest']
    omega
  refine ⟨tables, generated, filled.dl.toSend, filled.ul.toSend, ?_, ?_, ?_⟩
  · exact fun pos inside here => (filled.harq pos).1 ⟨inside, here⟩
  · intro start valid τ later_dl later_ul steady
    exact ⟨indications_eq filled.dl.generate carrier small.n0 valid steady later_dl,
      indications_eq filled.ul.generate carrier small.n2 valid steady later_ul⟩
  · intro start valid t i mem
    obtain ⟨k, short, rfl⟩ : ∃ k, k + 32 ≤ 2 ^ 32 ∧ pattern.indication (slotAt start t) k = i := by
      rcases mem with mem | mem
      · obtain ⟨k, held, is⟩ := mem_map.mp mem
        exact ⟨k, near small.n2 (((filled.ul.generate _).2 k).mp held), is⟩
      · obtain ⟨k, held, is⟩ := mem_map.mp mem
        exact ⟨k, near small.n0 (((filled.dl.generate _).2 k).mp held), is⟩
    rw [indication_eq valid short]
    exact ⟨rfl, rfl⟩

theorem tdd_timing_alternating :
    ∃ tables, generateStructuresFromPattern [dl, ul] ⟨0, 1, 1, 2⟩ 2 = some tables ∧
      Timed [dl, ul] ⟨0, 1, 1, 2⟩ tables :=
  tdd_timing ⟨⟨dl, by decide⟩, ⟨ul, by decide⟩⟩ ⟨by decide, by decide, by decide⟩ (by decide)

/-- The numbers of the two slots that indicate one: the frame product wraps between them. -/
theorem two_indications {tables : Tables} (generate : tables.generateUl 1 = [3, 4]) :
    2 ≤ ulIndications [dl, ul, ul] tables ⟨0, 0, 0, 0⟩ 4294967303 := by
  have valid : SfnSf.Valid ⟨0, 0, 0, 0⟩ := ⟨by decide, by decide, by decide, by decide⟩
  have first : indicated (callMacForSlotIndication [dl, ul, ul] tables
      (slotAt ⟨0, 0, 0, 0⟩ 4294967299)).1 4294967299 4294967303 = 1 := by
    have position : Pattern.position [dl, ul, ul] (slotAt ⟨0, 0, 0, 0⟩ 4294967299) = 1 := by
      rw [slotAt_eq valid]
      decide
    unfold callMacForSlotIndication
    rw [position, generate]
    rfl
  have second : indicated (callMacForSlotIndication [dl, ul, ul] tables
      (slotAt ⟨0, 0, 0, 0⟩ 4294967300)).1 4294967300 4294967303 = 1 := by
    have position : Pattern.position [dl, ul, ul] (slotAt ⟨0, 0, 0, 0⟩ 4294967300) = 1 := by
      rw [slotAt_eq valid]
      decide
    unfold callMacForSlotIndication
    rw [position, generate]
    rfl
  have pair : ∑ t ∈ {4294967299, 4294967300}, indicated (callMacForSlotIndication [dl, ul, ul]
      tables (slotAt ⟨0, 0, 0, 0⟩ t)).1 t 4294967303 = 2 := by
    rw [Finset.sum_pair (by decide), first, second]
  rw [← pair]
  apply Finset.sum_le_sum_of_subset
  intro t mem
  rw [Finset.mem_insert, Finset.mem_singleton] at mem
  rw [Finset.mem_range]
  omega

/-- The slot 4294967303 of a run from frame 0 gets two `SlotUlIndication`s. -/
theorem tdd_timing_wrap : ∃ tables,
    generateStructuresFromPattern [dl, ul, ul] ⟨0, 1, 1, 2⟩ 3 = some tables ∧
      typeAt [dl, ul, ul] (position [dl, ul, ul] (slotAt ⟨0, 0, 0, 0⟩ 4294967303)) = ul ∧
      ulIndications [dl, ul, ul] tables ⟨0, 0, 0, 0⟩ 4294967303 ≠ 1 := by
  refine ⟨_, rfl, ?_, ?_⟩
  · rw [slotAt_eq ⟨by decide, by decide, by decide, by decide⟩]
    decide
  · apply Nat.ne_of_gt
    apply two_indications
    decide

end Pattern

end Ns3.Nr
