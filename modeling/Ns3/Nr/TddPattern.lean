import Ns3.Library.Scan
import Ns3.Nr.SfnSf
import Mathlib.Data.List.GetD
import Mathlib.Data.List.Perm.Basic
import Mathlib.Data.List.Sort

/-!
# TDD patterns and the tables made from them

`GenerateStructuresFromPattern`, and the indications that `CallMacForSlotIndication`
makes from the tables. Numbers are `uint32_t` and are cast to `int` for the search.
-/

namespace Ns3.Nr

inductive LteNrTddSlotType where
  | dl
  | s
  | f
  | ul
  deriving DecidableEq

namespace LteNrTddSlotType

/-- The order of the types is important. -/
def toNat : LteNrTddSlotType → Nat
  | dl => 0
  | s => 1
  | f => 2
  | ul => 3

end LteNrTddSlotType

open LteNrTddSlotType

abbrev Pattern := List LteNrTddSlotType

/-- `std::map<uint32_t, std::vector<uint32_t>>`, with an empty list for what is not there. -/
abbrev OffsetMap := Nat → List Nat

def OffsetMap.pushBack (map : OffsetMap) (index k : Nat) : OffsetMap :=
  fun i => if i = index then map i ++ [k] else map i

/-- `static_cast<int>`. -/
def int32 (x : Int) : Int := x.bmod (2 ^ 32)

/-- `while (n < 0) n += m`, with a bound on the rounds. -/
def addUntil (m : Nat) : Nat → Int → Int
  | 0, n => n
  | rounds + 1, n => if n < 0 then addUntil m rounds (n + m) else n

def modulo (n : Int) (m : Nat) : Nat :=
  if 0 ≤ n then n.toNat % m else (addUntil m n.natAbs n).toNat

namespace Pattern

variable (pattern : Pattern)

/-- The type at an index; each index is inside the pattern. -/
def typeAt (index : Nat) : LteNrTddSlotType := pattern.getD index dl

/-- `k1`, unless the search does not end within the rounds. -/
def returnHarqSlot (rounds pos n1 : Nat) : Option Int :=
  Scan.search (fun k1 => int32 (k1 + 1)) (fun k1 => decide (s.toNat ≤
      (pattern.typeAt (modulo (int32 (int32 pos + k1)) pattern.length)).toNat))
    rounds (int32 n1)

structure DciKPair where
  indexDci : Nat
  k : Nat
  deriving DecidableEq, Inhabited

def dciIndex (pos k : Nat) : Nat := modulo (int32 (int32 pos - int32 k)) pattern.length

def returnDciSlot (rounds pos n : Nat) : Option DciKPair :=
  (Scan.search (fun k => (k + 1) % 2 ^ 32)
    (fun k => decide ((pattern.typeAt (pattern.dciIndex pos k)).toNat ≤ f.toNat)) rounds n).map
    fun k => ⟨pattern.dciIndex pos k, k⟩

def generateDciMaps (rounds : Nat) (maps : OffsetMap × OffsetMap) (pos n l1l2CtrlLatency : Nat) :
    Option (OffsetMap × OffsetMap) := do
  let dciSlot ← pattern.returnDciSlot rounds pos n
  let indexGen := modulo (int32 (int32 dciSlot.indexDci - int32 l1l2CtrlLatency)) pattern.length
  let kWithCtrlLatency := (dciSlot.k + l1l2CtrlLatency) % 2 ^ 32
  return (maps.1.pushBack dciSlot.indexDci dciSlot.k, maps.2.pushBack indexGen kWithCtrlLatency)

def isTdd : Bool :=
  if pattern.any (· = f) then true
  else !(xor (pattern.any (· = ul)) (pattern.any (· = dl)))

def hasUlSlot : Bool := pattern.any fun v => v = f || v = ul || v = s

end Pattern

/-- The DL and UL structures: `toSend` and `generate` of each, and `dlHarqfbPosition`. -/
structure Tables where
  dl : OffsetMap × OffsetMap
  ul : OffsetMap × OffsetMap
  dlHarqfbPosition : Nat → Option Nat

namespace Tables

def toSendDl (tables : Tables) : OffsetMap := tables.dl.1
def generateDl (tables : Tables) : OffsetMap := tables.dl.2
def toSendUl (tables : Tables) : OffsetMap := tables.ul.1
def generateUl (tables : Tables) : OffsetMap := tables.ul.2

def empty : Tables := ⟨(fun _ => [], fun _ => []), (fun _ => [], fun _ => []), fun _ => none⟩

/-- `insert`, which keeps what is there. -/
def insertHarq (tables : Tables) (pos : Nat) (k1 : Int) : Tables :=
  { tables with
    dlHarqfbPosition := fun i =>
      if i = pos then (tables.dlHarqfbPosition i).or (some (k1 % 2 ^ 32).toNat)
      else tables.dlHarqfbPosition i }

end Tables

/-- N0, N1, N2 and the L1L2 latency. -/
structure Delays where
  n0 : Nat
  n1 : Nat
  n2 : Nat
  l1l2CtrlLatency : Nat

namespace Pattern

variable (pattern : Pattern)

def generateDl (d : Delays) (rounds i : Nat) (tables : Tables) : Option Tables := do
  let maps ← pattern.generateDciMaps rounds tables.dl i d.n0 d.l1l2CtrlLatency
  return { tables with dl := maps }

def generateUl (d : Delays) (rounds i : Nat) (tables : Tables) : Option Tables := do
  let maps ← pattern.generateDciMaps rounds tables.ul i d.n2 d.l1l2CtrlLatency
  return { tables with ul := maps }

def generateHarq (d : Delays) (rounds i : Nat) (tables : Tables) : Option Tables := do
  let k1 ← pattern.returnHarqSlot rounds i d.n1
  return tables.insertHarq i k1

/-- One position of the generation pattern; `original` is the pattern that was given. -/
def generateSlot (original : Pattern) (d : Delays) (rounds : Nat) (tables : Tables) (i : Nat) :
    Option Tables :=
  if pattern.typeAt i = ul then pattern.generateUl d rounds i tables
  else if pattern.typeAt i = dl ∨ original.typeAt i = s then do
    let tables ← pattern.generateDl d rounds i tables
    pattern.generateHarq d rounds i tables
  else if pattern.typeAt i = f then do
    let tables ← pattern.generateDl d rounds i tables
    let tables ← pattern.generateUl d rounds i tables
    pattern.generateHarq d rounds i tables
  else some tables

/-- The tables, unless a search does not end within the rounds. -/
def generateStructuresFromPattern (d : Delays) (rounds : Nat) : Option Tables := do
  let generationPattern := if pattern.isTdd then pattern else List.replicate pattern.length f
  let tables ← (List.range pattern.length).foldlM
    (Pattern.generateSlot generationPattern pattern d rounds) Tables.empty
  let tables : Tables :=
    if pattern.isTdd then tables
    else if pattern.hasUlSlot then { tables with dl := (tables.dl.1, fun _ => []) }
    else { tables with ul := (tables.ul.1, fun _ => []) }
  return { tables with
    ul := (tables.ul.1, fun i => (tables.ul.2 i).insertionSort (· ≤ ·))
    dl := (tables.dl.1, fun i => (tables.dl.2 i).insertionSort (· ≤ ·)) }

/-! ## Indications -/

/-- The call of the MAC for a slot that comes so many slots later. -/
structure Indication where
  ahead : Nat
  targetSlot : SfnSf
  type : LteNrTddSlotType

def position (slot : SfnSf) : Nat := slot.normalize % pattern.length

def indication (currentSlot : SfnSf) (k : Nat) : Indication :=
  let targetSlot := currentSlot.add k
  ⟨k, targetSlot, pattern.typeAt (pattern.position targetSlot)⟩

/-- The `SlotUlIndication`s, and then the `SlotDlIndication`s. -/
def callMacForSlotIndication (tables : Tables) (currentSlot : SfnSf) :
    List Indication × List Indication :=
  ((tables.generateUl (pattern.position currentSlot)).map (pattern.indication currentSlot),
    (tables.generateDl (pattern.position currentSlot)).map (pattern.indication currentSlot))

end Pattern

end Ns3.Nr

/-!
## What the tables say

Each DCI goes to the latest slot that is early enough and can carry DL, and each
feedback to the first slot that is late enough and can carry UL.
-/

namespace Ns3.Nr

open LteNrTddSlotType

/-! ## Arithmetic -/

theorem int32_eq {x : Int} (from_ : -2 ^ 31 ≤ x) (below : x < 2 ^ 31) : int32 x = x := by
  exact Int.bmod_eq_of_le (by omega) (by omega)

theorem int32_natCast {n : Nat} (below : n < 2 ^ 31) : int32 (n : Int) = n :=
  int32_eq (by omega) (by omega)

theorem addUntil_eq {m : Nat} (positive : 0 < m) (rounds : Nat) {n : Int} (below : n < m)
    (enough : -n ≤ rounds) : addUntil m rounds n = n % m := by
  induction rounds generalizing n with
  | zero => exact (Int.emod_eq_of_lt (by omega) below).symm
  | succ rounds ih =>
    unfold addUntil
    split
    · rw [ih (by omega) (by omega), Int.add_emod_right]
    · exact (Int.emod_eq_of_lt (by omega) below).symm

theorem modulo_eq (n : Int) {m : Nat} (positive : 0 < m) : modulo n m = (n % m).toNat := by
  unfold modulo
  split
  · rename_i nonneg
    obtain ⟨k, rfl⟩ := Int.eq_ofNat_of_zero_le nonneg
    exact (congrArg Int.toNat (Int.natCast_emod k m)).symm
  · rename_i negative
    rw [addUntil_eq positive _ (by omega) (by omega)]

namespace Pattern

variable {pattern : Pattern}

/-- The position so many slots before another one. -/
def before (pattern : Pattern) (pos k : Nat) : Nat :=
  (((pos : Int) - k) % pattern.length).toNat

theorem before_lt (some_ : 0 < pattern.length) (pos k : Nat) :
    pattern.before pos k < pattern.length := by
  unfold before
  have := Int.emod_nonneg ((pos : Int) - k) (by omega : (pattern.length : Int) ≠ 0)
  have := Int.emod_lt_of_pos ((pos : Int) - k) (by omega : (0 : Int) < pattern.length)
  omega

/-- It is the only position from which so many slots lead there. -/
theorem before_eq_iff {pos index k : Nat} (inside : pos < pattern.length) :
    pattern.before pos k = index ↔ index < pattern.length ∧ (index + k) % pattern.length = pos := by
  have some_ : 0 < pattern.length := by omega
  constructor
  · rintro rfl
    refine ⟨before_lt some_ pos k, ?_⟩
    have nonneg := Int.emod_nonneg ((pos : Int) - k) (by omega : (pattern.length : Int) ≠ 0)
    have same : ((pattern.before pos k + k : Nat) : Int) % pattern.length = pos := by
      unfold before
      rw [Nat.cast_add, Int.toNat_of_nonneg nonneg, Int.emod_add_emod, Int.sub_add_cancel]
      exact Int.emod_eq_of_lt (by omega) (by omega)
    omega
  · rintro ⟨below, rfl⟩
    unfold before
    rw [Int.natCast_emod, Int.emod_sub_emod, Nat.cast_add, Int.add_sub_cancel,
      Int.emod_eq_of_lt (by omega) (by omega)]
    exact Int.toNat_natCast index

theorem add_before {pos : Nat} (inside : pos < pattern.length) (k : Nat) :
    (pattern.before pos k + k) % pattern.length = pos :=
  ((before_eq_iff inside).mp rfl).2

theorem before_before {pos k l : Nat} (inside : pos < pattern.length) :
    pattern.before (pattern.before pos k) l = pattern.before pos (k + l) := by
  have some_ : 0 < pattern.length := by omega
  have back := add_before inside k
  have back' := add_before (before_lt some_ pos k) l
  symm
  rw [before_eq_iff inside]
  refine ⟨before_lt some_ _ l, ?_⟩
  rw [add_comm k l, ← add_assoc, ← Nat.mod_add_mod, back', back]

/-! ## The searches -/

/-- `k` slots before the position is the latest DL-capable slot that is `n` slots early. -/
structure Latest (pattern : Pattern) (pos n k : Nat) : Prop where
  early : n ≤ k
  carries : pattern.typeAt (pattern.before pos k) ≠ ul
  latest : ∀ j, n ≤ j → j < k → pattern.typeAt (pattern.before pos j) = ul

theorem Latest.unique {pos n k k' : Nat} (one : pattern.Latest pos n k)
    (other : pattern.Latest pos n k') : k = k' := by
  rcases Nat.lt_trichotomy k k' with less | same | more
  · exact absurd (other.latest k one.early less) one.carries
  · exact same
  · exact absurd (one.latest k' other.early more) other.carries

/-- `k1` slots after the position is the first UL-capable slot that is `n1` slots late. -/
structure First (pattern : Pattern) (pos n1 k1 : Nat) : Prop where
  late : n1 ≤ k1
  carries : pattern.typeAt ((pos + k1) % pattern.length) ≠ dl
  first : ∀ j, n1 ≤ j → j < k1 → pattern.typeAt ((pos + j) % pattern.length) = dl

theorem typeAt_of_mem {t : LteNrTddSlotType} (mem : t ∈ pattern) :
    ∃ index < pattern.length, pattern.typeAt index = t := by
  obtain ⟨index, below, same⟩ := List.getElem_of_mem mem
  exact ⟨index, below, (List.getD_eq_getElem pattern dl below).trans same⟩

theorem dciIndex_eq {pos k : Nat} (inside : pos < pattern.length)
    (small : pattern.length + k < 2 ^ 31) : pattern.dciIndex pos k = pattern.before pos k := by
  unfold dciIndex
  have first : int32 (pos : Int) = pos := int32_natCast (by omega)
  have second : int32 (k : Int) = k := int32_natCast (by omega)
  rw [first, second, int32_eq (by omega) (by omega), modulo_eq _ (by omega)]
  rfl

theorem carries_iff (t : LteNrTddSlotType) : t.toNat ≤ f.toNat ↔ t ≠ ul := by cases t <;> decide

theorem feedback_iff (t : LteNrTddSlotType) : s.toNat ≤ t.toNat ↔ t ≠ dl := by cases t <;> decide

/-- **The search for the DCI slot** ends within one pattern. -/
theorem returnDciSlot_spec {pos n rounds : Nat} (inside : pos < pattern.length)
    (carrier : ∃ t ∈ pattern, t ≠ ul) (small : n + 2 * pattern.length < 2 ^ 31)
    (enough : pattern.length ≤ rounds) :
    ∃ k < n + pattern.length, pattern.Latest pos n k ∧
      pattern.returnDciSlot rounds pos n = some ⟨pattern.before pos k, k⟩ := by
  obtain ⟨t, mem, carries⟩ := carrier
  obtain ⟨index, below, type⟩ := typeAt_of_mem mem
  have stop_lt := before_lt (k := index + n) (by omega : 0 < pattern.length) pos
  have there : pattern.before pos (n + pattern.before pos (index + n)) = index := by
    rw [before_eq_iff inside]
    refine ⟨below, ?_⟩
    rw [← add_assoc, add_comm]
    exact add_before inside _
  have index_eq : ∀ i < pattern.length, pattern.dciIndex pos (n + i) = pattern.before pos (n + i) :=
    fun i less => dciIndex_eq inside (by omega)
  have walks : ∀ i < pattern.before pos (index + n), (n + i + 1) % 2 ^ 32 = n + (i + 1) :=
    fun i less => Nat.mod_eq_of_lt (by omega)
  have stops : decide ((pattern.typeAt (pattern.dciIndex pos
      (n + pattern.before pos (index + n)))).toNat ≤ f.toNat) = true := by
    rw [index_eq _ stop_lt, there, type, decide_eq_true_iff, carries_iff]
    exact carries
  obtain ⟨i, within, done, found, missing⟩ := Scan.search_stops (fun k => (k + 1) % 2 ^ 32)
      (fun k => decide ((pattern.typeAt (pattern.dciIndex pos k)).toNat ≤ f.toNat))
      (n + ·) walks stops (lt_of_lt_of_le stop_lt enough)
  refine ⟨n + i, by omega, ⟨Nat.le_add_right n i, ?_, fun j from_ less => ?_⟩, ?_⟩
  · rw [index_eq i (by omega), decide_eq_true_iff, carries_iff] at found
    exact found
  · have missed := missing (j - n) (by omega)
    rw [index_eq _ (by omega), decide_eq_false_iff_not, carries_iff, not_not] at missed
    rwa [Nat.add_sub_cancel' from_] at missed
  · unfold returnDciSlot
    rw [add_zero] at done
    rw [done, Option.map_some, index_eq i (by omega)]

/-- **The search for the feedback slot** ends within one pattern. -/
theorem returnHarqSlot_spec {pos n1 rounds : Nat} (inside : pos < pattern.length)
    (carrier : ∃ t ∈ pattern, t ≠ dl) (small : n1 + 2 * pattern.length < 2 ^ 31)
    (enough : pattern.length ≤ rounds) :
    ∃ k1 < n1 + pattern.length, pattern.First pos n1 k1 ∧
      pattern.returnHarqSlot rounds pos n1 = some (k1 : Int) := by
  obtain ⟨t, mem, carries⟩ := carrier
  obtain ⟨index, below, type⟩ := typeAt_of_mem mem
  have stop_lt := before_lt (k := pos + n1) (by omega : 0 < pattern.length) index
  have there : (pos + (n1 + pattern.before index (pos + n1))) % pattern.length = index := by
    rw [← add_assoc, add_comm]
    exact add_before below _
  have index_eq : ∀ i < pattern.length,
      modulo (int32 (int32 pos + ((n1 + i : Nat) : Int))) pattern.length =
        (pos + (n1 + i)) % pattern.length := by
    intro i less
    have first : int32 (pos : Int) = pos := int32_natCast (by omega)
    rw [first, int32_eq (by omega) (by omega), modulo_eq _ (by omega),
      ← Int.natCast_add, ← Int.natCast_emod, Int.toNat_natCast]
  have walks : ∀ i < pattern.before index (pos + n1),
      int32 (((n1 + i : Nat) : Int) + 1) = ((n1 + (i + 1) : Nat) : Int) :=
    fun i less => int32_eq (by omega) (by omega)
  have stops : decide (s.toNat ≤ (pattern.typeAt (modulo (int32 (int32 pos +
      ((n1 + pattern.before index (pos + n1) : Nat) : Int))) pattern.length)).toNat) = true := by
    rw [index_eq _ stop_lt, there, type, decide_eq_true_iff, feedback_iff]
    exact carries
  obtain ⟨i, within, done, found, missing⟩ := Scan.search_stops (fun k1 => int32 (k1 + 1))
      (fun k1 => decide (s.toNat ≤
        (pattern.typeAt (modulo (int32 (int32 pos + k1)) pattern.length)).toNat))
      (fun i => ((n1 + i : Nat) : Int)) walks stops (lt_of_lt_of_le stop_lt enough)
  refine ⟨n1 + i, by omega, ⟨Nat.le_add_right n1 i, ?_, fun j from_ less => ?_⟩, ?_⟩
  · rw [index_eq i (by omega), decide_eq_true_iff, feedback_iff] at found
    exact found
  · have missed := missing (j - n1) (by omega)
    rw [index_eq _ (by omega), decide_eq_false_iff_not, feedback_iff, not_not] at missed
    rwa [Nat.add_sub_cancel' from_] at missed
  · unfold returnHarqSlot
    have start : int32 (n1 : Int) = n1 := int32_natCast (by omega)
    rw [add_zero] at done
    rw [start, done]

end Pattern

end Ns3.Nr
