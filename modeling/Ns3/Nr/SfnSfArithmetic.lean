import Mathlib.Tactic.IntervalCases
import Ns3.Nr.SfnSf

/-!
# Slot arithmetic and encodings of `SfnSf`

`Normalize` wraps its frame product in 32 bits, and the encoding with a stream keeps 24
bits for the frame, the upper ones of them shared with the numerology. Which of the two
is reached first depends on the numerology alone.
-/

namespace Ns3.Nr

open Nat

namespace SfnSf

/-! ## Encodings -/

/-- `GetEncoding`, with its assertion. -/
def getEncoding (s : SfnSf) : Option Nat :=
  if s.numerology ≤ 5 then
    some (s.frameNum <<< 32 % 2 ^ 64 ||| s.subframeNum <<< 24 ||| s.slotNum <<< 16 |||
      s.numerology <<< 8)
  else none

def getEncForStreamWithSymStart (s : SfnSf) (streamId symStart : UInt8) : Nat :=
  s.numerology <<< 56 % 2 ^ 64 ||| s.frameNum <<< 40 % 2 ^ 64 ||| s.subframeNum <<< 32 |||
    s.slotNum <<< 16 ||| symStart.toNat <<< 8 ||| streamId.toNat

def fromEncoding (sfn : Nat) : SfnSf where
  frameNum := (sfn &&& 0xFFFFFFFF00000000) >>> 32
  subframeNum := (sfn &&& 0x00000000FF000000) >>> 24
  slotNum := (sfn &&& 0x0000000000FF0000) >>> 16
  numerology := (sfn &&& 0x000000000000FF00) >>> 8

/-- `operator<`, with its assertion. -/
def lessThan (s rhs : SfnSf) : Option Bool :=
  if rhs.numerology = s.numerology then
    some <|
      if s.frameNum < rhs.frameNum then true
      else if s.frameNum = rhs.frameNum ∧ s.subframeNum < rhs.subframeNum then true
      else if (s.frameNum = rhs.frameNum ∧ s.subframeNum = rhs.subframeNum) ∧
        s.slotNum < rhs.slotNum then true
      else false
  else none

/-! ## What slot arithmetic is -/

/-- A well-formed `SfnSf` of a numerology, with its frame below a bound. -/
structure Within (numerology frames : Nat) (s : SfnSf) : Prop where
  valid : s.Valid
  numerology : s.numerology = numerology
  frame : s.frameNum < frames

/-- `Add` goes on by so many slots, as long as the slot it leads to is in range. -/
def AddsUp (numerology frames : Nat) : Prop :=
  ∀ s, Within numerology frames s → ∀ slotN < 2 ^ 32,
    s.index + slotN < frames * (10 * 2 ^ numerology) →
      (s.add slotN).normalize = s.normalize + slotN ∧ (s.add slotN).Valid

/-- `operator<` is the order of the normalized numbers. -/
def Ordered (numerology frames : Nat) : Prop :=
  ∀ s t, Within numerology frames s → Within numerology frames t →
    ∃ less, lessThan s t = some less ∧ (less = true ↔ s.normalize < t.normalize)

/-- `Decode` undoes `Encode`. -/
def Decodes (numerology frames : Nat) : Prop :=
  ∀ s, Within numerology frames s → s.getEncoding.map fromEncoding = some s

/-- No two slots, symbols and streams share an encoding. -/
def Separates (numerology frames : Nat) : Prop :=
  ∀ s t, Within numerology frames s → Within numerology frames t →
    ∀ streamId streamId' symStart symStart' : UInt8,
      s.getEncForStreamWithSymStart streamId symStart =
        t.getEncForStreamWithSymStart streamId' symStart' →
      s = t ∧ symStart = symStart' ∧ streamId = streamId'

structure SlotArithmetic (numerology frames : Nat) : Prop where
  addsUp : AddsUp numerology frames
  ordered : Ordered numerology frames
  decodes : Decodes numerology frames
  separates : Separates numerology frames

/-! ## Numbers without wraps -/

variable {s : SfnSf} {numerology frames : Nat}

theorem normalize_eq (plain : s.frameSlots < 2 ^ 32) : s.normalize = s.index := by
  unfold normalize
  rw [mod_eq_of_lt plain]
  unfold frameSlots index getSlotPerSubframe getSubframesPerFrame
  rw [Nat.add_mul, Nat.add_assoc, Nat.add_comm]
  congr 1
  exact Nat.add_comm _ _

theorem index_ofIndex {a : Nat} (small : a < 2 ^ 32 * (10 * 2 ^ numerology)) :
    (ofIndex numerology a).index = a := by
  have frame : a / 2 ^ numerology / 10 < 2 ^ 32 := by
    rw [Nat.div_div_eq_div_mul]
    apply Nat.div_lt_of_lt_mul
    rw [Nat.mul_comm, Nat.mul_comm _ 10]
    exact small
  unfold index ofIndex
  rw [mod_eq_of_lt frame, div_add_mod' (a / 2 ^ numerology) 10, div_add_mod']

theorem valid_ofIndex (small : numerology ≤ 5) (a : Nat) : (ofIndex numerology a).Valid where
  frame := mod_lt _ (by decide)
  subframe := mod_lt _ (by decide)
  slot := mod_lt _ (two_pow_bounds small).1
  numerology := small

theorem index_mod (valid : s.Valid) : s.index % 2 ^ s.numerology = s.slotNum := by
  unfold index
  simp [mod_eq_of_lt valid.slot]

theorem add_eq (valid : s.Valid) {slotN : Nat} (short : s.slotNum + slotN < 2 ^ 32) :
    s.add slotN = ofIndex s.numerology (s.index + slotN) := by
  rw [← index_mod valid] at short
  rw [← add_ofIndex valid.numerology _ short, ofIndex_index valid]

/-- The index of a slot lies among those of its frame. -/
theorem index_bounds (valid : s.Valid) : s.frameNum * (10 * 2 ^ s.numerology) ≤ s.index ∧
      s.index < (s.frameNum + 1) * (10 * 2 ^ s.numerology) := by
  have subframe := valid.subframe
  have slot := valid.slot
  have most : s.subframeNum * 2 ^ s.numerology ≤ 9 * 2 ^ s.numerology :=
    Nat.mul_le_mul_right _ (by omega)
  unfold index
  rw [Nat.add_mul, Nat.add_mul, Nat.mul_assoc]
  omega

theorem Within.plain (inside : Within numerology frames s)
    (few : (frames - 1) * (10 * 2 ^ numerology) < 2 ^ 32) : s.frameSlots < 2 ^ 32 := by
  have frame := inside.frame
  have most : s.frameNum * (10 * 2 ^ numerology) ≤ (frames - 1) * (10 * 2 ^ numerology) :=
    Nat.mul_le_mul_right _ (by omega)
  unfold frameSlots getSubframesPerFrame getSlotPerSubframe
  rw [inside.numerology, Nat.mul_assoc]
  exact Nat.lt_of_le_of_lt most few

/-- **`operator<`** compares the slots by their numbers, counted without wraps. -/
theorem lessThan_eq {t : SfnSf} (s_valid : s.Valid) (t_valid : t.Valid)
    (same : t.numerology = s.numerology) :
    ∃ less, lessThan s t = some less ∧ (less = true ↔ s.index < t.index) := by
  have s_slot := s_valid.slot
  have t_slot := t_valid.slot
  have s_subframe := s_valid.subframe
  have t_subframe := t_valid.subframe
  unfold lessThan
  rw [if_pos same]
  refine ⟨_, rfl, ?_⟩
  have ordered : s.index < t.index ↔
      s.frameNum * 10 + s.subframeNum < t.frameNum * 10 + t.subframeNum ∨
        s.frameNum * 10 + s.subframeNum = t.frameNum * 10 + t.subframeNum ∧
          s.slotNum < t.slotNum := by
    unfold index
    rw [same] at t_slot ⊢
    generalize 2 ^ s.numerology = slots at *
    generalize s.frameNum * 10 + s.subframeNum = a
    generalize t.frameNum * 10 + t.subframeNum = b
    rcases Nat.lt_trichotomy a b with less | rfl | more
    · have := Nat.mul_le_mul_right slots (succ_le_of_lt less)
      rw [succ_mul] at this
      omega
    · omega
    · have := Nat.mul_le_mul_right slots (succ_le_of_lt more)
      rw [succ_mul] at this
      omega
  rw [ordered]
  split
  · simp only [true_iff]; omega
  split
  · simp only [true_iff]; omega
  split
  · simp only [true_iff]; omega
  · simp only [Bool.false_eq_true, false_iff]; omega

/-! ## Where the frame product wraps -/

theorem addsUp_of_few (small : numerology ≤ 5) (few : (frames - 1) * (10 * 2 ^ numerology) < 2 ^ 32)
    (bound : frames ≤ 2 ^ 32) (slots : numerology = 0 ∨ frames * (10 * 2 ^ numerology) ≤ 2 ^ 32) :
    AddsUp numerology frames := by
  intro s inside slotN slotN_lt fits
  have valid := inside.valid
  obtain rfl := inside.numerology
  have lower := (index_bounds valid).1
  have slot := valid.slot
  have slot_le : s.slotNum ≤ s.index := Nat.le_add_left _ _
  have short : s.slotNum + slotN < 2 ^ 32 := by
    rcases slots with zero | slots
    · rw [zero] at slot
      omega
    · omega
  have in_range : s.index + slotN < 2 ^ 32 * (10 * 2 ^ s.numerology) :=
    Nat.lt_of_lt_of_le fits (Nat.mul_le_mul_right _ bound)
  rw [add_eq valid short, normalize_eq (inside.plain few)]
  have reached : Within s.numerology frames (ofIndex s.numerology (s.index + slotN)) := by
    refine ⟨valid_ofIndex small _, rfl, ?_⟩
    have bounds := (index_bounds (valid_ofIndex small (s.index + slotN))).1
    rw [index_ofIndex in_range] at bounds
    exact Nat.lt_of_mul_lt_mul_right (Nat.lt_of_le_of_lt bounds fits)
  rw [normalize_eq (reached.plain few), index_ofIndex in_range]
  exact ⟨rfl, reached.valid⟩

theorem ordered_of_few (few : (frames - 1) * (10 * 2 ^ numerology) < 2 ^ 32) :
    Ordered numerology frames := by
  intro s t s_inside t_inside
  rw [normalize_eq (s_inside.plain few), normalize_eq (t_inside.plain few)]
  exact lessThan_eq s_inside.valid t_inside.valid
    (t_inside.numerology.trans s_inside.numerology.symm)

/-- The first slot of a frame. -/
def frameStart (numerology frame : Nat) : SfnSf := ⟨frame, 0, 0, numerology⟩

theorem within_frameStart {frame : Nat} (small : numerology ≤ 5) (inside : frame < frames)
    (bound : frames ≤ 2 ^ 32) :
    Within numerology frames (frameStart numerology frame) where
  valid := ⟨Nat.lt_of_lt_of_le inside bound, zero_lt_succ _, (two_pow_bounds small).1, small⟩
  numerology := rfl
  frame := inside

/-- The first frame whose product wraps, and the one before it. -/
theorem exists_wrap {slots : Nat} (positive : 0 < slots) (many : 2 ^ 32 ≤ (frames - 1) * slots) :
    ∃ frame, frame + 1 < frames ∧ frame * slots < 2 ^ 32 ∧ 2 ^ 32 ≤ (frame + 1) * slots := by
  refine ⟨(2 ^ 32 - 1) / slots, ?_, ?_, ?_⟩
  · apply add_lt_of_lt_sub
    apply (Nat.div_lt_iff_lt_mul positive).mpr
    exact Nat.lt_of_lt_of_le (by decide) many
  · have := div_mul_le_self (2 ^ 32 - 1) slots
    omega
  · have := lt_div_mul_add positive (a := 2 ^ 32 - 1)
    rw [succ_mul]
    omega

/-- A frame behind a wrap is not reached with the right number, and comes first. -/
theorem not_of_many (small : numerology ≤ 5) (bound : frames ≤ 2 ^ 32)
    (many : 2 ^ 32 ≤ (frames - 1) * (10 * 2 ^ numerology)) :
    ¬ AddsUp numerology frames ∧ ¬ Ordered numerology frames := by
  obtain ⟨positive, slots_le⟩ := two_pow_bounds small
  obtain ⟨frame, inside, plain, wraps⟩ := exists_wrap (by omega : 0 < 10 * 2 ^ numerology) many
  have before := within_frameStart small (lt_of_succ_lt inside) bound
  have behind := within_frameStart small inside bound
  have before_index : (frameStart numerology frame).index = frame * (10 * 2 ^ numerology) := by
    unfold index frameStart
    simp [Nat.mul_assoc]
  have behind_index :
      (frameStart numerology (frame + 1)).index = (frame + 1) * (10 * 2 ^ numerology) := by
    unfold index frameStart
    simp [Nat.mul_assoc]
  have before_normal : (frameStart numerology frame).normalize = frame * (10 * 2 ^ numerology) := by
    rw [← before_index, normalize_eq]
    unfold frameSlots getSubframesPerFrame getSlotPerSubframe frameStart
    rw [Nat.mul_assoc]
    exact plain
  have behind_normal : (frameStart numerology (frame + 1)).normalize =
      (frame + 1) * (10 * 2 ^ numerology) - 2 ^ 32 := by
    unfold normalize frameSlots getSubframesPerFrame getSlotPerSubframe frameStart
    rw [Nat.mul_assoc, Nat.zero_mul, Nat.add_zero, Nat.zero_add, mod_eq_sub_mod wraps,
      mod_eq_of_lt (by rw [succ_mul]; omega)]
  rw [succ_mul] at wraps behind_index behind_normal
  constructor
  · intro adds
    have sum := (adds _ before (10 * 2 ^ numerology) (by omega) (by
      rw [before_index, ← succ_mul]
      exact Nat.mul_lt_mul_of_pos_right inside (by omega))).1
    have reached : (frameStart numerology frame).add (10 * 2 ^ numerology) =
        frameStart numerology (frame + 1) := by
      rw [add_eq before.valid (by change 0 + _ < _; omega), before_index, ← behind_index]
      exact ofIndex_index behind.valid
    rw [reached, before_normal, behind_normal] at sum
    omega
  · intro ordered
    obtain ⟨less, same, exact_⟩ := ordered _ _ before behind
    obtain ⟨less', same', exact'⟩ := lessThan_eq before.valid behind.valid rfl
    obtain rfl : less = less' := Option.some.inj (same.symm.trans same')
    rw [before_normal, behind_normal] at exact_
    rw [before_index, behind_index, exact_] at exact'
    omega

/-- A count near the end of 32 bits wraps in the slot. -/
theorem not_addsUp_of_slots (small : numerology ≤ 5) (some_slots : numerology ≠ 0)
    (many : 2 ^ 32 < frames * (10 * 2 ^ numerology)) :
    ¬ AddsUp numerology frames := by
  intro adds
  have slots : 2 ≤ 2 ^ numerology := Nat.le_self_pow some_slots 2
  have second : Within numerology frames ⟨0, 0, 1, numerology⟩ := by
    refine ⟨⟨Nat.two_pow_pos _, zero_lt_succ _, slots, small⟩, rfl, ?_⟩
    rcases Nat.eq_zero_or_pos frames with rfl | positive
    · rw [Nat.zero_mul] at many
      omega
    · exact positive
  have index_one : (⟨0, 0, 1, numerology⟩ : SfnSf).index = 1 := by
    unfold index
    rw [Nat.add_zero, Nat.zero_mul, Nat.zero_mul, Nat.zero_add]
  have sum := (adds _ second (2 ^ 32 - 1) (by decide) (by rw [index_one]; omega)).1
  have reached : (⟨0, 0, 1, numerology⟩ : SfnSf).add (2 ^ 32 - 1) = ⟨0, 0, 0, numerology⟩ := by
    unfold add getSlotPerSubframe
    dsimp only
    rw [show (1 + (2 ^ 32 - 1)) % 2 ^ 32 = 0 from by decide, Nat.zero_div, zero_mod]
    rfl
  have one : (⟨0, 0, 1, numerology⟩ : SfnSf).normalize = 1 := by
    unfold normalize frameSlots getSubframesPerFrame
    rw [Nat.zero_mul, Nat.zero_mul, Nat.zero_mul, zero_mod]
  have zero : (⟨0, 0, 0, numerology⟩ : SfnSf).normalize = 0 := by
    unfold normalize frameSlots getSubframesPerFrame
    rw [Nat.zero_mul, Nat.zero_mul, Nat.zero_mul, zero_mod]
  rw [reached, one, zero] at sum
  omega

/-! ## Encodings as sums -/

/-- The bits of the frame and of the numerology above the other fields. -/
def upper (s : SfnSf) : Nat := s.frameNum % 2 ^ 24 ||| s.numerology * 2 ^ 16

theorem or_shiftLeft {a b k : Nat} (small : b < 2 ^ k) : a <<< k ||| b = a * 2 ^ k + b := by
  rw [shiftLeft_eq, Nat.mul_comm, two_pow_add_eq_or_of_lt small]

theorem getEncForStreamWithSymStart_eq (valid : s.Valid) (streamId symStart : UInt8) :
    s.getEncForStreamWithSymStart streamId symStart = s.upper * 2 ^ 40 +
      (s.subframeNum * 2 ^ 32 + (s.slotNum * 2 ^ 16 + (symStart.toNat * 2 ^ 8 +
        streamId.toNat))) := by
  obtain ⟨_, subframe, slot, small⟩ := valid
  have slots := (two_pow_bounds small).2
  have stream := streamId.toNat_lt
  have sym := symStart.toNat_lt
  have joined : s.numerology <<< 56 % 2 ^ 64 ||| s.frameNum <<< 40 % 2 ^ 64 = s.upper <<< 40 := by
    unfold upper
    rw [Nat.or_comm, shiftLeft_or_distrib, shiftLeft_eq, shiftLeft_eq,
      shiftLeft_eq, shiftLeft_eq, Nat.mul_assoc, ← Nat.pow_add,
      mod_eq_of_lt (by omega : s.numerology * 2 ^ 56 < 2 ^ 64)]
    congr 1
    omega
  unfold getEncForStreamWithSymStart
  rw [joined, Nat.or_assoc, Nat.or_assoc, Nat.or_assoc, or_shiftLeft stream,
    @or_shiftLeft s.slotNum _ 16 (by omega), @or_shiftLeft s.subframeNum _ 32 (by omega),
    or_shiftLeft (by omega)]

/-- Two slots, symbols and streams share an encoding only where the upper bits do. -/
theorem getEncForStreamWithSymStart_inj {t : SfnSf} (s_valid : s.Valid) (t_valid : t.Valid)
    {streamId streamId' symStart symStart' : UInt8}
    (same : s.getEncForStreamWithSymStart streamId symStart =
      t.getEncForStreamWithSymStart streamId' symStart') :
    s.upper = t.upper ∧ s.subframeNum = t.subframeNum ∧ s.slotNum = t.slotNum ∧
      symStart = symStart' ∧ streamId = streamId' := by
  have s_slots := (two_pow_bounds s_valid.numerology).2
  have t_slots := (two_pow_bounds t_valid.numerology).2
  have s_slot := s_valid.slot
  have t_slot := t_valid.slot
  have s_subframe := s_valid.subframe
  have t_subframe := t_valid.subframe
  have stream := streamId.toNat_lt
  have stream' := streamId'.toNat_lt
  have sym := symStart.toNat_lt
  have sym' := symStart'.toNat_lt
  rw [getEncForStreamWithSymStart_eq s_valid, getEncForStreamWithSymStart_eq t_valid] at same
  refine ⟨by omega, by omega, by omega, UInt8.toNat_inj.mp (by omega),
    UInt8.toNat_inj.mp (by omega)⟩

/-- How many frames a numerology leaves apart in the encoding with a stream. -/
def streamFrames : Nat → Nat
  | 0 => 2 ^ 24
  | 2 => 2 ^ 17
  | 4 => 2 ^ 18
  | _ => 2 ^ 16

theorem upper_eq (s : SfnSf) :
    s.upper = (s.frameNum / 2 ^ 16 % 2 ^ 8 ||| s.numerology) * 2 ^ 16 + s.frameNum % 2 ^ 16 := by
  have split : s.frameNum % 2 ^ 24 =
      (s.frameNum / 2 ^ 16 % 2 ^ 8) <<< 16 ||| s.frameNum % 2 ^ 16 := by
    rw [or_shiftLeft (mod_lt _ (by decide))]
    omega
  unfold upper
  rw [split, ← shiftLeft_eq, Nat.or_assoc, Nat.or_comm _ (s.numerology <<< 16),
    ← Nat.or_assoc, ← shiftLeft_or_distrib, or_shiftLeft (mod_lt _ (by decide))]

section

variable (small : numerology ≤ 5)
include small

theorem or_inj : ∀ a < streamFrames numerology / 2 ^ 16, ∀ b < streamFrames numerology / 2 ^ 16,
      a ||| numerology = b ||| numerology → a = b := by
  interval_cases numerology
  · intro a _ b _ same
    rwa [or_zero, or_zero] at same
  all_goals decide

theorem streamFrames_bounds : streamFrames numerology ≤ 2 ^ 24 ∧ 2 ^ 16 ∣ streamFrames numerology ∧
      streamFrames numerology * (10 * 2 ^ numerology) < 2 ^ 32 := by
  interval_cases numerology <;> decide

theorem separates_of_few (few : frames ≤ streamFrames numerology) :
    Separates numerology frames := by
  intro s t s_inside t_inside streamId streamId' symStart symStart' same
  obtain ⟨most, ⟨blocks, whole⟩, _⟩ := streamFrames_bounds small
  obtain ⟨uppers, subframes, slots, syms, streams⟩ :=
    getEncForStreamWithSymStart_inj s_inside.valid t_inside.valid same
  have s_frame := s_inside.frame
  have t_frame := t_inside.frame
  rw [upper_eq, upper_eq, s_inside.numerology, t_inside.numerology] at uppers
  have above := or_inj small (s.frameNum / 2 ^ 16 % 2 ^ 8) (by omega)
    (t.frameNum / 2 ^ 16 % 2 ^ 8) (by omega) (by omega)
  refine ⟨?_, syms, streams⟩
  have frames : s.frameNum = t.frameNum := by omega
  have numerologies := s_inside.numerology.trans t_inside.numerology.symm
  cases s
  cases t
  simp_all

/-- Frame zero and the first frame beyond share all their encodings. -/
theorem not_separates_of_many (bound : frames ≤ 2 ^ 32) (many : streamFrames numerology < frames) :
    ¬ Separates numerology frames := by
  intro separates
  have zero := within_frameStart small (Nat.lt_of_le_of_lt (Nat.zero_le _) many) bound
  have beyond := within_frameStart small many bound
  have uppers : (frameStart numerology 0).upper =
      (frameStart numerology (streamFrames numerology)).upper := by
    interval_cases numerology <;> rfl
  have same := (separates _ _ zero beyond 0 0 0 0 (by
    rw [getEncForStreamWithSymStart_eq zero.valid, getEncForStreamWithSymStart_eq beyond.valid,
      uppers]
    rfl)).1
  have frame : 0 = streamFrames numerology := congrArg frameNum same
  interval_cases numerology <;> exact absurd frame (by decide)

end

theorem and_shiftRight (a width k : Nat) :
    (a &&& (2 ^ width - 1) <<< k) >>> k = a / 2 ^ k % 2 ^ width := by
  rw [shiftRight_and_distrib, shiftLeft_shiftRight, and_two_pow_sub_one_eq_mod,
    shiftRight_eq_div_pow]

theorem decodes (numerology frames : Nat) : Decodes numerology frames := by
  intro s inside
  obtain ⟨frame, subframe, slot, small⟩ := inside.valid
  have slots := (two_pow_bounds small).2
  have sum : s.frameNum <<< 32 % 2 ^ 64 ||| s.subframeNum <<< 24 ||| s.slotNum <<< 16 |||
      s.numerology <<< 8 = s.frameNum * 2 ^ 32 + (s.subframeNum * 2 ^ 24 +
        (s.slotNum * 2 ^ 16 + s.numerology * 2 ^ 8)) := by
    rw [mod_eq_of_lt (by rw [shiftLeft_eq]; omega), Nat.or_assoc, Nat.or_assoc,
      shiftLeft_eq s.numerology, @or_shiftLeft s.slotNum _ 16 (by omega),
      @or_shiftLeft s.subframeNum _ 24 (by omega), or_shiftLeft (by omega)]
  unfold getEncoding
  rw [if_pos small, Option.map_some, sum]
  unfold fromEncoding
  obtain ⟨frameNum, subframeNum, slotNum, numerology⟩ := s
  dsimp only at *
  have first := and_shiftRight (frameNum * 2 ^ 32 + (subframeNum * 2 ^ 24 +
    (slotNum * 2 ^ 16 + numerology * 2 ^ 8))) 32 32
  have second := and_shiftRight (frameNum * 2 ^ 32 + (subframeNum * 2 ^ 24 +
    (slotNum * 2 ^ 16 + numerology * 2 ^ 8))) 8 24
  have third := and_shiftRight (frameNum * 2 ^ 32 + (subframeNum * 2 ^ 24 +
    (slotNum * 2 ^ 16 + numerology * 2 ^ 8))) 8 16
  have fourth := and_shiftRight (frameNum * 2 ^ 32 + (subframeNum * 2 ^ 24 +
    (slotNum * 2 ^ 16 + numerology * 2 ^ 8))) 8 8
  simp only [Option.some.injEq, SfnSf.mk.injEq]
  exact ⟨first.trans (by omega), second.trans (by omega), third.trans (by omega),
    fourth.trans (by omega)⟩

/-! ## Slot arithmetic -/

end SfnSf

end Ns3.Nr
