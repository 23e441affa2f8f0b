import Mathlib.Data.Nat.ModEq
import Mathlib.Tactic.Ring

/-!
# `SfnSf`

Frame, subframe and slot of a numerology. `Normalize` multiplies the frame number
in 32 bits, so that it wraps before the frame number does.
-/

namespace Ns3.Nr

open Nat

structure SfnSf where
  frameNum : Nat
  subframeNum : Nat
  slotNum : Nat
  numerology : Nat
  deriving DecidableEq

namespace SfnSf

def getSlotPerSubframe (s : SfnSf) : Nat := 2 ^ s.numerology

def getSubframesPerFrame : Nat := 10

/-- `m_frameNum * GetSubframesPerFrame() * GetSlotPerSubframe()` before its wrap. -/
def frameSlots (s : SfnSf) : Nat := s.frameNum * getSubframesPerFrame * s.getSlotPerSubframe

def normalize (s : SfnSf) : Nat :=
  s.slotNum + s.subframeNum * s.getSlotPerSubframe + s.frameSlots % 2 ^ 32

def add (s : SfnSf) (slotN : Nat) : SfnSf :=
  let slots := (s.slotNum + slotN) % 2 ^ 32
  let subframes := s.subframeNum + slots / s.getSlotPerSubframe
  ⟨(s.frameNum + subframes / getSubframesPerFrame) % 2 ^ 32, subframes % getSubframesPerFrame,
    slots % s.getSlotPerSubframe, s.numerology⟩

/-- A slot of its subframe, a subframe of its frame. -/
structure Valid (s : SfnSf) : Prop where
  frame : s.frameNum < 2 ^ 32
  subframe : s.subframeNum < 10
  slot : s.slotNum < 2 ^ s.numerology
  numerology : s.numerology ≤ 5

/-- The slots of a run, one after the other. -/
def slotAt (start : SfnSf) : Nat → SfnSf
  | 0 => start
  | t + 1 => (slotAt start t).add 1

/-! ## Slots by number -/

/-- The slot with a number, counted from frame zero. -/
def ofIndex (numerology a : Nat) : SfnSf :=
  ⟨a / 2 ^ numerology / 10 % 2 ^ 32, a / 2 ^ numerology % 10, a % 2 ^ numerology, numerology⟩

def index (s : SfnSf) : Nat := (s.frameNum * 10 + s.subframeNum) * 2 ^ s.numerology + s.slotNum

variable {numerology slotN : Nat} {start : SfnSf}

theorem two_pow_bounds (small : numerology ≤ 5) : 1 ≤ 2 ^ numerology ∧ 2 ^ numerology ≤ 32 :=
  ⟨Nat.one_le_two_pow, Nat.pow_le_pow_right (by decide) small⟩

theorem ofIndex_index {s : SfnSf} (valid : s.Valid) : ofIndex s.numerology s.index = s := by
  obtain ⟨frame, subframe, slot, numerology⟩ := s
  obtain ⟨frame_lt, subframe_lt, slot_lt, small⟩ := valid
  dsimp only at frame_lt subframe_lt slot_lt small
  have positive := (two_pow_bounds small).1
  unfold ofIndex index
  rw [mul_comm, mul_add_div positive, mul_add_mod, div_eq_of_lt slot_lt, mod_eq_of_lt slot_lt]
  have frames : (frame * 10 + subframe + 0) / 10 = frame := by omega
  have subframes : (frame * 10 + subframe + 0) % 10 = subframe := by omega
  rw [frames, subframes, mod_eq_of_lt frame_lt]

theorem add_ofIndex (small : numerology ≤ 5) (a : Nat)
    (short : a % 2 ^ numerology + slotN < 2 ^ 32) :
    (ofIndex numerology a).add slotN = ofIndex numerology (a + slotN) := by
  have positive := (two_pow_bounds small).1
  unfold add ofIndex getSlotPerSubframe getSubframesPerFrame
  dsimp only
  rw [mod_eq_of_lt short]
  generalize 2 ^ numerology = slots at *
  have whole : (a + slotN) / slots = a / slots + (a % slots + slotN) / slots := by
    conv_lhs => rw [← div_add_mod a slots, add_assoc, mul_add_div positive]
  have part : (a + slotN) % slots = (a % slots + slotN) % slots := by rw [mod_add_mod]
  rw [whole, part]
  generalize (a % slots + slotN) / slots = more
  generalize a / slots = subframes
  have carried : (subframes + more) / 10 = subframes / 10 + (subframes % 10 + more) / 10 := by
    omega
  simp [carried]

theorem rest_lt (small : numerology ≤ 5) (a : Nat) (short : slotN + 32 ≤ 2 ^ 32) :
    a % 2 ^ numerology + slotN < 2 ^ 32 := by
  obtain ⟨positive, bound⟩ := two_pow_bounds small
  have slot_lt := mod_lt a positive
  omega

theorem slotAt_eq (valid : start.Valid) (t : Nat) :
    slotAt start t = ofIndex start.numerology (start.index + t) := by
  induction t with
  | zero => exact (ofIndex_index valid).symm
  | succ t ih =>
    rw [slotAt, ih, add_ofIndex valid.numerology _ (rest_lt valid.numerology _ (by decide))]
    rfl

theorem add_slotAt (valid : start.Valid) (t : Nat) (short : slotN + 32 ≤ 2 ^ 32) :
    (slotAt start t).add slotN = slotAt start (t + slotN) := by
  rw [slotAt_eq valid, slotAt_eq valid,
    add_ofIndex valid.numerology _ (rest_lt valid.numerology _ short), add_assoc]

/-! ## Positions in a pattern -/

/-- The frame product does not wrap, or the wrap goes by whole patterns. -/
def Steady (length : Nat) (s : SfnSf) : Prop := length ∣ 2 ^ 32 ∨ s.frameSlots < 2 ^ 32

theorem normalize_ofIndex (numerology a : Nat) :
    (ofIndex numerology a).normalize = a % (2 ^ numerology * 10) +
      a / 2 ^ numerology / 10 % 2 ^ 32 * 10 * 2 ^ numerology % 2 ^ 32 := by
  unfold normalize frameSlots getSlotPerSubframe getSubframesPerFrame ofIndex
  rw [mod_mul, mul_comm (2 ^ numerology)]

theorem rest_add_frames (numerology a : Nat) :
    a % (2 ^ numerology * 10) + a / 2 ^ numerology / 10 * 10 * 2 ^ numerology = a := by
  rw [Nat.div_div_eq_div_mul, mul_assoc, mul_comm 10, mul_comm _ (_ * 10)]
  exact mod_add_div a _

/-- Frames that do not wrap in the product do not wrap at all. -/
theorem frame_lt (valid : start.Valid) {τ : Nat}
    (steady : ∀ t ≤ τ, (slotAt start t).frameSlots < 2 ^ 32) {t : Nat} (within : t ≤ τ) :
    (start.index + t) / 2 ^ start.numerology / 10 < 2 ^ 32 := by
  induction t with
  | zero =>
    have same := congrArg frameNum (ofIndex_index valid)
    have positive := (two_pow_bounds valid.numerology).1
    have frame := valid.frame
    have subframe := valid.subframe
    unfold index
    rw [add_zero, mul_comm, mul_add_div positive, div_eq_of_lt valid.slot]
    omega
  | succ t ih =>
    have frame := ih (by omega)
    have here := steady t (by omega)
    have positive := (two_pow_bounds valid.numerology).1
    unfold frameSlots getSlotPerSubframe getSubframesPerFrame at here
    rw [slotAt_eq valid] at here
    unfold ofIndex at here
    dsimp only at here
    rw [mod_eq_of_lt frame] at here
    have small := Nat.le_mul_of_pos_right
      ((start.index + t) / 2 ^ start.numerology / 10 * 10) positive
    have step : (start.index + (t + 1)) / 2 ^ start.numerology ≤
        (start.index + t) / 2 ^ start.numerology + 1 := by
      rw [← add_div_right _ positive]
      exact Nat.div_le_div_right (by omega)
    omega

/-- **The position** of a slot in a pattern goes on with its number, as long as no slot wraps. -/
theorem normalize_slotAt (valid : start.Valid) {length τ : Nat}
    (steady : ∀ t ≤ τ, Steady length (slotAt start t)) {t : Nat} (within : t ≤ τ) :
    (slotAt start t).normalize % length = (start.index + t) % length := by
  rw [slotAt_eq valid, normalize_ofIndex]
  have whole := rest_add_frames start.numerology (start.index + t)
  by_cases whole_patterns : length ∣ 2 ^ 32
  · have frames : (start.index + t) / 2 ^ start.numerology / 10 % 2 ^ 32 * 10 *
        2 ^ start.numerology % 2 ^ 32 ≡ (start.index + t) / 2 ^ start.numerology / 10 * 10 *
        2 ^ start.numerology [MOD length] := by
      refine (mod_modEq _ _ |>.of_dvd whole_patterns).trans ?_
      exact ((mod_modEq _ _ |>.of_dvd whole_patterns).mul_right 10).mul_right _
    have all := Nat.ModEq.add_left ((start.index + t) % (2 ^ start.numerology * 10)) frames
    rw [whole] at all
    exact all
  · have plain : ∀ t ≤ τ, (slotAt start t).frameSlots < 2 ^ 32 :=
      fun t within => (steady t within).resolve_left whole_patterns
    have frame := frame_lt valid plain within
    have here := plain t within
    unfold frameSlots getSlotPerSubframe getSubframesPerFrame at here
    rw [slotAt_eq valid] at here
    unfold ofIndex at here
    rw [mod_eq_of_lt here, mod_eq_of_lt frame, whole]

end SfnSf

end Ns3.Nr
