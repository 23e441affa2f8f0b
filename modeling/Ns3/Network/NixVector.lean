import Mathlib.Data.List.Basic
import Ns3.Library.WordFields

/-!
# `NixVector`

Neighbour indices are packed into words, the first one lowest, and taken out again from the
top. `none` is a fatal error.
-/

namespace Ns3.Network

open List Nat UInt32 WordFields

/-- `m_nixVector`, `m_used`, `m_totalBitSize` and `m_epoch`. -/
structure NixVector where
  nixVector : List UInt32 := []
  used : UInt32 := 0
  totalBitSize : UInt32 := 0
  epoch : UInt32 := 0
  deriving DecidableEq

namespace NixVector

/-- What a shift by 32 or more gives is not defined, and is a parameter here. -/
structure Beyond where
  left : UInt32 → Nat → UInt32
  right : UInt32 → Nat → UInt32

variable (beyond : Beyond)

def shl (x : UInt32) (n : Nat) : UInt32 := if n < 32 then x <<< UInt32.ofNat n else beyond.left x n

def shr (x : UInt32) (n : Nat) : UInt32 := if n < 32 then x >>> UInt32.ofNat n else beyond.right x n

def getRemainingBits (nix : NixVector) : UInt32 := nix.totalBitSize - nix.used

def copy (nix : NixVector) : NixVector := nix

/-- `AddNeighborIndex`, with the amounts of the shifts it does. -/
def addNeighborIndex (nix : NixVector) (newBits numberOfBits : UInt32) :
    Option (NixVector × List Nat) :=
  if 32 < numberOfBits then none
  else
    let currentVectorBitSize := (nix.totalBitSize % 32).toNat
    let entries := if currentVectorBitSize = 0 then nix.nixVector ++ [0] else nix.nixVector
    match entries.getLast? with
    | none => none
    | some back =>
      let totalBitSize := nix.totalBitSize + numberOfBits
      if 32 < currentVectorBitSize + numberOfBits.toNat then
        let low := shl beyond newBits currentVectorBitSize ||| back
        let high := shr beyond newBits (32 - currentVectorBitSize)
        some ({ nix with nixVector := entries.dropLast ++ [low, high], totalBitSize },
          [currentVectorBitSize, 32 - currentVectorBitSize])
      else
        let low := shl beyond newBits currentVectorBitSize ||| back
        some ({ nix with nixVector := entries.dropLast ++ [low], totalBitSize },
          [currentVectorBitSize])

/-- `ExtractNeighborIndex`, with the amounts of the shifts it does. -/
def extractNeighborIndex (nix : NixVector) (numberOfBits : UInt32) :
    Option (UInt32 × NixVector × List Nat) :=
  let totalRemainingBits := nix.getRemainingBits
  if 32 < numberOfBits ∨ totalRemainingBits < numberOfBits ∨ numberOfBits = 0 then none
  else
    let n := numberOfBits.toNat
    let rest := (totalRemainingBits % 32).toNat
    let vectorIndex := ((totalRemainingBits - 1) / 32).toNat
    let used := nix.used + numberOfBits
    match nix.nixVector[vectorIndex]? with
    | none => none
    | some entry =>
      if 0 < vectorIndex ∧ ((totalRemainingBits - 1) % 32).toNat < n - 1 then
        match nix.nixVector[vectorIndex - 1]? with
        | none => none
        | some before =>
          let upper := shr beyond (shl beyond entry (32 - rest)) ((32 - rest) - (n - rest))
          let lower := shr beyond before (32 - (n - rest))
          some (upper ||| lower, { nix with used },
            [32 - rest, (32 - rest) - (n - rest), 32 - (n - rest)])
      else
        some (shr beyond (shl beyond entry (32 - rest)) (32 - n), { nix with used },
          [32 - rest, 32 - n])

/-! ## Serialization -/

def getSerializedSize (nix : NixVector) : UInt32 :=
  if nix.totalBitSize = 0 then 4 else 4 + 4 + 4 * UInt32.ofNat nix.nixVector.length + 4

/-- `Serialize`: the words that are written, or nothing into too small a buffer. -/
def serialize (nix : NixVector) (maxSize : UInt32) : Option (List UInt32) :=
  if maxSize < nix.getSerializedSize then none
  else if nix.totalBitSize = 0 then some [nix.totalBitSize]
  else some ([nix.totalBitSize, nix.used] ++ nix.nixVector ++ [nix.epoch])

/-- `Deserialize` into a fresh vector. -/
def deserialize (buffer : List UInt32) (size : UInt32) : Option NixVector :=
  if size < 4 then none
  else
    match buffer with
    | [] => none
    | totalBitSize :: buffer =>
      if totalBitSize = 0 then some { totalBitSize }
      else
        let nixVectorLength := totalBitSize / 32 + if totalBitSize % 32 ≠ 0 then 1 else 0
        match buffer with
        | [] => none
        | used :: buffer =>
          if size < 16 + nixVectorLength * 4 then none
          else
            match buffer.drop nixVectorLength.toNat with
            | [] => none
            | epoch :: _ =>
              some { nixVector := buffer.take nixVectorLength.toNat, used, totalBitSize, epoch }

/-- The way through a packet, which announces four bytes more than were written. -/
def throughPacket (nix : NixVector) : Option NixVector := do
  let buffer ← nix.serialize nix.getSerializedSize
  deserialize buffer (nix.getSerializedSize + 4)

/-! ## What the words hold -/

/-- The words of a number of `T` bits, of which `U` are used. -/
structure Holds (number T U : Nat) (nix : NixVector) : Prop where
  words : nix.nixVector.map UInt32.toNat = WordFields.words 32 number ((T + 31) / 32)
  number_lt : number < 2 ^ T
  total : nix.totalBitSize.toNat = T
  used : nix.used.toNat = U
  used_le : U ≤ T

variable {beyond}

theorem toNat_shl {x : UInt32} {n : Nat} (small : n < 32) :
    (shl beyond x n).toNat = x.toNat * 2 ^ n % 2 ^ 32 := by
  have amount : (UInt32.ofNat n).toNat % 32 = n := by simp [mod_eq_of_lt small]
  unfold shl
  rw [if_pos small, UInt32.toNat_shiftLeft, amount, shiftLeft_eq]

theorem toNat_shr {x : UInt32} {n : Nat} (small : n < 32) :
    (shr beyond x n).toNat = x.toNat / 2 ^ n := by
  have amount : (UInt32.ofNat n).toNat % 32 = n := by simp [mod_eq_of_lt small]
  unfold shr
  rw [if_pos small, UInt32.toNat_shiftRight, amount, shiftRight_eq_div_pow]

/-- The entry that the next index goes to, which is a new one behind full words. -/
theorem Holds.entries {number T U : Nat} {nix : NixVector} (holds : Holds number T U nix) :
    ∃ init back, (if T % 32 = 0 then nix.nixVector ++ [0] else nix.nixVector) = init ++ [back] ∧
      init.map UInt32.toNat = WordFields.words 32 number (T / 32) ∧
      back.toNat = number / 2 ^ (32 * (T / 32)) ∧ back.toNat < 2 ^ (T % 32) := by
  have top_lt : number / 2 ^ (32 * (T / 32)) < 2 ^ (T % 32) := by
    apply Nat.div_lt_of_lt_mul
    rw [← Nat.pow_add, div_add_mod]
    exact holds.number_lt
  have top_word : number / 2 ^ (32 * (T / 32)) % 2 ^ 32 = number / 2 ^ (32 * (T / 32)) :=
    mod_eq_of_lt (lt_trans top_lt (Nat.pow_lt_pow_right (by decide) (mod_lt _ (by decide))))
  have words := holds.words
  by_cases full : T % 32 = 0
  · rw [show (T + 31) / 32 = T / 32 from by omega] at words
    rw [full, Nat.pow_zero, lt_one_iff] at top_lt
    refine ⟨nix.nixVector, 0, if_pos full, words, top_lt.symm, ?_⟩
    exact Nat.two_pow_pos _
  · rw [show (T + 31) / 32 = T / 32 + 1 from by omega, words_succ] at words
    obtain ⟨init, last, split, front, back⟩ := map_eq_append_iff.mp words
    obtain ⟨entry, rest, rfl, value, empty⟩ := map_eq_cons_iff.mp back
    rw [map_eq_nil_iff.mp empty] at split
    rw [top_word] at value
    refine ⟨init, entry, by rw [if_neg full, split], front, value, ?_⟩
    rw [value]
    exact top_lt

/-- **A pushed index** goes above the bits that are there, by shifts in a word. -/
theorem Holds.addNeighborIndex {number T U : Nat} {nix : NixVector}
    (holds : Holds number T U nix) {newBits numberOfBits : UInt32}
    (some_ : 1 ≤ numberOfBits.toNat) (most : numberOfBits.toNat ≤ 32)
    (value_lt : newBits.toNat < 2 ^ numberOfBits.toNat)
    (room : T + numberOfBits.toNat < 2 ^ 32) :
    ∃ nix' shifts, nix.addNeighborIndex beyond newBits numberOfBits = some (nix', shifts) ∧
      Holds (number + newBits.toNat * 2 ^ T) (T + numberOfBits.toNat) U nix' ∧
      ∀ s ∈ shifts, s < 32 := by
  obtain ⟨init, back, entries, front, back_eq, back_lt⟩ := holds.entries
  have size : (nix.totalBitSize % 32).toNat = T % 32 := by
    rw [UInt32.toNat_mod, holds.total]
    rfl
  have narrow : ¬ 32 < numberOfBits := by
    rw [lt_iff_toNat_lt]
    exact not_lt.mpr most
  have total : (nix.totalBitSize + numberOfBits).toNat = T + numberOfBits.toNat := by
    rw [UInt32.toNat_add, holds.total, mod_eq_of_lt room]
  have number_lt : number + newBits.toNat * 2 ^ T < 2 ^ (T + numberOfBits.toNat) := by
    have le := Nat.mul_le_mul_right (2 ^ T) (succ_le_of_lt value_lt)
    have before := holds.number_lt
    rw [succ_mul] at le
    rw [Nat.pow_add, mul_comm (2 ^ T)]
    omega
  have cur_lt : T % 32 < 32 := mod_lt _ (by decide)
  have position : 2 ^ T = 2 ^ (T % 32) * 2 ^ (32 * (T / 32)) := by rw [← Nat.pow_add, mod_add_div]
  have lower : WordFields.words 32 (number + newBits.toNat * 2 ^ T) (T / 32) =
      WordFields.words 32 number (T / 32) :=
    words_add_mul _ (mul_div_le T 32)
  have top : (number + newBits.toNat * 2 ^ T) / 2 ^ (32 * (T / 32)) =
      back.toNat + newBits.toNat * 2 ^ (T % 32) := by
    rw [position, ← mul_assoc, add_mul_div_right _ _ (Nat.two_pow_pos _), back_eq]
  have whole : 2 ^ 32 = 2 ^ (T % 32) * 2 ^ (32 - T % 32) := by
    rw [← Nat.pow_add]
    congr 1
    omega
  have inner : (back.toNat + newBits.toNat * 2 ^ (T % 32)) / 2 ^ (T % 32) = newBits.toNat := by
    simp [add_mul_div_right _ _ (Nat.two_pow_pos _), div_eq_of_lt back_lt]
  have low : (shl beyond newBits (T % 32) ||| back).toNat =
      (back.toNat + newBits.toNat * 2 ^ (T % 32)) % 2 ^ 32 := by
    have shifted : newBits.toNat * 2 ^ (T % 32) % 2 ^ 32 =
        2 ^ (T % 32) * (newBits.toNat % 2 ^ (32 - T % 32)) := by
      rw [whole, mul_comm newBits.toNat, mul_mod_mul_left]
    rw [UInt32.toNat_or, toNat_shl cur_lt, shifted, ← two_pow_add_eq_or_of_lt back_lt, whole,
      mod_mul, inner, add_mul_mod_self_right, mod_eq_of_lt back_lt, add_comm]
  have init_len : init.length = T / 32 := by
    have length := congrArg List.length front
    rwa [length_map, length_words] at length
  unfold NixVector.addNeighborIndex
  dsimp only
  rw [if_neg narrow, size, entries, getLast?_concat, dropLast_concat]
  dsimp only
  by_cases straddles : 32 < T % 32 + numberOfBits.toNat
  · have high : (shr beyond newBits (32 - T % 32)).toNat =
        (number + newBits.toNat * 2 ^ T) / 2 ^ (32 * (T / 32 + 1)) % 2 ^ 32 := by
      have bits_lt := newBits.toNat_lt
      have down : newBits.toNat / 2 ^ (32 - T % 32) < 2 ^ 32 :=
        lt_of_le_of_lt (Nat.div_le_self _ _) bits_lt
      rw [toNat_shr (by omega), mul_succ, Nat.pow_add, ← Nat.div_div_eq_div_mul, top, whole,
        ← Nat.div_div_eq_div_mul, inner, ← whole, mod_eq_of_lt down]
    rw [if_pos straddles]
    refine ⟨_, _, rfl, ⟨?_, number_lt, total, holds.used, by have := holds.used_le; omega⟩, ?_⟩
    · have count : (T + numberOfBits.toNat + 31) / 32 = T / 32 + 1 + 1 := by omega
      rw [count, words_succ, words_succ, lower, top, map_append, front, append_assoc]
      simp [low, high]
    · intro s mem
      simp only [mem_cons, not_mem_nil, or_false] at mem
      omega
  · rw [if_neg straddles]
    refine ⟨_, _, rfl, ⟨?_, number_lt, total, holds.used, by have := holds.used_le; omega⟩, ?_⟩
    · have count : (T + numberOfBits.toNat + 31) / 32 = T / 32 + 1 := by omega
      rw [count, words_succ, lower, top, map_append, front]
      simp [low]
    · intro s mem
      rw [mem_singleton] at mem
      omega

theorem Holds.remaining {number T U : Nat} {nix : NixVector} (holds : Holds number T U nix) :
    nix.getRemainingBits.toNat = T - U := by
  have le := holds.used_le
  have total_lt := nix.totalBitSize.toNat_lt
  unfold getRemainingBits
  rw [UInt32.toNat_sub, holds.total, holds.used]
  have := holds.total
  omega

theorem Holds.word {number T U : Nat} {nix : NixVector} (holds : Holds number T U nix) {i : Nat}
    (inside : 32 * i < T) : ∃ entry, nix.nixVector[i]? = some entry ∧
      entry.toNat = number / 2 ^ (32 * i) % 2 ^ 32 := by
  have found := @getElem?_words 32 number ((T + 31) / 32) i (by omega)
  rw [← holds.words, getElem?_map, Option.map_eq_some_iff] at found
  exact found

/-- **An extracted index** is the field below the bits that are left, unless these end with a
word; the vector goes on below it in any case. -/
theorem Holds.extractNeighborIndex {number T U : Nat} {nix : NixVector}
    (holds : Holds number T U nix) {numberOfBits : UInt32} (some_ : 1 ≤ numberOfBits.toNat)
    (most : numberOfBits.toNat ≤ 32) (room : numberOfBits.toNat ≤ T - U) :
    ∃ value nix' shifts, nix.extractNeighborIndex beyond numberOfBits = some (value, nix', shifts) ∧
      Holds number T (U + numberOfBits.toNat) nix' ∧
      ((T - U) % 32 ≠ 0 → value.toNat = WordFields.field number (T - U) numberOfBits.toNat ∧
        ∀ s ∈ shifts, s < 32) := by
  have remaining := holds.remaining
  have total := holds.total
  have total_lt := nix.totalBitSize.toNat_lt
  have used_le := holds.used_le
  have ok : ¬ (32 < numberOfBits ∨ nix.getRemainingBits < numberOfBits ∨ numberOfBits = 0) := by
    rw [lt_iff_toNat_lt, lt_iff_toNat_lt, ← UInt32.toNat_inj, remaining, UInt32.toNat_zero]
    change ¬ (32 < _ ∨ _)
    omega
  have less : (nix.getRemainingBits - 1).toNat = T - U - 1 := by
    rw [UInt32.toNat_sub, remaining]
    change (2 ^ 32 - 1 + (T - U)) % 2 ^ 32 = _
    omega
  have rest : (nix.getRemainingBits % 32).toNat = (T - U) % 32 := by
    rw [UInt32.toNat_mod, remaining]
    rfl
  have index : ((nix.getRemainingBits - 1) / 32).toNat = (T - U - 1) / 32 := by
    rw [UInt32.toNat_div, less]
    rfl
  have inWord : ((nix.getRemainingBits - 1) % 32).toNat = (T - U - 1) % 32 := by
    rw [UInt32.toNat_mod, less]
    rfl
  have used : (nix.used + numberOfBits).toNat = U + numberOfBits.toNat := by
    rw [UInt32.toNat_add, holds.used]
    exact mod_eq_of_lt (by omega)
  have next : Holds number T (U + numberOfBits.toNat)
      { nix with used := nix.used + numberOfBits } :=
    ⟨holds.words, holds.number_lt, total, used, by omega⟩
  obtain ⟨entry, at_index, entry_eq⟩ := holds.word (by omega : 32 * ((T - U - 1) / 32) < T)
  unfold NixVector.extractNeighborIndex
  dsimp only
  rw [if_neg ok, index, at_index, rest, inWord]
  dsimp only
  by_cases across : 0 < (T - U - 1) / 32 ∧ (T - U - 1) % 32 < numberOfBits.toNat - 1
  · obtain ⟨before, at_before, before_eq⟩ := holds.word (by omega : 32 * ((T - U - 1) / 32 - 1) < T)
    rw [if_pos across, at_before]
    refine ⟨_, _, _, rfl, next, fun odd => ⟨?_, ?_⟩⟩
    · obtain ⟨i, index_eq⟩ : ∃ i, (T - U - 1) / 32 = i + 1 := ⟨_, (Nat.sub_add_cancel across.1).symm⟩
      have r_le : (T - U) % 32 ≤ numberOfBits.toNat := by omega
      have down : 32 - (T - U) % 32 - (numberOfBits.toNat - (T - U) % 32) =
          32 - numberOfBits.toNat := by omega
      have position : T - U = 32 * (i + 1) + (T - U) % 32 := by omega
      rw [index_eq] at entry_eq
      rw [index_eq, Nat.add_sub_cancel] at before_eq
      have lower_lt : before.toNat / 2 ^ (32 - (numberOfBits.toNat - (T - U) % 32)) <
          2 ^ (numberOfBits.toNat - (T - U) % 32) := by
        apply Nat.div_lt_of_lt_mul
        rw [← Nat.pow_add, show 32 - (numberOfBits.toNat - (T - U) % 32) +
          (numberOfBits.toNat - (T - U) % 32) = 32 from by omega]
        exact before.toNat_lt
      have upper : (shr beyond (shl beyond entry (32 - (T - U) % 32))
          (32 - numberOfBits.toNat)).toNat = 2 ^ (numberOfBits.toNat - (T - U) % 32) *
            (entry.toNat % 2 ^ ((T - U) % 32)) := by
        rw [toNat_shr (by omega), toNat_shl (by omega), shift_across _ r_le most, mul_comm]
      rw [down, UInt32.toNat_or, upper, toNat_shr (by omega),
        ← two_pow_add_eq_or_of_lt lower_lt, entry_eq, before_eq,
        mod_mod_of_dvd _ (Nat.pow_dvd_pow 2 (by omega)), mul_comm,
        ← field_across _ _ r_le most, ← position]
    · intro s mem
      simp only [mem_cons, not_mem_nil, or_false] at mem
      omega
  · rw [if_neg across]
    refine ⟨_, _, _, rfl, next, fun odd => ⟨?_, ?_⟩⟩
    · have n_le : numberOfBits.toNat ≤ (T - U) % 32 := by omega
      have position : T - U = 32 * ((T - U - 1) / 32) + (T - U) % 32 := by omega
      have within := @field_within 32 ((T - U) % 32) numberOfBits.toNat number
        ((T - U - 1) / 32) n_le (by omega)
      rw [toNat_shr (by omega), toNat_shl (by omega), shift_within _ n_le (by omega),
        entry_eq, ← within, ← position]
    · intro s mem
      simp only [mem_cons, not_mem_nil, or_false] at mem
      omega

/-! ## Copies and packets -/

theorem Holds.lengths {number T U : Nat} {nix : NixVector} (holds : Holds number T U nix) :
    nix.nixVector.length = (T + 31) / 32 := by
  have length := congrArg List.length holds.words
  rwa [length_map, length_words] at length

/-- **Through a packet** the words, the sizes and what is used come back. -/
theorem Holds.throughPacket {number T U : Nat} {nix : NixVector} (holds : Holds number T U nix) :
    ∃ nix', nix.throughPacket = some nix' ∧ Holds number T U nix' := by
  have total := holds.total
  have total_lt := nix.totalBitSize.toNat_lt
  have length := holds.lengths
  unfold NixVector.throughPacket serialize getSerializedSize
  by_cases empty : nix.totalBitSize = 0
  · have zero : T = 0 := by
      rw [← total, empty]
      rfl
    subst zero
    have used_le := holds.used_le
    have number_lt := holds.number_lt
    obtain rfl : U = 0 := le_zero.mp used_le
    rw [if_pos empty, empty]
    refine ⟨{ totalBitSize := 0 }, rfl, ⟨rfl, number_lt, rfl, rfl, le_refl 0⟩⟩
  · rw [if_neg empty, if_neg (UInt32.lt_irrefl _), if_neg empty, Option.bind_eq_bind,
      Option.bind_some]
    have words : (nix.totalBitSize / 32 + if nix.totalBitSize % 32 ≠ 0 then 1 else 0).toNat =
        nix.nixVector.length := by
      have rest : nix.totalBitSize % 32 ≠ 0 ↔ T % 32 ≠ 0 := by
        rw [ne_eq, ← UInt32.toNat_inj, UInt32.toNat_mod, total]
        rfl
      have one : (if nix.totalBitSize % 32 ≠ 0 then 1 else 0 : UInt32).toNat =
          if T % 32 ≠ 0 then 1 else 0 := by
        by_cases odd : T % 32 ≠ 0
        · rw [if_pos (rest.mpr odd), if_pos odd]
          rfl
        · rw [if_neg (rest.not.mpr odd), if_neg odd]
          rfl
      rw [UInt32.toNat_add, UInt32.toNat_div, one, total, length]
      change (T / 32 + _) % 2 ^ 32 = _
      split <;> omega
    have entries : (UInt32.ofNat nix.nixVector.length).toNat = nix.nixVector.length :=
      toNat_ofNat_of_lt' (by change _ < 2 ^ 32; omega)
    have count : nix.totalBitSize / 32 + (if nix.totalBitSize % 32 ≠ 0 then 1 else 0) =
        UInt32.ofNat nix.nixVector.length := UInt32.toNat_inj.mp (words.trans entries.symm)
    have size : (4 + 4 + 4 * UInt32.ofNat nix.nixVector.length + 4 + 4).toNat =
        16 + 4 * nix.nixVector.length := by
      simp only [UInt32.toNat_add, UInt32.toNat_mul]
      change ((((4 + 4) % 2 ^ 32 + 4 * _ % 2 ^ 32) % 2 ^ 32 + 4) % 2 ^ 32 + 4) % 2 ^ 32 = _
      omega
    have long : ¬ (4 + 4 + 4 * UInt32.ofNat nix.nixVector.length + 4 + 4 : UInt32) < 4 := by
      rw [lt_iff_toNat_lt, size]
      change ¬ _ < 4
      omega
    have enough : ¬ (4 + 4 + 4 * UInt32.ofNat nix.nixVector.length + 4 + 4 : UInt32) <
        16 + UInt32.ofNat nix.nixVector.length * 4 := by
      rw [lt_iff_toNat_lt, size, UInt32.toNat_add, UInt32.toNat_mul, entries]
      change ¬ _ < (16 + _ * 4 % 2 ^ 32) % 2 ^ 32
      omega
    refine ⟨nix, ?_, holds⟩
    unfold deserialize
    rw [if_neg long]
    simp only [cons_append, nil_append]
    rw [if_neg empty, count, if_neg enough, entries, drop_left, take_left]

/-- A copy, or the way through a packet. -/
inductive Pass where
  | copy
  | packet

def pass (nix : NixVector) : Pass → Option NixVector
  | .copy => some nix.copy
  | .packet => nix.throughPacket

theorem Holds.passes {number T U : Nat} {nix : NixVector} (holds : Holds number T U nix)
    (passes : List Pass) : ∃ nix', passes.foldlM pass nix = some nix' ∧ Holds number T U nix' := by
  induction passes generalizing nix with
  | nil => exact ⟨nix, rfl, holds⟩
  | cons first passes ih =>
    have once : ∃ nix', pass nix first = some nix' ∧ Holds number T U nix' := by
      cases first with
      | copy => exact ⟨nix, rfl, holds⟩
      | packet => exact holds.throughPacket
    obtain ⟨between, passed, holds'⟩ := once
    obtain ⟨nix', rest, last⟩ := ih holds'
    refine ⟨nix', ?_, last⟩
    rw [foldlM_cons, passed]
    exact rest

/-! ## Runs -/

/-- A value and its width. -/
abbrev Index : Type := UInt32 × UInt32

def Index.Fits (f : Index) : Prop :=
  1 ≤ f.2.toNat ∧ f.2.toNat ≤ 32 ∧ f.1.toNat < 2 ^ f.2.toNat

/-- The bits of a stack of indices. -/
def bits : List Index → Nat
  | [] => 0
  | f :: below => bits below + f.2.toNat

/-- The number of a stack of indices, the top one highest. -/
def number : List Index → Nat
  | [] => 0
  | f :: below => number below + f.1.toNat * 2 ^ bits below

/-- All pushes, with the amounts of their shifts. -/
def pushAll (beyond : Beyond) : NixVector → List Index → Option (NixVector × List Nat)
  | nix, [] => some (nix, [])
  | nix, f :: fields => do
    let (nix, shifts) ← nix.addNeighborIndex beyond f.1 f.2
    let (nix, more) ← pushAll beyond nix fields
    return (nix, shifts ++ more)

/-- What is seen of an extraction: the value, the bits left before and behind it, the total and
the amounts of the shifts. -/
structure Extracted where
  value : UInt32
  before : UInt32
  after : UInt32
  total : UInt32
  shifts : List Nat
  deriving DecidableEq

/-- Extractions of some widths, each one behind some copies and packets. -/
def extractAll (beyond : Beyond) : NixVector → List (List Pass × UInt32) → Option (List Extracted)
  | _, [] => some []
  | nix, (passes, width) :: steps => do
    let nix ← passes.foldlM pass nix
    let (value, nix', shifts) ← nix.extractNeighborIndex beyond width
    let later ← extractAll beyond nix' steps
    return ⟨value, nix.getRemainingBits, nix'.getRemainingBits, nix'.totalBitSize, shifts⟩ :: later

/-- The extractions take a stack of indices down: the sizes are exact, and the values too where
the bits that are left do not end with a word. -/
def Exact (total : Nat) : List Index → List Extracted → Prop
  | [], trace => trace = []
  | f :: below, trace => ∃ seen later, trace = seen :: later ∧
      seen.before.toNat = bits (f :: below) ∧ seen.after.toNat = bits below ∧
      seen.total.toNat = total ∧
      (bits (f :: below) % 32 ≠ 0 → seen.value = f.1 ∧ ∀ s ∈ seen.shifts, s < 32) ∧
      Exact total below later

theorem number_lt {stack : List Index} (fit : ∀ f ∈ stack, f.Fits) :
    number stack < 2 ^ bits stack := by
  induction stack with
  | nil => exact Nat.one_pos
  | cons f below ih =>
    have below_lt := ih fun g mem => fit g (mem_cons_of_mem _ mem)
    have le := Nat.mul_le_mul_right (2 ^ bits below) (succ_le_of_lt (fit f mem_cons_self).2.2)
    rw [succ_mul] at le
    rw [number, bits, Nat.pow_add, mul_comm (2 ^ bits below)]
    omega

theorem bits_append (front back : List Index) : bits (front ++ back) = bits front + bits back := by
  induction front with
  | nil => exact (zero_add _).symm
  | cons f front ih =>
    rw [cons_append, bits, bits, ih]
    omega

theorem bits_reverse (fields : List Index) : bits fields.reverse = bits fields := by
  induction fields with
  | nil => rfl
  | cons f fields ih =>
    simp [bits_append, ih, bits, bits, bits]

/-- **All pushes** put the indices on the stack. -/
theorem Holds.pushAll {below fields : List Index} {nix : NixVector}
    (holds : Holds (number below) (bits below) 0 nix) (fit : ∀ f ∈ fields, f.Fits)
    (room : bits below + bits fields < 2 ^ 32) :
    ∃ nix' shifts, NixVector.pushAll beyond nix fields = some (nix', shifts) ∧
      Holds (number (fields.reverse ++ below)) (bits (fields.reverse ++ below)) 0 nix' ∧
      ∀ s ∈ shifts, s < 32 := by
  induction fields generalizing below nix with
  | nil => exact ⟨nix, [], rfl, holds, fun _ mem => absurd mem not_mem_nil⟩
  | cons f fields ih =>
    obtain ⟨some_, most, value_lt⟩ := fit f mem_cons_self
    rw [bits] at room
    obtain ⟨between, first, pushed, holds', first_lt⟩ :=
      holds.addNeighborIndex some_ most value_lt (by omega)
    obtain ⟨nix', more, rest, last, more_lt⟩ := @ih (f :: below) between holds'
      (fun g mem => fit g (mem_cons_of_mem _ mem)) (by rw [bits]; omega)
    refine ⟨nix', first ++ more, ?_, ?_, fun s mem => ?_⟩
    · rw [NixVector.pushAll, pushed]
      simp only [Option.bind_eq_bind, Option.bind_some, rest]
      rfl
    · rw [reverse_cons, append_assoc]
      exact last
    · exact (mem_append.mp mem).elim (first_lt s) (more_lt s)

/-- **All extractions** take the stack down, whatever has been taken from above it. -/
theorem Holds.extractAll {stack : List Index} {nix : NixVector} {high T U : Nat}
    (holds : Holds (number stack + high * 2 ^ bits stack) T U nix) (left : T - U = bits stack)
    (fit : ∀ f ∈ stack, f.Fits) {steps : List (List Pass × UInt32)}
    (widths : steps.map Prod.snd = stack.map Prod.snd) :
    ∃ trace, NixVector.extractAll beyond nix steps = some trace ∧ Exact T stack trace := by
  induction stack generalizing nix high U steps with
  | nil =>
    obtain rfl := map_eq_nil_iff.mp widths
    exact ⟨[], rfl, rfl⟩
  | cons f below ih =>
    obtain ⟨⟨passes, width⟩, rest, rfl, width_eq, rest_widths⟩ := map_eq_cons_iff.mp widths
    obtain rfl : width = f.2 := width_eq
    obtain ⟨some_, most, value_lt⟩ := fit f mem_cons_self
    have fit_below : ∀ g ∈ below, g.Fits := fun g mem => fit g (mem_cons_of_mem _ mem)
    obtain ⟨between, passed, holds'⟩ := holds.passes passes
    have before := holds'.remaining
    rw [bits] at left
    obtain ⟨value, nix', shifts, extracted, after, exact_⟩ :=
      @Holds.extractNeighborIndex beyond _ _ _ _ holds' _ some_ most (by omega)
    have lower : number (f :: below) + high * 2 ^ bits (f :: below) =
        number below + (f.1.toNat + high * 2 ^ f.2.toNat) * 2 ^ bits below := by
      simp [number, bits, Nat.add_mul, mul_assoc, ← Nat.pow_add, add_comm f.2.toNat, add_assoc]
    have after_left := after.remaining
    have after_total := after.total
    rw [lower] at after
    obtain ⟨later, rest_done, rest_exact⟩ := ih after (by omega) fit_below rest_widths
    have below_left : T - (U + f.2.toNat) = bits below := by omega
    let seen : Extracted := ⟨value, between.getRemainingBits, nix'.getRemainingBits,
      nix'.totalBitSize, shifts⟩
    refine ⟨seen :: later, ?_, seen, later, rfl, before.trans left, after_left.trans below_left,
      after_total, fun odd => ?_, rest_exact⟩
    · rw [NixVector.extractAll, passed]
      simp only [Option.bind_eq_bind, Option.bind_some, extracted, rest_done]
      rfl
    · rw [bits, ← left] at odd
      obtain ⟨value_eq, small⟩ := exact_ odd
      refine ⟨UInt32.toNat_inj.mp ?_, small⟩
      rw [value_eq, left, number, bits]
      exact field_add (NixVector.number_lt fit_below) value_lt

/-- **Nix vector.** Indices come out again the last one first, behind any copies and packets,
with exact sizes; where the bits that are left end with a word, the code shifts by 32 and
nothing is said of the value. -/
theorem nixVector_stack (beyond : Beyond) {fields : List Index} (fit : ∀ f ∈ fields, f.Fits)
    (few : bits fields < 2 ^ 32) :
    ∃ nix shifts, pushAll beyond {} fields = some (nix, shifts) ∧
      nix.totalBitSize.toNat = bits fields ∧ nix.getRemainingBits.toNat = bits fields ∧
      (∀ s ∈ shifts, s < 32) ∧
      ∀ steps : List (List Pass × UInt32), steps.map Prod.snd = fields.reverse.map Prod.snd →
        ∃ trace, extractAll beyond nix steps = some trace ∧
          Exact (bits fields) fields.reverse trace := by
  have empty : Holds (number []) (bits []) 0 {} := ⟨rfl, Nat.one_pos, rfl, rfl, le_refl 0⟩
  obtain ⟨nix, shifts, pushed, holds, small⟩ := empty.pushAll fit (by rw [bits]; omega)
  rw [append_nil, bits_reverse] at holds
  refine ⟨nix, shifts, pushed, holds.total, holds.remaining, small, fun steps widths => ?_⟩
  have plain : number fields.reverse + 0 * 2 ^ bits fields.reverse = number fields.reverse := by
    rw [Nat.zero_mul, add_zero]
  rw [← plain] at holds
  exact holds.extractAll (bits_reverse fields).symm (fun f mem => fit f (mem_reverse.mp mem)) widths

/-- A shift of 32 that leaves the word as it is. -/
def wrapping : Beyond :=
  ⟨fun x n => x <<< UInt32.ofNat (n % 32), fun x n => x >>> UInt32.ofNat (n % 32)⟩

theorem nixVector_two : ∃ nix shifts, pushAll wrapping {} [(1, 2), (2, 2)] = some (nix, shifts) ∧
      nix.totalBitSize.toNat = bits [(1, 2), (2, 2)] ∧
      nix.getRemainingBits.toNat = bits [(1, 2), (2, 2)] ∧ (∀ s ∈ shifts, s < 32) ∧
      ∀ steps : List (List Pass × UInt32),
        steps.map Prod.snd = [((1, 2) : Index), (2, 2)].reverse.map Prod.snd →
        ∃ trace, extractAll wrapping nix steps = some trace ∧
          Exact (bits [(1, 2), (2, 2)]) [((1, 2) : Index), (2, 2)].reverse trace :=
  nixVector_stack wrapping (by
    intro f mem
    rcases mem_cons.mp mem with rfl | mem
    · exact ⟨by decide, by decide, by decide⟩
    · rw [mem_singleton.mp mem]
      exact ⟨by decide, by decide, by decide⟩) (by decide)

/-- The last index comes out first; a whole word is taken out with a shift by 32; and the total
of `2^32` bits is zero. -/
theorem nixVector_not_queue : ((pushAll wrapping {} [(1, 2), (2, 2)]).bind fun pushed =>
        extractAll wrapping pushed.1 [([], 2), ([.copy], 2)]).map
          (·.map fun seen => (seen.value, seen.after)) = some [(2, 2), (1, 0)] ∧
      ((pushAll wrapping {} [(5, 32)]).bind fun pushed =>
        extractAll wrapping pushed.1 [([.packet], 32)]).map (·.map Extracted.shifts) =
          some [[32, 0]] ∧
      ∀ (beyond : Beyond) (nix : NixVector) (newBits : UInt32), nix.totalBitSize = 4294967264 →
        (nix.addNeighborIndex beyond newBits 32).map (fun pushed => pushed.1.totalBitSize) =
          some 0 := by
  refine ⟨by decide, by decide, fun beyond nix newBits total => ?_⟩
  unfold addNeighborIndex
  rw [total]
  simp

end NixVector

end Ns3.Network
