import Ns3.Library.Levelling

/-!
# `NrMacSchedulerOfdma::GetSymPerBeam`

The symbols of a slot are shared among the beams in proportion to their buffers, and what the
rounding leaves is handed out by levelling. The shares are exact where the source computes
with `double`.
-/

namespace Ns3.Nr

open Levelling List

/-- The order in which a hash map is iterated. -/
structure HashOrder (α : Type) where
  order : List α → List α
  perm : ∀ l, (order l).Perm l

/-- The beams with the buffer occupancy of their UEs. -/
structure ActiveUeMap (β : Type) where
  beams : List (β × List UInt32)
  keys : (beams.map Prod.fst).Nodup
  active : beams ≠ []
  ues : ∀ el ∈ beams, el.2 ≠ []
  positive : ∀ el ∈ beams, ∀ size ∈ el.2, 0 < size

/-- The symbols of each beam. -/
abbrev BeamSymbolMap (β : Type) := List (β × Nat)

namespace NrMacSchedulerOfdma

/-- The bytes of the UEs of a beam. -/
def beamBytes (ues : List UInt32) : Nat := (ues.map UInt32.toNat).sum

/-- The sum of the source, modulo 2^32. -/
def bufSizeBeam (ues : List UInt32) : UInt32 := ues.sum

section
variable {β : Type} (activeDl : ActiveUeMap β) (symAvail : UInt32)

def bufTotal : Nat := (activeDl.beams.map fun el => beamBytes el.2).sum

/-- The floor of the share of so many bytes. -/
def symForBeam (bytes : Nat) : Nat :=
  ⌊(bytes : ℚ) * ((symAvail.toNat : ℚ) / (bufTotal activeDl : ℚ))⌋₊

/-- The map of the first loop. -/
def proportional : BeamSymbolMap β :=
  activeDl.beams.map fun el =>
    (el.1, symForBeam activeDl symAvail (bufSizeBeam el.2).toNat)

def symUsed : UInt8 :=
  (proportional activeDl symAvail).foldl (fun symUsed el => symUsed + UInt8.ofNat el.2) 0

/-- `none` is the failed assertion. -/
def getSymPerBeam [DecidableEq β] (hash : HashOrder (β × Nat)) : Option (BeamSymbolMap β) :=
  let symUsed := symUsed activeDl symAvail
  let ret := hash.order (proportional activeDl symAvail)
  if symUsed.toUInt32 ≤ symAvail then
    if 0 < symAvail - symUsed.toUInt32 then
      let symToRedistribute := (symAvail - symUsed.toUInt32).toUInt8
      some (level symToRedistribute.toNat ret)
    else some ret
  else none

/-- The symbols of the beams are those that are available, and no beam has less than the floor
of its share. -/
structure Distributed (ret : BeamSymbolMap β) : Prop where
  beams : (ret.map Prod.fst).Perm (activeDl.beams.map Prod.fst)
  sum : units ret = symAvail.toNat
  share : ∀ el ∈ activeDl.beams, ∃ sym, (el.1, sym) ∈ ret ∧
    symForBeam activeDl symAvail (beamBytes el.2) ≤ sym

/-- A beam whose bytes wrap around gets back what that takes from it: the symbols that are left
are more than it takes to bring every beam up to one less than its share, and those before it
further. -/
def Restored [DecidableEq β] (hash : HashOrder (β × Nat)) : Prop :=
  ∀ el ∈ activeDl.beams,
    let share := symForBeam activeDl symAvail (beamBytes el.2)
    let ret := hash.order (proportional activeDl symAvail)
    share ≤ symForBeam activeDl symAvail (bufSizeBeam el.2).toNat ∨
      deficit (share - 1) ret + ahead (share - 1) el.1 ret < symAvail.toNat - units ret

end

variable {β : Type} {activeDl : ActiveUeMap β} {symAvail : UInt32}

theorem symForBeam_eq (activeDl : ActiveUeMap β) (symAvail : UInt32) (bytes : Nat) :
    symForBeam activeDl symAvail bytes = bytes * symAvail.toNat / bufTotal activeDl := by
  unfold symForBeam
  rw [← mul_div_assoc, ← Nat.cast_mul]
  exact Nat.floor_div_eq_div _ _

theorem bufSizeBeam_le (ues : List UInt32) : (bufSizeBeam ues).toNat ≤ beamBytes ues := by
  induction ues with
  | nil => exact le_rfl
  | cons size ues ih =>
    simp only [bufSizeBeam, beamBytes, map_cons, sum_cons] at ih ⊢
    rw [UInt32.toNat_add]
    have := by omega
    omega

theorem beamBytes_pos {el : β × List UInt32} (mem : el ∈ activeDl.beams) : 0 < beamBytes el.2 := by
  obtain ⟨size, rest, same⟩ := exists_cons_of_ne_nil (activeDl.ues el mem)
  have positive := activeDl.positive el mem size (by rw [same]; exact mem_cons_self)
  rw [UInt32.lt_iff_toNat_lt] at positive
  rw [same, beamBytes, map_cons, sum_cons]
  exact Nat.add_pos_left positive _

theorem bufTotal_pos (activeDl : ActiveUeMap β) : 0 < bufTotal activeDl := by
  obtain ⟨el, rest, same⟩ := exists_cons_of_ne_nil activeDl.active
  have first : el ∈ activeDl.beams := by
    rw [same]
    exact mem_cons_self
  have positive := beamBytes_pos first
  rw [bufTotal, same, map_cons, sum_cons]
  exact Nat.add_pos_left positive _

/-- Floors of parts sum up to no more than the whole. -/
theorem units_le (els : List (β × List UInt32)) (symbols total : Nat) :
    units (els.map fun el => (el.1, (bufSizeBeam el.2).toNat * symbols / total)) ≤
      (els.map fun el => beamBytes el.2).sum * symbols / total := by
  induction els with
  | nil => exact Nat.zero_le _
  | cons el els ih =>
    simp only [units, map_cons, sum_cons, Nat.add_mul] at ih ⊢
    have own : (bufSizeBeam el.2).toNat * symbols / total ≤ beamBytes el.2 * symbols / total :=
      Nat.div_le_div_right (Nat.mul_le_mul_right _ (bufSizeBeam_le el.2))
    have both : beamBytes el.2 * symbols / total +
        (els.map fun el => beamBytes el.2).sum * symbols / total ≤
        (beamBytes el.2 * symbols + (els.map fun el => beamBytes el.2).sum * symbols) / total :=
      Nat.div_add_div_le_add_div
    omega

theorem units_proportional_le (activeDl : ActiveUeMap β) (symAvail : UInt32) :
    units (proportional activeDl symAvail) ≤ symAvail.toNat := by
  have all := units_le activeDl.beams symAvail.toNat (bufTotal activeDl)
  simp only [proportional, symForBeam_eq]
  apply le_trans all
  exact le_of_eq (Nat.mul_div_cancel_left _ (bufTotal_pos activeDl))

/-- The counter of eight bits does not wrap around. -/
theorem symUsed_eq (small : symAvail ≤ 255) :
    (symUsed activeDl symAvail).toUInt32.toNat = units (proportional activeDl symAvail) := by
  have most := units_proportional_le activeDl symAvail
  rw [UInt32.le_iff_toNat_le] at small
  have run : ∀ (ret : BeamSymbolMap β) (used : UInt8), used.toNat + units ret ≤ 255 →
      (ret.foldl (fun symUsed el => symUsed + UInt8.ofNat el.2) used).toNat =
        used.toNat + units ret := by
    intro ret
    induction ret with
    | nil => exact fun _ _ => rfl
    | cons el ret ih =>
      intro used fits
      simp only [units, map_cons, sum_cons] at ih fits ⊢
      have next : (used + UInt8.ofNat el.2).toNat = used.toNat + el.2 := by
        rw [UInt8.toNat_add, UInt8.toNat_ofNat']
        omega
      rw [foldl_cons, ih _ (by omega), next]
      omega
  rw [UInt8.toNat_toUInt32, symUsed, run _ 0 (by simpa using le_trans most small)]
  simp

theorem keys_order (hash : HashOrder (β × Nat)) (activeDl : ActiveUeMap β) (symAvail : UInt32) :
    ((hash.order (proportional activeDl symAvail)).map Prod.fst).Perm
      (activeDl.beams.map Prod.fst) := by
  apply ((hash.perm _).map Prod.fst).trans
  rw [proportional, map_map]
  exact .refl _

theorem units_order (hash : HashOrder (β × Nat)) (ret : BeamSymbolMap β) :
    units (hash.order ret) = units ret :=
  ((hash.perm ret).map Prod.snd).sum_eq

variable [DecidableEq β]

/-- The loop ends after as many rounds as there are symbols left. -/
theorem getSymPerBeam_eq (hash : HashOrder (β × Nat)) (small : symAvail ≤ 255) :
    getSymPerBeam activeDl symAvail hash =
      some (level (symAvail.toNat - units (proportional activeDl symAvail))
        (hash.order (proportional activeDl symAvail))) := by
  have used := @symUsed_eq _ activeDl _ small
  have most := units_proportional_le activeDl symAvail
  rw [UInt32.le_iff_toNat_le] at small
  unfold getSymPerBeam
  dsimp only
  generalize (symUsed activeDl symAvail).toUInt32 = symUsed at *
  have fits : symUsed ≤ symAvail := by
    rw [UInt32.le_iff_toNat_le]
    omega
  have left : (symAvail - symUsed).toNat =
      symAvail.toNat - units (proportional activeDl symAvail) := by
    rw [UInt32.toNat_sub_of_le _ _ fits, used]
  have most' : (255 : UInt32).toNat = 255 := rfl
  rw [if_pos fits]
  split
  · rw [UInt32.toNat_toUInt8, Nat.mod_eq_of_lt (by omega), left]
  · rename_i none_
    have zero : (symAvail - symUsed).toNat = 0 := by
      rw [UInt32.lt_iff_toNat_lt] at none_
      exact Nat.eq_zero_of_not_pos none_
    rw [← left, zero]
    rfl

/-- Nothing is to be restored when no buffer size wraps around. -/
theorem restored_of_fits (hash : HashOrder (β × Nat)) (activeDl : ActiveUeMap β)
    (symAvail : UInt32) (fits : ∀ el ∈ activeDl.beams, beamBytes el.2 < 2 ^ 32) :
    Restored activeDl symAvail hash := by
  have exact_ : ∀ ues : List UInt32, beamBytes ues < 2 ^ 32 →
      (bufSizeBeam ues).toNat = beamBytes ues := by
    intro ues
    induction ues with
    | nil => exact fun _ => rfl
    | cons size ues ih =>
      intro small
      simp only [beamBytes, bufSizeBeam, map_cons, sum_cons] at ih small ⊢
      rw [UInt32.toNat_add, ih (by omega)]
      exact Nat.mod_eq_of_lt small
  intro el mem
  left
  rw [exact_ el.2 (fits el mem)]

/-- **The symbols of the beams.** The call returns, and it distributes the symbols exactly when
what the wrap of the buffer sizes takes from a beam is restored. -/
theorem distributed_iff (hash : HashOrder (β × Nat)) (activeDl : ActiveUeMap β)
    (symAvail : UInt32) (small : symAvail ≤ 255) :
    (∃ ret, getSymPerBeam activeDl symAvail hash = some ret ∧
      Distributed activeDl symAvail ret) ↔ Restored activeDl symAvail hash := by
  have keys := keys_order hash activeDl symAvail
  have nodup := keys.nodup_iff.mpr activeDl.keys
  have most := units_proportional_le activeDl symAvail
  have same := units_order hash (proportional activeDl symAvail)
  have own : ∀ el ∈ activeDl.beams, (el.1, symForBeam activeDl symAvail (bufSizeBeam el.2).toNat) ∈
      hash.order (proportional activeDl symAvail) := by
    intro el mem
    rw [(hash.perm _).mem_iff]
    exact mem_map_of_mem mem
  have some_ : hash.order (proportional activeDl symAvail) ≠ [] := by
    obtain ⟨el, _, first⟩ := exists_cons_of_ne_nil activeDl.active
    exact ne_nil_of_mem (own el (by rw [first]; exact mem_cons_self))
  rw [getSymPerBeam_eq hash small]
  rw [← same] at most ⊢
  generalize shares : hash.order (proportional activeDl symAvail) = ret at *
  -- A beam reaches its share when it has more than one less.
  have reached : ∀ el ∈ activeDl.beams, ∀ sym,
      (el.1, sym) ∈ level (symAvail.toNat - units ret) ret →
      (symForBeam activeDl symAvail (beamBytes el.2) ≤ sym ↔
        symForBeam activeDl symAvail (beamBytes el.2) ≤
          symForBeam activeDl symAvail (bufSizeBeam el.2).toNat ∨
        deficit (symForBeam activeDl symAvail (beamBytes el.2) - 1) ret +
          ahead (symForBeam activeDl symAvail (beamBytes el.2) - 1) el.1 ret <
            symAvail.toNat - units ret) := by
    intro el mem sym mem'
    have steps := level_reaches (k := symForBeam activeDl symAvail (beamBytes el.2) - 1)
      _ nodup (own el mem) mem'
    omega
  constructor
  · rintro ⟨_, done, distributed⟩ el mem
    obtain rfl := Option.some.inj done
    obtain ⟨sym, mem', share⟩ := distributed.share el mem
    rw [shares]
    exact (reached el mem sym mem').mp share
  · intro restored
    refine ⟨_, rfl, ?_, ?_, ?_⟩
    · rwa [level_keys]
    · rw [level_units _ some_ nodup]
      omega
    · intro el mem
      have named : el.1 ∈ (level (symAvail.toNat - units ret) ret).map Prod.fst := by
        rw [level_keys, keys.mem_iff]
        exact mem_map_of_mem mem
      obtain ⟨⟨_, sym⟩, mem', rfl⟩ := mem_map.mp named
      have enough := restored el mem
      rw [shares] at enough
      exact ⟨sym, mem', (reached el mem sym mem').mpr enough⟩

/-- A map that is iterated in the order of insertion. -/
def inserted (α : Type) : HashOrder α := ⟨id, fun l => .refl l⟩

/-- Two beams whose buffers do not wrap around. -/
theorem distributed_twoBeams : ∃ ret,
    getSymPerBeam ⟨[(0, [100, 200]), (1, [50])], by decide, by decide, by decide, by simp⟩ 12
      (inserted (Nat × Nat)) = some ret ∧
    Distributed ⟨[(0, [100, 200]), (1, [50])], by decide, by decide, by decide, by simp⟩ 12 ret :=
  (distributed_iff _ _ 12 (by decide)).mpr (restored_of_fits _ _ _ (by decide))

/-- The buffers of the first beam sum up to 2^32, which counts as nothing: of ten symbols the
beam gets five, and the other one, with a byte, five too. -/
theorem share_lost : ∃ (activeDl : ActiveUeMap Nat) (symAvail : UInt32), symAvail ≤ 255 ∧
    ¬ ∃ ret, getSymPerBeam activeDl symAvail (inserted (Nat × Nat)) = some ret ∧
      Distributed activeDl symAvail ret := by
  refine ⟨⟨[(0, [2147483648, 2147483648]), (1, [1])], by decide, by decide, by decide, by simp⟩,
    10, by decide, ?_⟩
  rintro ⟨ret, done, distributed⟩
  rw [getSymPerBeam_eq _ (by decide)] at done
  obtain ⟨sym, mem, share⟩ := distributed.share (0, [2147483648, 2147483648]) (by decide)
  simp only [proportional, symForBeam_eq] at done share
  obtain rfl : [(0, 5), (1, 5)] = ret := by
    rw [← Option.some_inj, ← done]
    decide
  have five : sym = 5 := by simpa using mem
  subst five
  revert share
  decide

end NrMacSchedulerOfdma

end Ns3.Nr
