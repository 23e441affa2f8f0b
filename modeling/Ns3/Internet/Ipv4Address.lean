import Mathlib.Data.Nat.Bitwise

/-!
# IPv4 addresses and masks
-/

namespace Ns3.Internet

open Nat

abbrev Ipv4Address := UInt32

abbrev Ipv4Mask := UInt32

namespace Ipv4Address

def getAny : Ipv4Address := 0

/-- 224.0.0.0/24 -/
def isLocalMulticast (address : Ipv4Address) : Bool := address &&& 0xffffff00 == 0xe0000000

def combineMask (address : Ipv4Address) (mask : Ipv4Mask) : Ipv4Address := address &&& mask

end Ipv4Address

namespace Ipv4Mask

def isMatch (mask : Ipv4Mask) (a b : Ipv4Address) : Bool := a &&& mask == b &&& mask

/-- The loop of `GetPrefixLength`: a mask is 0 after 32 shifts. -/
def prefixLoop : (rounds : Nat) → (mask : UInt32) → Nat
  | 0, _ => 0
  | rounds + 1, mask => if mask ≠ 0 then prefixLoop rounds (mask <<< 1) + 1 else 0

def getPrefixLength (mask : Ipv4Mask) : Nat := prefixLoop 32 mask

theorem prefixLoop_le (rounds : Nat) (mask : UInt32) : prefixLoop rounds mask ≤ rounds := by
  induction rounds generalizing mask with
  | zero => exact le_refl 0
  | succ rounds ih =>
    unfold prefixLoop
    split
    · exact succ_le_succ (ih _)
    · exact Nat.zero_le _

theorem getPrefixLength_le (mask : Ipv4Mask) : mask.getPrefixLength ≤ 32 := prefixLoop_le 32 mask

/-- A mask of leading ones, for networks of `2 ^ hostBits` addresses. -/
def Leading (mask : Ipv4Mask) (hostBits : Nat) : Prop :=
  hostBits ≤ 32 ∧ mask.toNat = 2 ^ 32 - 2 ^ hostBits

theorem Leading.toNat_and {mask : Ipv4Mask} {hostBits : Nat} (leading : mask.Leading hostBits)
    (a : Ipv4Address) : (a &&& mask).toNat = a.toNat / 2 ^ hostBits * 2 ^ hostBits := by
  obtain ⟨bits_le, value⟩ := leading
  have positive := Nat.two_pow_pos hostBits
  have complement : 2 ^ 32 - 2 ^ hostBits = 2 ^ 32 - (2 ^ hostBits - 1 + 1) := by
    rw [Nat.sub_add_cancel positive]
  have below : 2 ^ hostBits - 1 < 2 ^ 32 := by
    have power := Nat.pow_le_pow_right (by decide : 0 < 2) bits_le
    omega
  rw [UInt32.toNat_and, value, complement, ← shiftRight_eq_div_pow, ← shiftLeft_eq]
  apply eq_of_testBit_eq
  intro i
  rw [testBit_and, testBit_two_pow_sub_succ below, testBit_two_pow_sub_one,
    testBit_shiftLeft, testBit_shiftRight]
  by_cases low : i < hostBits
  · simp [low]
  · rw [Nat.add_sub_cancel' (by omega)]
    by_cases high : i < 32
    · simp [low, high, not_lt.mp low]
    · have zero : a.toNat.testBit i = false :=
        testBit_lt_two_pow (lt_of_lt_of_le a.toNat_lt (Nat.pow_le_pow_right (by decide) (by omega)))
      simp [zero]

theorem Leading.combineMask_iff {mask : Ipv4Mask} {hostBits : Nat}
    (leading : mask.Leading hostBits) {network : Ipv4Address}
    (aligned : network.combineMask mask = network) (a : Ipv4Address) :
    a.combineMask mask = network ↔
      network.toNat ≤ a.toNat ∧ a.toNat < network.toNat + 2 ^ hostBits := by
  have positive := Nat.two_pow_pos hostBits
  have network_words := leading.toNat_and network
  have a_words := leading.toNat_and a
  unfold Ipv4Address.combineMask at aligned ⊢
  rw [aligned] at network_words
  rw [← UInt32.toNat_inj, a_words, network_words]
  have a_split := div_add_mod' a.toNat (2 ^ hostBits)
  have a_rest := mod_lt a.toNat positive
  constructor
  · intro same
    omega
  · rintro ⟨lower, upper⟩
    apply congrArg (· * 2 ^ hostBits)
    apply Nat.div_eq_of_lt_le
    · omega
    · rw [succ_mul]
      omega

end Ipv4Mask

end Ns3.Internet
