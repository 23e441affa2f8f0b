import Ns3.Library.Circular

/-!
# `SequenceNumber10`

Ten-bit sequence numbers that carry the modulus base of their comparisons.
`uint16_t` results of `%` are taken modulo 65536, and `%` truncates.
-/

namespace Ns3.Rlc

/-- `m_windowSize` of both entities. -/
def windowSize : Nat := 512

structure SequenceNumber10 where
  value : Nat
  modulusBase : Nat
  deriving DecidableEq, Repr

namespace SequenceNumber10

/-- The conversion of an `int` to `uint16_t`. -/
def toUInt16 (i : Int) : Nat := (i % 65536).toNat

def ofNat (value : Nat) : SequenceNumber10 := ⟨value % 1024, 0⟩

/-- `operator= (uint16_t)`. -/
def assign (s : SequenceNumber10) (value : Nat) : SequenceNumber10 :=
  { s with value := value % 1024 }

def setModulusBase (s modulusBase : SequenceNumber10) : SequenceNumber10 :=
  { s with modulusBase := modulusBase.value }

/-- `operator++`. -/
def succ (s : SequenceNumber10) : SequenceNumber10 := { s with value := (s.value + 1) % 1024 }

/-- `operator+ (uint16_t)`. -/
def add (s : SequenceNumber10) (delta : Nat) : SequenceNumber10 :=
  { ofNat (toUInt16 (Int.tmod (s.value + delta) 1024)) with modulusBase := s.modulusBase }

/-- `operator- (uint16_t)`. -/
def sub (s : SequenceNumber10) (delta : Nat) : SequenceNumber10 :=
  { ofNat (toUInt16 (Int.tmod (s.value - delta) 1024)) with modulusBase := s.modulusBase }

/-- `uint16_t v = (m_value - m_modulusBase) % 1024`. -/
def rank (s : SequenceNumber10) : Nat := toUInt16 (Int.tmod (s.value - s.modulusBase) 1024)

/-- `operator>`, the other comparisons follow from it. -/
def gt (s other : SequenceNumber10) : Bool := decide (s.rank > other.rank)

def eq (s other : SequenceNumber10) : Bool := s.value == other.value

def le (s other : SequenceNumber10) : Bool := !s.gt other

def ge (s other : SequenceNumber10) : Bool := s.gt other || s.eq other

def lt (s other : SequenceNumber10) : Bool := !s.gt other && !s.eq other

/-! The comparisons assert that both sides carry one modulus base. -/

def gt? (s other : SequenceNumber10) : Option Bool :=
  if s.modulusBase = other.modulusBase then some (s.gt other) else none

def le? (s other : SequenceNumber10) : Option Bool := (s.gt? other).map (!·)

def ge? (s other : SequenceNumber10) : Option Bool := (s.gt? other).map (· || s.eq other)

def lt? (s other : SequenceNumber10) : Option Bool := (s.gt? other).map (!· && !s.eq other)

end SequenceNumber10

open SequenceNumber10

/-! ## Counters behind the sequence numbers -/

/-- The sequence number of counter value `n`, compared from base `b` on. -/
def numbered (b n : Nat) : SequenceNumber10 := ⟨n % 1024, b % 1024⟩

@[simp]
theorem numbered_value (b n : Nat) : (numbered b n).value = n % 1024 := rfl

@[simp]
theorem numbered_succ (b n : Nat) : (numbered b n).succ = numbered b (n + 1) := by
  simp only [numbered, SequenceNumber10.succ, mk.injEq, and_true]
  omega

@[simp]
theorem numbered_setModulusBase (b n c k : Nat) :
    (numbered b n).setModulusBase (numbered c k) = numbered k n := rfl

@[simp]
theorem ofNat_setModulusBase (n c k : Nat) :
    (ofNat n).setModulusBase (numbered c k) = numbered k n := rfl

theorem tmod_small {i : Int} (low : -1024 < i) (high : i < 1024) : Int.tmod i 1024 = i := by
  rcases Int.le_total 0 i with h | h
  · exact Int.tmod_eq_of_lt h high
  · have mirrored : Int.tmod (-i) 1024 = -i := Int.tmod_eq_of_lt (by omega) (by omega)
    rw [Int.neg_tmod] at mirrored
    omega

theorem numbered_add (b n delta : Nat) (small : delta < 1024) :
    (numbered b n).add delta = numbered b (n + delta) := by
  have remainder : Int.tmod ((n % 1024 : Nat) + delta) 1024 = ((n + delta) % 1024 : Nat) := by
    rw [Int.tmod_eq_emod_of_nonneg (by omega)]
    omega
  simp only [numbered, SequenceNumber10.add, ofNat, toUInt16, mk.injEq, and_true]
  omega

variable {k n b : Nat}

theorem numbered_sub (b n : Nat) {delta : Nat} (circle : k + delta = 1024) (pos : 0 < k) :
    (numbered b n).sub delta = numbered b (n + k) := by
  have remainder : Int.tmod ((n % 1024 : Nat) - delta) 1024 = (n % 1024 : Nat) - delta :=
    tmod_small (by omega) (by omega)
  simp only [numbered, SequenceNumber10.sub, ofNat, toUInt16, mk.injEq, and_true]
  omega

/-- A base is a counter as well; a whole circle more changes nothing. -/
theorem numbered_circle (b n : Nat) : numbered b (n + 1024) = numbered b n := by simp [numbered]

theorem base_circle (b n : Nat) : numbered (b + 1024) n = numbered b n := by simp [numbered]

theorem setModulusBase_sub {s t : SequenceNumber10} {h delta : Nat} (hs : s.value = n % 1024)
    (ht : t.value = h % 1024) (circle : k + delta = 1024) (pos : 0 < k) :
    s.setModulusBase (t.sub delta) = numbered (h + k) n := by
  obtain ⟨v, b⟩ := s
  obtain ⟨u, c⟩ := t
  simp only at hs ht
  have remainder : Int.tmod ((u : Int) - delta) 1024 = u - delta := tmod_small (by omega) (by omega)
  simp only [setModulusBase, sub, ofNat, toUInt16, numbered, mk.injEq]
  omega

/-- The two's complement rank orders numbers as their offset from the base does. -/
theorem rank_lt_iff {s t : SequenceNumber10} (hs : s.value < 1024) (ht : t.value < 1024)
    (bound : s.modulusBase < 1024) (same : s.modulusBase = t.modulusBase) :
    s.rank < t.rank ↔ Circular.offset 1024 s.modulusBase s.value <
      Circular.offset 1024 t.modulusBase t.value := by
  obtain ⟨v, b⟩ := s
  obtain ⟨w, c⟩ := t
  simp only at hs ht bound same
  subst same
  have rank_eq (x : Nat) (hx : x < 1024) :
      (SequenceNumber10.mk x b).rank = if b ≤ x then x - b else 65536 + x - b := by
    simp only [rank, tmod_small (show (-1024 : Int) < x - b by omega) (by omega), toUInt16]
    split <;> omega
  have offset_eq (x : Nat) (hx : x < 1024) :
      Circular.offset 1024 b x = if b ≤ x then x - b else 1024 + x - b := by
    unfold Circular.offset
    split <;> omega
  rw [rank_eq v hs, rank_eq w ht, offset_eq v hs, offset_eq w ht]
  split <;> split <;> omega

/-- Counters on the circle below a base compare as counters. -/
theorem gt_numbered (hn : b ≤ n + 1024) (hn' : n < b) (hk : b ≤ k + 1024) (hk' : k < b) :
    (numbered b n).gt (numbered b k) = decide (n > k) := by
  have offset_of (x : Nat) (hx : b ≤ x + 1024) (hx' : x < b) :
      Circular.offset 1024 (b % 1024) (x % 1024) = x + 1024 - b := by
    have h := Circular.offset_add b (show x + 1024 - b < 1024 by omega)
    rwa [show b + (x + 1024 - b) = x + 1024 by omega, Nat.add_mod_right] at h
  have order := rank_lt_iff (s := numbered b k) (t := numbered b n) (Nat.mod_lt _ (by decide))
    (Nat.mod_lt _ (by decide)) (Nat.mod_lt _ (by decide)) rfl
  simp only [numbered] at order
  rw [offset_of k hk hk', offset_of n hn hn'] at order
  unfold gt
  rw [decide_eq_decide]
  exact order.trans (by omega)

theorem eq_numbered (hn : b ≤ n + 1024) (hn' : n < b) (hk : b ≤ k + 1024) (hk' : k < b) :
    (numbered b n).eq (numbered b k) = decide (n = k) := by
  apply Bool.eq_iff_iff.mpr
  simp only [eq, beq_iff_eq, decide_eq_true_eq]
  exact ⟨fun h => Circular.eq_of_residue h (by omega) (by omega), fun h => by rw [h]⟩

theorem le_numbered (hn : b ≤ n + 1024) (hn' : n < b) (hk : b ≤ k + 1024) (hk' : k < b) :
    (numbered b n).le (numbered b k) = decide (n ≤ k) := by
  simp [le, gt_numbered hn hn' hk hk', ← decide_not]

theorem lt_numbered (hn : b ≤ n + 1024) (hn' : n < b) (hk : b ≤ k + 1024) (hk' : k < b) :
    (numbered b n).lt (numbered b k) = decide (n < k) := by
  simp only [lt, gt_numbered hn hn' hk hk', eq_numbered hn hn' hk hk', ← decide_not,
    ← Bool.decide_and, decide_eq_decide]
  omega

/-! Counters from the base on. With one base no assertion fails. -/

theorem gt?_numbered (hn : b ≤ n) (hn' : n < b + 1024) (hk : b ≤ k) (hk' : k < b + 1024) :
    (numbered b n).gt? (numbered b k) = some (decide (n > k)) := by
  rw [← base_circle b n, ← base_circle b k,
    ← gt_numbered (show b + 1024 ≤ n + 1024 by omega) hn' (show b + 1024 ≤ k + 1024 by omega) hk']
  exact if_pos rfl

theorem le?_numbered (hn : b ≤ n) (hn' : n < b + 1024) (hk : b ≤ k) (hk' : k < b + 1024) :
    (numbered b n).le? (numbered b k) = some (decide (n ≤ k)) := by
  rw [le?, gt?_numbered hn hn' hk hk', Option.map_some, ← decide_not]
  simp

theorem ge?_numbered (hn : b ≤ n) (hn' : n < b + 1024) (hk : b ≤ k) (hk' : k < b + 1024) :
    (numbered b n).ge? (numbered b k) = some (decide (k ≤ n)) := by
  have same : (numbered b n).eq (numbered b k) = decide (n = k) := by
    rw [← base_circle b n, ← base_circle b k]
    exact eq_numbered (by omega) hn' (by omega) hk'
  rw [ge?, gt?_numbered hn hn' hk hk', Option.map_some, same, ← Bool.decide_or, Option.some_inj,
    decide_eq_decide]
  omega

theorem lt?_numbered (hn : b ≤ n) (hn' : n < b + 1024) (hk : b ≤ k) (hk' : k < b + 1024) :
    (numbered b n).lt? (numbered b k) = some (decide (n < k)) := by
  have same : (numbered b n).eq (numbered b k) = decide (n = k) := by
    rw [← base_circle b n, ← base_circle b k]
    exact eq_numbered (by omega) hn' (by omega) hk'
  rw [lt?, gt?_numbered hn hn' hk hk', Option.map_some, same, ← decide_not, ← decide_not,
    ← Bool.decide_and, Option.some_inj, decide_eq_decide]
  omega

end Ns3.Rlc
