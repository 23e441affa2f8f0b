import Mathlib.Algebra.BigOperators.Group.Finset.Basic
import Mathlib.Data.List.Sort
import Ns3.Library.Circular

/-!
# Buffers keyed by residues

A buffer holds the items of a stretch of counter values under their residues.
As long as the stretch is no longer than the circle, a key tells its counter.
-/

namespace CircularBuffer

open List Function

variable {α : Type} {m : Nat} {buf : Nat → Option α} {lo mid hi n : Nat}

/-- The residues of the counters from `lo` up to `hi`. -/
def residues (m lo hi : Nat) : List Nat := (List.range' lo (hi - lo)).map fun n => n % m

/-- Every key is the residue of a counter from `lo` up to `hi`. -/
def Within (m : Nat) (buf : Nat → Option α) (lo hi : Nat) : Prop :=
  ∀ key, (buf key).isSome = true → key ∈ residues m lo hi

/-- The items from `lo` up to `hi` in the order of their counters. -/
def pending (m : Nat) (buf : Nat → Option α) (lo hi : Nat) : List α :=
  (List.range' lo (hi - lo)).filterMap fun n => buf (n % m)

/-- The buffer without the items from `lo` up to `hi`. -/
def cleared (m : Nat) (buf : Nat → Option α) (lo hi : Nat) : Nat → Option α :=
  fun key => if key ∈ residues m lo hi then none else buf key

theorem mem_residues {key : Nat} : key ∈ residues m lo hi ↔ ∃ n, lo ≤ n ∧ n < hi ∧ n % m = key := by
  simp only [residues, mem_map, mem_range'_1]
  constructor
  · rintro ⟨n, hn, rfl⟩
    exact ⟨n, hn.1, by omega, rfl⟩
  · rintro ⟨n, h, h', rfl⟩
    exact ⟨n, ⟨h, by omega⟩, rfl⟩

theorem range'_split (h : lo ≤ mid) (h' : mid ≤ hi) :
    List.range' lo (hi - lo) = List.range' lo (mid - lo) ++ List.range' mid (hi - mid) := by
  have start : mid = lo + 1 * (mid - lo) := by omega
  conv => rhs; rhs; rw [start]
  rw [range'_append]
  congr 1
  omega

theorem range'_step (h : lo < hi) :
    List.range' lo (hi - lo) = lo :: List.range' (lo + 1) (hi - (lo + 1)) := by
  rw [show hi - lo = (hi - (lo + 1)) + 1 by omega, range'_succ]

theorem residues_split (h : lo ≤ mid) (h' : mid ≤ hi) :
    residues m lo hi = residues m lo mid ++ residues m mid hi := by
  simp [residues, range'_split h h']

theorem residues_zero (m n : Nat) : residues m 0 n = (List.range n).map fun k => k % m := by
  simp [residues, range_eq_range']

@[simp]
theorem pending_self : pending m buf lo lo = [] := by simp [pending]

theorem pending_split (h : lo ≤ mid) (h' : mid ≤ hi) :
    pending m buf lo hi = pending m buf lo mid ++ pending m buf mid hi := by
  simp [pending, range'_split h h']

theorem pending_step (h : lo < hi) :
    pending m buf lo hi = (buf (lo % m)).toList ++ pending m buf (lo + 1) hi := by
  simp only [pending, range'_step h, filterMap_cons]
  cases buf (lo % m) <;> rfl

theorem pending_eq_filterMap : pending m buf lo hi = (residues m lo hi).filterMap buf := by
  simp only [residues, filterMap_map]
  rfl

theorem filterMap_occupied (keys : List Nat) :
    (keys.filter fun key => (buf key).isSome).filterMap buf = keys.filterMap buf := by
  rw [filterMap_filter]
  apply filterMap_congr
  intro key _
  cases buf key <;> rfl

theorem pending_congr {buf' : Nat → Option α}
    (same : ∀ n, lo ≤ n → n < hi → buf (n % m) = buf' (n % m)) :
    pending m buf lo hi = pending m buf' lo hi := by
  apply filterMap_congr
  intro n hn
  rw [mem_range'_1] at hn
  exact same n hn.1 (by omega)

@[simp]
theorem cleared_self : cleared m buf lo lo = buf := by
  funext key
  simp [cleared, residues]

theorem cleared_of_none {key : Nat} (none_ : buf key = none) : cleared m buf lo hi key = none := by
  unfold cleared
  split
  · rfl
  · exact none_

/-- Clearing the first item and then the others. -/
theorem cleared_step (h : lo < hi) :
    cleared m (Function.update buf (lo % m) none) (lo + 1) hi = cleared m buf lo hi := by
  funext key
  have mem : key ∈ residues m lo hi ↔ key = lo % m ∨ key ∈ residues m (lo + 1) hi := by
    simp [residues, range'_step h]
  unfold cleared
  by_cases rest : key ∈ residues m (lo + 1) hi
  · rw [if_pos rest, if_pos (mem.mpr (.inr rest))]
  · rw [if_neg rest]
    by_cases head : key = lo % m
    · rw [if_pos (mem.mpr (.inl head)), head, update_self]
    · rw [if_neg (fun h => (mem.mp h).elim head rest), update_of_ne head]

theorem cleared_after (h : hi ≤ n) (h' : n < lo + m) :
    cleared m buf lo hi (n % m) = buf (n % m) := by
  apply if_neg
  intro mem
  obtain ⟨k, hk, hk', same⟩ := mem_residues.mp mem
  have := Circular.eq_of_residue same (by omega) (by omega)
  omega

theorem cleared_cleared (h : lo ≤ mid) (h' : mid ≤ hi) :
    cleared m (cleared m buf lo mid) mid hi = cleared m buf lo hi := by
  have mem (key : Nat) : key ∈ residues m lo hi ↔
      key ∈ residues m lo mid ∨ key ∈ residues m mid hi := by simp [residues_split h h']
  funext key
  unfold cleared
  by_cases second : key ∈ residues m mid hi
  · rw [if_pos second, if_pos ((mem key).mpr (.inr second))]
  · rw [if_neg second]
    by_cases first : key ∈ residues m lo mid
    · rw [if_pos first, if_pos ((mem key).mpr (.inl first))]
    · rw [if_neg first, if_neg fun both => ((mem key).mp both).elim first second]

theorem pending_cleared (h : lo ≤ mid) (h' : mid ≤ hi) (width : hi ≤ lo + m) :
    pending m buf lo mid ++ pending m (cleared m buf lo mid) mid hi = pending m buf lo hi := by
  rw [pending_split h h']
  congr 1
  apply pending_congr
  intro n hn hn'
  exact cleared_after hn (by omega)

section

variable (within : Within m buf lo hi)
include within

/-- A key of the stretch is the residue of the one counter in reach. -/
theorem Within.lt_of_isSome (width : hi ≤ lo + m) (h : lo ≤ n)
    (h' : n < lo + m) (key : (buf (n % m)).isSome = true) : n < hi := by
  obtain ⟨k, hk, hk', same⟩ := mem_residues.mp (within _ key)
  have := Circular.eq_of_residue same (by omega) (by omega)
  omega

theorem Within.eq_none (width : hi ≤ lo + m) (h : hi ≤ n)
    (h' : n < lo + m) (order : lo ≤ hi) : buf (n % m) = none := by
  cases hn : buf (n % m) with
  | none => rfl
  | some a =>
    have := within.lt_of_isSome width (by omega) h' (by simp [hn])
    omega

theorem Within.cleared : Within m (CircularBuffer.cleared m buf lo mid) mid hi := by
  intro key some
  unfold CircularBuffer.cleared at some
  split at some
  · exact absurd some (by simp)
  · rename_i outside
    obtain ⟨k, hk, hk', same⟩ := mem_residues.mp (within key some)
    refine mem_residues.mpr ⟨k, ?_, hk', same⟩
    apply Nat.le_of_not_lt
    intro early
    exact outside (mem_residues.mpr ⟨k, hk, early, same⟩)

theorem Within.mono {lo' hi' : Nat} (h : lo' ≤ lo) (h' : hi ≤ hi') : Within m buf lo' hi' := by
  intro key some
  obtain ⟨k, hk, hk', same⟩ := mem_residues.mp (within key some)
  exact mem_residues.mpr ⟨k, by omega, by omega, same⟩

theorem Within.erase (key : Nat) : Within m (Function.update buf key none) lo hi := by
  intro other some
  by_cases here : other = key
  · rw [here, update_self] at some
    exact absurd some (by simp)
  · rw [update_of_ne here] at some
    exact within other some

theorem Within.insert (a : α) (h : lo ≤ n) (h' : n < hi) :
    Within m (Function.update buf (n % m) (some a)) lo hi := by
  intro key some
  by_cases here : key = n % m
  · exact mem_residues.mpr ⟨n, h, h', here.symm⟩
  · rw [update_of_ne here] at some
    exact within key some

end

/-- Ascending keys that take the items from `lo` up to `hi` take them in the
order of their counters, when these do not pass a multiple of `m` on the way. -/
theorem filterMap_eq_pending {keys : List Nat} (sorted : keys.Pairwise (· < ·))
    (mem : ∀ key, (buf key).isSome = true → (key ∈ keys ↔ key ∈ residues m lo hi))
    (straight : ∀ a b, lo ≤ a → a < b → b < hi → (buf (a % m)).isSome = true →
      (buf (b % m)).isSome = true → a % m < b % m) :
    keys.filterMap buf = pending m buf lo hi := by
  have sortedResidues :
      ((residues m lo hi).filter fun key => (buf key).isSome).Pairwise (· < ·) := by
    rw [pairwise_filter, residues, pairwise_map]
    apply List.Pairwise.imp_of_mem _ pairwise_lt_range'
    intro a b ha hb order someA someB
    rw [mem_range'_1] at ha hb
    exact straight a b ha.1 order (by omega) someA someB
  have same : keys.filter (fun key => (buf key).isSome) =
      (residues m lo hi).filter fun key => (buf key).isSome := by
    apply (sorted.filter _).sortedLT.eq_of_mem_iff sortedResidues.sortedLT
    intro key
    simp only [mem_filter, and_congr_left_iff]
    exact mem key
  rw [pending_eq_filterMap, ← filterMap_occupied keys, same, filterMap_occupied]

/-! ## What the buffer holds as a whole -/

/-- Nothing lies beyond the stretch, so a longer one pends no more. -/
theorem Within.pending_extend {hi' : Nat} (within : Within m buf lo hi) (order : lo ≤ hi)
    (longer : hi ≤ hi') (width : hi' ≤ lo + m) : pending m buf lo hi' = pending m buf lo hi := by
  have beyond : pending m buf hi hi' = [] := by
    apply filterMap_eq_nil_iff.mpr
    intro n hn
    rw [mem_range'_1] at hn
    exact within.eq_none (by omega) hn.1 (by omega) order
  simp [pending_split order longer, beyond]

/-- A new item beyond the stretch pends after those that did. -/
theorem Within.pending_append (within : Within m buf lo hi) (a : α) (order : lo ≤ hi)
    (beyond : hi ≤ n) (width : n < lo + m) :
    pending m (Function.update buf (n % m) (some a)) lo (n + 1) = pending m buf lo hi ++ [a] := by
  have off (k : Nat) (hk : lo ≤ k) (hk' : k < n) :
      Function.update buf (n % m) (some a) (k % m) = buf (k % m) := by
    apply update_of_ne
    intro same
    have := Circular.eq_of_residue same (by omega) (by omega)
    omega
  have before : pending m (Function.update buf (n % m) (some a)) lo n = pending m buf lo n :=
    pending_congr fun k hk hk' => off k hk hk'
  rw [pending_split (show lo ≤ n by omega) (Nat.le_succ n), before,
    within.pending_extend order beyond (by omega), pending_step (Nat.lt_succ_self n),
    update_self, pending_self]
  rfl

/-- A new item pends besides those that did. -/
theorem pending_insert_perm (a : α) (fresh : buf (n % m) = none) (h : lo ≤ n) (h' : n < hi)
    (width : hi ≤ lo + m) :
    (pending m (Function.update buf (n % m) (some a)) lo hi).Perm (a :: pending m buf lo hi) := by
  have off (k : Nat) (hk : lo ≤ k) (hk' : k < hi) (other : k ≠ n) :
      Function.update buf (n % m) (some a) (k % m) = buf (k % m) := by
    apply update_of_ne
    intro same
    exact other (Circular.eq_of_residue same (by omega) (by omega))
  have before : pending m (Function.update buf (n % m) (some a)) lo n = pending m buf lo n :=
    pending_congr fun k hk hk' => off k hk (by omega) (by omega)
  have after : pending m (Function.update buf (n % m) (some a)) (n + 1) hi =
      pending m buf (n + 1) hi :=
    pending_congr fun k hk hk' => off k (by omega) hk' (by omega)
  rw [pending_split h (show n ≤ hi by omega), pending_step h', before, after,
    update_self, pending_split h (show n ≤ hi by omega), pending_step h', fresh]
  exact perm_middle

theorem Within.pending_perm (within : Within m buf lo hi) (pos : 0 < m) (width : hi ≤ lo + m) :
    (pending m buf lo hi).Perm ((List.range m).filterMap buf) := by
  have nodup : (residues m lo hi).Nodup := by
    apply Nodup.map_on _ nodup_range'
    intro a ha b hb same
    rw [mem_range'_1] at ha hb
    exact Circular.eq_of_residue same (by omega) (by omega)
  rw [pending_eq_filterMap, ← filterMap_occupied, ← filterMap_occupied (List.range m)]
  apply Perm.filterMap
  apply (perm_ext_iff_of_nodup (nodup.filter _) (nodup_range.filter _)).mpr
  intro key
  simp only [mem_filter, and_congr_left_iff]
  intro some
  refine ⟨fun mem => ?_, fun _ => within key some⟩
  obtain ⟨k, -, -, rfl⟩ := mem_residues.mp mem
  exact mem_range.mpr (Nat.mod_lt k pos)

/-! ## The sizes of the items -/

/-- The sizes of all the items together. -/
def weight (size : α → Nat) (m : Nat) (buf : Nat → Option α) : Nat :=
  ∑ key ∈ Finset.range m, ((buf key).map size).getD 0

variable (size : α → Nat) {key : Nat}

theorem weight_update (buf : Nat → Option α) (here : key < m) (item : Option α) :
    weight size m (Function.update buf key item) + ((buf key).map size).getD 0 =
      weight size m buf + (item.map size).getD 0 := by
  have mem : key ∈ Finset.range m := Finset.mem_range.mpr here
  have others : ∑ k ∈ (Finset.range m).erase key,
      ((Function.update buf key item k).map size).getD 0 =
        ∑ k ∈ (Finset.range m).erase key, ((buf k).map size).getD 0 := by
    apply Finset.sum_congr rfl
    intro k hk
    rw [update_of_ne (Finset.ne_of_mem_erase hk)]
  have new := Finset.add_sum_erase (Finset.range m)
    (fun k => ((Function.update buf key item k).map size).getD 0) mem
  have old := Finset.add_sum_erase (Finset.range m) (fun k => ((buf k).map size).getD 0) mem
  simp only [update_self] at new
  unfold weight
  omega

theorem weight_insert (here : key < m) (free : buf key = none) (a : α) :
    weight size m (Function.update buf key (some a)) = weight size m buf + size a := by
  have changed := weight_update size buf here (some a)
  simpa [free] using changed

theorem weight_erase (here : key < m) {a : α} (stored : buf key = some a) :
    weight size m (Function.update buf key none) + size a = weight size m buf := by
  have changed := weight_update size buf here none
  simpa [stored] using changed

end CircularBuffer
