import Mathlib

/-!
# Levelling

Units handed out one at a time, each to the first entry of a list with the fewest. How many
units it takes until an entry has more than `k` can be read off the list: all entries are
brought up to `k`, then one unit goes to each entry in the order of the list.
-/

namespace Ns3.Levelling

open List

variable {β : Type} [DecidableEq β]

/-- The first entry with the fewest units. -/
def fewest : β × Nat → List (β × Nat) → β × Nat
  | min, [] => min
  | min, it :: rest => fewest (if it.2 < min.2 then it else min) rest

/-- One unit for the first entry with the fewest. -/
def raise : List (β × Nat) → List (β × Nat)
  | [] => []
  | first :: rest =>
    (first :: rest).map fun it =>
      if it.1 = (fewest first rest).1 then (it.1, it.2 + 1) else it

/-- `n` units. -/
def level : (n : Nat) → List (β × Nat) → List (β × Nat)
  | 0, ret => ret
  | n + 1, ret => level n (raise ret)

/-- The units of all the entries. -/
def units (ret : List (β × Nat)) : Nat := (ret.map Prod.snd).sum

/-- The units that bring every entry up to `k`. -/
def deficit (k : Nat) (ret : List (β × Nat)) : Nat := (ret.map fun it => k - it.2).sum

/-- The entries before the one of the key that have no more than `k`. -/
def ahead (k : Nat) (key : β) : List (β × Nat) → Nat
  | [] => 0
  | it :: rest => if it.1 = key then 0 else (if it.2 ≤ k then 1 else 0) + ahead k key rest

omit [DecidableEq β] in
theorem fewest_cases (min : β × Nat) (ret : List (β × Nat)) :
    (fewest min ret = min ∧ ∀ it ∈ ret, min.2 ≤ it.2) ∨
      ∃ before after, ret = before ++ fewest min ret :: after ∧ (fewest min ret).2 < min.2 ∧
        (∀ it ∈ before, (fewest min ret).2 < it.2) ∧ ∀ it ∈ after, (fewest min ret).2 ≤ it.2 := by
  induction ret generalizing min with
  | nil => exact .inl ⟨rfl, nofun⟩
  | cons it rest ih =>
    unfold fewest
    by_cases less : it.2 < min.2
    · rw [if_pos less]
      right
      obtain ⟨same, least⟩ | ⟨before, after, split, less', low, least⟩ := ih it
      · rw [same]
        exact ⟨[], rest, rfl, less, nofun, least⟩
      · refine ⟨it :: before, after, congrArg (it :: ·) split, by omega, ?_, least⟩
        simpa using ⟨less', fun a b mem => low (a, b) mem⟩
    · rw [if_neg less]
      obtain ⟨same, least⟩ | ⟨before, after, split, less', low, least⟩ := ih min
      · left
        refine ⟨same, ?_⟩
        simpa using ⟨by omega, fun a b mem => least (a, b) mem⟩
      · right
        refine ⟨it :: before, after, congrArg (it :: ·) split, less', ?_, least⟩
        simpa using ⟨by omega, fun a b mem => low (a, b) mem⟩

theorem map_raise (before after : List (β × Nat)) {min : β × Nat}
    (nodup : ((before ++ min :: after).map Prod.fst).Nodup) :
    ((before ++ min :: after).map fun it => if it.1 = min.1 then (it.1, it.2 + 1) else it) =
      before ++ (min.1, min.2 + 1) :: after := by
  have others : ∀ it ∈ before ++ after,
      (if it.1 = min.1 then (it.1, it.2 + 1) else it) = id it := by
    intro it mem
    apply if_neg
    intro same
    rw [map_append, map_cons, nodup_middle, nodup_cons] at nodup
    apply nodup.1
    rw [← same, ← map_append]
    exact mem_map_of_mem mem
  have same_before := map_congr_left fun it mem => others it (mem_append_left after mem)
  have same_after := map_congr_left fun it mem => others it (mem_append_right before mem)
  simp [same_before, same_after]

variable {ret : List (β × Nat)} {k : Nat} {key : β}

/-- The raised entry has fewer units than every entry before it, and no more than any after. -/
theorem raise_split (some_ : ret ≠ []) (nodup : (ret.map Prod.fst).Nodup) :
    ∃ before min after, ret = before ++ min :: after ∧
      raise ret = before ++ (min.1, min.2 + 1) :: after ∧
      (∀ it ∈ before, min.2 < it.2) ∧ ∀ it ∈ after, min.2 ≤ it.2 := by
  cases ret with
  | nil => exact absurd rfl some_
  | cons first rest =>
    simp only [raise]
    obtain ⟨same, least⟩ | ⟨before, after, split, less, low, least⟩ := fewest_cases first rest
    · rw [same]
      exact ⟨[], first, rest, rfl, map_raise [] rest nodup, nofun, least⟩
    · generalize fewest first rest = min at *
      subst split
      refine ⟨first :: before, min, after, rfl, map_raise (first :: before) after nodup, ?_, least⟩
      simpa using ⟨less, fun a b mem => low (a, b) mem⟩

theorem raise_keys (ret : List (β × Nat)) : (raise ret).map Prod.fst = ret.map Prod.fst := by
  cases ret with
  | nil => rfl
  | cons first rest =>
    unfold raise
    rw [map_map]
    apply map_congr_left
    intro it _
    dsimp only [Function.comp]
    split <;> rfl

theorem level_keys (n : Nat) (ret : List (β × Nat)) :
    (level n ret).map Prod.fst = ret.map Prod.fst := by
  induction n generalizing ret with
  | zero => rfl
  | succ n ih => rw [level, ih, raise_keys]

theorem raise_units (some_ : ret ≠ []) (nodup : (ret.map Prod.fst).Nodup) :
    units (raise ret) = units ret + 1 := by
  obtain ⟨before, min, after, rfl, raised, -⟩ := raise_split some_ nodup
  rw [raised]
  simp only [units, map_append, map_cons, sum_append, sum_cons]
  omega

theorem level_units (n : Nat) (some_ : ret ≠ []) (nodup : (ret.map Prod.fst).Nodup) :
    units (level n ret) = units ret + n := by
  induction n generalizing ret with
  | zero => rfl
  | succ n ih =>
    have keys := raise_keys ret
    have some' : raise ret ≠ [] := by
      intro none_
      rw [none_] at keys
      exact some_ (map_eq_nil_iff.mp keys.symm)
    rw [level, ih some' (by rwa [keys]), raise_units some_ nodup]
    omega

/-! ## The units that an entry waits for -/

omit [DecidableEq β] in
theorem deficit_split (k : Nat) (before after : List (β × Nat)) (it : β × Nat) :
    deficit k (before ++ it :: after) = deficit k (before ++ after) + (k - it.2) := by
  simp only [deficit, map_append, map_cons, sum_append, sum_cons]
  omega

omit [DecidableEq β] in
theorem deficit_eq_zero (full : ∀ it ∈ ret, k ≤ it.2) : deficit k ret = 0 := by
  rw [deficit, List.sum_eq_zero_iff_forall_eq_nat]
  intro units mem
  obtain ⟨it, mem', rfl⟩ := mem_map.mp mem
  exact Nat.sub_eq_zero_of_le (full it mem')

theorem ahead_split {before after : List (β × Nat)} (it : β × Nat) (own : it.1 ≠ key) :
    ahead k key (before ++ it :: after) = ahead k key (before ++ after) +
        if key ∈ before.map Prod.fst then 0 else if it.2 ≤ k then 1 else 0 := by
  induction before with
  | nil => simp [ahead, own, Nat.add_comm]
  | cons first before ih =>
    simp only [cons_append, ahead, map_cons, mem_cons]
    by_cases here : first.1 = key
    · simp [here]
    · simp only [here, Ne.symm here, if_false, false_or]
      omega

theorem ahead_own (k : Nat) (key : β) (before after : List (β × Nat)) (units units' : Nat) :
    ahead k key (before ++ (key, units) :: after) =
      ahead k key (before ++ (key, units') :: after) := by
  induction before with
  | nil => simp [ahead]
  | cons first before ih => simp only [cons_append, ahead, ih]

theorem ahead_eq_zero {before after : List (β × Nat)} (units : Nat)
    (full : ∀ it ∈ before, k < it.2) : ahead k key (before ++ (key, units) :: after) = 0 := by
  induction before with
  | nil => simp [ahead]
  | cons first before ih =>
    have large := full first mem_cons_self
    simp only [cons_append, ahead]
    rw [ih fun it mem => full it (mem_cons_of_mem _ mem)]
    split
    · rfl
    · rw [if_neg (by omega)]

/-- One unit: the entry comes closer to having more than `k` by one. -/
theorem raise_reaches (nodup : (ret.map Prod.fst).Nodup) {v : Nat} (mem : (key, v) ∈ ret)
    (few : v ≤ k) :
    ∃ v', (key, v') ∈ raise ret ∧ v ≤ v' ∧ (k < v' ∧ deficit k ret + ahead k key ret = 0 ∨
        v' ≤ k ∧ deficit k (raise ret) + ahead k key (raise ret) + 1 =
          deficit k ret + ahead k key ret) := by
  obtain ⟨before, min, after, rfl, raised, low, least⟩ := raise_split (ne_nil_of_mem mem) nodup
  rw [raised]
  have shape := mem_append.mp mem
  rw [mem_cons] at shape
  have fewer : min.2 ≤ v := by
    obtain early | rfl | late := shape
    · exact Nat.le_of_lt (low _ early)
    · exact Nat.le_refl _
    · exact least _ late
  by_cases own : min.1 = key
  · obtain ⟨own', units⟩ := min
    dsimp only at own low least fewer
    subst own
    have here : v = units :=
      congrArg Prod.snd (inj_on_of_nodup_map nodup mem (mem_append_right before mem_cons_self) rfl)
    subst here
    refine ⟨v + 1, mem_append_right before mem_cons_self, Nat.le_succ v, ?_⟩
    rw [deficit_split, deficit_split]
    by_cases last : v = k
    · left
      rw [deficit_eq_zero, ahead_eq_zero v fun it mem => by have := low it mem; omega]
      · omega
      · intro it mem
        obtain early | late := mem_append.mp mem
        · exact Nat.le_of_lt (last ▸ low it early)
        · exact last ▸ least it late
    · right
      rw [ahead_own k own' before after (v + 1) v]
      omega
  · refine ⟨v, ?_, Nat.le_refl v, .inr ⟨few, ?_⟩⟩
    · rw [mem_append, mem_cons]
      obtain early | rfl | late := shape
      · exact .inl early
      · exact absurd rfl own
      · exact .inr (.inr late)
    · rw [deficit_split, deficit_split, ahead_split _ own, ahead_split (min.1, min.2 + 1) own]
      by_cases last : min.2 = k
      · have later : key ∉ before.map Prod.fst := by
          intro early
          obtain ⟨it, mem', rfl⟩ := mem_map.mp early
          have same := congrArg Prod.snd (inj_on_of_nodup_map nodup mem
            (mem_append_left (min :: after) mem') rfl)
          have large := low it mem'
          omega
        simp only [later, if_false]
        split <;> split <;> omega
      · split
        · omega
        · split <;> split <;> omega

/-- **When an entry is reached.** -/
theorem level_reaches (n : Nat) (nodup : (ret.map Prod.fst).Nodup) {v v' : Nat}
    (mem : (key, v) ∈ ret) (mem' : (key, v') ∈ level n ret) :
    k < v' ↔ k < v ∨ deficit k ret + ahead k key ret < n := by
  induction n generalizing ret v with
  | zero =>
    have same := congrArg Prod.snd (inj_on_of_nodup_map nodup mem mem' rfl)
    omega
  | succ n ih =>
    have nodup' : ((raise ret).map Prod.fst).Nodup := by rwa [raise_keys]
    by_cases few : v ≤ k
    · obtain ⟨u, mem'', -, step⟩ := raise_reaches nodup mem few
      have rest := ih nodup' mem'' mem'
      omega
    · obtain ⟨u, mem'', more, -⟩ := raise_reaches nodup mem (Nat.le_refl v)
      have rest := ih nodup' mem'' mem'
      omega

end Ns3.Levelling
