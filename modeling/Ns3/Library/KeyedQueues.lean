import Mathlib

/-!
# Queues that share keys

Numbered elements wait in queues. Those of one key leave in the order of their numbers as long
as they wait in one queue.
-/

namespace KeyedQueues

open List

variable {κ : Type} {key : Nat → κ}

/-- What waits in each queue, the number of the next element, and what has left, the latest
first. -/
structure InOrder (key : Nat → κ) (waiting : Nat → List Nat) (next : Nat) (out : List Nat) :
    Prop where
  sorted : ∀ i, (waiting i).Pairwise (· < ·)
  fresh : ∀ i, ∀ x ∈ waiting i, x < next
  past : ∀ x ∈ out, x < next
  together : ∀ i j, ∀ x ∈ waiting i, ∀ y ∈ waiting j, key x = key y → i = j
  behind : ∀ i, ∀ x ∈ waiting i, ∀ y ∈ out, key x = key y → y < x
  ordered : out.Pairwise fun late early => key late = key early → early < late

variable {waiting : Nat → List Nat} {next : Nat} {out : List Nat}

theorem InOrder.empty (key : Nat → κ) (next : Nat) : InOrder key (fun _ => []) next [] where
  sorted _ := List.Pairwise.nil
  fresh := nofun
  past := nofun
  together := nofun
  behind := nofun
  ordered := List.Pairwise.nil

theorem InOrder.trim (inOrder : InOrder key waiting next out) {waiting' : Nat → List Nat}
    (fewer : ∀ i, (waiting' i).Sublist (waiting i)) : InOrder key waiting' next out where
  sorted i := (inOrder.sorted i).sublist (fewer i)
  fresh i x mem := inOrder.fresh i x ((fewer i).subset mem)
  past := inOrder.past
  together i j x x_mem y y_mem :=
    inOrder.together i j x ((fewer i).subset x_mem) y ((fewer j).subset y_mem)
  behind i x mem := inOrder.behind i x ((fewer i).subset mem)
  ordered := inOrder.ordered

theorem InOrder.skip (inOrder : InOrder key waiting next out) :
    InOrder key waiting (next + 1) out where
  sorted := inOrder.sorted
  fresh i x mem := Nat.lt_succ_of_lt (inOrder.fresh i x mem)
  past x mem := Nat.lt_succ_of_lt (inOrder.past x mem)
  together := inOrder.together
  behind := inOrder.behind
  ordered := inOrder.ordered

theorem mem_update {i j x : Nat} {queue : List Nat} :
    x ∈ Function.update waiting i queue j ↔ j = i ∧ x ∈ queue ∨ j ≠ i ∧ x ∈ waiting j := by
  by_cases same : j = i
  · subst same
    simp
  · simp [same]

section

variable (inOrder : InOrder key waiting next out)
include inOrder

/-- An element joins a queue, the only one where its key waits. -/
theorem InOrder.append {i : Nat} (alone : ∀ j, ∀ x ∈ waiting j, key x = key next → j = i) :
    InOrder key (Function.update waiting i (waiting i ++ [next])) (next + 1) out := by
  have joined : ∀ j x, x ∈ Function.update waiting i (waiting i ++ [next]) j →
      x ∈ waiting j ∨ j = i ∧ x = next := by
    intro j x mem
    rcases mem_update.mp mem with ⟨rfl, mem⟩ | ⟨-, mem⟩
    · rcases mem_append.mp mem with held | new
      · exact .inl held
      · exact .inr ⟨rfl, mem_singleton.mp new⟩
    · exact .inl mem
  constructor
  · intro j
    by_cases same : j = i
    · subst same
      rw [Function.update_self, pairwise_append]
      refine ⟨inOrder.sorted j, pairwise_singleton _ _, fun x mem y new => ?_⟩
      rw [mem_singleton.mp new]
      exact inOrder.fresh j x mem
    · rw [Function.update_of_ne same]
      exact inOrder.sorted j
  · intro j x mem
    rcases joined j x mem with held | ⟨-, rfl⟩
    · exact Nat.lt_succ_of_lt (inOrder.fresh j x held)
    · exact Nat.lt_succ_self x
  · exact fun x mem => Nat.lt_succ_of_lt (inOrder.past x mem)
  · intro j k x x_mem y y_mem same
    rcases joined j x x_mem with x_held | ⟨rfl, rfl⟩
    · rcases joined k y y_mem with y_held | ⟨rfl, rfl⟩
      · exact inOrder.together j k x x_held y y_held same
      · exact alone j x x_held same
    · rcases joined k y y_mem with y_held | ⟨rfl, rfl⟩
      · exact (alone k y y_held same.symm).symm
      · rfl
  · intro j x mem y left same
    rcases joined j x mem with held | ⟨-, rfl⟩
    · exact inOrder.behind j x held y left same
    · exact inOrder.past y left
  · exact inOrder.ordered

theorem InOrder.leave {i x : Nat} {rest : List Nat} (is : waiting i = x :: rest) :
    InOrder key (Function.update waiting i rest) next (x :: out) := by
  have fewer : ∀ j, (Function.update waiting i rest j).Sublist (waiting j) := by
    intro j
    by_cases same : j = i
    · subst same
      rw [Function.update_self, is]
      exact sublist_cons_self x rest
    · exact (Function.update_of_ne same rest waiting).symm ▸ Sublist.refl _
  have trimmed := inOrder.trim fewer
  have sorted := inOrder.sorted i
  rw [is] at sorted
  have head : x ∈ waiting i := is ▸ mem_cons_self
  constructor
  · exact trimmed.sorted
  · exact trimmed.fresh
  · intro y mem
    rcases mem_cons.mp mem with rfl | left
    · exact inOrder.fresh i y head
    · exact inOrder.past y left
  · exact trimmed.together
  · intro j y y_mem z z_mem same
    rcases mem_cons.mp z_mem with rfl | left
    · obtain rfl := inOrder.together j i y ((fewer j).subset y_mem) z head same
      rw [Function.update_self] at y_mem
      exact rel_of_pairwise_cons sorted y_mem
    · exact trimmed.behind j y y_mem z left same
  · exact pairwise_cons.mpr ⟨fun y left => inOrder.behind i x head y left, inOrder.ordered⟩

/-- The number of an element that leaves after those before it in its queue are dropped. -/
theorem InOrder.take {trimmed : Nat → List Nat}
    (fewer : ∀ i, (trimmed i).Sublist (waiting i)) {i x : Nat} {rest : List Nat}
    (is : trimmed i = x :: rest) :
    InOrder key (Function.update trimmed i rest) next (x :: out) :=
  (inOrder.trim fewer).leave is

/-- **What leaves with one key** leaves in order. -/
theorem InOrder.leaves_in_order [DecidableEq κ] (k : κ) :
    (out.filter (key · = k)).Pairwise (· > ·) := by
  rw [pairwise_filter]
  refine inOrder.ordered.imp fun {late early} before is_late is_early => ?_
  exact before ((of_decide_eq_true is_late).trans (of_decide_eq_true is_early).symm)

end

end KeyedQueues

/-! ## Totals over the keys -/

namespace KeyedQueues

/-- A change at one key changes a total by as much. -/
theorem sum_update {κ β : Type} [DecidableEq κ] {keys : List κ} (nodup : keys.Nodup) {k : κ}
    (mem : k ∈ keys) (shelf : κ → β) (new : β) (measure : β → Nat) :
    (keys.map fun i => measure (Function.update shelf k new i)).sum + measure (shelf k) =
      (keys.map fun i => measure (shelf i)).sum + measure new := by
  induction keys with
  | nil => cases mem
  | cons i rest ih =>
    obtain ⟨absent, nodup⟩ := List.nodup_cons.mp nodup
    rw [List.map_cons, List.map_cons, List.sum_cons, List.sum_cons]
    by_cases same : i = k
    · subst same
      have others : (rest.map fun j => measure (Function.update shelf i new j)) =
          rest.map fun j => measure (shelf j) := by
        refine List.map_congr_left fun j j_mem => ?_
        rw [Function.update_of_ne (ne_of_mem_of_not_mem j_mem absent)]
      rw [others, Function.update_self]
      omega
    · have later := ih nodup ((List.mem_cons.mp mem).resolve_left (Ne.symm same))
      rw [Function.update_of_ne same]
      omega

end KeyedQueues

/-!
## Ledgers by key

What was accepted has left or waits. Elements of one key leave in the order in which they
were accepted, though those of other keys may overtake them.
-/

section

variable {α κ : Type} [DecidableEq κ]

/-- The elements of a key. -/
def ofKey (key : α → κ) (k : κ) (xs : List α) : List α := xs.filter fun x => key x = k

/-- Some elements leave a line, those of each key from its head. -/
def Leaves (key : α → κ) (line gone left : List α) : Prop :=
  ∀ k, ofKey key k gone ++ ofKey key k left = ofKey key k line

/-- For each key, what has left and then what waits are what was accepted. -/
def Ledger (key : α → κ) (accepted out line : List α) : Prop := Leaves key accepted out line

variable {key : α → κ} {accepted out line gone left : List α} {k : κ}

theorem ofKey_append (xs ys : List α) : ofKey key k (xs ++ ys) = ofKey key k xs ++ ofKey key k ys :=
  List.filter_append ..

theorem Leaves.nothing (line : List α) : Leaves key line [] line := fun _ => List.nil_append _

theorem Leaves.append (gone left : List α) : Leaves key (gone ++ left) gone left :=
  fun _ => (ofKey_append gone left).symm

theorem Leaves.trans {more rest : List α} (first : Leaves key line gone left)
    (second : Leaves key left more rest) : Leaves key line (gone ++ more) rest := by
  intro k
  simp [ofKey_append, second k, first k]

theorem Leaves.all (key : α → κ) (k : κ) (line : List α) :
    Leaves key line (line.filter fun x => key x = k) (line.filter fun x => !decide (key x = k)) := by
  intro other
  simp only [ofKey, List.filter_filter]
  by_cases same : other = k
  · subst same
    simp
  · have nobody : line.filter (fun x => decide (key x = other) && decide (key x = k)) = [] :=
      List.filter_eq_nil_iff.mpr fun x _ both => by
        simp only [Bool.and_eq_true, decide_eq_true_eq] at both
        exact same (both.1.symm.trans both.2)
    rw [nobody, List.nil_append]
    refine List.filter_congr fun x _ => ?_
    by_cases here : key x = other
    · simp [here, same]
    · simp [here]

theorem Leaves.first {x : α} (found : line.find? (fun x => key x = k) = some x) :
    Leaves key line [x] (line.eraseP fun x => key x = k) := by
  intro other
  have is_k : key x = k := by simpa using List.find?_some found
  induction line with
  | nil => cases found
  | cons y rest ih =>
    by_cases here : key y = k
    · rw [List.find?_cons_of_pos (by simpa using here)] at found
      obtain rfl := Option.some.inj found
      rw [List.eraseP_cons_of_pos (by simpa using here)]
      exact Leaves.append [y] rest other
    · rw [List.find?_cons_of_neg (by simpa using here)] at found
      rw [List.eraseP_cons_of_neg (by simpa using here)]
      have rest_eq := ih found
      by_cases wanted : other = k
      · have y_other : key y ≠ other := wanted ▸ here
        simpa [ofKey, y_other] using rest_eq
      · have x_other : key x ≠ other := fun same => wanted (same.symm.trans is_k)
        simp only [ofKey, List.filter_cons, List.filter_nil, x_other, decide_false,
          Bool.false_eq_true, if_false, List.nil_append] at rest_eq ⊢
        rw [rest_eq]

/-- In an ordered line those below a bound are a prefix. -/
theorem filter_below (line : List α) (early : α → Bool) (le : α → α → Prop)
    (down : ∀ x y, le x y → early y = true → early x = true) (sorted : line.Pairwise le) :
    line.filter early ++ line.filter (fun x => !early x) = line := by
  induction line with
  | nil => rfl
  | cons x rest ih =>
    obtain ⟨before, sorted⟩ := List.pairwise_cons.mp sorted
    cases first : early x with
    | true => simpa [first] using ih sorted
    | false =>
      have nobody : rest.filter early = [] := List.filter_eq_nil_iff.mpr fun y mem below => by
        rw [down x y (before y mem) below] at first
        cases first
      have all : rest.filter (fun x => !early x) = rest := by
        have := ih sorted
        rwa [nobody, List.nil_append] at this
      simp [first, nobody, all]

theorem Ledger.start : Ledger key ([] : List α) [] [] := Leaves.nothing []

section

variable (ledger : Ledger key accepted out line)
include ledger

theorem Ledger.leave (leaves : Leaves key line gone left) :
    Ledger key accepted (out ++ gone) left := Leaves.trans ledger leaves

theorem Ledger.accept (x : α) : Ledger key (accepted ++ [x]) out (line ++ [x]) := by
  intro k
  rw [ofKey_append, ofKey_append, ← List.append_assoc, ledger k]

/-- **Conservation.** What has left and what waits are together what was accepted. -/
theorem Ledger.perm : (out ++ line).Perm accepted := by
  classical
  refine List.perm_iff_count.mpr fun x => ?_
  have split : ∀ xs : List α, List.count x xs = List.count x (ofKey key (key x) xs) := fun xs =>
    (List.count_filter (by simp)).symm
  rw [split (out ++ line), split accepted, ofKey_append, ledger]

end

end
