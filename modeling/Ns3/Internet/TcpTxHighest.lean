import Ns3.Library.Machine
import Ns3.Internet.TcpRxStored
import Ns3.Internet.TcpTxUpdate

/-!
# The highest SACK and the lost items

The scan for lost items starts at the item with the highest SACK. That one is found
with `<=` against the end of each newly sacked item, so that the item right below the
highest one takes its place when it is sacked later.
-/

namespace Ns3.Internet

open SequenceNumber32

namespace TcpTxBuffer

open TcpTxItem List

/-- The iterator is at the sacked item that starts last. -/
def HighestSacked (b : TcpTxBuffer) : Prop :=
  ∃ i item, b.sentList[i]? = some item ∧ item.sacked = true ∧
    b.highestSack = (.item i, item.startSeq) ∧
    ∀ other ∈ b.sentList, other.sacked = true → Le other.startSeq item.startSeq

/-- An item that is not sacked is lost if enough items above it are. -/
def LossRule (b : TcpTxBuffer) : Prop :=
  ∀ i item, b.sentList[i]? = some item → item.sacked = false →
    b.dupAckThresh ≤ (b.sentList.drop (i + 1)).countP sacked → item.lost = true

/-- Less than half of the sequence numbers are outstanding, in items that know where they
start. -/
structure Outstanding (b : TcpTxBuffer) : Prop extends Scoreboard b where
  near : b.sentSize < 2 ^ 31
  sized : ∀ item ∈ b.sentList, 0 < item.size
  starts : b.sentList.map startSeq = b.sentSpans.map Prod.fst
  thresh : 0 < b.dupAckThresh

/-- Nothing is sacked yet. -/
structure Fresh (b : TcpTxBuffer) : Prop extends Outstanding b where
  unsacked : ∀ item ∈ b.sentList, item.sacked = false
  unset : b.highestSack.1 = .end_

/-- The `i`-th item is sacked once these blocks have been scanned. -/
def SackedBy (items : List TcpTxItem) (spans list : List SackBlock) (i : Nat) : Prop :=
  (∃ item ∈ items[i]?, item.sacked = true) ∨ ∃ block ∈ list, Hits block spans i

/-- No block is at the head or beyond the sent data, and an item is sacked before the one
above it is, unless items further above are sacked in the end. -/
structure Orderly (b : TcpTxBuffer) (list : List SackBlock) : Prop where
  head : ∀ block ∈ list, ¬ Covers block b.sentSpans 0
  within : ∀ block ∈ list, ¬ Lt (b.firstByteSeq.add b.sentSize) block.1
  below : ∀ n block i, list[n]? = some block → Hits block b.sentSpans i →
    SackedBy b.sentList b.sentSpans (list.take n) (i + 1) →
    ¬ SackedBy b.sentList b.sentSpans (list.take n) i →
      ∃ j, i + 1 < j ∧ SackedBy b.sentList b.sentSpans list j

/-! ## One block -/

/-- The iterator is at the `top`-th item, which starts at `p`, if that is sacked `now`. Else
the highest SACK is nowhere or not above it. The sent data begins at `x`. -/
structure Follows (x top p : Nat) (now : Prop) (highestSack : Iterator × SequenceNumber32) :
    Prop where
  there : now → highestSack = (.item top, .of p)
  below : ¬ now → highestSack.1 = .end_ ∨ ∃ q, highestSack.2 = .of q ∧ x ≤ q ∧ q ≤ p

section Follows

variable {x top p i y : Nat} {now now' : Prop} {highestSack : Iterator × SequenceNumber32}
  {m : Marking} {item : TcpTxItem}

theorem Follows.congr (follows : Follows x top p now highestSack) (same : now ↔ now') :
    Follows x top p now' highestSack :=
  propext same ▸ follows

theorem Follows.arrive (follows : Follows x top p False m.highestSack)
    (near : p + item.size < x + 2 ^ 31) :
    Follows x top p True (m.mark top (.of p) item).highestSack := by
  have start : m.highestSack.1 = .end_ ∨
      Le m.highestSack.2 ((Serial.of p : SequenceNumber32).add item.size) := by
    apply (follows.below id).imp_right
    rintro ⟨q, second, low, high⟩
    rw [second, Serial.of_add, le_iff ⟨by omega, by omega⟩]
    omega
  refine ⟨fun _ => ?_, fun not => absurd trivial not⟩
  unfold Marking.mark
  exact if_pos start

/-- An item further below gets sacked, and not the one right below once the `top`-th is. -/
theorem Follows.mark_below (follows : Follows x top p now m.highestSack)
    (apart : now → y + item.size < p) (low : x ≤ y) (high : y ≤ p) (near : p < x + 2 ^ 31) :
    Follows x top p now (m.mark i (.of y) item).highestSack := by
  unfold Marking.mark
  refine ⟨fun done => ?_, fun not => ?_⟩
  · have place := apart done
    have stays : ¬ (m.highestSack.1 = .end_ ∨
        Le m.highestSack.2 ((Serial.of y : SequenceNumber32).add item.size)) := by
      rw [follows.there done, Serial.of_add, le_iff ⟨by omega, by omega⟩]
      simp only [reduceCtorEq, false_or]
      omega
    exact (if_neg stays).trans (follows.there done)
  · dsimp only
    split
    · exact Or.inr ⟨y, rfl, low, high⟩
    · exact follows.below not

end Follows

variable {block : SackBlock} {i x sentSize top : Nat} {items items' : List TcpTxItem}
  {m m' : Marking} {item : TcpTxItem} {first : SequenceNumber32} {list : List SackBlock}
  {all : Bool} {sizes : List Nat} {b : TcpTxBuffer}

theorem scanBlock_unmarked {begin_ : SequenceNumber32}
    (scan : scanBlock block i begin_ items m = some (items', m'))
    (unhit : ∀ k item, items[k]? = some item → item.sacked = false →
      ¬ Hits block (spans begin_ (items.map TcpTxItem.size)) k) : m' = m := by
  induction items generalizing i begin_ m items' with
  | nil => exact (Prod.mk.inj (Option.some.inj scan)).2.symm
  | cons item rest ih =>
    have later {rest' : List TcpTxItem} {m'' : Marking} (le : Le (begin_.add item.size) block.2)
        (scan' : scanBlock block (i + 1) (begin_.add item.size) rest m'' = some (rest', m')) :
        m' = m'' := by
      apply ih scan'
      intro k other at_ unsacked hits
      apply unhit (k + 1) other at_ unsacked
      rw [map_cons, spans, hits_succ]
      exact ⟨le, hits⟩
    unfold scanBlock at scan
    dsimp only at scan
    split at scan
    · rename_i inside
      split at scan
      · split at scan
        · cases scan
        · obtain ⟨⟨rest', m''⟩, scan', eq⟩ := Option.map_eq_some_iff.mp scan
          cases eq
          exact later inside.2 scan'
      · rename_i unsacked
        exact absurd ((hits_zero _ _ _).mpr inside) (unhit 0 item rfl (by simpa using unsacked))
    · split at scan
      · exact (Prod.mk.inj (Option.some.inj scan)).2.symm
      · rename_i past
        obtain ⟨⟨rest', m''⟩, scan', eq⟩ := Option.map_eq_some_iff.mp scan
        cases eq
        exact later past scan'

/-- The items before the `top`-th one come first, so that one below it is sacked after it only
in a later scan. -/
theorem scanBlock_follows {y : Nat} {before after : List TcpTxItem}
    (scan : scanBlock block i (.of y) (before ++ item :: after) m = some (items', m'))
    (sized : ∀ other ∈ before, 0 < other.size) (low : x ≤ y)
    (near : y + totalSize (before ++ item :: after) < x + 2 ^ 31)
    (follows : Follows x (i + before.length) (y + totalSize before) (item.sacked = true)
      m.highestSack)
    (last : ∀ k other, after[k]? = some other → other.sacked = false →
      ¬ Hits block (spans (.of y) ((before ++ item :: after).map TcpTxItem.size))
        (before.length + 1 + k))
    (apart : item.sacked = true → ∀ k other, before[k]? = some other → other.sacked = false →
      k + 1 = before.length →
        ¬ Hits block (spans (.of y) ((before ++ item :: after).map TcpTxItem.size)) k) :
    Follows x (i + before.length) (y + totalSize before) (item.sacked = true ∨
      Hits block (spans (.of y) ((before ++ item :: after).map TcpTxItem.size)) before.length)
      m'.highestSack := by
  induction before generalizing i y m items' with
  | nil =>
    simp only [nil_append, length_nil, totalSize_nil] at *
    have rest {rest' : List TcpTxItem} {m'' : Marking}
        (le : Le ((Serial.of y : SequenceNumber32).add item.size) block.2)
        (scan' : scanBlock block (i + 1) ((Serial.of y).add item.size) after m'' =
          some (rest', m')) : m' = m'' := by
      apply scanBlock_unmarked scan'
      intro k other at_ unsacked hits
      apply last k other at_ unsacked
      rw [zero_add, add_comm 1, map_cons, spans, hits_succ]
      exact ⟨le, hits⟩
    unfold scanBlock at scan
    dsimp only at scan
    simp only [map_cons, spans, hits_zero]
    split at scan
    · rename_i inside
      split at scan
      · rename_i sacked
        split at scan
        · cases scan
        · obtain ⟨⟨rest', m''⟩, scan', eq⟩ := Option.map_eq_some_iff.mp scan
          cases eq
          obtain rfl := rest inside.2 scan'
          exact follows.congr (by simp [sacked])
      · rename_i unsacked
        obtain ⟨⟨rest', m''⟩, scan', eq⟩ := Option.map_eq_some_iff.mp scan
        cases eq
        obtain rfl := rest inside.2 scan'
        rw [totalSize_cons] at near
        have arrived : Follows x i y True (m.mark i (.of y) item).highestSack :=
          (follows.congr (iff_false_intro unsacked)).arrive (by omega)
        exact arrived.congr (by simp [inside])
    · rename_i outside
      have same : item.sacked = true ↔
          item.sacked = true ∨ Inside (.of y, (Serial.of y).add item.size) block := by
        simp [outside]
      split at scan
      · cases scan
        exact follows.congr same
      · rename_i past
        obtain ⟨⟨rest', m''⟩, scan', eq⟩ := Option.map_eq_some_iff.mp scan
        cases eq
        obtain rfl := rest past scan'
        exact follows.congr same
  | cons first before ih =>
    have positive := sized first mem_cons_self
    simp only [cons_append, length_cons, totalSize_cons, map_cons, spans,
      Serial.of_add] at *
    have rest {rest' : List TcpTxItem} {m'' : Marking}
        (le : Le (Serial.of (y + first.size) : SequenceNumber32) block.2)
        (scan' : scanBlock block (i + 1) (.of (y + first.size)) (before ++ item :: after) m'' =
          some (rest', m'))
        (follows' : Follows x (i + (before.length + 1)) (y + (first.size + totalSize before))
          (item.sacked = true) m''.highestSack) :
        Follows x (i + (before.length + 1)) (y + (first.size + totalSize before))
          (item.sacked = true ∨ Hits block ((Serial.of y, Serial.of (y + first.size)) ::
            spans (.of (y + first.size)) ((before ++ item :: after).map TcpTxItem.size))
              (before.length + 1)) m'.highestSack := by
      rw [add_comm before.length 1, ← add_assoc, ← add_assoc] at follows' ⊢
      have done := ih scan' (fun other mem => sized other (mem_cons_of_mem first mem))
        (by omega) (by omega) follows' (fun k other at_ unsacked hits => last k other at_ unsacked
          (by rw [Nat.add_right_comm _ 1 k, hits_succ]; exact ⟨le, hits⟩))
        (fun sacked k other at_ unsacked next hits => apart sacked (k + 1) other at_ unsacked
          (by omega) (by rw [hits_succ]; exact ⟨le, hits⟩))
      refine done.congr (or_congr_right ?_)
      rw [add_comm 1, hits_succ]
      exact (and_iff_right le).symm
    unfold scanBlock at scan
    dsimp only at scan
    rw [Serial.of_add] at scan
    split at scan
    · rename_i inside
      split at scan
      · split at scan
        · cases scan
        · obtain ⟨⟨rest', m''⟩, scan', eq⟩ := Option.map_eq_some_iff.mp scan
          cases eq
          exact rest inside.2 scan' follows
      · rename_i unsacked
        obtain ⟨⟨rest', m''⟩, scan', eq⟩ := Option.map_eq_some_iff.mp scan
        cases eq
        have total := totalSize_append before (item :: after)
        refine rest inside.2 scan' (follows.mark_below ?_ low (by omega) (by omega))
        intro sacked
        cases before with
        | nil =>
          exact absurd ((hits_zero _ _ _).mpr inside)
            (apart sacked 0 first rfl (by simpa using unsacked) rfl)
        | cons second before =>
          have more := sized second (by simp)
          rw [totalSize_cons]
          omega
    · split at scan
      · rename_i past
        cases scan
        refine follows.congr (iff_self_or.mpr ?_)
        rw [hits_succ]
        exact fun hits => absurd past hits.1
      · rename_i past
        obtain ⟨⟨rest', m''⟩, scan', eq⟩ := Option.map_eq_some_iff.mp scan
        cases eq
        exact rest past scan' follows

/-! ## All blocks -/

theorem scanBlocks_all (scan : scanBlocks first sentSize list items m = some (items', m', all))
    (within : ∀ block ∈ list, ¬ Lt (first.add sentSize) block.1) : all = true := by
  induction list generalizing items m with
  | nil =>
    simp only [scanBlocks, Option.some.injEq, Prod.mk.injEq] at scan
    exact scan.2.2.symm
  | cons block blocks ih =>
    obtain ⟨here, later⟩ := forall_mem_cons.mp within
    unfold scanBlocks at scan
    rw [if_neg here] at scan
    obtain ⟨⟨items₁, m₁⟩, -, rest⟩ := Option.bind_eq_some_iff.mp scan
    exact ih rest later

theorem spans_length (first : SequenceNumber32) (sizes : List Nat) :
    (spans first sizes).length = sizes.length := by
  induction sizes generalizing first with
  | nil => rfl
  | cons size rest ih => simp [spans, ih]

theorem Hits.inside (hits : Hits block (spans first sizes) i) : i < sizes.length := by
  obtain ⟨⟨span, at_, -⟩, -⟩ := hits
  rw [← spans_length first]
  exact (List.getElem?_eq_some_iff.mp at_).1

theorem SackedBy.inside (sacked : SackedBy items (spans first (items.map TcpTxItem.size)) list i) :
    i < items.length := by
  rcases sacked with ⟨item, at_, -⟩ | ⟨block, -, hits⟩
  · exact (List.getElem?_eq_some_iff.mp at_).1
  · simpa using hits.inside

theorem sackedBy_nil {spans : List SackBlock} :
    SackedBy items spans [] i ↔ ∃ item ∈ items[i]?, item.sacked = true := by simp [SackedBy]

theorem sacked_sackAt {hit : Nat → Bool} (long : hit i = true → i < items.length) :
    (∃ item ∈ (sackAt hit items)[i]?, item.sacked = true) ↔
      (∃ item ∈ items[i]?, item.sacked = true) ∨ hit i = true := by
  simp only [sackAt, getElem?_mapIdx]
  constructor
  · rintro ⟨item', at', sacked⟩
    obtain ⟨item, at_, rfl⟩ := Option.map_eq_some_iff.mp at'
    cases hits : hit i with
    | true => exact Or.inr rfl
    | false =>
      rw [hits, if_neg Bool.false_ne_true] at sacked
      exact Or.inl ⟨item, at_, sacked⟩
  · rintro (⟨item, at_, sacked⟩ | hits)
    · refine ⟨_, congrArg (Option.map _) at_, ?_⟩
      split
      · rfl
      · exact sacked
    · have at_ := getElem?_eq_getElem (l := items) (long hits)
      refine ⟨_, congrArg (Option.map _) at_, ?_⟩
      simp [hits, sack]

theorem sackedBy_cons : SackedBy items (spans first (items.map TcpTxItem.size)) (block :: list) i ↔
      SackedBy (sackAt (fun k => Hits block (spans first (items.map TcpTxItem.size)) k) items)
        (spans first (items.map TcpTxItem.size)) list i := by
  unfold SackedBy
  rw [sacked_sackAt fun hits => by simpa using (of_decide_eq_true hits).inside]
  simp [or_assoc]

theorem scanBlocks_unmarked (scan : scanBlocks first sentSize list items m = some (items', m', all))
    (exclusive : ∀ item ∈ items, item.Exclusive) (counted : Counted 0 0 items m)
    (none_ : ∀ i, ¬ SackedBy items (spans first (items.map TcpTxItem.size)) list i) : m' = m := by
  induction list generalizing items m with
  | nil =>
    simp only [scanBlocks, Option.some.injEq, Prod.mk.injEq] at scan
    exact scan.2.1.symm
  | cons block blocks ih =>
    obtain ⟨m₁, scan₁, scanned⟩ := scanBlock_spec block 0 first exclusive counted (zero_add _).le
    have same : m₁ = m := scanBlock_unmarked scan₁ fun k _ _ _ hits =>
      none_ k (Or.inr ⟨block, mem_cons_self, hits⟩)
    unfold scanBlocks at scan
    split at scan
    · cases scan
      rfl
    · rw [scan₁] at scan
      rw [← same]
      refine ih scan (sackAt_exclusive exclusive) scanned.counted fun i sacked => none_ i ?_
      rw [sackAt_sizes] at sacked
      exact sackedBy_cons.mpr sacked

theorem scanBlocks_follows (same : items.map TcpTxItem.size = sizes)
    (scan : scanBlocks (.of x) sentSize list items m = some (items', m', all))
    (within : ∀ block ∈ list, ¬ Lt ((Serial.of x : SequenceNumber32).add sentSize) block.1)
    (exclusive : ∀ item ∈ items, item.Exclusive) (counted : Counted 0 0 items m)
    (sized : ∀ size ∈ sizes, 0 < size) (near : sizes.sum < 2 ^ 31) (inside : top < sizes.length)
    (follows : Follows x top (x + (sizes.take top).sum)
      (SackedBy items (spans (.of x) sizes) [] top) m.highestSack)
    (last : ∀ i, top < i → ¬ SackedBy items (spans (.of x) sizes) list i)
    (below : ∀ n block i, list[n]? = some block → Hits block (spans (.of x) sizes) i →
      SackedBy items (spans (.of x) sizes) (list.take n) (i + 1) →
      ¬ SackedBy items (spans (.of x) sizes) (list.take n) i → i + 1 ≠ top) :
    Follows x top (x + (sizes.take top).sum) (SackedBy items (spans (.of x) sizes) list top)
      m'.highestSack := by
  induction list generalizing items m with
  | nil =>
    simp only [scanBlocks, Option.some.injEq, Prod.mk.injEq] at scan
    rwa [← scan.2.1]
  | cons block blocks ih =>
    subst same
    obtain ⟨here, later⟩ := forall_mem_cons.mp within
    obtain ⟨m₁, scan₁, scanned⟩ := scanBlock_spec block 0 (.of x) exclusive counted (zero_add _).le
    unfold scanBlocks at scan
    rw [if_neg here, scan₁] at scan
    have one : Follows x top (x + ((items.map TcpTxItem.size).take top).sum)
        (SackedBy items (spans (.of x) (items.map TcpTxItem.size)) [block] top)
        m₁.highestSack := by
      obtain ⟨before, item, after, rfl, rfl⟩ : ∃ before item after,
          items = before ++ item :: after ∧ before.length = top := by
        rw [length_map] at inside
        refine ⟨items.take top, items[top], items.drop (top + 1), ?_, by simp; omega⟩
        rw [← drop_eq_getElem_cons inside, take_append_drop]
      have place : (((before ++ item :: after).map TcpTxItem.size).take before.length).sum =
          totalSize before := by simp [totalSize]
      have at_ : (before ++ item :: after)[before.length]? = some item := by simp
      rw [place] at follows ⊢
      have done := scanBlock_follows (i := 0) scan₁
        (fun other mem => sized _ (by simp; exact Or.inl ⟨other, mem, rfl⟩)) (le_refl x)
        (by unfold totalSize; omega) ((zero_add before.length).symm ▸ follows.congr (by
          rw [sackedBy_nil]
          simp))
        (fun k other at_ unsacked hits => last (before.length + 1 + k) (by omega)
          (Or.inr ⟨block, mem_cons_self, hits⟩))
        (fun sacked k other at_ unsacked next hits => below 0 block k rfl hits
          (sackedBy_nil.mpr ⟨item, by rw [next]; simp, sacked⟩)
          (by
            rw [take_zero, sackedBy_nil, getElem?_append_left (by omega), at_]
            simp [unsacked]) next)
      refine ((zero_add before.length) ▸ done).congr ?_
      simp [SackedBy]
    have next := ih (sackAt_sizes _ _) scan later (sackAt_exclusive exclusive) scanned.counted
      (one.congr sackedBy_cons)
      (fun i above sacked => last i above (sackedBy_cons.mpr sacked))
      (fun n block' i at_ hits upper lower => below (n + 1) block' i at_ hits
        (sackedBy_cons.mpr upper) (fun sacked => lower (sackedBy_cons.mp sacked)))
    exact next.congr sackedBy_cons.symm

/-! ## The lost items -/

theorem lostFrom_cons (dupAckThresh lostOut : Nat) (item : TcpTxItem) (rest : List TcpTxItem) :
    ∃ item' lostOut', lostFrom dupAckThresh lostOut (item :: rest) =
        (item' :: (lostFrom dupAckThresh lostOut rest).1,
          (lostFrom dupAckThresh lostOut rest).2.1 + (if item.sacked then 1 else 0), lostOut') ∧
      item'.sacked = item.sacked ∧ (item.sacked = false →
        dupAckThresh ≤ (lostFrom dupAckThresh lostOut rest).2.1 → item'.lost = true) := by
  rw [lostFrom]
  dsimp only
  generalize lostFrom dupAckThresh lostOut rest = result
  have step : (if item.sacked then result.2.1 + 1 else result.2.1) =
      result.2.1 + if item.sacked then 1 else 0 := by
    split <;> rfl
  rw [step]
  by_cases test : dupAckThresh ≤ result.2.1 + (if item.sacked then 1 else 0) ∧
      (!item.sacked) = true ∧ (!item.lost) = true
  · rw [if_pos test]
    exact ⟨_, _, rfl, rfl, fun _ _ => rfl⟩
  · rw [if_neg test]
    refine ⟨_, _, rfl, rfl, fun unsacked enough => ?_⟩
    simpa [unsacked, enough] using test

theorem lostFrom_count (dupAckThresh lostOut : Nat) (items : List TcpTxItem) :
    (lostFrom dupAckThresh lostOut items).2.1 = items.countP sacked := by
  induction items with
  | nil => rfl
  | cons item rest ih =>
    obtain ⟨item', lostOut', eq, -⟩ := lostFrom_cons dupAckThresh lostOut item rest
    rw [eq, countP_cons, ← ih]

theorem lostFrom_rule {dupAckThresh lostOut : Nat}
    (at_ : (lostFrom dupAckThresh lostOut items).1[i]? = some item) (unsacked : item.sacked = false)
    (enough : dupAckThresh ≤ (items.drop (i + 1)).countP sacked) : item.lost = true := by
  induction items generalizing i with
  | nil => simp [lostFrom] at at_
  | cons first rest ih =>
    obtain ⟨first', lostOut', eq, flag, lost⟩ := lostFrom_cons dupAckThresh lostOut first rest
    rw [eq] at at_
    rw [drop_succ_cons] at enough
    cases i with
    | zero =>
      rw [drop_zero, ← lostFrom_count dupAckThresh lostOut] at enough
      cases at_
      exact lost (flag ▸ unsacked) enough
    | succ i => exact ih at_ enough

theorem countP_sacked_of_butLost (same : items'.map butLost = items.map butLost) :
    items'.countP sacked = items.countP sacked := by
  have flags (items : List TcpTxItem) :
      (items.map butLost).countP sacked = items.countP sacked := by
    rw [countP_map]
    rfl
  rw [← flags items', same, flags]

theorem updateLostCount_rule {b' : TcpTxBuffer} (board : Scoreboard b)
    (at_ : b.highestSack.1 = .item top)
    (above : ∀ i item, b.sentList[i]? = some item → item.sacked = true → i ≤ top)
    (thresh : 0 < b.dupAckThresh) (done : b.updateLostCount = some b') : LossRule b' := by
  obtain ⟨items, lostOut, done', walked⟩ := updateLostCount_spec board (by simp [at_])
  obtain rfl : _ = b' := Option.some.inj (done'.symm.trans done)
  obtain ⟨head, front, -⟩ := board.head
  obtain ⟨rest, list⟩ := head?_eq_some_iff.mp front
  have same := walked.same
  rw [list] at same above
  have none_above (n : Nat) : ((rest.drop top).drop n).countP sacked = 0 := by
    rw [drop_drop, countP_eq_zero]
    intro item mem sacked
    obtain ⟨k, at'⟩ := mem_iff_getElem?.mp mem
    rw [getElem?_drop] at at'
    have le := above (top + n + k + 1) item at' sacked
    omega
  have count (n : Nat) : (rest.drop n).countP sacked =
      ((rest.take top).drop n).countP sacked := by
    conv_lhs => rw [← take_append_drop top rest, drop_append, countP_append,
      none_above, add_zero]
  have counted (n : Nat) : (items.drop n).countP sacked =
      ((head :: rest).drop n).countP sacked :=
    countP_sacked_of_butLost (by simp [same])
  have shape : ∃ head', items =
      head' :: (lostFrom b.dupAckThresh b.lostOut (rest.take top)).1 ++ rest.drop top ∧
        (b.dupAckThresh ≤ (rest.take top).countP sacked → head'.lost = true) := by
    unfold updateLostCount at done'
    rw [at_, list] at done'
    dsimp only at done'
    rw [lostFrom_count] at done'
    split at done'
    · have lists := congrArg TcpTxBuffer.sentList (Option.some.inj done')
      exact ⟨_, lists.symm, fun _ => rfl⟩
    · rename_i test
      have lists := congrArg TcpTxBuffer.sentList (Option.some.inj done')
      exact ⟨_, lists.symm, fun enough => by simpa [enough] using test⟩
  obtain ⟨head', rfl, headLost⟩ := shape
  have length : (lostFrom b.dupAckThresh b.lostOut (rest.take top)).1.length =
      (rest.take top).length := by
    have lengths := congrArg length same
    simp only [length_map, cons_append, length_cons, length_append,
      length_drop, length_take] at lengths ⊢
    omega
  unfold LossRule
  dsimp only
  intro i item at' unsacked enough
  rw [counted, drop_succ_cons, count] at enough
  cases i with
  | zero =>
    cases at'
    exact headLost enough
  | succ i =>
    rw [cons_append, getElem?_cons_succ] at at'
    by_cases within : i < (rest.take top).length
    · rw [getElem?_append_left (by omega)] at at'
      exact lostFrom_rule at' unsacked enough
    · rw [drop_eq_nil_of_le (by omega), countP_nil] at enough
      exact absurd thresh (by omega)

/-! ## One update -/

/-- The iterator is at the `top`-th item, the last one that is sacked. -/
def Top (b : TcpTxBuffer) (top : Nat) : Prop :=
  (∃ item ∈ b.sentList[top]?, item.sacked = true ∧ b.highestSack = (.item top, item.startSeq)) ∧
    ∀ i item, b.sentList[i]? = some item → item.sacked = true → i ≤ top

/-- It is there once anything is sacked. -/
def Tracked (b : TcpTxBuffer) : Prop :=
  (b.highestSack.1 = .end_ ∧ ∀ item ∈ b.sentList, item.sacked = false) ∨ ∃ top, b.Top top

theorem spans_at {span : SackBlock} (at_ : (spans (.of x) sizes)[i]? = some span) :
    span.1 = .of (x + (sizes.take i).sum) := by
  induction sizes generalizing x i with
  | nil => simp [spans] at at_
  | cons size rest ih =>
    cases i with
    | zero =>
      cases at_
      rfl
    | succ i =>
      rw [spans, getElem?_cons_succ, Serial.of_add] at at_
      simp [ih at_, add_assoc]

theorem Outstanding.startSeq (out : Outstanding b) (first : b.firstByteSeq = .of x)
    (at_ : b.sentList[i]? = some item) :
    item.startSeq = .of (x + ((b.sentList.map TcpTxItem.size).take i).sum) := by
  have starts := congrArg (fun list => list[i]?) out.starts
  simp only [getElem?_map, at_] at starts
  obtain ⟨span, at', eq⟩ := Option.map_eq_some_iff.mp starts.symm
  rw [sentSpans, first] at at'
  rw [← eq, spans_at at']

theorem sum_take_le {j : Nat} (sizes : List Nat) (le : i ≤ j) :
    (sizes.take i).sum ≤ (sizes.take j).sum := by
  obtain ⟨k, rfl⟩ := Nat.exists_eq_add_of_le le
  rw [take_add, sum_append]
  exact Nat.le_add_right _ _

theorem sum_take_le_sum (i : Nat) (sizes : List Nat) : (sizes.take i).sum ≤ sizes.sum := by
  conv_rhs => rw [← take_append_drop i sizes, sum_append]
  exact Nat.le_add_right _ _

theorem Outstanding.highestSacked (out : Outstanding b) (at_top : b.Top top) : HighestSacked b := by
  obtain ⟨⟨item, at_, sacked, highest⟩, last⟩ := at_top
  refine ⟨top, item, at_, sacked, highest, fun other mem sacked' => ?_⟩
  obtain ⟨i, at'⟩ := mem_iff_getElem?.mp mem
  have below := sum_take_le (b.sentList.map TcpTxItem.size) (last i other at' sacked')
  have total := sum_take_le_sum top (b.sentList.map TcpTxItem.size)
  have near := out.near
  rw [out.sentSize, totalSize] at near
  have first := (Serial.of_value b.firstByteSeq).symm
  rw [out.startSeq first at_, out.startSeq first at', le_iff ⟨by omega, by omega⟩]
  omega

section Same

variable {b b' : TcpTxBuffer} (same : b'.sentList.map butLost = b.sentList.map butLost)

include same

theorem butLost_at {i : Nat} {item' : TcpTxItem} (at_ : b'.sentList[i]? = some item') :
    ∃ item, b.sentList[i]? = some item ∧ butLost item' = butLost item := by
  have here := congrArg (fun list => list[i]?) same
  simp only [getElem?_map, at_] at here
  obtain ⟨item, at', eq⟩ := Option.map_eq_some_iff.mp here.symm
  exact ⟨item, at', eq.symm⟩

theorem Top.of_butLost {top : Nat} (highest : b'.highestSack = b.highestSack)
    (at_top : b.Top top) : b'.Top top := by
  obtain ⟨⟨item, at_, sacked, eq⟩, last⟩ := at_top
  obtain ⟨item', at', alike⟩ := butLost_at same.symm at_
  refine ⟨⟨item', at', ?_, ?_⟩, fun i other at'' sacked' => ?_⟩
  · exact (congrArg TcpTxItem.sacked alike).symm.trans sacked
  · have start := congrArg TcpTxItem.startSeq alike
    exact highest.trans (eq.trans (congrArg (Prod.mk (Iterator.item top)) start))
  · obtain ⟨other', at₃, alike'⟩ := butLost_at same at''
    exact last i other' at₃ ((congrArg TcpTxItem.sacked alike').symm.trans sacked')

theorem Outstanding.of_butLost (out : Outstanding b) (board : Scoreboard b')
    (size : b'.sentSize = b.sentSize) (first : b'.firstByteSeq = b.firstByteSeq)
    (thresh : b'.dupAckThresh = b.dupAckThresh) : Outstanding b' := by
  have sizes := congrArg (map TcpTxItem.size) same
  have starts := congrArg (map TcpTxItem.startSeq) same
  simp only [map_map, Function.comp_def, butLost_size] at sizes starts
  refine ⟨board, size ▸ out.near, fun item mem => ?_, ?_, thresh ▸ out.thresh⟩
  · obtain ⟨i, at_⟩ := mem_iff_getElem?.mp mem
    obtain ⟨item', at', alike⟩ := butLost_at same at_
    have positive := out.sized item' (mem_iff_getElem?.mpr ⟨i, at'⟩)
    rwa [← butLost_size, alike, butLost_size]
  · rw [sentSpans, first, sizes]
    exact starts.trans out.starts

end Same

theorem exists_last {p : Nat → Prop} {n : Nat} (here : p i) (bound : ∀ i, p i → i < n) :
    ∃ top, p top ∧ ∀ j, p j → j ≤ top := by
  classical
  refine ⟨Nat.findGreatest p n, Nat.findGreatest_spec (bound i here).le here, fun j at_ => ?_⟩
  exact Nat.le_findGreatest (bound j at_).le at_

theorem marked_iff {sentEnd : SequenceNumber32} {spans : List SackBlock}
    (within : ∀ block ∈ list, ¬ Lt sentEnd block.1) :
    Marked sentEnd list spans i ↔ ∃ block ∈ list, Hits block spans i := by
  unfold Marked scannedBlocks
  rw [takeWhile_eq_self_iff.mpr fun block mem => by simpa using within block mem]

/-- The state after the loop over the blocks. -/
def scannedState (b : TcpTxBuffer) (items : List TcpTxItem) (m : Marking) : TcpTxBuffer :=
  { b with
    sentList := items
    lostOut := m.lostOut
    sackedOut := m.sackedOut
    highestSack := m.highestSack }

theorem sackAt_starts (hit : Nat → Bool) (items : List TcpTxItem) :
    (sackAt hit items).map startSeq = items.map startSeq := by
  induction items generalizing hit with
  | nil => rfl
  | cons item rest ih =>
    simp only [sackAt_cons, map_cons, ih]
    split <;> rfl

theorem Outstanding.scanned {hit : Nat → Bool} (out : Outstanding b)
    (board : Scoreboard (b.scannedState (sackAt hit b.sentList) m)) :
    Outstanding (b.scannedState (sackAt hit b.sentList) m) := by
  refine ⟨board, out.near, fun item mem => ?_, ?_, out.thresh⟩
  · have size : item.size ∈ (sackAt hit b.sentList).map TcpTxItem.size :=
      mem_map.mpr ⟨item, mem, rfl⟩
    rw [sackAt_sizes] at size
    obtain ⟨other, mem', eq⟩ := mem_map.mp size
    rw [← eq]
    exact out.sized other mem'
  · unfold sentSpans scannedState
    rw [sackAt_starts, sackAt_sizes]
    exact out.starts

theorem sackedBy_iff (within : ∀ block ∈ list, ¬ Lt (b.firstByteSeq.add b.sentSize) block.1) :
    SackedBy b.sentList b.sentSpans list i ↔
      ∃ item ∈ (sackAt (fun i => Marked (b.firstByteSeq.add b.sentSize) list b.sentSpans i)
        b.sentList)[i]?, item.sacked = true := by
  rw [SackedBy, ← marked_iff within, sacked_sackAt, decide_eq_true_eq]
  intro marked
  obtain ⟨block, -, hits⟩ := of_decide_eq_true marked
  simpa using hits.inside

theorem Tracked.scanned (tracked : b.Tracked) (out : Outstanding b) (orderly : b.Orderly list)
    (counted : Counted 0 0 b.sentList ⟨b.lostOut, b.sackedOut, 0, b.highestSack⟩)
    (scan : scanBlocks b.firstByteSeq b.sentSize list b.sentList
      ⟨b.lostOut, b.sackedOut, 0, b.highestSack⟩ = some (sackAt (fun i =>
        Marked (b.firstByteSeq.add b.sentSize) list b.sentSpans i) b.sentList, m, true))
    (out' : Outstanding (b.scannedState (sackAt (fun i =>
      Marked (b.firstByteSeq.add b.sentSize) list b.sentSpans i) b.sentList) m)) :
    (b.scannedState (sackAt (fun i =>
      Marked (b.firstByteSeq.add b.sentSize) list b.sentSpans i) b.sentList) m).Tracked := by
  by_cases any_ : ∃ i, SackedBy b.sentList b.sentSpans list i
  · obtain ⟨i, sacked⟩ := any_
    obtain ⟨top, at_top, last⟩ := exists_last (p := SackedBy b.sentList b.sentSpans list) sacked
      fun _ sacked => sacked.inside
    obtain ⟨x, first⟩ : ∃ x, b.firstByteSeq = .of x := ⟨_, (Serial.of_value _).symm⟩
    have near := out.near
    rw [out.sentSize, totalSize] at near
    have start : Follows x top (x + ((b.sentList.map TcpTxItem.size).take top).sum)
        (SackedBy b.sentList b.sentSpans [] top) b.highestSack := by
      rw [sackedBy_nil]
      rcases tracked with ⟨unset, unsacked⟩ | ⟨k, ⟨item, at_, flag, highest⟩, last'⟩
      · refine ⟨?_, fun _ => Or.inl unset⟩
        rintro ⟨item, at_, flag⟩
        have no := unsacked item (mem_iff_getElem?.mpr ⟨top, at_⟩)
        simp [flag] at no
      · have le := last k (Or.inl ⟨item, at_, flag⟩)
        rw [out.startSeq first at_] at highest
        refine ⟨?_, fun _ => Or.inr ⟨_, by rw [highest], ?_, ?_⟩⟩
        · rintro ⟨item', at', flag'⟩
          rw [le_antisymm (last' top item' at' flag') le, highest]
        · exact Nat.le_add_right _ _
        · exact Nat.add_le_add_left (sum_take_le _ le) x
    have scan' := scan
    have within := orderly.within
    have below := orderly.below
    unfold sentSpans at *
    rw [first] at scan' within
    have done := scanBlocks_follows rfl scan' within out.exclusive counted (fun size mem => by
        obtain ⟨item, mem', rfl⟩ := mem_map.mp mem
        exact out.sized item mem') near (by simpa using at_top.inside) (first ▸ start)
      (fun j above sacked => absurd (last j (first ▸ sacked)) (by omega))
      (fun n block j at_ hits upper lower next => by
        obtain ⟨k, above, sacked⟩ := below n block j at_ (first ▸ hits) (first ▸ upper)
          (first ▸ lower)
        have := last k sacked
        omega)
    have highest := done.there (first ▸ at_top)
    obtain ⟨item, at_, flag⟩ := (sackedBy_iff orderly.within).mp at_top
    refine Or.inr ⟨top, ⟨item, at_, flag, ?_⟩, fun j item at_ flag => last j
      ((sackedBy_iff orderly.within).mpr ⟨item, at_, flag⟩)⟩
    have place := @Outstanding.startSeq top x item _ out' first at_
    unfold scannedState at place
    dsimp only at place
    rw [sackAt_sizes] at place
    rw [place]
    exact highest
  · rw [not_exists] at any_
    have same := scanBlocks_unmarked scan out.exclusive counted any_
    refine Or.inl ⟨?_, fun item mem => ?_⟩
    · rcases tracked with ⟨unset, -⟩ | ⟨k, ⟨item, at_, flag, -⟩, -⟩
      · exact (congrArg (fun m => m.highestSack.1) same).trans unset
      · exact absurd (Or.inl ⟨item, at_, flag⟩) (any_ k)
    · cases flag : item.sacked with
      | false => rfl
      | true =>
        obtain ⟨i, at_⟩ := mem_iff_getElem?.mp mem
        exact absurd ((sackedBy_iff orderly.within).mpr ⟨item, at_, flag⟩) (any_ i)

theorem Outstanding.afterScan {bytesSacked : Nat} (out : Outstanding b) (tracked : b.Tracked)
    (set : 0 < bytesSacked → b.highestSack.1 ≠ .end_) :
    ∃ b', b.afterScan bytesSacked = some b' ∧ Outstanding b' ∧ b'.Tracked ∧
      (0 < bytesSacked → HighestSacked b' ∧ LossRule b') := by
  obtain ⟨b', after, board', same⟩ := out.toScoreboard.afterScan set
  refine ⟨b', after, ?_⟩
  have rest := afterScan_some after
  by_cases some_ : 0 < bytesSacked
  · rw [if_pos some_] at rest
    obtain ⟨items, lostOut, lost, walked⟩ := updateLostCount_spec out.toScoreboard (set some_)
    cases lost.symm.trans rest
    have out' := out.of_butLost same board' rfl rfl rfl
    rcases tracked with ⟨unset, -⟩ | ⟨top, at_top⟩
    · exact absurd unset (set some_)
    · have at_top' := at_top.of_butLost same rfl
      obtain ⟨⟨item, -, -, highest⟩, above⟩ := at_top
      refine ⟨out', Or.inr ⟨top, at_top'⟩, fun _ => ⟨out'.highestSacked at_top', ?_⟩⟩
      exact updateLostCount_rule out.toScoreboard (by rw [highest]) above out.thresh rest
  · rw [if_neg some_] at rest
    subst rest
    exact ⟨out, tracked, fun pos => absurd pos some_⟩

theorem Outstanding.update (out : Outstanding b) (tracked : b.Tracked) (orderly : b.Orderly list) :
    ∃ b' bytes, b.update list = some (b', bytes) ∧ Outstanding b' ∧ b'.Tracked ∧
      (0 < bytes → HighestSacked b' ∧ LossRule b') := by
  have counted := out.toScoreboard.counted
  obtain ⟨m, all, scan, scanned⟩ := scanBlocks_spec b.firstByteSeq b.sentSize list out.exclusive
    counted
  obtain rfl := scanBlocks_all scan orderly.within
  have board := out.toScoreboard.scanned scanned (by
    rw [decide_eq_false_iff_not]
    rintro ⟨block, mem, hits⟩
    exact orderly.head block (takeWhile_subset _ mem) hits.1)
  have out' := out.scanned board
  have tracked' := tracked.scanned out orderly counted scan out'
  obtain ⟨b', after, rest⟩ := out'.afterScan tracked' scanned.counted.highest
  refine ⟨b', m.bytesSacked, ?_, rest⟩
  unfold TcpTxBuffer.update
  rw [scan]
  exact congrArg (fun b' => b'.bind fun b' => some (b', m.bytesSacked)) after

/-- **Dup threshold.** Along orderly updates the highest SACK is the highest one, and what has
enough sacked items above it is lost. -/
theorem updates_follow_dupThresh {b : TcpTxBuffer} {list : List SackBlock}
    (run : Machine.Reaches (fun b list => (b.update list).map Prod.fst) Orderly Fresh b)
    (orderly : b.Orderly list) :
    ∃ b' bytes, b.update list = some (b', bytes) ∧
      (0 < bytes → HighestSacked b' ∧ LossRule b') := by
  have inv : Outstanding b ∧ b.Tracked := by
    refine run.invariant (fun b => Outstanding b ∧ b.Tracked) ?_ ?_
    · rintro b ⟨out, unsacked, unset⟩
      exact ⟨out, Or.inl ⟨unset, unsacked⟩⟩
    · rintro b list b' ⟨out, tracked⟩ orderly step
      obtain ⟨b₁, bytes, done, out', tracked', -⟩ := out.update tracked orderly
      rw [done] at step
      obtain rfl := Option.some.inj step
      exact ⟨out', tracked'⟩
  obtain ⟨b', bytes, done, -, -, right⟩ := inv.1.update inv.2 orderly
  exact ⟨b', bytes, done, right⟩

/-! ## From the top downwards -/

/-- Six items of a byte each, as they have been sent. -/
def sixSent : TcpTxBuffer :=
  { create (.of 1) with
    sentList := (range 6).map fun i => ⟨.of (i + 1), [0], false, false, false, 0⟩
    size := 6
    sentSize := 6
    highestSack := (.end_, .of 0)
    dupAckThresh := 3 }

theorem sixSent_fresh : Fresh sixSent where
  sentSize := rfl
  fits := by decide
  sackedOut := rfl
  lostOut := rfl
  exclusive := by simp [sixSent, TcpTxItem.Exclusive]
  head := ⟨_, rfl, rfl⟩
  highest := Or.inl rfl
  near := by decide
  sized := by decide
  starts := rfl
  thresh := by decide
  unsacked := by decide
  unset := rfl

/-- The last three are sacked at once. -/
theorem three_sacked : ∃ b' bytes, sixSent.update [(.of 4, .of 7)] = some (b', bytes) ∧
    (0 < bytes → HighestSacked b' ∧ LossRule b') := by
  refine updates_follow_dupThresh (.start sixSent_fresh) ⟨by decide, by decide, ?_⟩
  intro n block i at_ hits upper
  cases n with
  | zero =>
    obtain ⟨item, at', flag⟩ := sackedBy_nil.mp upper
    have no := sixSent_fresh.unsacked item (mem_iff_getElem?.mpr ⟨i + 1, at'⟩)
    simp [flag] at no
  | succ n => simp at at_

/-- They are sacked one by one, the last one first. -/
theorem highest_moves_back : ¬ ∀ (b b' : TcpTxBuffer) (list : List SackBlock) (bytes : Nat),
    Machine.Reaches (fun b list => (b.update list).map Prod.fst)
      (fun b list => ∀ block ∈ list, ¬ Covers block b.sentSpans 0) Fresh b →
    b.update list = some (b', bytes) → 0 < bytes → HighestSacked b' ∧ LossRule b' := by
  intro all
  have first : Machine.Reaches (fun b list => (b.update list).map Prod.fst)
      (fun b list => ∀ block ∈ list, ¬ Covers block b.sentSpans 0) Fresh _ :=
    .next (e := [(.of 6, .of 7)]) (.start sixSent_fresh) (by decide) rfl
  have second := first.next (e := [(.of 5, .of 6)]) (by decide) rfl
  obtain ⟨-, rule⟩ := all _ _ [(.of 4, .of 5)] _ second rfl (by decide)
  exact absurd (rule 0 _ rfl rfl (by decide)) (by decide)

end TcpTxBuffer

end Ns3.Internet
