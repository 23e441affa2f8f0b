import Ns3.Internet.TcpTxStream

/-!
# `NextSeg`

What the buffer gives to be sent next, and the rules of RFC 6675 for it.
-/

namespace Ns3.Internet

open SequenceNumber32 List TcpTxItem

namespace TcpTxItem

/-- Rule 1 is about the lost items. -/
def perRule1 (item : TcpTxItem) : Bool := !item.retrans && !item.sacked && item.lost

def perRule3 (item : TcpTxItem) : Bool := !item.retrans && !item.sacked

end TcpTxItem

namespace TcpTxBuffer

/-! ## The code -/

/-- What the walk over the sent list saves for rule 3. -/
structure Saved where
  seqPerRule3 : SequenceNumber32
  isSeqPerRule3Valid : Bool

/-- An unset `SequenceNumber32` has the value zero. -/
def unsaved : Saved := ⟨.of 0, false⟩

/-- The walk over the sent list. It ends at a sequence number of rule 1, which is the error. -/
def walk (isRecovery : Bool) : (beginOfCurrentPkt : SequenceNumber32) → Saved →
    List TcpTxItem → Except SequenceNumber32 Saved
  | _, saved, [] => .ok saved
  | beginOfCurrentPkt, saved, item :: rest =>
    let next := beginOfCurrentPkt.add item.size
    if !item.retrans && !item.sacked then
      if item.lost then .error beginOfCurrentPkt
      else if saved.seqPerRule3.value = 0 ∧ isRecovery then
        walk isRecovery next ⟨beginOfCurrentPkt, true⟩ rest
      else walk isRecovery next saved rest
    else walk isRecovery next saved rest

variable (b : TcpTxBuffer) (rWnd : Nat) (isRecovery : Bool)

/-- `m_firstByteSeq + m_sentSize` -/
def sentEnd : SequenceNumber32 := b.firstByteSeq.add b.sentSize

/-- `seq` and `seqHigh`, unless the result is false. -/
def nextSeg : Option (SequenceNumber32 × SequenceNumber32) :=
  match walk isRecovery b.firstByteSeq unsaved b.sentList with
  | .error seq => some (seq, seq.add b.segmentSize)
  | .ok saved =>
    if 0 < b.sizeFromSequence b.sentEnd then
      if b.sentSize ≤ rWnd then
        some (b.sentEnd, b.sentEnd.add (min b.segmentSize (sub32 rWnd b.sentSize)))
      else none
    else if saved.isSeqPerRule3Valid then
      some (saved.seqPerRule3, saved.seqPerRule3.add b.segmentSize)
    else none

/-! ## The rules -/

/-- The first of the items the rule is about. -/
def firstPer (rule : TcpTxItem → Bool) (items : List TcpTxItem) : Option SequenceNumber32 :=
  (items.find? rule).map startSeq

/-- The first unsent byte, if there is one and the receiver has room for it. -/
def dueUnsent : Option SequenceNumber32 :=
  if b.appList ≠ [] ∧ b.sentSize < rWnd then some b.sentEnd else none

def dueInRecovery : Option SequenceNumber32 :=
  if isRecovery then firstPer perRule3 b.sentList else none

/-- The sequence number of the first rule that gives one. -/
def due : Option SequenceNumber32 :=
  (firstPer perRule1 b.sentList).or ((b.dueUnsent rWnd).or (b.dueInRecovery isRecovery))

/-- The three rules, with something to send whenever the result is true. -/
structure ImplementsRules : Prop where
  seq : (b.nextSeg rWnd isRecovery).map Prod.fst = b.due rWnd isRecovery
  range : ∀ seq seqHigh, b.nextSeg rWnd isRecovery = some (seq, seqHigh) → 0 < seqHigh.sub seq

/-- Rule 3 is not misled by a sequence number of zero, which reads as none. -/
def NotMisled : Prop :=
  ∀ seq next others, (b.sentList.filter perRule3).map startSeq = seq :: next :: others →
    seq.value ≠ 0

/-- When `NextSeg` follows the rules: a segment has a size, the unsent data is less than half of
the sequence space if it is due, and without it due, it is absent or too much for the window
with nothing else due; and rule 3 is not misled. -/
structure Followed : Prop where
  segment : b.due rWnd isRecovery ≠ none → 0 < b.segmentSize
  seen : firstPer perRule1 b.sentList = none → b.dueUnsent rWnd ≠ none →
    0 < b.sizeFromSequence b.sentEnd
  beyond : firstPer perRule1 b.sentList = none → b.dueUnsent rWnd = none →
    0 < b.sizeFromSequence b.sentEnd → rWnd < b.sentSize ∧ b.dueInRecovery isRecovery = none
  third : firstPer perRule1 b.sentList = none → b.dueUnsent rWnd = none →
    isRecovery = true → b.NotMisled

/-! ## The walk -/

section

variable {items : List TcpTxItem} {s : SequenceNumber32}

/-- Saves the first of the sequence numbers, or the one after it if it reads as none. -/
def saveAll : Saved → List SequenceNumber32 → Saved
  | saved, [] => saved
  | saved, seq :: rest => saveAll (if saved.seqPerRule3.value = 0 then ⟨seq, true⟩ else saved) rest

theorem saveAll_of_ne {saved : Saved} (set : saved.seqPerRule3.value ≠ 0)
    (seqs : List SequenceNumber32) : saveAll saved seqs = saved := by
  induction seqs with
  | nil => rfl
  | cons seq rest ih =>
    rw [saveAll, if_neg set]
    exact ih

theorem saveAll_unsaved (seq : SequenceNumber32) (rest : List SequenceNumber32) :
    saveAll unsaved (seq :: rest) = saveAll ⟨seq, true⟩ rest := rfl

theorem walk_eq (placed : Placed s items) (isRecovery : Bool) (saved : Saved) :
    walk isRecovery s saved items =
      match firstPer perRule1 items with
      | some seq => .error seq
      | none => .ok (if isRecovery then
          saveAll saved ((items.filter perRule3).map startSeq) else saved) := by
  induction items generalizing s saved with
  | nil =>
    cases isRecovery <;> rfl
  | cons item rest ih =>
    obtain ⟨rfl, placed⟩ := placed
    unfold walk
    dsimp only
    rw [ih placed, ih placed]
    by_cases open_ : (!item.retrans && !item.sacked) = true
    · rw [if_pos open_]
      have third : item.perRule3 = true := open_
      by_cases lost : item.lost = true
      · have first : item.perRule1 = true := by
          unfold perRule1
          rw [open_, lost]
          rfl
        rw [if_pos lost]
        simp [firstPer, first]
      · have later : item.perRule1 = false := by simp [perRule1, lost]
        rw [if_neg lost]
        simp only [firstPer, find?_cons, later, filter_cons_of_pos third, map_cons, saveAll]
        cases isRecovery with
        | false => simp
        | true =>
          by_cases unset : saved.seqPerRule3.value = 0
          · simp [unset]
          · simp [unset]
    · have later : item.perRule1 = false := by
        unfold perRule1
        rw [Bool.eq_false_iff.mpr open_]
        rfl
      have no : ¬ item.perRule3 = true := open_
      rw [if_neg open_]
      simp [firstPer, later, filter_cons_of_neg no]

theorem Placed.nodup (placed : Placed s items) (filled : Filled items)
    (small : totalSize items < 2 ^ 32) : (items.map startSeq).Nodup := by
  induction items generalizing s with
  | nil => exact nodup_nil
  | cons first rest ih =>
    obtain ⟨pos, filled⟩ := filled_cons.mp filled
    obtain ⟨start, placed⟩ := placed
    rw [totalSize_cons] at small
    rw [map_cons, nodup_cons]
    refine ⟨?_, ih placed filled (by omega)⟩
    intro again
    obtain ⟨item, here, same⟩ := mem_map.mp again
    obtain ⟨n, lt, at_⟩ := placed.start filled here
    rw [start, at_, Serial.add_add] at same
    have zero : first.size + n = 0 := add_inj s (by omega) (by omega) (same.trans s.add_zero.symm)
    omega

end

/-- What is saved, if anything. -/
def Saved.seq (saved : Saved) : Option SequenceNumber32 :=
  if saved.isSeqPerRule3Valid then some saved.seqPerRule3 else none

theorem saveAll_start (seq : SequenceNumber32) (rest : List SequenceNumber32) :
    (saveAll ⟨seq, true⟩ rest).seq ∈ (seq :: rest).map some := by
  induction rest generalizing seq with
  | nil => exact mem_singleton_self _
  | cons next others ih =>
    by_cases zero : seq.value = 0
    · rw [saveAll, if_pos zero]
      exact mem_cons_of_mem _ (ih next)
    · rw [saveAll_of_ne zero]
      exact mem_cons_self

/-- The one saved is the first one, unless that reads as none and there is another one. -/
theorem saveAll_first {seqs : List SequenceNumber32} (nodup : seqs.Nodup) :
    (saveAll unsaved seqs).seq = seqs.head? ↔
      ∀ seq next others, seqs = seq :: next :: others → seq.value ≠ 0 := by
  cases seqs with
  | nil => exact iff_of_true rfl nofun
  | cons seq rest =>
    rw [saveAll_unsaved]
    by_cases zero : seq.value = 0
    · cases rest with
      | nil => exact iff_of_true rfl nofun
      | cons next others =>
        refine iff_of_false ?_ fun all => all seq next others rfl zero
        intro same
        obtain ⟨notin, -⟩ := nodup_cons.mp nodup
        rw [saveAll, if_pos zero] at same
        have saved := saveAll_start next others
        rw [same] at saved
        obtain ⟨_, here, eq⟩ := mem_map.mp saved
        exact notin (Option.some.inj eq ▸ here)
    · rw [saveAll_of_ne zero]
      refine iff_of_true rfl ?_
      rintro _ _ _ ⟨⟩
      exact zero

theorem firstPer_eq_head (rule : TcpTxItem → Bool) (items : List TcpTxItem) :
    firstPer rule items = ((items.filter rule).map startSeq).head? := by simp [firstPer]

/-! ## When the rules are followed -/

section

variable {b : TcpTxBuffer} {bytes : List UInt8} {rWnd : Nat} {isRecovery : Bool}

/-- What the walk has saved at its end. -/
def savedAtEnd (b : TcpTxBuffer) (isRecovery : Bool) : Saved :=
  if isRecovery then
    saveAll unsaved ((b.sentList.filter perRule3).map startSeq)
  else unsaved

theorem Holds.saved (holds : Holds b bytes) :
    (b.savedAtEnd isRecovery).seq = b.dueInRecovery isRecovery ↔
      (isRecovery = true → b.NotMisled) := by
  cases isRecovery with
  | false => exact iff_of_true rfl nofun
  | true =>
    have total := holds.total
    have small := holds.small
    obtain ⟨sent, -⟩ := filled_append.mp holds.filled
    have nodup := holds.placed.nodup sent (by omega)
    unfold savedAtEnd dueInRecovery
    rw [if_pos rfl, if_pos rfl, firstPer_eq_head,
      saveAll_first (nodup.sublist (filter_sublist.map _))]
    exact ⟨fun all _ => all, fun all => all rfl⟩

theorem Holds.saved_ne (holds : Holds b bytes) :
    (b.savedAtEnd isRecovery).seq ≠ some b.sentEnd := by
  unfold savedAtEnd
  split
  · intro same
    have some_of : ∃ item ∈ b.sentList, item.startSeq = b.sentEnd := by
      cases starts : (b.sentList.filter perRule3).map startSeq with
      | nil =>
        rw [starts] at same
        cases same
      | cons seq rest =>
        rw [starts, saveAll_unsaved] at same
        have saved := saveAll_start seq rest
        rw [same, ← starts] at saved
        obtain ⟨_, listed, eq⟩ := mem_map.mp saved
        obtain ⟨item, here, rfl⟩ := mem_map.mp listed
        exact ⟨item, mem_of_mem_filter here, Option.some.inj eq⟩
    obtain ⟨item, here, end_⟩ := some_of
    have total := holds.total
    have small := holds.small
    have sentSize := holds.sentSize
    obtain ⟨sent, -⟩ := filled_append.mp holds.filled
    obtain ⟨n, lt, at_⟩ := holds.placed.start sent here
    have eq := add_inj b.firstByteSeq (by omega) (by omega) (at_.symm.trans end_)
    omega
  · nofun

theorem Holds.nextSeg_first (holds : Holds b bytes) {seq : SequenceNumber32}
    (first : firstPer perRule1 b.sentList = some seq) :
    b.nextSeg rWnd isRecovery = some (seq, seq.add b.segmentSize) := by
  unfold nextSeg
  rw [walk_eq holds.placed, first]

theorem Holds.nextSeg_else (holds : Holds b bytes)
    (none_ : firstPer perRule1 b.sentList = none) (rWnd : Nat) (isRecovery : Bool) :
    b.nextSeg rWnd isRecovery =
      if 0 < b.sizeFromSequence b.sentEnd then
        if b.sentSize ≤ rWnd then
          some (b.sentEnd, b.sentEnd.add (min b.segmentSize (sub32 rWnd b.sentSize)))
        else none
      else (b.savedAtEnd isRecovery).seq.map fun seq => (seq, seq.add b.segmentSize) := by
  unfold nextSeg
  rw [walk_eq holds.placed, none_]
  unfold Saved.seq
  congr 1
  rw [apply_ite (Option.map _)]
  rfl

/-- A range of this length, under the sequence number that is due. -/
theorem implementsRules_of_some {seq : SequenceNumber32} {n : Nat}
    (result : b.nextSeg rWnd isRecovery = some (seq, seq.add n)) (small : n < 2 ^ 32)
    (due : b.due rWnd isRecovery = some seq) : ImplementsRules b rWnd isRecovery ↔ 0 < n := by
  constructor
  · intro implements
    have pos := implements.range seq _ result
    rwa [range_length seq small] at pos
  · intro pos
    refine ⟨by rw [result, due]; rfl, ?_⟩
    intro seq' seqHigh result'
    rw [result] at result'
    cases result'
    rwa [range_length _ small]

theorem due_eq (none_ : firstPer perRule1 b.sentList = none) :
    b.due rWnd isRecovery = (b.dueUnsent rWnd).or (b.dueInRecovery isRecovery) := by
  simp [due, none_]

theorem dueUnsent_of_fits {seq : SequenceNumber32} (unsent : b.dueUnsent rWnd = some seq) :
    seq = b.sentEnd ∧ b.sentSize < rWnd := by
  unfold dueUnsent at unsent
  split at unsent
  · rename_i fits
    exact ⟨(Option.some.inj unsent).symm, fits.2⟩
  · cases unsent

theorem Holds.beyond (holds : Holds b bytes) (none_ : b.dueUnsent rWnd = none)
    (seen : 0 < b.sizeFromSequence b.sentEnd) : rWnd ≤ b.sentSize := by
  unfold dueUnsent at none_
  split at none_
  · cases none_
  rename_i not
  by_contra less
  have all_sent : b.appList = [] := by
    by_contra some_
    exact not ⟨some_, by omega⟩
  have total := holds.total
  have sentSize := holds.sentSize
  rw [all_sent, totalSize_nil] at total
  have end_ : b.tailSequence = b.sentEnd := by
    unfold tailSequence sentEnd
    simp [sentSize, ← total]
  unfold sizeFromSequence at seen
  have ge : Ge b.sentEnd b.sentEnd := Or.inr rfl
  rw [end_, if_pos ge] at seen
  have zero := range_length b.sentEnd (n := 0) (by decide)
  rw [Serial.add_zero] at zero
  omega

theorem notMisled_of_none (none_ : b.dueInRecovery isRecovery = none)
    (recovery : isRecovery = true) : b.NotMisled := by
  unfold dueInRecovery at none_
  rw [if_pos recovery, firstPer_eq_head] at none_
  intro seq next others starts
  rw [starts] at none_
  cases none_

/-- Nothing is due by the first two rules, and no unsent data is seen. -/
theorem Holds.third_iff (holds : Holds b bytes) (segment : b.segmentSize < 2 ^ 32)
    (none_ : firstPer perRule1 b.sentList = none) (no_unsent : b.dueUnsent rWnd = none)
    (unseen : ¬ 0 < b.sizeFromSequence b.sentEnd) :
    ImplementsRules b rWnd isRecovery ↔ (b.due rWnd isRecovery ≠ none → 0 < b.segmentSize) ∧
      (isRecovery = true → b.NotMisled) := by
  have due : b.due rWnd isRecovery = b.dueInRecovery isRecovery := by simp [due_eq none_, no_unsent]
  have result := holds.nextSeg_else none_ rWnd isRecovery
  rw [if_neg unseen] at result
  rw [← holds.saved]
  by_cases right : (b.savedAtEnd isRecovery).seq = b.dueInRecovery isRecovery
  · rw [right, ← due] at result
    cases found : b.due rWnd isRecovery with
    | none =>
      rw [found] at result
      refine iff_of_true ⟨by rw [result, found]; rfl, ?_⟩ ⟨fun some_ => absurd rfl some_, right⟩
      intro seq seqHigh result'
      rw [result] at result'
      cases result'
    | some seq =>
      rw [found] at result
      rw [implementsRules_of_some result segment found]
      exact ⟨fun pos => ⟨fun _ => pos, right⟩, fun both => both.1 nofun⟩
  · refine iff_of_false ?_ fun both => right both.2
    intro implements
    have same := implements.seq
    rw [result, due, Option.map_map] at same
    exact right (by simpa [Function.comp_def] using same)

/-- **`NextSeg`** follows the rules exactly then. -/
theorem Holds.implementsRules_iff (holds : Holds b bytes) (segment : b.segmentSize < 2 ^ 32)
    (window : rWnd < 2 ^ 32) :
    ImplementsRules b rWnd isRecovery ↔ Followed b rWnd isRecovery := by
  cases first : firstPer perRule1 b.sentList with
  | some seq =>
    have due : b.due rWnd isRecovery = some seq := by simp [due, first]
    rw [implementsRules_of_some (holds.nextSeg_first first) segment due]
    constructor
    · intro pos
      exact ⟨fun _ => pos, by simp [first], by simp [first], by simp [first]⟩
    · intro followed
      exact followed.segment (by simp [due])
  | none =>
    have result := holds.nextSeg_else first rWnd isRecovery
    cases unsent : b.dueUnsent rWnd with
    | some seq =>
      obtain ⟨rfl, fits⟩ := dueUnsent_of_fits unsent
      have due : b.due rWnd isRecovery = some b.sentEnd := by simp [due_eq first, unsent]
      by_cases seen : 0 < b.sizeFromSequence b.sentEnd
      · rw [if_pos seen, if_pos (by omega), sub32_eq (by omega) window] at result
        rw [implementsRules_of_some result (by omega) due]
        constructor
        · intro pos
          exact ⟨fun _ => by omega, fun _ _ => seen, by simp [unsent], by simp [unsent]⟩
        · intro followed
          have pos := followed.segment (by simp [due])
          omega
      · rw [if_neg seen] at result
        refine iff_of_false ?_ fun followed => seen (followed.seen first (by simp [unsent]))
        intro implements
        have same := implements.seq
        rw [result, due, Option.map_map] at same
        exact holds.saved_ne (by simpa [Function.comp_def] using same)
    | none =>
      have due : b.due rWnd isRecovery = b.dueInRecovery isRecovery := by
        simp [due_eq first, unsent]
      by_cases seen : 0 < b.sizeFromSequence b.sentEnd
      · have full := holds.beyond unsent seen
        rw [if_pos seen] at result
        by_cases exactly : b.sentSize ≤ rWnd
        · refine iff_of_false ?_ fun followed => ?_
          · intro implements
            have same : rWnd = b.sentSize := by omega
            rw [if_pos exactly, same, sub32_eq le_rfl (by omega), Nat.sub_self,
              Nat.min_zero] at result
            have pos := implements.range _ _ (same ▸ result)
            rw [range_length _ (by decide)] at pos
            omega
          · have less := (followed.beyond first unsent seen).1
            omega
        · rw [if_neg exactly] at result
          constructor
          · intro implements
            have none_ := implements.seq
            rw [result, due] at none_
            exact ⟨fun some_ => absurd (due.trans none_.symm) some_, by simp [unsent],
              fun _ _ _ => ⟨by omega, none_.symm⟩, fun _ _ => notMisled_of_none none_.symm⟩
          · intro followed
            have none_ := (followed.beyond first unsent seen).2
            refine ⟨by rw [result, due, none_]; rfl, ?_⟩
            intro seq seqHigh result'
            rw [result] at result'
            cases result'
      · rw [holds.third_iff segment first unsent seen]
        constructor
        · rintro ⟨pos, third⟩
          exact ⟨pos, by simp [unsent], fun _ _ visible => absurd visible seen,
            fun _ _ recovery => third recovery⟩
        · intro followed
          exact ⟨followed.segment, followed.third first unsent⟩

/-- **The rules in every state.** `NextSeg` follows rules 1 to 3 exactly in the states, windows
and phases described. -/
theorem nextSeg_follows_rules (reaches : Reachable b) (segment : b.segmentSize < 2 ^ 32)
    (window : rWnd < 2 ^ 32) :
    ImplementsRules b rWnd isRecovery ↔ Followed b rWnd isRecovery := by
  obtain ⟨bytes, holds⟩ := reaches.holds
  exact holds.implementsRules_iff segment window

end

/-- Segments of a byte. -/
def oneByteSegments : TcpTxBuffer := { create (.of 1) with segmentSize := 1 }

/-- The first of two bytes has been sent. -/
def oneOfTwo : TcpTxBuffer :=
  { oneByteSegments with
    sentList := [⟨.of 1, [0], false, false, false, 0⟩]
    appList := [⟨.of 1, [0], false, false, false, 2 ^ 63 - 1⟩]
    size := 2
    sentSize := 1
    highestSack := (.end_, .of 0) }

theorem oneOfTwo_reachable : Reachable oneOfTwo := by
  have start : Reachable oneByteSegments := .start ⟨rfl, rfl, rfl, rfl, rfl, rfl, rfl, by decide⟩
  have head := start.next (e := .setHeadSequence (.of 1)) trivial rfl
  have added := head.next (e := .add [0, 0]) trivial rfl
  exact added.next (e := .copyFromSequence 0 1 (.of 1)) trivial (by decide)

/-- There is room for the second byte. -/
theorem second_byte_next : ImplementsRules oneOfTwo 2 false :=
  (nextSeg_follows_rules oneOfTwo_reachable (by decide) (by decide)).mpr
    ⟨fun _ => by decide, fun _ _ => by decide, fun _ none_ => absurd none_ (by decide), nofun⟩

/-- The first byte fills the window, and the second one is given all the same, with an empty
range. -/
theorem empty_range : ¬ ∀ (b : TcpTxBuffer) (rWnd : Nat) (isRecovery : Bool), Reachable b →
    b.segmentSize < 2 ^ 32 → rWnd < 2 ^ 32 → 0 < b.segmentSize →
    ImplementsRules b rWnd isRecovery := by
  intro all
  have implements := all oneOfTwo 1 false oneOfTwo_reachable (by decide) (by decide) (by decide)
  exact absurd (implements.range (.of 2) (.of 2) rfl) (by decide)

end TcpTxBuffer

end Ns3.Internet
