import Ns3.Rlc.LteRlcTm
import Ns3.Rlc.UmAccounting

/-!
# The order of the transmission buffer of `LteRlcTm`

With a deadline the entries stand by time stamp and, under equal time stamps, as
they arrived. The byte counter is 32 bits wide, and waiting times are compared in
whole milliseconds.
-/

namespace Ns3.Rlc

open List

open UmTransmitter (waiting_perm foldl_sub32)

inductive TmEvent
  | transmit (now : Time) (m : LteRlcTm.Memory) (p : Packet) (senderTimestamp : Time)
  | opportunity (bytes : Nat)
  | report (now : Time) (m : LteRlcTm.Memory)
  | rbsTimer (now : Time) (m : LteRlcTm.Memory)

namespace LteRlcTm

def step (a : TmAttributes) (t : LteRlcTm) : TmEvent → Option LteRlcTm
  | .transmit now m p senderTimestamp => some (t.doTransmitPdcpPdu a now m p senderTimestamp).1
  | .opportunity bytes => some (t.doNotifyTxOpportunity bytes).1
  | .report now m => some (t.doReportBufferStatus a now m).1
  | .rbsTimer now m => if t.rbsTimer then some (t.expireRbsTimer a now m).1 else none

/-- What a step stores. -/
def arrivals (a : TmAttributes) (t : LteRlcTm) : TmEvent → List TxPdu
  | .transmit _ _ p senderTimestamp => if t.fits a p then [⟨p, .fullSdu, senderTimestamp⟩] else []
  | _ => []

end LteRlcTm

/-- A run, each step of which is `allowed`, with the entries stored so far. -/
inductive TmRun (a : TmAttributes) (allowed : LteRlcTm → TmEvent → Prop) :
    LteRlcTm → List TxPdu → Prop
  | start : TmRun a allowed LteRlcTm.create []
  | step {t t' : LteRlcTm} {arrived : List TxPdu} (run : TmRun a allowed t arrived) (e : TmEvent)
      (ok : allowed t e) (here : t.step a e = some t') :
      TmRun a allowed t' (arrived ++ t.arrivals a e)

/-- Numbered entries by time stamp and, under equal ones, by number. -/
def Before (e f : Nat × TxPdu) : Prop :=
  e.2.waitingSince < f.2.waitingSince ∨ e.2.waitingSince = f.2.waitingSince ∧ e.1 < f.1

/-- The entries are some of those that arrived, by time stamp and arrival. -/
def InArrivalOrder (arrived txBuffer : List TxPdu) : Prop :=
  ∃ numbered : List (Nat × TxPdu), numbered.map Prod.snd = txBuffer ∧
    (∀ e ∈ numbered, arrived[e.1]? = some e.2) ∧ numbered.Pairwise Before

variable {arrived txBuffer : List TxPdu}

theorem InArrivalOrder.sorted (order : InArrivalOrder arrived txBuffer) :
    txBuffer.Pairwise fun p q => p.waitingSince ≤ q.waitingSince := by
  obtain ⟨numbered, rfl, -, ordered⟩ := order
  rw [pairwise_map]
  refine ordered.imp ?_
  rintro e f (less | ⟨same, -⟩)
  · exact Int.le_of_lt less
  · exact Int.le_of_eq same

/-- What is taken out leaves the others in order. -/
theorem InArrivalOrder.sublist (order : InArrivalOrder arrived txBuffer) {kept : List TxPdu}
    (sub : kept.Sublist txBuffer) : InArrivalOrder arrived kept := by
  obtain ⟨numbered, rfl, there, ordered⟩ := order
  obtain ⟨rest, less, rfl⟩ := sublist_map_iff.mp sub
  exact ⟨rest, rfl, fun e mem => there e (less.subset mem), ordered.sublist less⟩

/-! ## The place of a new entry -/

/-- In a sorted list the entries that are no later come first. -/
theorem split_at_insertVal {txBuffer : List TxPdu}
    (sorted : txBuffer.Pairwise fun p q => p.waitingSince ≤ q.waitingSince) (stamp : Time) :
    (∀ p ∈ txBuffer.take (LteRlcTm.insertVal txBuffer stamp), p.waitingSince ≤ stamp) ∧
      ∀ p ∈ txBuffer.drop (LteRlcTm.insertVal txBuffer stamp), stamp < p.waitingSince := by
  induction txBuffer with
  | nil => simp
  | cons q txBuffer ih =>
    obtain ⟨first, rest⟩ := pairwise_cons.mp sorted
    obtain ⟨earlier, later⟩ := ih rest
    unfold LteRlcTm.insertVal at earlier later ⊢
    by_cases here : q.waitingSince ≤ stamp
    · rw [countP_cons_of_pos (by simpa using here)]
      refine ⟨?_, later⟩
      rw [take_succ_cons]
      rintro p (_ | ⟨_, mem⟩)
      · exact here
      · exact earlier p mem
    · have none : txBuffer.countP (fun p => decide (p.waitingSince ≤ stamp)) = 0 := by
        rw [countP_eq_zero]
        intro p mem early
        exact here (Int.le_trans (first p mem) (of_decide_eq_true early))
      rw [countP_cons_of_neg (by simpa using here), none]
      refine ⟨by simp, ?_⟩
      rintro p (_ | ⟨_, mem⟩)
      · exact Int.not_le.mp here
      · exact Int.lt_of_lt_of_le (Int.not_le.mp here) (first p mem)

theorem insertIdx_eq {α : Type} (l : List α) {i : Nat} (inside : i ≤ l.length) (x : α) :
    l.insertIdx i x = l.take i ++ x :: l.drop i := by
  induction l generalizing i with
  | nil => simp_all
  | cons y l ih =>
    cases i with
    | zero => rfl
    | succ i => simp [ih (by simpa using inside)]

/-- A new entry comes after those that are no later. -/
theorem InArrivalOrder.insert (order : InArrivalOrder arrived txBuffer) (entry : TxPdu) :
    InArrivalOrder (arrived ++ [entry])
      (txBuffer.insertIdx (LteRlcTm.insertVal txBuffer entry.waitingSince) entry) := by
  obtain ⟨earlier, later⟩ := split_at_insertVal order.sorted entry.waitingSince
  have inside : LteRlcTm.insertVal txBuffer entry.waitingSince ≤ txBuffer.length := countP_le_length
  rw [insertIdx_eq _ inside]
  generalize LteRlcTm.insertVal txBuffer entry.waitingSince = i at earlier later
  obtain ⟨numbered, rfl, there, ordered⟩ := order
  have number : ∀ e ∈ numbered, e.1 < arrived.length := fun e mem =>
    (List.getElem?_eq_some_iff.mp (there e mem)).1
  have still : ∀ e ∈ numbered, (arrived ++ [entry])[e.1]? = some e.2 := fun e mem =>
    (getElem?_append_left (number e mem)).trans (there e mem)
  rw [← take_append_drop i numbered, pairwise_append] at ordered
  obtain ⟨front, back, across⟩ := ordered
  rw [← map_take] at earlier ⊢
  rw [← map_drop] at later ⊢
  refine ⟨numbered.take i ++ (arrived.length, entry) :: numbered.drop i, by simp, ?_, ?_⟩
  · intro e mem
    rw [mem_append, mem_cons] at mem
    rcases mem with mem | rfl | mem
    · exact still e (mem_of_mem_take mem)
    · simp
    · exact still e (mem_of_mem_drop mem)
  · rw [pairwise_append, pairwise_cons]
    refine ⟨front, ⟨fun f mem => Or.inl (later f.2 (mem_map_of_mem mem)), back⟩, ?_⟩
    intro e mem f mem'
    rcases mem_cons.mp mem' with rfl | mem'
    · rcases Int.lt_or_eq_of_le (earlier e.2 (mem_map_of_mem mem)) with less | same
      · exact Or.inl less
      · exact Or.inr ⟨same, number e (mem_of_mem_take mem)⟩
    · exact across e mem f mem'

namespace LteRlcTm

variable {a : TmAttributes} {t : LteRlcTm}

/-! ## What the loops leave -/

theorem discardRepetitions_sublist {Entry : Type} (pdcpSequenceNumbers : Nat → Nat)
    (tags : List Nat) (txBuffer : List Entry) :
    (discardRepetitions pdcpSequenceNumbers tags txBuffer).1.Sublist txBuffer ∧
      (discardRepetitions pdcpSequenceNumbers tags txBuffer).2.Sublist txBuffer := by
  induction txBuffer generalizing pdcpSequenceNumbers tags with
  | nil => exact ⟨.refl [], .refl []⟩
  | cons p txBuffer ih =>
    unfold discardRepetitions
    by_cases marked : pdcpSequenceNumbers (tags.headD 0 % 100) = 1
    · rw [if_pos marked]
      obtain ⟨stay, go⟩ := ih pdcpSequenceNumbers tags.tail
      exact ⟨stay.cons p, go.cons_cons p⟩
    · rw [if_neg marked]
      obtain ⟨stay, go⟩ := ih _ tags.tail
      exact ⟨stay.cons_cons p, go.cons p⟩

theorem discardRepetitions_eq (pdcpSequenceNumbers : Nat → Nat) (tags : List Nat)
    (txBuffer : List TxPdu) : discardRepetitions pdcpSequenceNumbers tags txBuffer =
      UmTransmitter.discardRepetitions pdcpSequenceNumbers tags txBuffer := by
  induction txBuffer generalizing pdcpSequenceNumbers tags with
  | nil => rfl
  | cons p txBuffer ih =>
    unfold discardRepetitions UmTransmitter.discardRepetitions
    simp [ih]

theorem discardLoops_sublist (a : TmAttributes) (now : Time) (m : Memory)
    (txBuffer : List TxPdu) : (discardLoops a now m txBuffer).1.Sublist
      (txBuffer.filter fun p => !late a now p) := by
  unfold discardLoops
  by_cases repetitions : a.discardingRepetitionPacketInTheSameQueue = true
  · simp only [repetitions]
    exact (discardRepetitions_sublist ..).1
  · simp only [repetitions]
    exact Sublist.refl _

/-- Nothing gets lost between what stays and what goes. -/
theorem discardLoops_waiting (a : TmAttributes) (now : Time) (m : Memory)
    (txBuffer : List TxPdu) : waiting txBuffer =
      waiting (discardLoops a now m txBuffer).1 + waiting (discardLoops a now m txBuffer).2 := by
  have parts := UmTransmitter.waiting_filter (late a now) txBuffer
  unfold discardLoops
  by_cases repetitions : a.discardingRepetitionPacketInTheSameQueue = true
  · have repeated := UmTransmitter.discardRepetitions_waiting m.pdcpSequenceNumbers m.tags
      (txBuffer.filter fun p => !late a now p)
    simp only [repetitions, if_true, discardRepetitions_eq]
    rw [waiting_append, parts, repeated]
    omega
  · simp only [repetitions]
    rw [parts, add_comm]
    rfl

/-! ## Invariants of the buffer -/

structure Kept (a : TmAttributes) (t : LteRlcTm) (arrived : List TxPdu) : Prop where
  order : InArrivalOrder arrived t.txBuffer
  counted : t.txBufferSize = waiting t.txBuffer
  small : waiting t.txBuffer < 2 ^ 32
  bounded : t.txBufferSize ≤ a.maxTxBufferSize

/-- A whole number of milliseconds has not passed since the deadline did. -/
def Lingers (a : TmAttributes) (now : Time) (p : TxPdu) : Prop :=
  (a.schedulingDiscardTimerMs : Int) * 1000000 < now - p.waitingSince ∧
    now - p.waitingSince < (a.schedulingDiscardTimerMs + 1 : Int) * 1000000

/-- No entry has waited longer than the deadline. -/
def Fresh (a : TmAttributes) (now : Time) (t : LteRlcTm) : Prop :=
  ∀ p ∈ t.txBuffer, now - p.waitingSince ≤ (a.schedulingDiscardTimerMs : Int) * 1000000

theorem Kept.discard (kept : Kept a t arrived) (now : Time) (m : Memory) :
    Kept a (t.discard a now m).1 arrived := by
  have parts := discardLoops_waiting a now m t.txBuffer
  have small := kept.small
  have bounded := kept.bounded
  have counted := kept.counted
  have left : (t.discard a now m).1.txBufferSize = waiting (discardLoops a now m t.txBuffer).1 :=
    foldl_sub32 (discardLoops a now m t.txBuffer).2 (by rw [counted, parts])
      (by rw [counted]; exact small)
  have stays : (t.discard a now m).1.txBuffer = (discardLoops a now m t.txBuffer).1 := rfl
  refine ⟨?_, by rw [left, stays], by rw [stays]; omega, by rw [left]; omega⟩
  rw [stays]
  exact kept.order.sublist ((discardLoops_sublist a now m t.txBuffer).trans filter_sublist)

theorem lt_of_tdiv_le {wait : Int} {timer : Nat} (stays : Int.tdiv wait 1000000 ≤ timer) :
    wait < (timer + 1 : Int) * 1000000 := by
  rcases Int.le_total 0 wait with positive | negative
  · rw [Int.tdiv_eq_ediv_of_nonneg positive] at stays
    omega
  · omega

/-- An entry that stays is late by less than a millisecond or not at all. -/
theorem not_late (timed : 0 < a.schedulingDiscardTimerMs) {now : Time} {p : TxPdu}
    (stays : late a now p = false) (prompt : ¬ Lingers a now p) :
    now - p.waitingSince ≤ (a.schedulingDiscardTimerMs : Int) * 1000000 := by
  unfold late at stays
  simp only [timed, decide_true, Bool.true_and, decide_eq_false_iff_not, Int.not_lt] at stays
  by_contra longer
  exact prompt ⟨Int.not_le.mp longer, lt_of_tdiv_le stays⟩

theorem discard_fresh (timed : 0 < a.schedulingDiscardTimerMs) {now : Time} (m : Memory)
    (prompt : ∀ p ∈ t.txBuffer, ¬ Lingers a now p) : Fresh a now (t.discard a now m).1 := by
  intro p mem
  have stays := (discardLoops_sublist a now m t.txBuffer).subset mem
  obtain ⟨there, inTime⟩ := mem_filter.mp stays
  exact not_late timed (by simpa using inTime) (prompt p there)

theorem Kept.store (kept : Kept a t arrived) (timed : 0 < a.schedulingDiscardTimerMs) (p : Packet)
    (senderTimestamp : Time) (room : t.fits a p = true → t.txBufferSize + p.length < 2 ^ 32) :
    Kept a (t.store a p senderTimestamp)
      (arrived ++ if t.fits a p then [⟨p, .fullSdu, senderTimestamp⟩] else []) := by
  have counted := kept.counted
  unfold LteRlcTm.store
  by_cases fits : t.fits a p = true
  · have small := room fits
    have inserted : waiting (t.txBuffer.insertIdx (insertVal t.txBuffer senderTimestamp)
        ⟨p, .fullSdu, senderTimestamp⟩) = p.length + waiting t.txBuffer := by
      rw [← waiting_cons ⟨p, .fullSdu, senderTimestamp⟩]
      exact waiting_perm (perm_insertIdx _ _ countP_le_length)
    simp only [if_pos fits, if_pos timed]
    refine ⟨kept.order.insert ⟨p, .fullSdu, senderTimestamp⟩, ?_, ?_, of_decide_eq_true fits⟩
    · dsimp only
      rw [inserted, add32_eq small, counted, add_comm]
    · dsimp only
      rw [inserted]
      omega
  · simp only [if_neg fits, append_nil]
    exact kept

theorem Kept.opportunity (kept : Kept a t arrived) (bytes : Nat) :
    Kept a (t.doNotifyTxOpportunity bytes).1 arrived := by
  obtain ⟨order, counted, small, bounded⟩ := kept
  unfold doNotifyTxOpportunity
  split
  · exact ⟨order, counted, small, bounded⟩
  · rename_i first txBuffer front
    split
    · exact ⟨order, counted, small, bounded⟩
    · rw [front] at order counted small
      rw [waiting_cons] at counted small
      have left : sub32 t.txBufferSize first.pdu.length = waiting txBuffer :=
        sub32_eq (by omega) (by omega)
      refine ⟨order.sublist (sublist_cons_self first txBuffer), left, ?_, ?_⟩
      · dsimp only
        omega
      · dsimp only
        omega

/-! ## Runs -/

/-- A PDU that finds room finds it in 32 bits, and no report meets an entry that lingers. -/
def Timely (a : TmAttributes) (t : LteRlcTm) : TmEvent → Prop
  | .transmit now _ p senderTimestamp =>
    (t.fits a p = true → t.txBufferSize + p.length < 2 ^ 32) ∧
      ∀ q ∈ (t.store a p senderTimestamp).txBuffer, ¬ Lingers a now q
  | .opportunity _ => True
  | .report now _ | .rbsTimer now _ => ∀ q ∈ t.txBuffer, ¬ Lingers a now q

/-- The time of the report that a step ends with. -/
def reportTime : TmEvent → Option Time
  | .transmit now _ _ _ | .report now _ | .rbsTimer now _ => some now
  | .opportunity _ => none

theorem Kept.step (kept : Kept a t arrived) (timed : 0 < a.schedulingDiscardTimerMs) {e : TmEvent}
    (ok : Timely a t e) {t' : LteRlcTm} (here : t.step a e = some t') :
    Kept a t' (arrived ++ t.arrivals a e) ∧ ∀ now ∈ reportTime e, Fresh a now t' := by
  cases e with
  | transmit now m p senderTimestamp =>
    cases here
    obtain ⟨room, prompt⟩ := ok
    obtain ⟨order, counted, small, bounded⟩ :=
      (kept.store timed p senderTimestamp room).discard now m
    refine ⟨⟨order, counted, small, bounded⟩, ?_⟩
    rintro _ ⟨⟩
    exact discard_fresh timed m prompt
  | opportunity bytes =>
    cases here
    refine ⟨?_, by rintro _ ⟨⟩⟩
    exact (append_nil arrived).symm ▸ kept.opportunity bytes
  | report now m =>
    cases here
    refine ⟨(append_nil arrived).symm ▸ kept.discard now m, ?_⟩
    rintro _ ⟨⟩
    exact discard_fresh timed m ok
  | rbsTimer now m =>
    dsimp only [LteRlcTm.step] at here
    split at here
    · cases here
      have none : arrived ++ t.arrivals a (.rbsTimer now m) = arrived := append_nil arrived
      rw [none]
      unfold expireRbsTimer
      split
      · rename_i empty
        refine ⟨{ kept with }, ?_⟩
        intro _ _ q mem
        rw [List.isEmpty_iff.mp empty] at mem
        exact absurd mem (not_mem_nil)
      · obtain ⟨order, counted, small, bounded⟩ := kept.discard now m
        refine ⟨⟨order, counted, small, bounded⟩, ?_⟩
        rintro _ ⟨⟩
        exact discard_fresh timed m ok
    · simp at here

/-- **Order.** In a run of timely steps the entries are always in order and counted, and
after each report none has waited longer than the deadline. -/
theorem tm_ordered {a : TmAttributes} (timed : 0 < a.schedulingDiscardTimerMs) {t : LteRlcTm}
    {arrived : List TxPdu} (run : TmRun a (Timely a) t arrived) :
    InArrivalOrder arrived t.txBuffer ∧ t.txBufferSize = waiting t.txBuffer ∧
      t.txBufferSize ≤ a.maxTxBufferSize ∧
      ∀ e t', Timely a t e → t.step a e = some t' → ∀ now ∈ reportTime e, Fresh a now t' := by
  have kept : Kept a t arrived := by
    induction run with
    | start => exact ⟨⟨[], rfl, by simp, List.Pairwise.nil⟩, rfl, by decide, Nat.zero_le _⟩
    | step _ e ok here ih => exact (ih.step timed ok here).1
  exact ⟨kept.order, kept.counted, kept.bounded,
    fun e t' ok here => (kept.step timed ok here).2⟩

/-- 100 bytes, a deadline of 10 ms. -/
def tenMs : TmAttributes := ⟨100, 10, false⟩

def noMemory : Memory := ⟨fun _ => 0, []⟩

/-- The second PDU is a delayed duplicate, with a time stamp before that of the first. -/
theorem tm_ordered_duplicate : 0 < tenMs.schedulingDiscardTimerMs ∧
      ((create.doTransmitPdcpPdu tenMs 5000000 noMemory [0x01] 5000000).1.doTransmitPdcpPdu tenMs
        6000000 noMemory [0x02] 4000000).1.txBufferSize = 2 :=
  ⟨by decide, (tm_ordered (by decide) (TmRun.step (TmRun.step TmRun.start
    (.transmit 5000000 noMemory [0x01] 5000000) (by unfold Timely Lingers; decide) rfl)
    (.transmit 6000000 noMemory [0x02] 4000000) (by unfold Timely Lingers; decide) rfl)).2.1⟩

/-- A PDU that has waited for 10.5 ms stays under a deadline of 10 ms. -/
theorem lingering_stays : ¬ ∀ t arrived, TmRun tenMs (fun _ _ => True) t arrived →
    ∀ now m, Fresh tenMs now (t.doReportBufferStatus tenMs now m).1 := by
  intro all
  have fresh := all _ _ (TmRun.step TmRun.start (.transmit 0 noMemory [0x01] 0) trivial rfl)
    10500000 noMemory
  revert fresh
  unfold Fresh
  decide

end LteRlcTm

end Ns3.Rlc
