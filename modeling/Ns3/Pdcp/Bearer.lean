import Ns3.Pdcp.Entity

/-!
# One PDCP bearer

A transmitting and a receiving entity of one bearer, with the copies on their
way in between. Copies arrive in any order, late, or never; the RLC hands over
a duplicate only once it is scheduled.
-/

namespace Ns3.Pdcp

variable {Sdu : Type}

/-- One `DoReceivePdu` of the run: which SDU the PDU is a copy of, when it
came, the marks it erased and what it handed up. -/
structure Arrival (Sdu : Type) where
  index : Nat
  pdu : PdcpPdu Sdu
  at_ : Time
  clears : Nat → Bool
  handed : Option Sdu

def Arrival.sn (a : Arrival Sdu) : Nat := a.pdu.header.sequenceNumber

/-- The copy came less than 100 ms after its SDU was sent. -/
def Arrival.inTime (a : Arrival Sdu) : Prop :=
  (a.at_ - a.pdu.senderTimestamp : Time).getMilliSeconds < 100

structure World (Sdu : Type) where
  tx : LtePdcp
  rx : LtePdcp
  numbers : PdcpSequenceNumbers
  now : Time
  /-- the SDUs sent so far; a copy names its SDU by the position here -/
  sent : List Sdu
  onTheWay : List (Nat × Transmission Sdu)
  /-- newest first -/
  arrivals : List (Arrival Sdu)

def World.start (tx rx : LtePdcp) : World Sdu :=
  ⟨tx, rx, fun _ _ => false, 0, [], [], []⟩

def World.send (w : World Sdu) (sdu : Sdu) : World Sdu :=
  let r := w.tx.doTransmitPdcpSdu w.now sdu
  { w with
    tx := r.1
    sent := w.sent ++ [sdu]
    onTheWay := w.onTheWay ++ r.2.map fun t => (w.sent.length, t) }

def World.arrival (w : World Sdu) (copy : Nat × Transmission Sdu) (out : Option Sdu) :
    Arrival Sdu :=
  ⟨copy.1, copy.2.pdu, w.now,
    w.rx.clears (w.numbers w.rx.rnti) copy.2.pdu.header.sequenceNumber, out⟩

inductive Step : World Sdu → World Sdu → Prop
  | send (w : World Sdu) (sdu : Sdu) : Step w (w.send sdu)
  | setDuplication (w : World Sdu) (dupNum dupDelay : Nat) :
      Step w { w with
        tx := (w.tx.setNumberOfDuplications dupNum).setDuplicationDelay dupDelay }
  | tick (w : World Sdu) (later : Time) (forward : w.now ≤ later) : Step w { w with now := later }
  | lose (w : World Sdu) (before after : List (Nat × Transmission Sdu))
      (copy : Nat × Transmission Sdu) (onWay : w.onTheWay = before ++ copy :: after) :
      Step w { w with onTheWay := before ++ after }
  | receive (w : World Sdu) (before after : List (Nat × Transmission Sdu))
      (copy : Nat × Transmission Sdu) (rx : LtePdcp) (numbers : PdcpSequenceNumbers)
      (out : Option Sdu) (onWay : w.onTheWay = before ++ copy :: after)
      (scheduled : copy.2.at_ ≤ w.now)
      -- fewer than 2048 later SDUs have been sent
      (spread : w.sent.length ≤ copy.1 + 2048)
      (received : w.rx.doReceivePdu w.numbers w.now copy.2.pdu = some (rx, numbers, out)) :
      Step w { w with
        rx := rx
        numbers := numbers
        onTheWay := before ++ after
        arrivals := w.arrival copy out :: w.arrivals }

/-- The two entities of a bearer, just created. -/
structure FreshBearer (tx rx : LtePdcp) : Prop where
  txSequenceNumber : tx.txSequenceNumber = 0
  rxSequenceNumber : rx.rxSequenceNumber = 0
  maxSeqNotifier : rx.maxSeqNotifier = false
  rnti : tx.rnti = rx.rnti
  lcid : tx.lcid = rx.lcid

inductive Reachable : World Sdu → Prop
  | start (tx rx : LtePdcp) (fresh : FreshBearer tx rx) : Reachable (.start tx rx)
  | next {w w' : World Sdu} : Reachable w → Step w w' → Reachable w'

/-! ## Sequence numbers on the way -/

/-- The transmitter skips 0 when it wraps, yet 4096 is sent as 0. -/
def TxCounter (w : World Sdu) : Prop :=
  w.tx.txSequenceNumber ≤ maxPdcpSn ∧ w.tx.txSequenceNumber % 4096 = w.sent.length % 4096

/-- Every copy carries its SDU and the SDU's position modulo 4096. -/
def Labelled (sent : List Sdu) (index : Nat) (pdu : PdcpPdu Sdu) : Prop :=
  pdu.header.sequenceNumber = index % 4096 ∧ sent[index]? = some pdu.sdu

structure Valid (w : World Sdu) : Prop where
  counter : TxCounter w
  onTheWay : ∀ c ∈ w.onTheWay, Labelled w.sent c.1 c.2.pdu
  arrivals : ∀ a ∈ w.arrivals, Labelled w.sent a.index a.pdu

theorem transmit_counter (pdcp : LtePdcp) (now : Time) (sdu : Sdu) (n : Nat)
    (bound : pdcp.txSequenceNumber ≤ maxPdcpSn) (h : pdcp.txSequenceNumber % 4096 = n % 4096) :
    (pdcp.doTransmitPdcpSdu now sdu).1.txSequenceNumber ≤ maxPdcpSn ∧
    (pdcp.doTransmitPdcpSdu now sdu).1.txSequenceNumber % 4096 = (n + 1) % 4096 := by
  simp only [LtePdcp.doTransmitPdcpSdu]
  by_cases top : pdcp.txSequenceNumber + 1 > maxPdcpSn
  · rw [if_pos top]
    simp only [maxPdcpSn] at *
    omega
  · rw [if_neg top]
    omega

theorem transmit_label (pdcp : LtePdcp) (now : Time) (sdu : Sdu) (t : Transmission Sdu)
    (h : t ∈ (pdcp.doTransmitPdcpSdu now sdu).2) :
    t.pdu.header.sequenceNumber = pdcp.txSequenceNumber % 4096 ∧ t.pdu.sdu = sdu := by
  have low : pdcp.txSequenceNumber &&& 0x0FFF = pdcp.txSequenceNumber % 4096 :=
    Nat.and_two_pow_sub_one_eq_mod _ 12
  simp only [LtePdcp.doTransmitPdcpSdu, List.mem_cons, List.mem_map] at h
  rcases h with rfl | ⟨_, _, rfl⟩ <;> exact ⟨low, rfl⟩

theorem Labelled.later {sent : List Sdu} {index : Nat} {pdu : PdcpPdu Sdu}
    (h : Labelled sent index pdu) (sdu : Sdu) : Labelled (sent ++ [sdu]) index pdu := by
  obtain ⟨hsn, hsdu⟩ := h
  have inside : index < sent.length := (List.getElem?_eq_some_iff.mp hsdu).1
  exact ⟨hsn, by rw [List.getElem?_append_left inside, hsdu]⟩

theorem send_valid {w : World Sdu} (h : Valid w) (sdu : Sdu) : Valid (w.send sdu) := by
  obtain ⟨⟨bound, counter⟩, onTheWay, arrivals⟩ := h
  refine ⟨?_, ?_, fun a ha => (arrivals a ha).later sdu⟩
  · have next := transmit_counter w.tx w.now sdu w.sent.length bound counter
    simpa [TxCounter, World.send] using next
  · intro c hc
    simp only [World.send, List.mem_append, List.mem_map] at hc
    rcases hc with hc | ⟨t, ht, rfl⟩
    · exact (onTheWay c hc).later sdu
    · obtain ⟨hsn, hsdu⟩ := transmit_label w.tx w.now sdu t ht
      exact ⟨by rw [hsn, counter], by simp [World.send, hsdu]⟩

theorem step_valid {w w' : World Sdu} (step : Step w w') (h : Valid w) : Valid w' := by
  cases step with
  | send sdu => exact send_valid h sdu
  | setDuplication | tick => exact ⟨h.counter, h.onTheWay, h.arrivals⟩
  | lose before after copy onWay =>
    refine ⟨h.counter, fun c hc => h.onTheWay c ?_, h.arrivals⟩
    rw [onWay]
    simp only [List.mem_append] at hc ⊢
    tauto
  | receive before after copy rx numbers out onWay =>
    have known := h.onTheWay
    rw [onWay] at known
    refine ⟨h.counter, fun c hc => known c ?_, fun a ha => ?_⟩
    · simp only [List.mem_append] at hc ⊢
      tauto
    · rcases List.mem_cons.mp ha with rfl | ha
      · exact known copy (by simp)
      · exact h.arrivals a ha

theorem reachable_valid {w : World Sdu} (h : Reachable w) : Valid w := by
  induction h with
  | start tx rx fresh =>
    exact ⟨by simp [TxCounter, World.start, fresh.txSequenceNumber], by simp [World.start],
      by simp [World.start]⟩
  | next _ step ih => exact step_valid step ih

/-! ## The bitmap as a function of the arrivals -/

/-- Whether `sn` is marked after these arrivals: some arrival carried it, and
neither that one nor a later one erased it. -/
def marked : List (Arrival Sdu) → Nat → Bool
  | [], _ => false
  | a :: older, sn => !a.clears sn && (decide (sn = a.sn) || marked older sn)

/-- What an arrival hands up, given the arrivals before it. -/
def Judged (older : List (Arrival Sdu)) (a : Arrival Sdu) : Prop :=
  (marked older a.sn = true → a.handed = none) ∧
  (marked older a.sn = false → a.inTime → a.handed = some a.pdu.sdu) ∧
  (¬ a.inTime → a.handed = none)

/-- Every arrival was judged by the arrivals before it. -/
def History : List (Arrival Sdu) → Prop
  | [] => True
  | a :: older => Judged older a ∧ History older

structure Recorded (w : World Sdu) : Prop where
  row : ∀ sn, w.numbers w.rx.rnti sn = marked w.arrivals sn
  history : History w.arrivals

theorem step_recorded {w w' : World Sdu} (step : Step w w') (h : Recorded w) : Recorded w' := by
  cases step with
  | send | setDuplication | tick | lose => exact ⟨h.row, h.history⟩
  | receive before after copy rx numbers out _ _ _ received =>
    obtain ⟨hrnti, hrow, hout⟩ := doReceivePdu_spec received
    refine ⟨fun sn => ?_, ?_, h.history⟩
    · show numbers rx.rnti sn = _
      rw [hrnti, hrow, h.row]
      rfl
    · rw [h.row] at hout
      refine ⟨fun hm => ?_, fun hm ht => ?_, fun ht => ?_⟩
      · exact hout.trans (if_pos hm)
      · exact hout.trans ((if_neg (by simp [World.arrival, Arrival.sn] at hm; simp [hm])).trans
          (if_pos ht))
      · refine hout.trans ?_
        split
        · rfl
        · exact if_neg ht

theorem reachable_recorded {w : World Sdu} (h : Reachable w) : Recorded w := by
  induction h with
  | start => exact ⟨fun _ => rfl, trivial⟩
  | next _ step ih => exact step_recorded step ih

theorem history_split {newer older : List (Arrival Sdu)} {a : Arrival Sdu}
    (h : History (newer ++ a :: older)) : Judged older a := by
  induction newer with
  | nil => exact h.1
  | cons b newer ih => exact ih h.2

/-- A mark is set exactly when an arrival of that sequence number has not been
followed, nor accompanied, by a clear of it. -/
theorem marked_iff (arrivals : List (Arrival Sdu)) (sn : Nat) :
    marked arrivals sn = true ↔ ∃ newer b older, arrivals = newer ++ b :: older ∧
      b.sn = sn ∧ ∀ c ∈ newer ++ [b], c.clears sn = false := by
  induction arrivals with
  | nil => simp [marked]
  | cons a arrivals ih =>
    simp only [marked, Bool.and_eq_true, Bool.not_eq_true', Bool.or_eq_true, decide_eq_true_eq]
    constructor
    · rintro ⟨kept, hit | earlier⟩
      · exact ⟨[], a, arrivals, rfl, hit.symm, by simpa using kept⟩
      · obtain ⟨newer, b, older, rfl, hsn, clean⟩ := ih.mp earlier
        refine ⟨a :: newer, b, older, rfl, hsn, fun c hc => ?_⟩
        rcases List.mem_cons.mp hc with rfl | hc
        · exact kept
        · exact clean c hc
    · rintro ⟨newer, b, older, split, hsn, clean⟩
      cases newer with
      | nil =>
        obtain ⟨rfl, rfl⟩ := by simpa using split
        exact ⟨clean a (by simp), .inl hsn.symm⟩
      | cons n newer =>
        obtain ⟨rfl, rfl⟩ := by simpa using split
        exact ⟨clean a (by simp), .inr (ih.mpr ⟨newer, b, older, rfl, hsn,
          fun c hc => clean c (by simp at hc ⊢; tauto)⟩)⟩

end Ns3.Pdcp

/-!
## Duplicate elimination

* `handed_at_most_once`: an SDU is handed up at most once as long as no bulk
  clear fires between two copies of it;
* `first_copies_iff_cleared`: first copies get through exactly when a bulk
  clear fires between two SDUs that share a sequence number.

Neither proviso holds of every run.
-/

namespace Ns3.Pdcp

open List

variable {Sdu : Type}

theorem split_of_two {α : Type} {p : α → Bool} {l : List α} (h : 2 ≤ l.countP p) :
    ∃ newer a between b older, l = newer ++ a :: (between ++ b :: older) ∧
      p a = true ∧ p b = true := by
  induction l with
  | nil => simp at h
  | cons x l ih =>
    cases hx : p x with
    | false =>
      rw [countP_cons_of_neg (by simp [hx])] at h
      obtain ⟨newer, a, between, b, older, rfl, ha, hb⟩ := ih h
      exact ⟨x :: newer, a, between, b, older, rfl, ha, hb⟩
    | true =>
      rw [countP_cons_of_pos hx] at h
      obtain ⟨b, hmem, hb⟩ := countP_pos_iff.mp (show 0 < l.countP p by omega)
      obtain ⟨between, older, rfl⟩ := append_of_mem hmem
      exact ⟨[], x, between, b, older, rfl, hx, hb⟩

/-! ## No SDU twice -/

/-- No SDU has been handed to the upper layer more than once. -/
def AtMostOnce (w : World Sdu) : Prop :=
  ∀ n, w.arrivals.countP (fun a => a.index == n && a.handed.isSome) ≤ 1

/-- From the first of two copies of an SDU that both come in time up to the
second, no arrival fires a bulk clear of their sequence number. -/
def NoClearBetweenCopies (arrivals : List (Arrival Sdu)) : Prop :=
  ∀ newer a between b older, arrivals = newer ++ a :: (between ++ b :: older) →
    a.index = b.index → a.inTime → b.inTime → ∀ c ∈ between ++ [b], c.clears b.sn = false

theorem handed_inTime {older : List (Arrival Sdu)} {a : Arrival Sdu} (h : Judged older a)
    (handed : a.handed.isSome = true) : a.inTime ∧ marked older a.sn = false := by
  constructor
  · by_contra late
    simp [h.2.2 late] at handed
  · cases hm : marked older a.sn
    · rfl
    · simp [h.1 hm] at handed

/-- **At most once.** While no bulk clear falls between two copies of an SDU,
no SDU is handed up twice, and the next reception stays inside the bitmap. -/
theorem handed_at_most_once {w : World Sdu} (h : Reachable w) (inside : w.rx.rnti < 100)
    (quiet : NoClearBetweenCopies w.arrivals) :
    AtMostOnce w ∧ ∀ now (p : PdcpPdu Sdu), (w.rx.doReceivePdu w.numbers now p).isSome = true := by
  refine ⟨fun n => ?_, fun now p => doReceivePdu_isSome _ _ _ inside⟩
  by_contra more
  obtain ⟨newer, a, between, b, older, split, ha, hb⟩ := split_of_two (Nat.lt_of_not_le more)
  simp only [Bool.and_eq_true, beq_iff_eq] at ha hb
  have labelled := (reachable_valid h).arrivals
  have history := (reachable_recorded h).history
  rw [split] at labelled history
  have same : a.index = b.index := ha.1.trans hb.1.symm
  have sameSn : b.sn = a.sn := by
    have la := labelled a (by simp)
    have lb := labelled b (by simp)
    exact lb.1.trans ((congrArg (· % 4096) same.symm).trans la.1.symm)
  obtain ⟨aInTime, unmarked⟩ := handed_inTime (history_split history) ha.2
  have judgedB : Judged older b := by
    have tail : History (newer ++ a :: between ++ b :: older) := by simpa using history
    exact history_split tail
  obtain ⟨bInTime, -⟩ := handed_inTime judgedB hb.2
  have clean := quiet newer a between b older split same aInTime bInTime
  have stillMarked : marked (between ++ b :: older) a.sn = true :=
    (marked_iff _ _).mpr ⟨between, b, older, rfl, sameSn, fun c hc => sameSn ▸ clean c hc⟩
  rw [stillMarked] at unmarked
  exact absurd unmarked (by decide)

/-- Bearer of RNTI 1 and logical channel 3 with one duplicate per SDU, half a
millisecond after the original. -/
def onceDuplicated : LtePdcp := .create 1 3 1 500 true

theorem onceDuplicated_fresh : FreshBearer onceDuplicated onceDuplicated :=
  ⟨rfl, rfl, rfl, rfl, rfl⟩

theorem noClear_of_silent {arrivals : List (Arrival Sdu)}
    (silent : ∀ a ∈ arrivals, ∀ k, a.clears k = false) : NoClearBetweenCopies arrivals := by
  intro newer a between b older split _ _ _ c hc
  apply silent c
  rw [split]
  simp only [mem_append, mem_cons] at hc ⊢
  tauto

/-- One SDU whose two copies both arrive. -/
theorem both_copies_once : ∃ w : World Nat, Reachable w ∧ w.arrivals.length = 2 ∧ AtMostOnce w := by
  have sent := (Reachable.start _ _ onceDuplicated_fresh).next (.send _ 7)
  have waited := sent.next (.tick _ 500000 (by decide))
  have first := waited.next (.receive _ [] _ _ _ _ _ rfl (by decide) (by decide) rfl)
  have both := first.next (.receive _ [] [] _ _ _ _ rfl (by decide) (by decide) rfl)
  refine ⟨_, both, rfl, (handed_at_most_once both (by decide) (noClear_of_silent ?_)).1⟩
  intro a ha k
  rcases mem_cons.mp ha with rfl | ha
  · rfl
  · obtain rfl := mem_singleton.mp ha
    rfl

/-- SDU 1 overtakes SDU 0. The original of SDU 0 then fires the clear of
`[0, 4000)` that takes its own mark, and its duplicate is handed up as well. -/
theorem overtaken_sdu_handed_twice :
    ¬ ∀ w : World Nat, Reachable w → w.rx.rnti < 100 → AtMostOnce w := by
  intro once
  have sent := ((Reachable.start _ _ onceDuplicated_fresh).next (.send _ 7)).next (.send _ 8)
  have waited := sent.next (.tick _ 500000 (by decide))
  have overtaking := waited.next (.receive _ [_, _] [_] _ _ _ _ rfl (by decide) (by decide) rfl)
  have original := overtaking.next (.receive _ [] [_, _] _ _ _ _ rfl (by decide) (by decide) rfl)
  have duplicate := original.next (.receive _ [] [_] _ _ _ _ rfl (by decide) (by decide) rfl)
  exact absurd (once _ duplicate (by decide) 0) (by decide)

/-! ## No fresh SDU lost -/

/-- Every first copy that came in time was handed up. -/
def FirstCopiesHanded (w : World Sdu) : Prop :=
  ∀ newer a older, w.arrivals = newer ++ a :: older → (∀ b ∈ older, b.index ≠ a.index) →
    a.inTime → a.handed.isSome = true ∧ a.handed = w.sent[a.index]?

/-- Between an arrival and a later first copy of an SDU with the same sequence
number, some arrival fires the bulk clear of that sequence number. -/
def ClearedBetweenCycles (arrivals : List (Arrival Sdu)) : Prop :=
  ∀ newer a between b older, arrivals = newer ++ a :: (between ++ b :: older) →
    (∀ c ∈ between ++ b :: older, c.index ≠ a.index) → a.inTime →
    a.index % 4096 = b.index % 4096 → ∃ c ∈ between ++ [b], c.clears a.sn = true

/-- **Fresh SDUs.** First copies get through exactly when every reuse of a
sequence number is preceded by a bulk clear of it. -/
theorem first_copies_iff_cleared {w : World Sdu} (h : Reachable w) (inside : w.rx.rnti < 100) :
    (∀ now (p : PdcpPdu Sdu), (w.rx.doReceivePdu w.numbers now p).isSome = true) ∧
    (FirstCopiesHanded w ↔ ClearedBetweenCycles w.arrivals) := by
  refine ⟨fun now p => doReceivePdu_isSome _ _ _ inside, ?_, ?_⟩
  · intro handed newer a between b older split fresh aInTime sameSn
    have labelled := (reachable_valid h).arrivals
    have history := (reachable_recorded h).history
    obtain ⟨got, -⟩ := handed newer a _ split fresh aInTime
    rw [split] at labelled history
    obtain ⟨-, unmarked⟩ := handed_inTime (history_split history) got
    have bsn : b.sn = a.sn :=
      (labelled b (by simp)).1.trans (sameSn.symm.trans (labelled a (by simp)).1.symm)
    by_contra none
    have clean : ∀ c ∈ between ++ [b], c.clears a.sn = false := by
      intro c hc
      by_contra fires
      exact none ⟨c, hc, by simpa using fires⟩
    have stillMarked : marked (between ++ b :: older) a.sn = true :=
      (marked_iff _ _).mpr ⟨between, b, older, rfl, bsn, clean⟩
    rw [stillMarked] at unmarked
    exact absurd unmarked (by decide)
  · intro cleared newer a older split fresh aInTime
    have labelled := (reachable_valid h).arrivals
    have history := (reachable_recorded h).history
    rw [split] at labelled history
    have unmarked : marked older a.sn = false := by
      by_contra hm
      obtain ⟨between, b, oldest, rfl, bsn, clean⟩ := (marked_iff older a.sn).mp (by simpa using hm)
      have sameSn : a.index % 4096 = b.index % 4096 :=
        (labelled a (by simp)).1.symm.trans (bsn.symm.trans (labelled b (by simp)).1)
      obtain ⟨c, hc, fires⟩ := cleared newer a between b oldest split fresh aInTime sameSn
      rw [clean c hc] at fires
      exact absurd fires (by decide)
    have got := (history_split history).2.1 unmarked aInTime
    exact ⟨by rw [got]; rfl, got.trans (labelled a (by simp)).2.symm⟩

/-- One SDU, handed up when its original arrives. -/
theorem lone_copy_handed : ∃ w : World Nat, Reachable w ∧ w.arrivals.length = 1 ∧
    FirstCopiesHanded w := by
  have sent := (Reachable.start _ _ onceDuplicated_fresh).next (.send _ 7)
  have first := sent.next (.receive _ [] _ _ _ _ _ rfl (by decide) (by decide) rfl)
  refine ⟨_, first, rfl, (first_copies_iff_cleared first (by decide)).2.mpr ?_⟩
  intro newer a between b older split
  have short := congrArg List.length split
  simp only [length_append, length_cons, World.send, World.start, length_nil] at short
  omega

/-- A transmitter without duplication. -/
def Unduplicated (tx : LtePdcp) : Prop := tx.isFixedDuplication = true ∧ tx.maxDup = 0

theorem lose_sdus {w : World Sdu} (h : Reachable w) (single : Unduplicated w.tx)
    (empty : w.onTheWay = []) (sdu : Sdu) (k : Nat) :
    ∃ w' : World Sdu, Reachable w' ∧ Unduplicated w'.tx ∧ w'.onTheWay = [] ∧ w'.now = w.now ∧
      w'.sent.length = w.sent.length + k ∧ w'.rx = w.rx ∧ w'.numbers = w.numbers ∧
      w'.arrivals = w.arrivals := by
  induction k with
  | zero => exact ⟨w, h, single, empty, rfl, rfl, rfl, rfl, rfl⟩
  | succ k ih =>
    obtain ⟨v, hv, vsingle, vempty, now, count, rx, numbers, arrivals⟩ := ih
    obtain ⟨fixed, max⟩ := vsingle
    have onWay : (v.send sdu).onTheWay = [] ++ (v.sent.length,
        ⟨v.now, ⟨(⟨.dataPdu, 0⟩ : LtePdcpHeader).setSequenceNumber v.tx.txSequenceNumber,
          v.now, sdu⟩⟩) :: [] := by simp [World.send, LtePdcp.doTransmitPdcpSdu, vempty, fixed, max]
    refine ⟨_, (hv.next (.send v sdu)).next (.lose _ _ _ _ onWay), ⟨fixed, max⟩, rfl, now, ?_,
      rx, numbers, arrivals⟩
    simp [World.send, count]
    omega

/-- Sequence number 4095 is lost, so nothing clears the mark of SDU 0, and
SDU 4096 is taken for a duplicate of it. -/
theorem reused_number_dropped :
    ¬ ∀ w : World Nat, Reachable w → w.rx.rnti < 100 → FirstCopiesHanded w := by
  intro handed
  have sent := (Reachable.start _ _ ⟨rfl, rfl, rfl, rfl, rfl⟩ :
    @Reachable Nat (.start (.create 1 3 0 0 true) (.create 1 3 0 0 true))).next (.send _ 7)
  have first := sent.next (.receive _ [] [] _ _ _ _ rfl (by decide) (by decide) rfl)
  obtain ⟨v, hv, ⟨fixed, max⟩, vempty, now, count, rx, numbers, arrivals⟩ :=
    lose_sdus first ⟨rfl, rfl⟩ rfl 8 4095
  have noon : v.now = 0 := now
  have many : v.sent.length = 4096 := count
  have rnti : v.rx.rnti = 1 := congrArg LtePdcp.rnti rx
  have seen : v.numbers v.rx.rnti 0 = true := by rw [rx, numbers]; rfl
  have earlier : v.arrivals.map Arrival.index = [0] := congrArg (List.map Arrival.index) arrivals
  have counter : v.tx.txSequenceNumber &&& 0x0FFF = 0 := by
    have hc := (reachable_valid hv).counter.2
    rw [many] at hc
    exact (Nat.and_two_pow_sub_one_eq_mod _ 12).trans hc
  have onWay : (v.send 9).onTheWay = [] ++ (4096, ⟨0, ⟨⟨.dataPdu, 0⟩, 0, 9⟩⟩) :: [] := by
    simp [World.send, LtePdcp.doTransmitPdcpSdu, LtePdcpHeader.setSequenceNumber, counter, vempty,
      fixed, max, many, noon]
  have received : (v.send 9).rx.doReceivePdu (v.send 9).numbers (v.send 9).now
      ⟨⟨.dataPdu, 0⟩, 0, 9⟩ = some (v.rx, v.numbers, none) :=
    doReceivePdu_marked (show v.rx.rnti < 100 by omega) seen
  have reused := (hv.next (.send v 9)).next
    (.receive _ [] [] _ _ _ _ onWay (by simp [World.send, noon])
      (by simp [World.send, many]) received)
  have lost := handed _ reused (by show v.rx.rnti < 100; omega) [] _ v.arrivals rfl ?_ ?_
  · exact Bool.false_ne_true lost.1
  · intro b hb same
    have known : b.index ∈ v.arrivals.map Arrival.index := mem_map_of_mem hb
    rw [earlier, mem_singleton, same] at known
    exact absurd (show (4096 : Nat) = 0 from known) (by decide)
  · show (v.now - 0 : Time).getMilliSeconds < 100
    rw [noon]
    decide

end Ns3.Pdcp
