import Ns3.Wifi.BlockAckManager
import Ns3.Library.Machine

/-!
# The transmit window and the MPDUs in flight
-/

namespace Ns3.Wifi

open List BlockAckWindow Surroundings

namespace OriginatorBlockAckAgreement

/-- A number that was acknowledged, or passed by a discard. -/
def Settled (a : OriginatorBlockAckAgreement) (n : Nat) : Prop :=
  n ∈ a.acked ∨ ∃ d ∈ a.discarded, n ≤ d

/-- The window starts at its number, all before it is settled, and the bits that are set are of
acknowledged numbers. -/
structure Sound (first size : Nat) (a : OriginatorBlockAckAgreement) : Prop where
  valid : a.txWindow.Valid
  winSize : a.txWindow.winSize = size
  at_start : a.txWindow.winStart = a.start % 4096
  settled : ∀ n, first ≤ n → n < a.start → a.Settled n
  marked : ∀ d, a.txWindow.bits d = true → a.start + d ∈ a.acked

theorem Settled.mono {a b : OriginatorBlockAckAgreement} {n : Nat} (settled : a.Settled n)
    (acked : a.acked ⊆ b.acked) (discarded : a.discarded ⊆ b.discarded) : b.Settled n :=
  settled.imp (@acked n) fun ⟨d, mem, le⟩ => ⟨d, discarded mem, le⟩

variable {first size : Nat} {a b : OriginatorBlockAckAgreement} {count : Nat}

/-- A window that moves past settled numbers stays sound. -/
theorem Sound.move (sound : Sound first size a) (moved : Moved a b count)
    (discarded : a.discarded ⊆ b.discarded) (passed : ∀ i < count, b.Settled (a.start + i)) :
    Sound first size b := by
  refine ⟨moved.valid, moved.winSize.trans sound.winSize, ?_, ?_, ?_⟩
  · rw [moved.winStart, moved.start, sound.at_start, Nat.mod_add_mod]
  · intro n from_first less
    rw [moved.start] at less
    by_cases before : n < a.start
    · apply (sound.settled n from_first before).mono _ discarded
      rw [moved.acked]
      exact fun _ => id
    · have := passed (n - a.start) (by omega)
      rwa [Nat.add_sub_cancel' (not_lt.mp before)] at this
  · intro d set
    rw [moved.bits] at set
    have := sound.marked _ set
    rwa [moved.start, moved.acked, add_assoc, add_comm count d]

end OriginatorBlockAckAgreement

open OriginatorBlockAckAgreement

variable {Body : Type} {first size : Nat} {a b : OriginatorBlockAckAgreement} {count : Nat}

/-- MPDUs in the order of their distance, inside the window, whole and not acknowledged. -/
structure Outstanding (size : Nat) (a : OriginatorBlockAckAgreement)
    (mpdus : List (TxMpdu Body)) : Prop where
  increasing : mpdus.Pairwise fun x y => a.distance x.sequenceNumber < a.distance y.sequenceNumber
  inside : ∀ m ∈ mpdus, a.distance m.sequenceNumber < size
  unmarked : ∀ m ∈ mpdus, a.txWindow.bits (a.distance m.sequenceNumber) = false
  whole : ∀ m ∈ mpdus, m.fragmentNumber = 0

variable {mpdus before after : List (TxMpdu Body)} {m : TxMpdu Body} {env : Surroundings Body}
  {status : Finset Nat → MpduStatus} {c : Cursor Body}

theorem Outstanding.sublist {kept : List (TxMpdu Body)} (out : Outstanding size a mpdus)
    (sub : kept.Sublist mpdus) : Outstanding size a kept :=
  ⟨out.increasing.sublist sub, fun m mem => out.inside m (sub.subset mem),
    fun m mem => out.unmarked m (sub.subset mem), fun m mem => out.whole m (sub.subset mem)⟩

/-- A window that moves to the first MPDU at most keeps all of them. -/
theorem Outstanding.move (out : Outstanding size a mpdus) (valid : a.txWindow.Valid)
    (moved : Moved a b count) (ahead : ∀ m ∈ mpdus, count ≤ a.distance m.sequenceNumber) :
    Outstanding size b mpdus := by
  have nearer : ∀ m ∈ mpdus, b.distance m.sequenceNumber = a.distance m.sequenceNumber - count :=
    fun m mem => moved.distance_sub valid (ahead m mem)
  refine ⟨?_, ?_, ?_, out.whole⟩
  · apply out.increasing.imp_of_mem
    intro x y mx my less
    rw [nearer x mx, nearer y my]
    have := ahead x mx
    omega
  · intro m mem
    rw [nearer m mem]
    have := out.inside m mem
    omega
  · intro m mem
    rw [nearer m mem, moved.bits, Nat.sub_add_cancel (ahead m mem)]
    exact out.unmarked m mem

/-! ## The agreement -/

theorem advanceTxWindow_keeps (sound : Sound first size a) (out : Outstanding size a mpdus) :
    ∃ b, a.advanceTxWindow = .ok b ∧ Sound first size b ∧ Outstanding size b mpdus := by
  obtain ⟨b, count, ends, moved, same, set⟩ := advanceTxWindow_spec sound.valid
  refine ⟨b, ends, sound.move moved (same ▸ fun _ => id) ?_, out.move sound.valid moved ?_⟩
  · intro i less
    left
    rw [moved.acked]
    exact sound.marked i (set i less)
  · intro m mem
    by_contra less
    have := set _ (not_le.mp less)
    rw [out.unmarked m mem] at this
    cases this

theorem acknowledge_sound (sound : Sound first size a) {d : Nat} (inside : d < size) :
    Sound first size (a.acknowledge d) := by
  have kept : a.acked ⊆ (a.acknowledge d).acked := fun _ => mem_cons_of_mem _
  refine ⟨setAt_valid sound.valid d, (winSize_setAt d).trans sound.winSize, sound.at_start, ?_, ?_⟩
  · intro n from_first less
    exact (sound.settled n from_first less).mono kept fun _ => id
  · intro j set
    change (a.txWindow.setAt d).bits j = true at set
    rw [bits_setAt (by rwa [sound.winSize]), Bool.or_eq_true, decide_eq_true_eq] at set
    rcases set with rfl | set
    · exact mem_cons_self
    · exact kept (sound.marked j set)

/-- **An acknowledgment** of an MPDU that is not among those that stay in flight. -/
theorem notifyAckedMpdu_keeps (sound : Sound first size a) (out : Outstanding size a mpdus)
    {acked : Fin 4096} (others : ∀ m ∈ mpdus, m.sequenceNumber ≠ acked)
    (place : a.distance acked < size ∨ 2048 ≤ a.distance acked) :
    ∃ b, a.notifyAckedMpdu acked = .ok b ∧ Sound first size b ∧ Outstanding size b mpdus := by
  unfold notifyAckedMpdu
  cases old : a.isOld acked with
  | true => exact ⟨a, rfl, sound, out⟩
  | false =>
    have inside : a.distance acked < size := by
      apply place.resolve_right
      exact of_decide_eq_false old
    rw [if_neg Bool.false_ne_true, sound.winSize, if_pos inside]
    apply advanceTxWindow_keeps (acknowledge_sound sound inside)
    refine ⟨out.increasing, out.inside, ?_, out.whole⟩
    intro m mem
    change (a.txWindow.setAt (a.distance acked)).bits (a.distance m.sequenceNumber) = false
    rw [bits_setAt (by rwa [sound.winSize]), out.unmarked m mem, Bool.or_false]
    exact decide_eq_false fun same => others m mem (distance_inj sound.valid same)

/-- What is left of MPDUs in order when those up to a distance are old. -/
theorem ahead_of_dropWhile (increasing : mpdus.Pairwise fun x y =>
      a.distance x.sequenceNumber < a.distance y.sequenceNumber)
    {old : TxMpdu Body → Bool}
    (passed : ∀ m, a.distance m.sequenceNumber < count → old m = true) :
    ∀ m ∈ mpdus.dropWhile old, count ≤ a.distance m.sequenceNumber := by
  induction increasing with
  | nil => nofun
  | @cons x rest less _ ih =>
    intro m mem
    rw [dropWhile_cons] at mem
    split at mem
    case isTrue => exact ih m mem
    case isFalse fresh =>
      have head : count ≤ a.distance x.sequenceNumber := by
        by_contra behind
        exact fresh (passed x (not_le.mp behind))
      cases mem with
      | head => exact head
      | tail _ later => exact le_trans head (le_of_lt (less m later))

/-- **A discard** settles all numbers up to the one of the MPDU, which are old then. -/
theorem notifyDiscardedMpdu_keeps (sound : Sound first size a) (fits : size ≤ 2048)
    (out : Outstanding size a mpdus) (discarded : Fin 4096) :
    ∃ b, a.notifyDiscardedMpdu discarded = .ok b ∧ Sound first size b ∧
      Outstanding size b (mpdus.dropWhile fun m => b.isOld m.sequenceNumber) ∧
      (a.isOld discarded = false → ∀ n, a.distance n ≤ a.distance discarded →
        b.isOld n = true) := by
  unfold OriginatorBlockAckAgreement.notifyDiscardedMpdu
  cases old : a.isOld discarded with
  | true => exact ⟨a, rfl, sound, out.sublist (dropWhile_sublist _), nofun⟩
  | false =>
    rw [if_neg Bool.false_ne_true]
    dsimp only
    generalize noting : ({ a.advance (a.distance discarded + 1) with
      discarded := (a.start + a.distance discarded) :: a.discarded } :
      OriginatorBlockAckAgreement) = noted
    have near : a.distance discarded < 2048 := not_le.mp (of_decide_eq_false old)
    have moved : Moved a noted (a.distance discarded + 1) := by
      have past := advance_moved sound.valid (a.distance discarded + 1)
      rw [← noting]
      exact { past with }
    have sound' : Sound first size noted := by
      apply sound.move moved
      · rw [← noting]
        exact fun _ => mem_cons_of_mem _
      · intro i less
        right
        rw [← noting]
        exact ⟨_, mem_cons_self, by omega⟩
    obtain ⟨b, more, ends, further, same, set⟩ := advanceTxWindow_spec sound'.valid
    have total := moved.trans further
    have short : a.distance discarded + 1 + more ≤ 2048 := by
      by_cases none : more = 0
      · omega
      · have last := set (more - 1) (by omega)
        rw [moved.bits] at last
        by_contra long
        rw [bits_of_le (by rw [sound.winSize]; omega)] at last
        cases last
    refine ⟨b, ends, ?_, ?_, fun _ n behind => total.isOld_of_lt sound.valid short (by omega)⟩
    · apply sound'.move further (same ▸ fun _ => id)
      intro i less
      left
      rw [further.acked]
      exact sound'.marked i (set i less)
    · apply (out.sublist (dropWhile_sublist _)).move sound.valid total
      apply ahead_of_dropWhile out.increasing
      intro m behind
      exact total.isOld_of_lt sound.valid short behind

/-! ## The queue of MPDUs in flight -/

/-- **A discard in the queue.** -/
theorem discard_keeps {o : Originator Body} (sound : Sound first size o.agreement)
    (fits : size ≤ 2048) (out : Outstanding size o.agreement o.inFlight) (env : Surroundings Body)
    (m : TxMpdu Body) :
    ∃ o', o.notifyDiscardedMpdu env m = .ok o' ∧ Sound first size o'.agreement ∧
      Outstanding size o'.agreement o'.inFlight ∧ o'.inFlight.Sublist o.inFlight ∧
      (env.isRetry m = false → env.isInFlight m = false → o' = o) := by
  unfold Originator.notifyDiscardedMpdu
  split
  case isTrue => exact ⟨o, rfl, sound, out, .refl _, fun _ _ => rfl⟩
  case isFalse sent =>
    split
    case isTrue => exact ⟨o, rfl, sound, out, .refl _, fun _ _ => rfl⟩
    case isFalse =>
      obtain ⟨b, ends, sound', out', -⟩ := notifyDiscardedMpdu_keeps sound fits out m.sequenceNumber
      rw [ends]
      refine ⟨_, rfl, sound', out', dropWhile_sublist _, ?_⟩
      intro retry inFlight
      simp [retry, inFlight] at sent

theorem discard_erases (sound : Sound first size a) (fits : size ≤ 2048)
    (out : Outstanding size a (before ++ m :: after))
    (sent : (env.isRetry m || env.isInFlight m) = true) (fresh : a.isOld m.sequenceNumber = false) :
    ∃ o', Originator.notifyDiscardedMpdu ⟨a, before ++ m :: after⟩ env m = .ok o' ∧
      ∃ old, o'.inFlight = after.dropWhile old := by
  obtain ⟨b, ends, -, -, passed⟩ := notifyDiscardedMpdu_keeps sound fits out m.sequenceNumber
  have order := (pairwise_append.mp out.increasing).2.2
  have all_old : ∀ x ∈ before, b.isOld x.sequenceNumber = true := fun x mem =>
    passed fresh _ (le_of_lt (order x mem m mem_cons_self))
  refine ⟨⟨b, after.dropWhile fun x => b.isOld x.sequenceNumber⟩, ?_, _, rfl⟩
  have was_sent : (!env.isRetry m && !env.isInFlight m) = false := by simp [← Bool.not_or, sent]
  unfold Originator.notifyDiscardedMpdu
  dsimp only
  rw [was_sent, fresh, if_neg Bool.false_ne_true, if_neg Bool.false_ne_true, ends]
  have dropped : (before ++ m :: after).dropWhile (fun x => b.isOld x.sequenceNumber) =
      after.dropWhile fun x => b.isOld x.sequenceNumber := by
    have itself : b.isOld m.sequenceNumber = true := passed fresh _ le_rfl
    rw [dropWhile_append_of_pos all_old]
    simp [itself]
  exact congrArg (fun kept => Except.ok (⟨b, kept⟩ : Originator Body)) dropped

/-- **The first loop of a Block Ack.** -/
theorem acknowledgeReceived_keeps (received : Fin 4096 → Bool) (sound : Sound first size a)
    {rest : List (TxMpdu Body)} (out : Outstanding size a (before ++ rest)) :
    ∃ o, Originator.acknowledgeReceived received a rest = .ok o ∧ Sound first size o.agreement ∧
      Outstanding size o.agreement (before ++ o.inFlight) ∧
      o.inFlight = rest.filter fun m => !received m.sequenceNumber := by
  induction rest generalizing a before with
  | nil => exact ⟨⟨a, []⟩, rfl, sound, out, rfl⟩
  | cons m after ih =>
    unfold Originator.acknowledgeReceived
    cases got : received m.sequenceNumber with
    | true =>
      have without : Outstanding size a (before ++ after) :=
        out.sublist ((sublist_cons_self m after).append_left before)
      obtain ⟨_, following, across⟩ := pairwise_append.mp out.increasing
      have right := (pairwise_cons.mp following).1
      have others : ∀ x ∈ before ++ after, x.sequenceNumber ≠ m.sequenceNumber := by
        intro x mem same
        rcases mem_append.mp mem with earlier | later
        · have := across x earlier m mem_cons_self
          rw [same] at this
          omega
        · have := right x later
          rw [same] at this
          omega
      have inside := out.inside m (mem_append_right _ mem_cons_self)
      obtain ⟨b, marks, sound', out'⟩ := notifyAckedMpdu_keeps sound without others (.inl inside)
      obtain ⟨o, done, sound'', out'', kept⟩ := ih sound' out'
      refine ⟨o, ?_, sound'', out'', ?_⟩
      · rw [if_pos rfl, marks]
        exact done
      · rw [kept, filter_cons_of_neg (by simp [got])]
    | false =>
      have regrouped : Outstanding size a ((before ++ [m]) ++ after) := by rwa [append_assoc]
      obtain ⟨o, done, sound', out', kept⟩ := ih sound regrouped
      refine ⟨⟨o.agreement, m :: o.inFlight⟩, ?_, sound', ?_, ?_⟩
      · rw [if_neg Bool.false_ne_true, done]
        rfl
      · rwa [append_assoc] at out'
      · rw [filter_cons_of_pos (by simp [got]), kept]

/-- **The search from the back** finds the place in the order. -/
theorem storeBack_spec (sound : Sound first size a) {mpdu : TxMpdu Body}
    (whole : mpdu.fragmentNumber = 0) {reversed stored : List (TxMpdu Body)}
    (decreasing : reversed.Pairwise fun x y =>
      a.distance y.sequenceNumber < a.distance x.sequenceNumber)
    (all_whole : ∀ m ∈ reversed, m.fragmentNumber = 0)
    (done : Originator.storeBack a mpdu reversed = some stored) :
    (stored.Pairwise fun x y => a.distance y.sequenceNumber < a.distance x.sequenceNumber) ∧
      ∀ m ∈ stored, m = mpdu ∨ m ∈ reversed := by
  induction decreasing generalizing stored with
  | nil =>
    cases done
    exact ⟨pairwise_singleton _ _, fun m mem => .inl (mem_singleton.mp mem)⟩
  | @cons x earlier less sorted ih =>
    unfold Originator.storeBack at done
    dsimp only at done
    split at done
    case isTrue => cases done
    case isFalse different =>
      have head_whole := all_whole x mem_cons_self
      have unequal : a.distance mpdu.sequenceNumber ≠ a.distance x.sequenceNumber := by
        intro same
        apply different
        unfold TxMpdu.sequenceControl
        rw [distance_inj sound.valid same, whole, head_whole]
      split at done
      case isTrue further =>
        cases done
        have beyond : a.distance x.sequenceNumber < a.distance mpdu.sequenceNumber :=
          further.resolve_right fun tie => unequal tie.1
        refine ⟨pairwise_cons.mpr ⟨?_, pairwise_cons.mpr ⟨less, sorted⟩⟩,
          fun m mem => mem_cons.mp mem⟩
        intro m mem
        cases mem with
        | head => exact beyond
        | tail _ older => exact lt_trans (less m older) beyond
      case isFalse nearer =>
        obtain ⟨placed, search, rfl⟩ := Option.map_eq_some_iff.mp done
        obtain ⟨sorted', members⟩ := ih (fun m mem => all_whole m (mem_cons_of_mem _ mem)) search
        refine ⟨pairwise_cons.mpr ⟨?_, sorted'⟩, ?_⟩
        · intro m mem
          rcases members m mem with rfl | older
          · have := fun lower => nearer (.inl lower)
            omega
          · exact less m older
        · intro m mem
          cases mem with
          | head => exact .inr mem_cons_self
          | tail _ older => exact (members m older).imp_right (mem_cons_of_mem _)

theorem Outstanding.others (out : Outstanding size a mpdus) (erased : Fin 4096) :
    ∀ m ∈ mpdus.eraseP fun m => m.sequenceNumber = erased, m.sequenceNumber ≠ erased := by
  have increasing := out.increasing
  clear out
  induction increasing with
  | nil => nofun
  | @cons x rest less _ ih =>
    intro m mem
    by_cases head : x.sequenceNumber = erased
    · rw [eraseP_cons_of_pos (by simp [head])] at mem
      intro same
      have := less m mem
      rw [head, same] at this
      omega
    · rw [eraseP_cons_of_neg (by simp [head])] at mem
      cases mem with
      | head => exact head
      | tail _ later => exact ih m later

namespace Surroundings

variable (env : Surroundings Body)

/-- The lifetime of the MPDU is over, which discards it. -/
def discards (m : TxMpdu Body) : Bool :=
  env.isQueued m && env.ttlExceeded m && (env.isRetry m || env.isInFlight m)

/-- The MPDU stays in flight. -/
def remains (status : Finset Nat → MpduStatus) (m : TxMpdu Body) : Bool :=
  env.isQueued m && !env.ttlExceeded m && decide (status (env.getInFlightLinkIds m) = .stayInflight)

end Surroundings

namespace Originator

/-- A sound window with MPDUs in order. -/
def Kept (first size : Nat) (o : Originator Body) : Prop :=
  Sound first size o.agreement ∧ Outstanding size o.agreement o.inFlight

theorem create_kept {startingSeq : Nat} (inSpace : startingSeq < 4096) (pos : 0 < size) :
    Kept startingSeq size (create startingSeq size : Originator Body) := by
  refine ⟨⟨init_valid inSpace pos, winSize_init _ _,
    (Nat.mod_eq_of_lt inSpace).symm, ?_, ?_⟩, .nil, nofun, nofun, nofun⟩
  · intro n from_first less
    exact absurd less (not_lt.mpr from_first)
  · intro d set
    unfold create OriginatorBlockAckAgreement.create at set
    rw [bits_init] at set
    cases set

/-- The MPDUs in flight are in order inside the window, each number before the window was
acknowledged or passed by a discard, and the bits that are set are of acknowledged numbers. -/
structure InWindow (first : Nat) (o : Originator Body) : Prop where
  increasing : o.inFlight.Pairwise fun x y =>
    o.agreement.distance x.sequenceNumber < o.agreement.distance y.sequenceNumber
  inside : ∀ m ∈ o.inFlight, o.agreement.distance m.sequenceNumber < o.agreement.txWindow.winSize
  at_start : o.agreement.txWindow.winStart = o.agreement.start % 4096
  settled : ∀ n, first ≤ n → n < o.agreement.start → o.agreement.Settled n
  marked : ∀ d < o.agreement.txWindow.winSize, o.agreement.txWindow.bitAt d = true →
    o.agreement.start + d ∈ o.agreement.acked

theorem Kept.inWindow {o : Originator Body} (kept : Kept first size o) : InWindow first o := by
  obtain ⟨sound, out⟩ := kept
  refine ⟨out.increasing, ?_, sound.at_start, sound.settled, ?_⟩
  · rw [sound.winSize]
    exact out.inside
  · intro d inside set
    apply sound.marked
    rwa [bits_of_lt inside]

/-- An MPDU is stored inside the window, whole and not acknowledged. An acknowledged one is not
beyond the window. No lifetime is found to be over behind an MPDU that stays in flight. -/
def Allowed (o : Originator Body) : OriginatorEvent Body → Prop
  | .store mpdu =>
    o.agreement.distance mpdu.sequenceNumber < o.agreement.txWindow.winSize ∧
      mpdu.fragmentNumber = 0 ∧
      o.agreement.txWindow.bitAt (o.agreement.distance mpdu.sequenceNumber) = false
  | .gotAck mpdu =>
    o.agreement.distance mpdu.sequenceNumber < o.agreement.txWindow.winSize ∨
      2048 ≤ o.agreement.distance mpdu.sequenceNumber
  | .missedAck env mpdu =>
    o.inFlight.Pairwise fun _ y =>
      y.sequenceNumber = mpdu.sequenceNumber → env.discards y = false
  | .gotBlockAck env linkId received =>
    (o.inFlight.filter fun m => !received m.sequenceNumber).Pairwise fun x y =>
      env.remains (unacknowledgedStatus linkId) x = true → env.discards y = false
  | .missedBlockAck env linkId =>
    o.inFlight.Pairwise fun x y =>
      env.remains (missedStatus linkId) x = true → env.discards y = false
  | .discarded _ _ => True

instance (o : Originator Body) (event : OriginatorEvent Body) : Decidable (o.Allowed event) := by
  cases event <;> unfold Allowed <;> infer_instance

theorem Kept.store {o : Originator Body} (kept : Kept first size o)
    {mpdu : TxMpdu Body} (allowed : o.Allowed (.store mpdu)) :
    ∃ o', o.storePacket mpdu = .ok o' ∧ Kept first size o' := by
  obtain ⟨sound, out⟩ := kept
  obtain ⟨inside, whole, unmarked⟩ := allowed
  have clear := (bits_of_lt inside).trans unmarked
  unfold storePacket
  split
  case isTrue => exact ⟨o, rfl, sound, out⟩
  case isFalse fresh =>
    cases search : storeBack o.agreement mpdu o.inFlight.reverse with
    | none => exact ⟨o, rfl, sound, out⟩
    | some stored =>
      have members_whole : ∀ m ∈ o.inFlight.reverse, m.fragmentNumber = 0 :=
        fun m mem => out.whole m (mem_reverse.mp mem)
      obtain ⟨decreasing, members⟩ :=
        storeBack_spec sound whole (pairwise_reverse.mpr out.increasing) members_whole search
      have notified : o.agreement.notifyTransmittedMpdu mpdu.sequenceNumber = .ok o.agreement := by
        unfold notifyTransmittedMpdu
        simp [if_neg (not_le.mpr inside)]
      refine ⟨⟨o.agreement, stored.reverse⟩, ?_, sound, pairwise_reverse.mpr decreasing, ?_, ?_, ?_⟩
      · dsimp only
        rw [notified]
        rfl
      all_goals
        intro m mem
        rcases members m (mem_reverse.mp mem) with rfl | older
      · rwa [sound.winSize] at inside
      · exact out.inside m (mem_reverse.mp older)
      · exact clear
      · exact out.unmarked m (mem_reverse.mp older)
      · exact whole
      · exact out.whole m (mem_reverse.mp older)

theorem Kept.gotAck {o : Originator Body} (kept : Kept first size o) {mpdu : TxMpdu Body}
    (allowed : o.Allowed (.gotAck mpdu)) :
    ∃ o', o.notifyGotAck mpdu = .ok o' ∧ Kept first size o' := by
  obtain ⟨sound, out⟩ := kept
  have place : o.agreement.distance mpdu.sequenceNumber < size ∨
      2048 ≤ o.agreement.distance mpdu.sequenceNumber := by
    rw [← sound.winSize]
    exact allowed
  have without := out.sublist
    (eraseP_sublist (p := fun m => decide (m.sequenceNumber = mpdu.sequenceNumber)))
  obtain ⟨b, marks, sound', out'⟩ :=
    notifyAckedMpdu_keeps sound without (out.others mpdu.sequenceNumber) place
  refine ⟨⟨b, _⟩, ?_, sound', out'⟩
  unfold notifyGotAck
  rw [marks]
  rfl

end Originator

/-! ## The handling of an MPDU -/

variable [DecidableEq Body]

namespace Surroundings

variable {env : Surroundings Body} {m x : TxMpdu Body}

theorem isQueued_remove (queued : (env.remove m).isQueued x = true) : env.isQueued x = true :=
  (Bool.and_eq_true_iff.mp queued).1

theorem discards_remove (ends : (env.remove m).discards x = true) : env.discards x = true := by
  unfold discards isInFlight at *
  simp only [Bool.and_eq_true, Bool.or_eq_true] at *
  obtain ⟨⟨queued, expired⟩, sent⟩ := ends
  exact ⟨⟨isQueued_remove queued, expired⟩, sent.imp_right fun h => ⟨isQueued_remove h.1, h.2⟩⟩

theorem remains_remove {status : Finset Nat → MpduStatus}
    (stays : (env.remove m).remains status x = true) : env.remains status x = true := by
  unfold remains getInFlightLinkIds at *
  simp only [Bool.and_eq_true] at *
  obtain ⟨⟨queued, alive⟩, is⟩ := stays
  have there := isQueued_remove queued
  rw [if_pos queued] at is
  rw [if_pos there]
  exact ⟨⟨there, alive⟩, is⟩

end Surroundings

/-- What the handling of an MPDU leaves: it moves on, or the MPDU has left the EDCA queue. -/
inductive Handled (env : Surroundings Body) (status : Finset Nat → MpduStatus)
    (before : List (TxMpdu Body)) (m : TxMpdu Body) (after : List (TxMpdu Body)) :
    Cursor Body → Prop where
  | erased (a : OriginatorBlockAckAgreement) :
      Handled env status before m after ⟨env, a, before, after⟩
  | stayed (a : OriginatorBlockAckAgreement) : env.remains status m = true →
      Handled env status before m after ⟨env, a, before ++ [m], after⟩
  | expired (a : OriginatorBlockAckAgreement) {rest : List (TxMpdu Body)} :
      env.isQueued m = true → rest.Sublist (m :: after) →
      Handled env status before m after ⟨env.remove m, a, before, rest⟩

/-- **The handling of an MPDU.** An MPDU that it discards has none before it. -/
theorem handleInFlightMpdu_keeps (status : Finset Nat → MpduStatus) (sound : Sound first size a)
    (fits : size ≤ 2048) (out : Outstanding size a (before ++ m :: after))
    (safe : env.discards m = true → before = []) :
    ∃ c, Originator.handleInFlightMpdu env (status (env.getInFlightLinkIds m)) a before m after =
        .ok c ∧
      Sound first size c.agreement ∧ Outstanding size c.agreement (c.before ++ c.rest) ∧
      Handled env status before m after c := by
  have without : Outstanding size a (before ++ after) :=
    out.sublist ((sublist_cons_self m after).append_left before)
  unfold Originator.handleInFlightMpdu
  cases queued : env.isQueued m with
  | false => exact ⟨_, rfl, sound, without, .erased a⟩
  | true =>
    rw [Bool.not_true, if_neg Bool.false_ne_true]
    split
    case isTrue => exact ⟨_, rfl, sound, without, .erased a⟩
    split
    case isTrue => exact ⟨_, rfl, sound, without, .erased a⟩
    cases expired : env.ttlExceeded m with
    | false =>
      rw [if_neg Bool.false_ne_true]
      split
      case isTrue stays =>
        refine ⟨_, rfl, sound, ?_, .stayed a ?_⟩
        · rwa [append_assoc]
        · unfold remains
          rw [queued, expired, stays]
          rfl
      case isFalse => exact ⟨_, rfl, sound, without, .erased a⟩
    | true =>
      obtain ⟨o, ends, sound', out', sub, unsent⟩ :=
        discard_keeps (o := ⟨a, before ++ m :: after⟩) sound fits out env m
      rw [if_pos rfl, ends]
      cases before with
      | nil => exact ⟨_, rfl, sound', out', .expired _ queued sub⟩
      | cons x earlier =>
        have never : (env.isRetry m || env.isInFlight m) = false := by
          by_contra sent
          have discarded : env.discards m = true := by
            unfold discards
            rw [queued, expired, Bool.eq_true_of_not_eq_false sent]
            rfl
          cases safe discarded
        obtain ⟨retry, inFlight⟩ := Bool.or_eq_false_iff.mp never
        rw [unsent retry inFlight]
        have place : (x :: earlier ++ m :: after).length - (after.length + 1) =
            (x :: earlier).length := by
          rw [length_append, length_cons, length_cons]
          omega
        have kept : ¬ (x :: earlier ++ m :: after).length ≤ after.length + 1 := by
          rw [length_append, length_cons, length_cons]
          omega
        dsimp only [bind, Except.bind]
        rw [if_neg (cons_ne_nil _ _), if_neg kept, place, take_left' rfl, drop_left' rfl]
        exact ⟨_, rfl, sound, out, .expired _ queued (.refl _)⟩

/-- No MPDU from the iterator on is discarded while one before it stays in flight. -/
structure Cursor.Safe (status : Finset Nat → MpduStatus) (c : Cursor Body) : Prop where
  before : ∀ x ∈ c.before, ∀ y ∈ c.rest, c.env.discards y = false
  rest : c.rest.Pairwise fun x y => c.env.remains status x = true → c.env.discards y = false

/-- An MPDU in the EDCA queue may be handled once more. -/
def Cursor.rounds (c : Cursor Body) : Nat := c.rest.length + c.rest.countP c.env.isQueued

theorem Handled.rounds_lt (handled : Handled env status before m after c)
    (a : OriginatorBlockAckAgreement) :
    c.rounds < (⟨env, a, before, m :: after⟩ : Cursor Body).rounds := by
  unfold Cursor.rounds
  cases handled with
  | erased =>
    have := (sublist_cons_self m after).countP_le (p := env.isQueued)
    dsimp only [length_cons]
    omega
  | stayed =>
    have := (sublist_cons_self m after).countP_le (p := env.isQueued)
    dsimp only [length_cons]
    omega
  | @expired _ rest queued sub =>
    have shorter := sub.length_le
    have fewer := sub.countP_le (p := (env.remove m).isQueued)
    have gone : (env.remove m).isQueued m = false := by
      unfold remove
      simp
    rw [countP_cons_of_neg (by rw [gone]; exact Bool.false_ne_true)] at fewer
    have others : after.countP (env.remove m).isQueued ≤ after.countP env.isQueued :=
      countP_mono_left fun x _ => isQueued_remove
    dsimp only
    rw [countP_cons_of_pos queued]
    omega

theorem Handled.safe (handled : Handled env status before m after c)
    (safe : (⟨env, a, before, m :: after⟩ : Cursor Body).Safe status) : c.Safe status := by
  obtain ⟨safe_before, safe_rest⟩ := safe
  obtain ⟨head, later⟩ := pairwise_cons.mp safe_rest
  cases handled with
  | erased => exact ⟨fun x mx y my => safe_before x mx y (mem_cons_of_mem _ my), later⟩
  | stayed _ stays =>
    refine ⟨?_, later⟩
    intro x mx y my
    rcases mem_append.mp mx with earlier | last
    · exact safe_before x earlier y (mem_cons_of_mem _ my)
    · exact head y my stays
  | expired _ _ sub =>
    have kept : ∀ y, env.discards y = false → (env.remove m).discards y = false := by
      intro y never
      by_contra ends
      have := discards_remove (Bool.eq_true_of_not_eq_false ends)
      rw [never] at this
      cases this
    refine ⟨fun x mx y my => kept y (safe_before x mx y (sub.subset my)), ?_⟩
    apply (safe_rest.sublist sub).imp
    intro x y apart stays
    exact kept y (apart (remains_remove stays))

/-- **The handling of the rest of the queue.** -/
theorem handleRounds_keeps (fits : size ≤ 2048) {rounds : Nat}
    (sound : Sound first size c.agreement) (out : Outstanding size c.agreement (c.before ++ c.rest))
    (safe : c.Safe status) (enough : c.rounds < rounds) :
    ∃ o, Originator.handleRounds status rounds c = .ok o ∧ Sound first size o.agreement ∧
      Outstanding size o.agreement o.inFlight := by
  induction rounds generalizing c with
  | zero => omega
  | succ rounds ih =>
    obtain ⟨env, a, before, rest⟩ := c
    unfold Originator.handleRounds
    cases rest with
    | nil => exact ⟨_, rfl, sound, out⟩
    | cons m after =>
      have first_only : env.discards m = true → before = [] := by
        intro ends
        apply eq_nil_iff_forall_not_mem.mpr
        intro x mem
        have := safe.before x mem m mem_cons_self
        rw [ends] at this
        cases this
      obtain ⟨c, done, sound', out', handled⟩ :=
        handleInFlightMpdu_keeps status sound fits out first_only
      have fewer : c.rounds < (⟨env, a, before, m :: after⟩ : Cursor Body).rounds :=
        handled.rounds_lt a
      obtain ⟨o, ends, kept⟩ := ih sound' out' (handled.safe safe) (by omega)
      refine ⟨o, ?_, kept⟩
      dsimp only
      rw [done]
      exact ends

theorem handleAll_keeps {o : Originator Body} (sound : Sound first size o.agreement)
    (fits : size ≤ 2048) (out : Outstanding size o.agreement o.inFlight)
    (apart : o.inFlight.Pairwise fun x y => env.remains status x = true → env.discards y = false) :
    ∃ o', o.handleAll env status = .ok o' ∧ Sound first size o'.agreement ∧
      Outstanding size o'.agreement o'.inFlight := by
  apply handleRounds_keeps fits sound out ⟨fun _ none => (not_mem_nil none).elim, apart⟩
  have := countP_le_length (p := env.isQueued) (l := o.inFlight)
  unfold Cursor.rounds
  dsimp only
  omega

/-! ## The events -/

namespace Originator

theorem Kept.missedAck {o : Originator Body} (kept : Kept first size o) (fits : size ≤ 2048)
    {env : Surroundings Body} {mpdu : TxMpdu Body} (allowed : o.Allowed (.missedAck env mpdu)) :
    ∃ o', o.notifyMissedAck env mpdu = .ok o' ∧ Kept first size o' := by
  obtain ⟨sound, out⟩ := kept
  unfold notifyMissedAck
  dsimp only
  generalize is_other : (fun m : TxMpdu Body => decide (m.sequenceNumber ≠ mpdu.sequenceNumber)) =
    other
  have split := takeWhile_append_dropWhile (p := other) (l := o.inFlight)
  cases found : o.inFlight.dropWhile other with
  | nil => exact ⟨o, rfl, sound, out⟩
  | cons m after =>
    rw [found] at split
    have same : m.sequenceNumber = mpdu.sequenceNumber := by
      have stops : other m = false := by
        have := head?_dropWhile_not other o.inFlight
        rw [found] at this
        exact this
      rw [← is_other] at stops
      exact of_not_not (of_decide_eq_false stops)
    have out' : Outstanding size o.agreement (o.inFlight.takeWhile other ++ m :: after) := by
      rwa [split]
    have first_only : env.discards m = true → o.inFlight.takeWhile other = [] := by
      intro ends
      apply eq_nil_iff_forall_not_mem.mpr
      intro x mem
      have apart := allowed
      unfold Allowed at apart
      rw [← split] at apart
      have := (pairwise_append.mp apart).2.2 x mem m mem_cons_self same
      rw [ends] at this
      cases this
    obtain ⟨c, done, sound', out'', _⟩ :=
      handleInFlightMpdu_keeps (fun _ => .toRetransmit) sound fits out' first_only
    refine ⟨c.originator, ?_, sound', out''⟩
    dsimp only
    rw [done]
    rfl

/-- **Each event** keeps the window sound and the MPDUs in order. -/
theorem Kept.step {o : Originator Body} (kept : Kept first size o) (fits : size ≤ 2048)
    {event : OriginatorEvent Body} (allowed : o.Allowed event) :
    ∃ o', o.step event = .ok o' ∧ Kept first size o' := by
  cases event with
  | store mpdu => exact kept.store allowed
  | gotAck mpdu => exact kept.gotAck allowed
  | missedAck env mpdu => exact kept.missedAck fits allowed
  | gotBlockAck env linkId received =>
    have whole : Outstanding size o.agreement ([] ++ o.inFlight) := kept.2
    obtain ⟨o', acks, sound, out, left⟩ := acknowledgeReceived_keeps received kept.1 whole
    have apart : o'.inFlight.Pairwise fun x y =>
        env.remains (unacknowledgedStatus linkId) x = true → env.discards y = false := by
      rw [left]
      exact allowed
    obtain ⟨o'', done, kept'⟩ := handleAll_keeps sound fits out apart
    refine ⟨o'', ?_, kept'⟩
    unfold Originator.step notifyGotBlockAck
    dsimp only
    rw [acks]
    exact done
  | missedBlockAck env linkId => exact handleAll_keeps kept.1 fits kept.2 allowed
  | discarded env mpdu =>
    obtain ⟨o', done, sound, out, _⟩ := discard_keeps kept.1 fits kept.2 env mpdu
    exact ⟨o', done, sound, out⟩

theorem Kept.run {o : Originator Body} (kept : Kept first size o) (fits : size ≤ 2048)
    {events : List (OriginatorEvent Body)} (meets : Machine.Meets machine Allowed o events) :
    ∃ o' out, Machine.run machine o events = some (o', out) ∧ Kept first size o' := by
  induction events generalizing o with
  | nil => exact ⟨o, [], rfl, kept⟩
  | cons event events ih =>
    cases meets with
    | cons allowed later =>
      obtain ⟨next, done, kept'⟩ := kept.step fits allowed
      have here : machine o event = some (next, []) := by
        unfold machine
        rw [done]
        rfl
      obtain ⟨o', out, run, kept''⟩ := ih kept' (later _ _ here)
      exact ⟨o', _, Machine.run_of_step here run, kept''⟩

/-- **The transmit window** holds in every run whose events are allowed: no loop goes on, no bit is
set outside the window, and no iterator goes stale. -/
theorem transmit_window_holds {startingSeq : Nat} (inSpace : startingSeq < 4096) (pos : 0 < size)
    (fits : size ≤ 2048) {events : List (OriginatorEvent Body)}
    (meets : Machine.Meets machine Allowed (create startingSeq size) events) :
    ∃ o out, Machine.run machine (create startingSeq size) events = some (o, out) ∧
      InWindow startingSeq o := by
  obtain ⟨o, out, run, kept⟩ := (create_kept inSpace pos).run fits meets
  exact ⟨o, out, run, kept.inWindow⟩

def mpduOf (sequenceNumber : Fin 4096) : TxMpdu Unit := ⟨sequenceNumber, 0, ()⟩

/-- All MPDUs are queued, each on one link, and the lifetimes of some are over. -/
def surroundings (link : TxMpdu Unit → Nat) (expired : TxMpdu Unit → Bool) :
    Surroundings Unit :=
  ⟨fun _ => true, expired, fun _ => false, fun m => {link m}⟩

theorem allowed_sound (o : Originator Unit) (event : OriginatorEvent Unit)
    (is : decide (o.Allowed event) = true) : o.Allowed event := of_decide_eq_true is

/-- The window wraps, one MPDU waits for its acknowledgment and expires first. -/
theorem expires_first : ∃ o out, Machine.run machine (create 4094 4)
        [.store (mpduOf 4095), .store (mpduOf 4094), .store (mpduOf 0),
          .gotBlockAck (surroundings (fun _ => 0) fun m => m = mpduOf 4094) 0 fun s => s = 4095,
          .store (mpduOf 1), .missedAck (surroundings (fun _ => 0) fun _ => false) (mpduOf 1),
          .store (mpduOf 1), .gotAck (mpduOf 1)] = some (o, out) ∧ InWindow 4094 o :=
  transmit_window_holds (by decide) (by decide) (by decide) (.of_checks allowed_sound (by decide))

/-- The MPDU on the other link stays in flight, and the lifetime of the next one is over. -/
theorem erased_behind : ¬ ∃ o out, Machine.run machine (create 0 64)
        [.store (mpduOf 0), .store (mpduOf 1),
          .gotBlockAck (surroundings (fun m => if m = mpduOf 0 then 1 else 0)
            fun m => m = mpduOf 1) 0 fun _ => false] = some (o, out) ∧ InWindow 0 o := by
  rintro ⟨o, out, run, _⟩
  cases run

end Originator

end Ns3.Wifi
