import Ns3.Wifi.TransmitWindow

/-!
# Expired MPDUs in flight

`HandleInFlightMpdu` keeps the predecessor of an MPDU whose lifetime is over, and the discard of
that MPDU erases the predecessor. What the loops over the queue visit.
-/

namespace Ns3.Wifi

open OriginatorBlockAckAgreement List

variable {Body : Type} [DecidableEq Body]

/-- The MPDU comes to the check of its lifetime, which is over. -/
structure Expires (env : Surroundings Body) (a : OriginatorBlockAckAgreement)
    (m : TxMpdu Body) : Prop where
  queued : env.isQueued m = true
  fresh : a.isOld m.sequenceNumber = false
  ended : env.ttlExceeded m = true

/-- The MPDU is a retry or in flight, so that it may be discarded. -/
def Surroundings.sent (env : Surroundings Body) (m : TxMpdu Body) : Bool :=
  env.isRetry m || env.isInFlight m

/-- The position that is returned is that of the first MPDU that followed and remains after the
discard. -/
def Advances (env : Surroundings Body) (status : MpduStatus) (a : OriginatorBlockAckAgreement)
    (before : List (TxMpdu Body)) (m : TxMpdu Body) (after : List (TxMpdu Body)) : Prop :=
  ∃ o c, Originator.notifyDiscardedMpdu ⟨a, before ++ m :: after⟩ env m = .ok o ∧
    Originator.handleInFlightMpdu env status a before m after = .ok c ∧
    c.before ++ c.rest = o.inFlight ∧ c.rest = after.filter fun x => decide (x ∈ o.inFlight)

/-! ## The loops, with the MPDUs that they handle -/

namespace Originator

/-- The loop over the rest of the queue. -/
def visitRounds (status : Finset Nat → MpduStatus) :
    Nat → Cursor Body → Except Failure (Originator Body × List (TxMpdu Body))
  | 0, _ => .error .endless
  | rounds + 1, c =>
    match c.rest with
    | [] => .ok (c.originator, [])
    | m :: after => do
      let c ← handleInFlightMpdu c.env (status (c.env.getInFlightLinkIds m)) c.agreement c.before m
        after
      let (o, visits) ← visitRounds status rounds c
      return (o, m :: visits)

/-- The loop of `NeedBarRetransmission`, with its answer. It ends at an MPDU that stays. -/
def needBarRounds : Nat → Cursor Body → Except Failure (Bool × Originator Body × List (TxMpdu Body))
  | 0, _ => .error .endless
  | rounds + 1, c =>
    match c.rest with
    | [] => .ok (false, c.originator, [])
    | m :: after => do
      let c ← handleInFlightMpdu c.env .stayInflight c.agreement c.before m after
      if c.before = [] then
        let (answer, o, visits) ← needBarRounds rounds c
        return (answer, o, m :: visits)
      else return (true, c.originator, [m])

variable (o : Originator Body)

def visitAll (env : Surroundings Body) (status : Finset Nat → MpduStatus) :
    Except Failure (Originator Body × List (TxMpdu Body)) :=
  visitRounds status (2 * o.inFlight.length + 1) ⟨env, o.agreement, [], o.inFlight⟩

def needBarRetransmission (env : Surroundings Body) :
    Except Failure (Bool × Originator Body × List (TxMpdu Body)) :=
  needBarRounds (o.inFlight.length + 1) ⟨env, o.agreement, [], o.inFlight⟩

end Originator

/-! ## One MPDU -/

section

variable {first size : Nat} {a : OriginatorBlockAckAgreement} {before after : List (TxMpdu Body)}
  {m : TxMpdu Body} {env : Surroundings Body}

theorem Outstanding.nodup {mpdus : List (TxMpdu Body)} (out : Outstanding size a mpdus) :
    mpdus.Nodup :=
  out.increasing.imp fun less same => absurd (same ▸ less) (lt_irrefl _)

theorem filter_mem_dropWhile {α : Type} [DecidableEq α] (old : α → Bool) {xs : List α}
    (nodup : xs.Nodup) : (xs.filter fun x => decide (x ∈ xs.dropWhile old)) = xs.dropWhile old := by
  have split := takeWhile_append_dropWhile (p := old) (l := xs)
  rw [← split] at nodup
  have apart := nodup_append.mp nodup
  have none : (xs.takeWhile old).filter (fun x => decide (x ∈ xs.dropWhile old)) = [] :=
    filter_eq_nil_iff.mpr fun x mem here =>
      apart.2.2 x mem x (of_decide_eq_true here) rfl
  have all : (xs.dropWhile old).filter (fun x => decide (x ∈ xs.dropWhile old)) =
      xs.dropWhile old := filter_eq_self.mpr fun x mem => decide_eq_true mem
  calc xs.filter (fun x => decide (x ∈ xs.dropWhile old))
      = (xs.takeWhile old ++ xs.dropWhile old).filter fun x => decide (x ∈ xs.dropWhile old) := by
        rw [split]
    _ = xs.dropWhile old := by rw [filter_append, none, all, nil_append]

theorem handle_front {o : Originator Body} {status : MpduStatus} (expires : Expires env a m)
    (alive : status ≠ .acknowledged)
    (ends : Originator.notifyDiscardedMpdu ⟨a, m :: after⟩ env m = .ok o) :
    Originator.handleInFlightMpdu env status a [] m after =
      .ok ⟨env.remove m, o.agreement, [], o.inFlight⟩ := by
  unfold Originator.handleInFlightMpdu
  simp [expires.queued, expires.fresh, expires.ended, alive, ends, bind, Except.bind, pure,
    Except.pure]

theorem discard_unsent (unsent : env.sent m = false) (o : Originator Body) :
    o.notifyDiscardedMpdu env m = .ok o := by
  obtain ⟨retry, inFlight⟩ := Bool.or_eq_false_iff.mp unsent
  unfold Originator.notifyDiscardedMpdu
  simp [retry, inFlight]

/-- **The position after an expired MPDU** is right exactly when the MPDU was sent and none is
before it. -/
theorem advances_iff (sound : Sound first size a) (fits : size ≤ 2048)
    (out : Outstanding size a (before ++ m :: after)) {status : MpduStatus}
    (expires : Expires env a m) (alive : status ≠ .acknowledged) :
    Advances env status a before m after ↔ before = [] ∧ env.sent m = true := by
  have nodup : after.Nodup := (nodup_cons.mp (nodup_append.mp out.nodup).2.1).2
  constructor
  · rintro ⟨o, c, discards, handles, whole, rest⟩
    by_contra other
    cases sent : env.sent m with
    | true =>
      obtain ⟨o', discards', old, left⟩ := discard_erases sound fits out sent expires.fresh
      obtain rfl : o' = o := Except.ok.inj (discards'.symm.trans discards)
      have behind : before ≠ [] := fun none => other ⟨none, sent⟩
      have short : o'.inFlight.length ≤ after.length + 1 := by
        rw [left]
        exact Nat.le_succ_of_le (dropWhile_sublist _).length_le
      unfold Originator.handleInFlightMpdu at handles
      simp [expires.queued, expires.fresh, expires.ended, alive, discards, behind, short, bind,
        Except.bind] at handles
    | false =>
      obtain rfl : o = ⟨a, before ++ m :: after⟩ :=
        Except.ok.inj (discards.symm.trans (discard_unsent sent _))
      have stays : c.rest = m :: after := by
        cases before with
        | nil =>
          have front := handle_front expires alive (discard_unsent sent ⟨a, m :: after⟩)
          exact (congrArg Cursor.rest (Except.ok.inj (front.symm.trans handles))).symm
        | cons x earlier =>
          have place : (x :: earlier ++ m :: after).length - (after.length + 1) =
              (x :: earlier).length := by
            rw [length_append, length_cons, length_cons]
            omega
          have room : ¬ (x :: earlier ++ m :: after).length ≤ after.length + 1 := by
            rw [length_append, length_cons, length_cons]
            omega
          unfold Originator.handleInFlightMpdu at handles
          rw [expires.queued, expires.fresh, expires.ended, discards] at handles
          dsimp only [bind, Except.bind] at handles
          rw [if_neg (by decide), if_neg alive, if_neg Bool.false_ne_true, if_pos rfl,
            if_neg (cons_ne_nil _ _), if_neg room, place, take_left' rfl,
            drop_left' rfl] at handles
          exact (congrArg Cursor.rest (Except.ok.inj handles)).symm
      have longer := congrArg List.length (stays.symm.trans rest)
      have fewer := length_filter_le (fun x => decide (x ∈ before ++ m :: after)) after
      rw [length_cons] at longer
      exact absurd fewer (by rw [← longer]; omega)
  · rintro ⟨rfl, sent⟩
    obtain ⟨o, discards, old, left⟩ := discard_erases sound fits out sent expires.fresh
    refine ⟨o, _, discards, handle_front expires alive discards, rfl, ?_⟩
    rw [left]
    exact (filter_mem_dropWhile old nodup).symm

/-! ## The loops -/

/-- Every expired MPDU was sent. -/
def AllSent (env : Surroundings Body) : Prop :=
  ∀ x, env.isQueued x = true → env.ttlExceeded x = true → env.sent x = true

theorem AllSent.remove (all : AllSent env) (m : TxMpdu Body) : AllSent (env.remove m) := by
  intro x queued ended
  have there := Surroundings.isQueued_remove queued
  have sent := all x there ended
  unfold Surroundings.sent Surroundings.isInFlight at sent ⊢
  rw [there] at sent
  rw [queued]
  exact sent

/-- What the handling of an MPDU leaves to the loop. -/
inductive LeavesOff (env : Surroundings Body) (a : OriginatorBlockAckAgreement)
    (before : List (TxMpdu Body)) (m : TxMpdu Body) (after : List (TxMpdu Body)) :
    Cursor Body → Prop where
  | erased : LeavesOff env a before m after ⟨env, a, before, after⟩
  | stayed : LeavesOff env a before m after ⟨env, a, before ++ [m], after⟩
  | expired (b : OriginatorBlockAckAgreement) {rest : List (TxMpdu Body)} :
      before = [] → rest.Sublist after → LeavesOff env a before m after ⟨env.remove m, b, [], rest⟩

theorem handle_leaves (sound : Sound first size a) (fits : size ≤ 2048)
    (out : Outstanding size a (before ++ m :: after)) (status : MpduStatus)
    (all : AllSent env) (safe : env.discards m = true → before = []) :
    ∃ c, Originator.handleInFlightMpdu env status a before m after = .ok c ∧
      LeavesOff env a before m after c := by
  by_cases expires : Expires env a m ∧ status ≠ .acknowledged
  · obtain ⟨expires, alive⟩ := expires
    have sent := all m expires.queued expires.ended
    have front : before = [] := safe (by
      unfold Surroundings.discards
      rw [expires.queued, expires.ended]
      exact sent)
    subst front
    obtain ⟨o, discards, old, left⟩ := discard_erases sound fits out sent expires.fresh
    exact ⟨_, handle_front expires alive discards,
      .expired o.agreement rfl (left ▸ dropWhile_sublist old)⟩
  · unfold Originator.handleInFlightMpdu
    split
    case isTrue => exact ⟨_, rfl, .erased⟩
    case isFalse queued =>
      split
      case isTrue => exact ⟨_, rfl, .erased⟩
      case isFalse alive =>
        split
        case isTrue => exact ⟨_, rfl, .erased⟩
        case isFalse fresh =>
          split
          case isTrue ended =>
            exact absurd ⟨⟨by simpa using queued, by simpa using fresh, ended⟩, alive⟩ expires
          case isFalse =>
            split
            case isTrue => exact ⟨_, rfl, .stayed⟩
            case isFalse => exact ⟨_, rfl, .erased⟩

namespace Originator

/-- **The loop** handles no MPDU twice, and all that remain. -/
theorem visitRounds_spec (fits : size ≤ 2048) {status : Finset Nat → MpduStatus} {rounds : Nat}
    {c : Cursor Body} (sound : Sound first size c.agreement)
    (out : Outstanding size c.agreement (c.before ++ c.rest)) (safe : c.Safe status)
    (all : AllSent c.env) (enough : c.rest.length < rounds) :
    ∃ o visits, visitRounds status rounds c = .ok (o, visits) ∧ visits.Sublist c.rest ∧
      ∀ x ∈ o.inFlight, x ∈ c.before ∨ x ∈ visits := by
  induction rounds generalizing c with
  | zero => omega
  | succ rounds ih =>
    obtain ⟨env, a, before, rest⟩ := c
    unfold visitRounds
    cases rest with
    | nil =>
      refine ⟨_, [], rfl, .refl _, fun x mem => Or.inl ?_⟩
      simpa [Cursor.originator] using mem
    | cons m after =>
      dsimp only at sound out safe all enough ⊢
      rw [length_cons] at enough
      have first_only : env.discards m = true → before = [] := fun ends =>
        eq_nil_iff_forall_not_mem.mpr fun x mem =>
          absurd ends (by
            have apart := safe.before x mem m mem_cons_self
            simp [apart])
      obtain ⟨c, done, sound', out', handled⟩ :=
        handleInFlightMpdu_keeps status sound fits out first_only
      obtain ⟨c', done', leaves⟩ :=
        handle_leaves sound fits out (status (env.getInFlightLinkIds m)) all first_only
      obtain rfl : c' = c := Except.ok.inj (done'.symm.trans done)
      have all' : AllSent c'.env := by
        cases leaves with
        | erased => exact all
        | stayed => exact all
        | expired => exact all.remove m
      have fewer : c'.rest.Sublist after := by
        cases leaves with
        | erased => exact .refl _
        | stayed => exact .refl _
        | expired _ _ sub => exact sub
      obtain ⟨o, visits, ends, sub, remain⟩ := ih sound' out' (handled.safe safe) all'
        (lt_of_le_of_lt fewer.length_le (by omega))
      refine ⟨o, m :: visits, ?_, (sub.trans fewer).cons_cons m, fun x mem => ?_⟩
      · rw [done]
        dsimp only [bind, Except.bind]
        rw [ends]
        rfl
      · rcases remain x mem with kept | visited
        · cases leaves with
          | erased => exact Or.inl kept
          | stayed =>
            rcases mem_append.mp kept with earlier | last
            · exact Or.inl earlier
            · exact Or.inr (mem_cons.mpr (Or.inl (mem_singleton.mp last)))
          | expired => cases kept
        · exact Or.inr (mem_cons_of_mem _ visited)

/-- **`NeedBarRetransmission`** handles no MPDU twice, and stops at one that stays or when none
is left. -/
theorem needBarRounds_spec (fits : size ≤ 2048) {rounds : Nat} {c : Cursor Body}
    (sound : Sound first size c.agreement) (front : c.before = [])
    (out : Outstanding size c.agreement c.rest) (all : AllSent c.env)
    (enough : c.rest.length < rounds) :
    ∃ answer o visits, needBarRounds rounds c = .ok (answer, o, visits) ∧ visits.Sublist c.rest ∧
      (answer = true → ∃ m ∈ visits.getLast?, m ∈ o.inFlight) ∧
      (answer = false → o.inFlight = []) := by
  induction rounds generalizing c with
  | zero => omega
  | succ rounds ih =>
    obtain ⟨env, a, before, rest⟩ := c
    subst front
    unfold needBarRounds
    cases rest with
    | nil => exact ⟨_, _, [], rfl, .refl _, nofun, fun _ => rfl⟩
    | cons m after =>
      dsimp only at sound out all enough ⊢
      rw [length_cons] at enough
      have whole : Outstanding size a ([] ++ m :: after) := out
      obtain ⟨c, done, sound', out', -⟩ :=
        handleInFlightMpdu_keeps (fun _ => .stayInflight) sound fits whole fun _ => rfl
      obtain ⟨c', done', leaves⟩ := handle_leaves sound fits whole .stayInflight all fun _ => rfl
      obtain rfl : c' = c := Except.ok.inj (done'.symm.trans done)
      rw [done]
      have goes_on : ∀ d : Cursor Body, d.before = [] → d.rest.Sublist after →
          AllSent d.env → Sound first size d.agreement → Outstanding size d.agreement d.rest →
          ∃ answer o visits, (do
            let (answer, o, visits) ← needBarRounds rounds d
            return (answer, o, m :: visits) : Except Failure _) = .ok (answer, o, visits) ∧
            visits.Sublist (m :: after) ∧
            (answer = true → ∃ m ∈ visits.getLast?, m ∈ o.inFlight) ∧
            (answer = false → o.inFlight = []) := by
        intro d front fewer all sound out
        obtain ⟨answer, o, visits, ends, sub, stays, none⟩ := ih sound front out all
          (lt_of_le_of_lt fewer.length_le (by omega))
        refine ⟨answer, o, m :: visits, by rw [ends]; rfl, (sub.trans fewer).cons_cons m,
          fun yes => ?_, none⟩
        obtain ⟨last, is_last, mem⟩ := stays yes
        exact ⟨last, by simp [getLast?_cons, Option.mem_def.mp is_last], mem⟩
      cases leaves with
      | erased => exact goes_on _ rfl (.refl _) all sound' out'
      | stayed =>
        refine ⟨true, _, [m], rfl, (nil_sublist after).cons_cons m, fun _ => ⟨m, rfl, ?_⟩, nofun⟩
        exact mem_cons_self
      | expired b _ sub => exact goes_on _ rfl sub (all.remove m) sound' out'

/-- The MPDUs that a loop handles: each of those that remain, and none twice. -/
structure Visits (o o' : Originator Body) (visits : List (TxMpdu Body)) : Prop where
  inOrder : visits.Sublist o.inFlight
  once : visits.Nodup
  all : ∀ m ∈ o'.inFlight, m ∈ visits

theorem visitAll_spec {o : Originator Body} (sound : Sound first size o.agreement)
    (fits : size ≤ 2048) (out : Outstanding size o.agreement o.inFlight)
    {status : Finset Nat → MpduStatus} (all : AllSent env)
    (apart : o.inFlight.Pairwise fun x y => env.remains status x = true → env.discards y = false) :
    ∃ o' visits, o.visitAll env status = .ok (o', visits) ∧ o.Visits o' visits := by
  have visited : ∃ o' visits, o.visitAll env status = .ok (o', visits) ∧
      visits.Sublist o.inFlight ∧ ∀ m ∈ o'.inFlight, m ∈ [] ∨ m ∈ visits :=
    visitRounds_spec fits (c := ⟨env, o.agreement, [], o.inFlight⟩) sound out
      ⟨fun _ none => (not_mem_nil none).elim, apart⟩ all (by dsimp only; omega)
  obtain ⟨o', visits, done, sub, remain⟩ := visited
  exact ⟨o', visits, done, sub, out.nodup.sublist sub, fun m mem =>
    (remain m mem).resolve_left not_mem_nil⟩

end Originator

end

namespace Originator

/-- **Expired MPDUs in flight.** In every queue that a run leads to, the position after an expired
MPDU is right exactly when the MPDU was sent and none is before it; and the loops visit the MPDUs
that remain once each as long as no MPDU is discarded behind one that stays. -/
theorem in_flight_expiry {startingSeq size : Nat} (inSpace : startingSeq < 4096) (pos : 0 < size)
    (fits : size ≤ 2048) {events : List (OriginatorEvent Body)}
    (meets : Machine.Meets machine Allowed (create startingSeq size) events)
    {o : Originator Body} {out : List Empty}
    (run : Machine.run machine (create startingSeq size) events = some (o, out)) :
    (∀ env status before m after, o.inFlight = before ++ m :: after → Expires env o.agreement m →
      status ≠ .acknowledged →
      (Advances env status o.agreement before m after ↔ before = [] ∧ env.sent m = true)) ∧
    ∀ env, AllSent env → (∀ linkId received, o.Allowed (.gotBlockAck env linkId received) →
        ∃ o₁ o₂ visits, acknowledgeReceived received o.agreement o.inFlight = .ok o₁ ∧
          o₁.visitAll env (unacknowledgedStatus linkId) = .ok (o₂, visits) ∧
          o₁.Visits o₂ visits) ∧
      (∀ linkId, o.Allowed (.missedBlockAck env linkId) →
        ∃ o₁ visits, o.visitAll env (missedStatus linkId) = .ok (o₁, visits) ∧ o.Visits o₁ visits) ∧
      ∃ answer o₁ visits, o.needBarRetransmission env = .ok (answer, o₁, visits) ∧
        visits.Sublist o.inFlight ∧ visits.Nodup ∧
        (answer = true → ∃ m ∈ visits.getLast?, m ∈ o₁.inFlight) ∧
        (answer = false → o₁.inFlight = []) := by
  obtain ⟨o', out', run', sound, inFlight⟩ := (create_kept inSpace pos).run fits meets
  obtain rfl : o' = o := congrArg Prod.fst (Option.some.inj (run'.symm.trans run))
  refine ⟨fun env status before m after eq expires alive => ?_, fun env all => ⟨?_, ?_, ?_⟩⟩
  · exact advances_iff sound fits (eq ▸ inFlight) expires alive
  · intro linkId received allowed
    have whole : Outstanding size o'.agreement ([] ++ o'.inFlight) := inFlight
    obtain ⟨o₁, acks, sound₁, out₁, left⟩ := acknowledgeReceived_keeps received sound whole
    have apart : o₁.inFlight.Pairwise fun x y =>
        env.remains (unacknowledgedStatus linkId) x = true → env.discards y = false := by
      rw [left]
      exact allowed
    obtain ⟨o₂, visits, done, visited⟩ := visitAll_spec sound₁ fits out₁ all apart
    exact ⟨o₁, o₂, visits, acks, done, visited⟩
  · exact fun linkId allowed => visitAll_spec sound fits inFlight all allowed
  · have asked : ∃ answer o₁ visits, o'.needBarRetransmission env = .ok (answer, o₁, visits) ∧
        visits.Sublist o'.inFlight ∧ (answer = true → ∃ m ∈ visits.getLast?, m ∈ o₁.inFlight) ∧
        (answer = false → o₁.inFlight = []) :=
      needBarRounds_spec fits (c := ⟨env, o'.agreement, [], o'.inFlight⟩) sound rfl inFlight all
        (Nat.lt_succ_self _)
    obtain ⟨answer, o₁, visits, done, sub, stays, none⟩ := asked
    exact ⟨answer, o₁, visits, done, sub, inFlight.nodup.sublist sub, stays, none⟩

/-- Two MPDUs in flight: the lifetime of the first is over. -/
theorem expired_first : ∃ o out, Machine.run machine (create 0 64)
      [.store (mpduOf 0), .store (mpduOf 1)] = some (o, out) ∧
    Advances (surroundings (fun _ => 0) fun m => m = mpduOf 0) .stayInflight o.agreement []
      (mpduOf 0) [mpduOf 1] := by
  have meets : Machine.Meets machine Allowed (create 0 64)
      [.store (mpduOf 0), .store (mpduOf 1)] := .of_checks allowed_sound (by decide)
  have expiry := (in_flight_expiry (by decide) (by decide) (by decide) meets rfl).1
  exact ⟨_, _, rfl, (expiry _ _ _ _ _ rfl ⟨rfl, by decide, rfl⟩ (by decide)).mpr ⟨rfl, by decide⟩⟩

/-- Two MPDUs in flight: the lifetime of the second is over. -/
theorem expired_behind : ∃ o out, Machine.run machine (create 0 64)
      [.store (mpduOf 0), .store (mpduOf 1)] = some (o, out) ∧
    o.inFlight = [mpduOf 0] ++ mpduOf 1 :: [] ∧
    Expires (surroundings (fun _ => 0) fun m => m = mpduOf 1) o.agreement (mpduOf 1) ∧
    ¬ Advances (surroundings (fun _ => 0) fun m => m = mpduOf 1) .stayInflight o.agreement
      [mpduOf 0] (mpduOf 1) [] := by
  refine ⟨_, _, rfl, by decide, ⟨rfl, by decide, rfl⟩, ?_⟩
  rintro ⟨o, c, -, handles, -⟩
  cases handles

end Originator

end Ns3.Wifi
