import Ns3.Rlc.AmReceiver

/-!
# The receive window of `LteRlcAm`

A run takes data PDUs in any order, again or never, and lets the reordering
timer expire at any time. `receive_window` says that its window is valid, that
no assertion fails, and that the PDUs placed in the buffer are passed to
`ReassembleAndDeliver` once each, in the order of their sequence numbers.
-/

namespace Ns3.Rlc.AmReceiver

open SequenceNumber10 CircularBuffer

variable {P : Type}

/-- Whether `DoReceivePdu` places the PDU in the reception buffer. -/
def places (w : AmReceiver (Nat × P)) (sn : Nat) : Bool :=
  match w.isInsideReceivingWindow ((ofNat sn).setModulusBase w.vrR) with
  | some (_, inside) => inside && !w.count sn
  | none => false

/-- A run with the PDUs it placed in the buffer and those it passed on. A PDU
carries its sequence number. -/
inductive Run : AmReceiver (Nat × P) → List (Nat × P) → List (Nat × P) → Prop
  | start : Run create [] []
  | receive {w w' : AmReceiver (Nat × P)} {placed passed out : List (Nat × P)}
      (run : Run w placed passed) {sn : Nat} (small : sn < 1024) (p : P)
      (here : w.doReceivePdu sn (sn, p) = some (w', out)) :
      Run w' (placed ++ if w.places sn then [(sn, p)] else []) (passed ++ out)
  | expire {w w' : AmReceiver (Nat × P)} {placed passed : List (Nat × P)}
      (run : Run w placed passed) (on : w.reorderingTimer = true)
      (here : w.expireReorderingTimer = some w') : Run w' placed passed

/-- How far a sequence number lies ahead of VR(R). -/
def ahead (w : AmReceiver P) (sn : Nat) : Nat := Circular.offset 1024 w.vrR.value sn

structure WindowValid (w : AmReceiver P) : Prop where
  bases : w.vrR.modulusBase = w.vrR.value ∧ w.vrMr.modulusBase = w.vrR.value ∧
    w.vrX.modulusBase = w.vrR.value ∧ w.vrMs.modulusBase = w.vrR.value ∧
    w.vrH.modulusBase = w.vrR.value
  order : w.ahead w.vrMs.value ≤ w.ahead w.vrH.value ∧
    w.ahead w.vrH.value ≤ w.ahead w.vrMr.value ∧ w.ahead w.vrMr.value = 512
  /-- VR(X) lies after VR(R), and no further than VR(H) -/
  running : w.reorderingTimer = true →
    0 < w.ahead w.vrX.value ∧ w.ahead w.vrX.value ≤ w.ahead w.vrH.value
  keys : ∀ sn, w.count sn = true → sn < 1024 ∧ w.ahead sn < w.ahead w.vrH.value
  missing : w.count w.vrR.value = false ∧ w.count w.vrMs.value = false
  timer : w.ahead w.vrMs.value < w.ahead w.vrH.value → w.reorderingTimer = true

/-- What is still in the buffer. -/
def buffered (w : AmReceiver P) : List P := (List.range 1024).filterMap w.rxonBuffer

/-! ## The invariant -/

variable {w : AmReceiver (Nat × P)} {r ms h : Nat} {placed passed : List (Nat × P)}

theorem counts_valid {w : AmReceiver P} (counts : Counts w r ms h) : WindowValid w := by
  have r_le_ms := counts.r_le_ms
  have ms_le_h := counts.ms_le_h
  have h_le_mr := counts.h_le_mr
  have at_ (k : Nat) (hk : r ≤ k) (hk' : k < r + 1024) : w.ahead (k % 1024) = k - r := by
    have offset := Circular.offset_add r (show k - r < 1024 by omega)
    rw [show r + (k - r) = k by omega] at offset
    simpa only [ahead, counts.vrR, numbered_value] using offset
  have edge : w.ahead w.vrH.value = h - r := by
    rw [counts.vrH]
    exact at_ h (by omega) (by omega)
  have gap : w.ahead w.vrMs.value = ms - r := by
    rw [counts.vrMs]
    exact at_ ms r_le_ms (by omega)
  have mr : w.ahead w.vrMr.value = 512 := by
    rw [counts.vrMr, numbered_value, at_ (r + 512) (by omega) (by omega)]
    omega
  have base : w.vrR.value = r % 1024 := by simp [counts.vrR]
  constructor
  · rw [counts.vrX, base, counts.vrR, counts.vrMr, counts.vrMs, counts.vrH]
    exact ⟨rfl, rfl, rfl, rfl, rfl⟩
  · omega
  · intro on
    obtain ⟨x, hx, hx', vrX⟩ := counts.running on
    rw [edge, vrX, numbered_value, at_ x (by omega) (by omega)]
    omega
  · intro sn key
    obtain ⟨k, hk, hk', rfl⟩ := mem_residues.mp (counts.within sn key)
    rw [edge, at_ k hk (by omega)]
    omega
  · rw [counts.vrR, counts.vrMs]
    simp [count, counts.missingR, counts.missingMs]
  · intro behind
    cases on : w.reorderingTimer with
    | true => rfl
    | false =>
      have := counts.idle on
      omega

/-- What is proved of every run. -/
structure Delivers (w : AmReceiver (Nat × P)) (placed passed : List (Nat × P)) : Prop where
  tagged : ∀ key pdu, w.rxonBuffer key = some pdu → pdu.1 = key
  sorted : passed.map Prod.fst = residues 1024 0 passed.length
  held : ∃ ms h, Counts w passed.length ms h ∧
    (passed ++ pending 1024 w.rxonBuffer passed.length h).Perm placed

theorem create_delivers : Delivers (create : AmReceiver (Nat × P)) [] [] where
  tagged := fun key pdu some => by simp [create] at some
  sorted := by simp [residues]
  held := ⟨0, 0, create_counts, by simp⟩

theorem places_eq {n : Nat} (counts : Counts w r ms h) (low : r ≤ n) (near : n < r + 1024) :
    w.places (n % 1024) = (decide (n < r + 512) && !w.count (n % 1024)) := by
  unfold places
  rw [seqNumber_eq counts, isInside_eq counts.vrR counts.vrMr rfl low near]

/-- Without a gap the pending PDUs carry the numbers from `lo` up to `hi`. -/
theorem pending_numbers {buf : Nat → Option (Nat × P)} {lo hi : Nat}
    (tagged : ∀ key pdu, buf key = some pdu → pdu.1 = key) (order : lo ≤ hi)
    (full : ∀ k, lo ≤ k → k < hi → (buf (k % 1024)).isSome = true) :
    (pending 1024 buf lo hi).map Prod.fst = residues 1024 lo hi := by
  obtain ⟨d, rfl⟩ := Nat.exists_eq_add_of_le order
  induction d generalizing lo with
  | zero => simp [residues]
  | succ d ih =>
    obtain ⟨pdu, here⟩ := Option.isSome_iff_exists.mp (full lo (le_refl lo) (by omega))
    have later : (pending 1024 buf (lo + 1) (lo + 1 + d)).map Prod.fst =
        residues 1024 (lo + 1) (lo + 1 + d) :=
      ih (by omega) fun k hk hk' => full k (by omega) (by omega)
    rw [show lo + 1 + d = lo + (d + 1) by omega] at later
    rw [pending_step (by omega), here, residues, range'_step (by omega)]
    simp [tagged _ _ here, later, residues]

theorem place_tagged (tagged : ∀ key pdu, w.rxonBuffer key = some pdu → pdu.1 = key) (sn : Nat)
    (p : P) :
    ∀ key pdu, (w.place sn (sn, p)).rxonBuffer key = some pdu → pdu.1 = key := by
  intro key pdu some
  by_cases here : key = sn
  · unfold place at some
    split at some
    · exact tagged key pdu some
    · simp only [here, Function.update_self, Option.some.injEq] at some
      rw [← some, here]
  · rw [place_other w here] at some
    exact tagged key pdu some

theorem place_perm {n : Nat} (counts : Counts w r ms h) (low : r ≤ n) (near : n < r + 512) (p : P) :
    (pending 1024 (w.place (n % 1024) (n % 1024, p)).rxonBuffer r (max h (n + 1))).Perm
      (pending 1024 w.rxonBuffer r h ++
        if !w.count (n % 1024) then [(n % 1024, p)] else []) := by
  have r_le_ms := counts.r_le_ms
  have ms_le_h := counts.ms_le_h
  have h_le_mr := counts.h_le_mr
  have extended : pending 1024 w.rxonBuffer r (max h (n + 1)) = pending 1024 w.rxonBuffer r h :=
    counts.within.pending_extend (by omega) (le_max_left h (n + 1)) (by omega)
  cases there : w.count (n % 1024) with
  | true =>
    have same : w.place (n % 1024) (n % 1024, p) = w := if_pos there
    simp [same, extended]
  | false =>
    have same : (w.place (n % 1024) (n % 1024, p)).rxonBuffer =
        Function.update w.rxonBuffer (n % 1024) (some (n % 1024, p)) := by simp [place, there]
    have fresh : w.rxonBuffer (n % 1024) = none := by simpa [count] using there
    have inserted := pending_insert_perm (n % 1024, p) fresh low
      (show n < max h (n + 1) by omega) (by omega)
    rw [extended] at inserted
    rw [same]
    exact inserted.trans (List.perm_append_singleton _ _).symm

theorem receive_delivers {w' : AmReceiver (Nat × P)} {out : List (Nat × P)}
    (delivers : Delivers w placed passed) {sn : Nat} (small : sn < 1024) (p : P)
    (here : w.doReceivePdu sn (sn, p) = some (w', out)) :
    Delivers w' (placed ++ if w.places sn then [(sn, p)] else []) (passed ++ out) := by
  obtain ⟨tagged, sorted, ms, h, counts, perm⟩ := delivers
  have r_le_ms := counts.r_le_ms
  have ms_le_h := counts.ms_le_h
  have h_le_mr := counts.h_le_mr
  obtain ⟨n, low, near, rfl⟩ := Circular.exists_counter passed.length small
  rw [places_eq counts low near]
  by_cases inside : n < passed.length + 512
  · obtain ⟨w'', r', ms', low', done, full, buffer, counts'⟩ :=
      receive_inside counts low inside (n % 1024, p) rfl
    cases here.symm.trans done
    have tagged' := place_tagged tagged (n % 1024) p
    have numbers := pending_numbers tagged' low' full
    have r'_le_h : r' ≤ max h (n + 1) := counts'.r_le_ms.trans counts'.ms_le_h
    have reached : (passed ++ pending 1024 (w.place (n % 1024) (n % 1024, p)).rxonBuffer
        passed.length r').length = r' := by
      have := congrArg List.length numbers
      rw [List.length_map, residues, List.length_map, List.length_range'] at this
      rw [List.length_append, this]
      omega
    refine ⟨?_, ?_, ms', max h (n + 1), by rwa [reached], ?_⟩
    · intro key pdu some
      rw [buffer] at some
      unfold cleared at some
      split at some
      · exact absurd some (by simp)
      · exact tagged' key pdu some
    · rw [reached, List.map_append, sorted, numbers, ← residues_split (Nat.zero_le _) low']
    · rw [reached, buffer, List.append_assoc, pending_cleared low' r'_le_h (by omega)]
      have perm' := place_perm counts low inside p
      simp only [inside]
      exact (List.Perm.append_left passed perm').trans (by
        rw [← List.append_assoc]
        exact perm.append_right _)
  · rw [receive_outside counts (by omega) near] at here
    obtain ⟨rfl, rfl⟩ := by simpa using here
    simp only [inside, decide_false, Bool.false_and, Bool.false_eq_true, ↓reduceIte,
      List.append_nil]
    exact ⟨tagged, sorted, ms, h, counts, perm⟩

theorem expire_delivers {w' : AmReceiver (Nat × P)} (delivers : Delivers w placed passed)
    (on : w.reorderingTimer = true) (here : w.expireReorderingTimer = some w') :
    Delivers w' placed passed := by
  obtain ⟨tagged, sorted, ms, h, counts, perm⟩ := delivers
  obtain ⟨w'', ms', done, buffer, counts'⟩ := expire_spec counts on
  obtain rfl : w'' = w' := Option.some.inj (done.symm.trans here)
  refine ⟨?_, sorted, ms', h, counts', ?_⟩
  · rwa [buffer]
  · rwa [buffer]

theorem run_delivers (run : Run w placed passed) : Delivers w placed passed := by
  induction run with
  | start => exact create_delivers
  | receive _ small p here ih => exact receive_delivers ih small p here
  | expire _ on here ih => exact expire_delivers ih on here

/-- No assertion fails in a state with counters. -/
theorem receive_isSome (counts : Counts w r ms h) {sn : Nat} (small : sn < 1024) (p : P) :
    (w.doReceivePdu sn (sn, p)).isSome = true := by
  obtain ⟨n, low, near, rfl⟩ := Circular.exists_counter r small
  by_cases inside : n < r + 512
  · obtain ⟨w', r', ms', -, done, -⟩ := receive_inside counts low inside _ rfl
    rw [done]
    rfl
  · rw [receive_outside counts (by omega) near]
    rfl

/-- **Receive window.** In every run the window is valid, the next step fails
no assertion, and the PDUs placed are passed on or still in the buffer, once
each; those passed on bear the numbers 0, 1, 2, … -/
theorem receive_window {w : AmReceiver (Nat × P)} {placed passed : List (Nat × P)}
    (run : Run w placed passed) :
    WindowValid w ∧ (∀ sn p, sn < 1024 → (w.doReceivePdu sn (sn, p)).isSome = true) ∧
      (w.reorderingTimer = true → w.expireReorderingTimer.isSome = true) ∧
      (passed ++ w.buffered).Perm placed ∧
      passed.map Prod.fst = (List.range passed.length).map (fun n => n % 1024) ∧
      w.vrR.value = passed.length % 1024 := by
  obtain ⟨tagged, sorted, ms, h, counts, perm⟩ := run_delivers run
  have width : h ≤ passed.length + 1024 := by
    have := counts.h_le_mr
    omega
  refine ⟨counts_valid counts, fun sn p small => receive_isSome counts small p, ?_, ?_, ?_, ?_⟩
  · intro on
    obtain ⟨w', ms', done, -⟩ := expire_spec counts on
    rw [done]
    rfl
  · exact ((counts.within.pending_perm (by decide) width).append_left passed).symm.trans perm
  · rw [sorted, residues_zero]
  · simp [counts.vrR]

/-- PDU 1 waits in the buffer for PDU 0, which comes twice. -/
theorem two_passed_in_order :
    ∃ w : AmReceiver (Nat × Char), Run w [(1, 'b'), (0, 'a')] [(0, 'a'), (1, 'b')] ∧
      WindowValid w := by
  have first := (@Run.start Char).receive (show 1 < 1024 by decide) 'b' rfl
  have second := first.receive (show 0 < 1024 by decide) 'a' rfl
  have third := second.receive (show 0 < 1024 by decide) 'c' rfl
  exact ⟨_, third, (receive_window third).1⟩

end Ns3.Rlc.AmReceiver
