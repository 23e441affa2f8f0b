import Ns3.Rlc.UmWindow

/-!
# The counters behind the receive window

`Counts w r h`: the state variables stand for counters `r` and `h`, and the
buffer holds PDUs from `r` up to `h` only. `receive_accepted` and `expire_spec`
say what the two operations do to the counters and which PDUs they pass on.
-/

namespace Ns3.Rlc.UmWindow

open SequenceNumber10 CircularBuffer List

variable {Pdu : Type} {w : UmWindow Pdu} {r h n : Nat}

structure Counts (w : UmWindow Pdu) (r h : Nat) : Prop where
  ur : w.vrUr.value = r % 1024
  uh : w.vrUh.value = h % 1024
  order : r ≤ h
  width : h ≤ r + 512
  within : Within 1024 w.rxBuffer r h
  idle : w.reorderingTimer = false → r = h
  running : w.reorderingTimer = true → w.vrUr = numbered (h + 512) r ∧
    w.vrUh = numbered (h + 512) h ∧ ∃ x, r < x ∧ x ≤ h ∧ w.vrUx = numbered (h + 512) x

theorem create_counts : Counts (create : UmWindow Pdu) 0 0 where
  ur := rfl
  uh := rfl
  order := le_refl 0
  width := by decide
  within := fun key some => by simp [create] at some
  idle := fun _ => rfl
  running := fun on => by simp [create] at on

theorem Counts.missing (counts : Counts w r h) : w.rxBuffer (h % 1024) = none := by
  have := counts.order
  have := counts.width
  exact counts.within.eq_none (by omega) (le_refl h) (by omega) counts.order

variable {sn : Nat} {buf : Nat → Option Pdu}

theorem Counts.key_lt (counts : Counts w r h) (some : w.count sn = true) : sn < 1024 := by
  obtain ⟨k, _, _, rfl⟩ := mem_residues.mp (counts.within sn some)
  exact Nat.mod_lt _ (by decide)

/-! ## Moving VR(UR) over what was received -/

/-- VR(UR) ends at a missing number, or the scan was cut off at 1024 while 0
is stored. -/
theorem advanceVrUr_spec {b stop : Nat} (ur : w.vrUr = numbered b r) (base : b ≤ r + 1024)
    (order : r ≤ stop) (circle : stop < b) (width : stop ≤ r + 512)
    (missing : w.rxBuffer (stop % 1024) = none) (top : w.count 1024 = false) :
    ∃ r', r ≤ r' ∧ r' ≤ stop ∧ (∀ k, r ≤ k → k < r' → w.count (k % 1024) = true) ∧
      w.advanceVrUr = ({ w with rxBuffer := cleared 1024 w.rxBuffer r r', vrUr := numbered b r' },
        pending 1024 w.rxBuffer r r') ∧
      (w.count (r' % 1024) = false ∨ r' % 1024 = 0 ∧ w.count 0 = true ∧ r < r') := by
  unfold advanceVrUr
  rw [ur, numbered_value]
  cases here : w.count (r % 1024) with
  | false =>
    refine ⟨r, le_refl r, order, fun k hk hk' => by omega, ?_, .inl here⟩
    simp [← ur]
  | true =>
    simp only [↓reduceIte]
    have reach : ∃ limit, r % 1024 + 1 ≤ limit ∧ limit ≤ 1024 ∧
        r - r % 1024 + limit ≤ stop ∧ w.count limit = false := by
      by_cases near : stop < r - r % 1024 + 1024
      · have residue : stop % 1024 = stop - (r - r % 1024) := by omega
        have later : stop ≠ r := by
          rintro rfl
          simp [count, missing] at here
        exact ⟨stop % 1024, by omega, by omega, by omega, by simp [count, missing]⟩
      · exact ⟨1024, by omega, le_rfl, by omega, top⟩
    obtain ⟨limit, from_, small, before, fails⟩ := reach
    obtain ⟨hle, stops⟩ := Scan.skipWhile_stops 1024 from_ (by omega) fails
    have hge := Scan.le_skipWhile w.count 1024 (r % 1024 + 1)
    have skipped := fun k => Scan.skipped (p := w.count) 1024 (r % 1024 + 1) (k := k)
    generalize Scan.skipWhile Nat.succ w.count 1024 (r % 1024 + 1) = v at hle stops hge skipped
    have residue : v % 1024 = (r - r % 1024 + v) % 1024 := by omega
    have assigned : (numbered b r).assign v = numbered b (r - r % 1024 + v) := by
      simp [assign, numbered, residue]
    refine ⟨r - r % 1024 + v, by omega, by omega, ?_, ?_, ?_⟩
    · intro k hk hk'
      by_cases first : k = r
      · rw [first]
        exact here
      · rw [show k % 1024 = k - (r - r % 1024) by omega]
        exact skipped _ (by omega) (by omega)
    · rw [assigned]
      exact reassembleFrom_eq base (by omega) (by omega) (by omega)
    · by_cases cut : v = 1024
      · have zero : (r - r % 1024 + v) % 1024 = 0 := by omega
        rw [zero]
        cases stored : w.count 0 with
        | false => exact .inl rfl
        | true => exact .inr ⟨rfl, rfl, by omega⟩
      · rw [show (r - r % 1024 + v) % 1024 = v by omega]
        exact .inl stops

/-! ## Moving the window -/

/-- Every key outside the window that ends at `h` comes before every key inside. -/
def DrainsAt (h : Nat) (buf : Nat → Option Pdu) : Prop :=
  ∀ k j, (buf k).isSome = true → (buf j).isSome = true → 512 ≤ position h k →
    position h j < 512 → k < j

theorem mem_takeWhile_of_sorted {p : Nat → Bool} {keys : List Nat} (sorted : keys.Pairwise (· < ·))
    {a : Nat} (mem : a ∈ keys) (before : ∀ b ∈ keys, b ≤ a → p b = true) :
    a ∈ keys.takeWhile p := by
  induction keys with
  | nil => simp at mem
  | cons b keys ih =>
    obtain ⟨least, sorted⟩ := pairwise_cons.mp sorted
    have le : b ≤ a := by
      rcases mem_cons.mp mem with rfl | later
      · exact le_refl a
      · exact le_of_lt (least a later)
    rw [takeWhile_cons, if_pos (before b (by simp) le)]
    rcases mem_cons.mp mem with rfl | later
    · simp
    · exact mem_cons_of_mem b (ih sorted later fun c hc => before c (by simp [hc]))

/-- The keys that `ReassembleOutsideWindow` takes are those outside. -/
theorem taken_iff (drains : DrainsAt h buf) {key : Nat} (some : (buf key).isSome = true)
    (small : key < 1024) :
    key ∈ (List.range 1024).takeWhile (goesOn h buf) ↔ 512 ≤ position h key := by
  constructor
  · intro mem
    have goes := all_eq_true.mp all_takeWhile key mem
    simpa [goesOn, some] using goes
  · intro outside
    apply mem_takeWhile_of_sorted pairwise_lt_range (mem_range.mpr small)
    intro b _ hb
    unfold goesOn
    cases stored : (buf b).isSome with
    | false => rfl
    | true =>
      have notInside : ¬ position h b < 512 := fun inside =>
        absurd (drains key b some stored outside inside) (by omega)
      simp [notInside]

/-- The counters outside the window are those before its lower edge. -/
theorem outside_iff (within : Within 1024 buf r h) (reach : h ≤ r + 1024) {key : Nat}
    (some : (buf key).isSome = true) :
    512 ≤ position h key ↔ key ∈ residues 1024 r (max r (h - 512)) := by
  obtain ⟨m, hm, hm', rfl⟩ := mem_residues.mp (within key some)
  by_cases early : m + 512 < h
  · rw [position_below (by omega) early]
    exact iff_of_true (by omega) (mem_residues.mpr ⟨m, hm, by omega, rfl⟩)
  · rw [position_counter (by omega) (by omega)]
    apply iff_of_false (by omega)
    intro mem
    obtain ⟨k, hk, hk', same⟩ := mem_residues.mp mem
    have := Circular.eq_of_residue same (by omega) (by omega)
    omega

/-- The window moves up to `n + 1`; what falls out of it is passed on in order. -/
theorem moveWindow_outside (ur : w.vrUr = numbered (h + 512) r) (uh : w.vrUh.value = h % 1024)
    (order : r ≤ h) (width : h ≤ r + 512) (above : h ≤ n) (near : n < h + 512)
    (within : Within 1024 w.rxBuffer r (n + 1)) (stored : w.count (n % 1024) = true)
    (drains : DrainsAt (n + 1) w.rxBuffer) :
    w.moveWindow (numbered (h + 512) n) = ({ w with
          rxBuffer := cleared 1024 w.rxBuffer r (max r (n + 1 - 512))
          vrUr := numbered (if r + 512 < n + 1 then n + 1 + 512 else h + 512) (max r (n + 1 - 512))
          vrUh := numbered (n + 1 + 512) (n + 1) },
        pending 1024 w.rxBuffer r (max r (n + 1 - 512))) := by
  have reach : n + 1 ≤ r + 1024 := by omega
  have small (key : Nat) (some : (w.rxBuffer key).isSome = true) : key < 1024 := by
    obtain ⟨m, _, _, rfl⟩ := mem_residues.mp (within key some)
    exact Nat.mod_lt _ (by decide)
  have test := isInside_eq uh (s := numbered (h + 512) n) (Nat.mod_lt _ (by decide))
  rw [numbered_value, position_counter (by omega) near] at test
  have next : (numbered (h + 512) n).add 1 = numbered (h + 512) (n + 1) :=
    numbered_add _ _ _ (by decide)
  obtain ⟨u, hu, drained⟩ := reassembleOutsideFrom_eq
    (w := { w with vrUh := numbered (h + 512) (n + 1) }) (h := n + 1) rfl
    (fun key hk => mem_range.mp hk) nodup_range
  have mem (key : Nat) (some : (w.rxBuffer key).isSome = true) :
      key ∈ (List.range 1024).takeWhile (goesOn (n + 1) w.rxBuffer) ↔
        key ∈ residues 1024 r (max r (n + 1 - 512)) :=
    (taken_iff drains some (small key some)).trans (outside_iff within reach some)
  have buffer : (fun sn => if sn ∈ (List.range 1024).takeWhile (goesOn (n + 1) w.rxBuffer) then none
      else w.rxBuffer sn) = cleared 1024 w.rxBuffer r (max r (n + 1 - 512)) := by
    funext sn
    unfold cleared
    cases some : w.rxBuffer sn with
    | none => simp
    | some pdu => simp only [mem sn (by simp [some])]
  have output : ((List.range 1024).takeWhile (goesOn (n + 1) w.rxBuffer)).filterMap w.rxBuffer =
      pending 1024 w.rxBuffer r (max r (n + 1 - 512)) := by
    apply filterMap_eq_pending (pairwise_lt_range.sublist (takeWhile_sublist _)) mem
    intro a b ha hab hb someA someB
    -- the new PDU is inside, so its key comes after both
    have inside : position (n + 1) (n % 1024) < 512 := by
      rw [position_counter (by omega) (by omega)]
      omega
    have outA := (outside_iff within reach someA).mpr (mem_residues.mpr ⟨a, ha, by omega, rfl⟩)
    have outB := (outside_iff within reach someB).mpr (mem_residues.mpr ⟨b, by omega, hb, rfl⟩)
    have beforeA := drains _ _ someA stored outA inside
    have beforeB := drains _ _ someB stored outB inside
    omega
  have urTest := isInside_eq (w := { w with
    rxBuffer := cleared 1024 w.rxBuffer r (max r (n + 1 - 512)), vrUh := u }) (s := w.vrUr) hu
    (by rw [ur]; exact Nat.mod_lt _ (by decide))
  simp only [buffer, output, ur] at drained
  simp only [ur, numbered_value] at urTest
  unfold moveWindow
  simp only [test, next, reassembleOutsideWindow, ur, drained, urTest]
  rw [if_neg (by simp; omega)]
  by_cases fell : r + 512 < n + 1
  · rw [position_below reach fell]
    have edge : max r (n + 1 - 512) + 1024 = n + 1 + 512 := by omega
    have low : numbered (n + 1 + 512) (n + 1 + 512) =
        numbered (n + 1 + 512) (max r (n + 1 - 512)) := by rw [← edge, numbered_circle]
    simp only [if_pos fell, decide_eq_false (show ¬r + 1536 - (n + 1) < 512 by omega),
      numbered_edge, low, Bool.false_eq_true, ↓reduceIte]
  · have stays : max r (n + 1 - 512) = r := by omega
    rw [position_counter (by omega) (by omega), stays]
    simp only [if_neg fell, decide_eq_true (show r + 512 - (n + 1) < 512 by omega), ↓reduceIte]

theorem moveWindow_inside (uh : w.vrUh = numbered (h + 512) h) (low : h ≤ n + 512)
    (below : n < h) : w.moveWindow (numbered (h + 512) n) = (w, []) := by
  have test := isInside_eq (w := w) (s := numbered (h + 512) n) (by rw [uh]; rfl)
    (Nat.mod_lt _ (by decide))
  rw [numbered_value, position_counter low (by omega)] at test
  unfold moveWindow
  simp [test, decide_eq_true (show n + 512 - h < 512 by omega), ← uh]

/-! ## The reordering timer -/

/-- The timer goes on only while VR(UX) is ahead of VR(UR) and not behind the window. -/
theorem stopReorderingTimer_eq {x : Nat} (order : r ≤ h) (width : h ≤ r + 512) (near : h < x + 1024)
    (below : x ≤ h) :
    stopReorderingTimer
        ⟨buf, numbered (h + 512) r, numbered (h + 512) x, numbered (h + 512) h, true⟩ =
      ⟨buf, numbered (h + 512) r, numbered (h + 512) x, numbered (h + 512) h,
        decide (r < x ∧ h ≤ x + 512)⟩ := by
  have test := isInside_eq (w := ⟨buf, numbered (h + 512) r, numbered (h + 512) x,
    numbered (h + 512) h, true⟩) (s := numbered (h + 512) x) rfl (Nat.mod_lt _ (by decide))
  unfold stopReorderingTimer
  simp only [test, numbered_value]
  by_cases inside : h ≤ x + 512
  · have at_ := position_counter inside (by omega)
    simp only [at_]
    rw [le_numbered (by omega) (by omega) (by omega) (by omega),
      eq_numbered (by omega) (by omega) (by omega) (by omega)]
    by_cases passed : x ≤ r
    · simp [passed, show ¬r < x by omega]
    · have kept : x + 512 - h < 512 ∨ x = h := by omega
      simp [passed, inside, show r < x by omega]
      omega
  · have differ : (numbered (h + 512) x).eq (numbered (h + 512) h) = false := by
      simp only [SequenceNumber10.eq, numbered_value, beq_eq_false_iff_ne]
      omega
    have at_ : position h (x % 1024) = x + 1536 - h := position_below (by omega) (by omega)
    simp only [at_, differ]
    simp [inside, show ¬x + 1536 - h < 512 by omega]

/-- After `startReorderingTimer` the timer runs exactly while VR(UR) is behind VR(UH). -/
theorem startReorderingTimer_counts {ux : SequenceNumber10} {timer : Bool} (order : r ≤ h)
    (width : h ≤ r + 512) (within : Within 1024 buf r h)
    (on : timer = true → ∃ x, r < x ∧ x ≤ h ∧ ux = numbered (h + 512) x) :
    Counts (startReorderingTimer ⟨buf, numbered (h + 512) r, ux, numbered (h + 512) h, timer⟩) r h ∧
    (startReorderingTimer ⟨buf, numbered (h + 512) r, ux, numbered (h + 512) h, timer⟩).rxBuffer =
      buf := by
  unfold startReorderingTimer
  simp only [gt_numbered (show h + 512 ≤ h + 1024 by omega) (by omega)
    (show h + 512 ≤ r + 1024 by omega) (by omega)]
  cases timer with
  | true =>
    simp only [Bool.not_true, Bool.false_and, Bool.false_eq_true, ↓reduceIte, and_true]
    exact ⟨rfl, rfl, order, width, within, fun off => by simp at off, fun _ => ⟨rfl, rfl, on rfl⟩⟩
  | false =>
    by_cases behind : h > r
    · simp only [behind, decide_true, Bool.not_false, Bool.and_self, ↓reduceIte, and_true]
      exact ⟨rfl, rfl, order, width, within, fun off => by simp at off,
        fun _ => ⟨rfl, rfl, h, behind, le_refl h, rfl⟩⟩
    · simp only [behind, decide_false, Bool.and_false, Bool.false_eq_true, ↓reduceIte, and_true]
      exact ⟨rfl, rfl, order, width, within, fun _ => by omega, fun on => by simp at on⟩

theorem timer_counts {ur ux uh : SequenceNumber10} {timer : Bool} (hur : ur.value = r % 1024)
    (huh : uh.value = h % 1024) (order : r ≤ h) (width : h ≤ r + 512) (within : Within 1024 buf r h)
    (on : timer = true → ∃ x, h < x + 1024 ∧ x ≤ h ∧ ux.value = x % 1024) :
    Counts (rebase ⟨buf, ur, ux, uh, timer⟩).stopReorderingTimer.startReorderingTimer r h ∧
    (rebase ⟨buf, ur, ux, uh, timer⟩).stopReorderingTimer.startReorderingTimer.rxBuffer = buf := by
  unfold rebase
  simp only [setModulusBase_window hur huh, setModulusBase_window huh huh]
  cases timer with
  | false => exact startReorderingTimer_counts order width within fun on => by simp at on
  | true =>
    obtain ⟨x, near, below, hux⟩ := on rfl
    rw [setModulusBase_window hux huh, stopReorderingTimer_eq order width near below]
    apply startReorderingTimer_counts order width within
    intro on
    exact ⟨x, (of_decide_eq_true on).1, below, rfl⟩

/-! ## A received PDU -/

section

variable (counts : Counts w r h)
include counts

theorem Counts.rebased : w.rebaseForReceive =
    { w with vrUr := numbered (h + 512) r, vrUh := numbered (h + 512) h } := by
  simp only [rebaseForReceive, setModulusBase_window counts.ur counts.uh,
    setModulusBase_window counts.uh counts.uh]

theorem Counts.rebased_counts : Counts w.rebaseForReceive r h := by
  rw [counts.rebased]
  refine ⟨rfl, rfl, counts.order, counts.width, counts.within, counts.idle, fun on => ?_⟩
  exact ⟨rfl, rfl, (counts.running on).2.2⟩

/-- A PDU is kept unless it lies behind VR(UR), or inside the window while stored. -/
theorem accepts_eq (small : sn < 1024) : w.accepts sn = decide (r + 512 - h ≤ position h sn ∧
      (position h sn = r + 512 - h ∨ 512 ≤ position h sn ∨ w.count sn = false)) := by
  have order := counts.order
  have width := counts.width
  have bound := position_lt h sn
  have sn_eq : (ofNat sn).setModulusBase (w.vrUh.sub windowSize) =
      numbered (h + 512 + 1024) (h + 512 + position h sn) := by
    rw [base_circle, setModulusBase_window (n := h + 512 + position h sn) _ counts.uh]
    rw [counter_of_position h small]
    exact Nat.mod_eq_of_lt small
  have value : (numbered (h + 512 + 1024) (h + 512 + position h sn)).value = sn := by
    simp [counter_of_position h small]
  apply Bool.eq_iff_iff.mpr
  rw [decide_eq_true_eq]
  unfold accepts discards
  rw [counts.rebased, sn_eq, value, ← base_circle (h + 512) r, ← base_circle (h + 512) h]
  simp only [count]
  rw [numbered_edge, ← numbered_circle _ r, ← numbered_circle _ h,
    lt_numbered (by omega) (by omega) (by omega) (by omega),
    lt_numbered (by omega) (by omega) (by omega) (by omega),
    lt_numbered (by omega) (by omega) (by omega) (by omega),
    le_numbered (by omega) (by omega) (by omega) (by omega)]
  simp only [Bool.not_eq_true', Bool.or_eq_false_iff, Bool.and_eq_false_iff,
    decide_eq_false_iff_not]
  by_cases stored : (w.rxBuffer sn).isSome = false
  · simp only [stored, or_true, and_true, true_and]
    omega
  · have stored' := Bool.eq_true_of_not_eq_false stored
    simp only [stored', Bool.true_eq_false, or_false]
    omega

theorem accepted_counter (small : sn < 1024)
    (accepted : w.accepts sn = true) : ∃ n, sn = n % 1024 ∧ r ≤ n ∧ n < h + 512 := by
  have order := counts.order
  have width := counts.width
  have bound := position_lt h sn
  rw [accepts_eq counts small, decide_eq_true_eq] at accepted
  refine ⟨h + position h sn - 512, ?_, by omega, by omega⟩
  have at_ := counter_of_position h small
  omega

/-- An accepted PDU fills its place; then the window moves over what falls out
below, and VR(UR) over what has no gap before it. -/
theorem receive_accepted (low : r ≤ n) (near : n < h + 512)
    (accepted : w.accepts (n % 1024) = true) {pdu : Pdu}
    (placed : Function.update w.rxBuffer (n % 1024) (some pdu) = buf)
    (drains : h ≤ n → DrainsAt (n + 1) buf) :
    ∃ lo r', lo = (if n < h then r else max r (n + 1 - 512)) ∧ lo ≤ r' ∧ r' ≤ max h (n + 1) ∧
      (∀ k, lo ≤ k → k < r' → (buf (k % 1024)).isSome = true) ∧
      (w.doReceivePdu (n % 1024) pdu).2 = pending 1024 buf r r' ∧
      (w.doReceivePdu (n % 1024) pdu).1.rxBuffer = cleared 1024 buf r r' ∧
      Counts (w.doReceivePdu (n % 1024) pdu).1 r' (max h (n + 1)) ∧
      (cleared 1024 buf r r' (r' % 1024) = none ∨
        r' % 1024 = 0 ∧ (cleared 1024 buf r r' 0).isSome = true ∧ lo < r') := by
  have order := counts.order
  have width := counts.width
  have number : (ofNat (n % 1024)).setModulusBase (w.vrUh.sub windowSize) = numbered (h + 512) n :=
    setModulusBase_window (by simp [ofNat]) counts.uh
  have within : Within 1024 buf r (max h (n + 1)) := by
    rw [← placed]
    exact (counts.within.mono (le_refl r) (by omega)).insert pdu low (by omega)
  generalize lo_eq : (if n < h then r else max r (n + 1 - 512)) = lo
  have lo_bounds : r ≤ lo ∧ lo ≤ h ∧ max h (n + 1) ≤ lo + 512 := by
    subst lo_eq
    split <;> omega
  have moved : ∃ b u, b ≤ lo + 1024 ∧ h + 512 ≤ b ∧ u.value = max h (n + 1) % 1024 ∧
      (w.rebaseForReceive.insert (n % 1024) pdu).moveWindow (numbered (h + 512) n) =
        (⟨cleared 1024 buf r lo, numbered b lo, w.vrUx, u, w.reorderingTimer⟩,
          pending 1024 buf r lo) := by
    simp only [counts.rebased, insert, placed]
    by_cases below : n < h
    · rw [if_pos below] at lo_eq
      subst lo_eq
      refine ⟨h + 512, numbered (h + 512) h, by omega, by omega, ?_, ?_⟩
      · rw [show max h (n + 1) = h by omega]
        rfl
      · rw [moveWindow_inside rfl (by omega) below, cleared_self, pending_self]
    · rw [if_neg below] at lo_eq
      subst lo_eq
      rw [show max h (n + 1) = n + 1 by omega] at within ⊢
      refine ⟨if r + 512 < n + 1 then n + 1 + 512 else h + 512, numbered (n + 1 + 512) (n + 1),
        by split <;> omega, by split <;> omega, rfl, ?_⟩
      exact moveWindow_outside rfl rfl order width (by omega) near within
        (by simp [count, ← placed]) (drains (by omega))
  obtain ⟨b, u, base, circle, hu, moved⟩ := moved
  have kept : Within 1024 (cleared 1024 buf r lo) lo (max h (n + 1)) := within.cleared
  -- the number after the received stretch
  have stop : ∃ stop, lo ≤ stop ∧ stop ≤ max h (n + 1) ∧ stop < b ∧ stop ≤ lo + 512 ∧
      cleared 1024 buf r lo (stop % 1024) = none := by
    by_cases next : n = h
    · subst next
      refine ⟨n + 1, by omega, by omega, by omega, by omega, ?_⟩
      rw [show max n (n + 1) = n + 1 by omega] at kept
      exact kept.eq_none (by omega) le_rfl (by omega) (by omega)
    · refine ⟨h, by omega, by omega, by omega, by omega, ?_⟩
      have apart : h % 1024 ≠ n % 1024 := by
        intro same
        exact next (Circular.eq_of_residue same (by omega) (by omega)).symm
      rw [cleared_after (by omega) (by omega), ← placed, Function.update_of_ne apart,
        counts.missing]
  obtain ⟨stop, low_stop, high_stop, below_stop, width_stop, missing_stop⟩ := stop
  have top : (cleared 1024 buf r lo 1024).isSome = false := by
    cases stored : (cleared 1024 buf r lo 1024).isSome with
    | false => rfl
    | true =>
      obtain ⟨k, _, _, same⟩ := mem_residues.mp (kept 1024 stored)
      omega
  obtain ⟨r', hr, hr', received, advanced, gap⟩ := advanceVrUr_spec
    (w := ⟨cleared 1024 buf r lo, numbered b lo, w.vrUx, u, w.reorderingTimer⟩) rfl base low_stop
    below_stop width_stop missing_stop top
  simp only [cleared_cleared lo_bounds.1 hr] at advanced
  have result : w.doReceivePdu (n % 1024) pdu =
      ((rebase ⟨cleared 1024 buf r r', numbered b r', w.vrUx, u,
          w.reorderingTimer⟩).stopReorderingTimer.startReorderingTimer, pending 1024 buf r r') := by
    unfold doReceivePdu
    simp only [accepted, Bool.not_true, Bool.false_eq_true, ↓reduceIte, number, numbered_value,
      moved, advanced, pending_cleared lo_bounds.1 hr (show r' ≤ r + 1024 by omega)]
  have on : w.reorderingTimer = true → ∃ x, max h (n + 1) < x + 1024 ∧ x ≤ max h (n + 1) ∧
      w.vrUx.value = x % 1024 := by
    intro on
    obtain ⟨-, -, x, hx, hx', ux⟩ := counts.running on
    exact ⟨x, by omega, by omega, by rw [ux]; rfl⟩
  have value : (numbered b r').value = r' % 1024 := rfl
  have settled := timer_counts value hu (show r' ≤ max h (n + 1) by omega) (by omega)
    within.cleared on
  rw [result]
  simp only [count] at received gap
  refine ⟨lo, r', rfl, hr, by omega, ?_, rfl, settled.2, settled.1, ?_⟩
  · intro k hk hk'
    have there := received k hk hk'
    rwa [cleared_after hk (by omega)] at there
  · rw [← cleared_cleared lo_bounds.1 hr]
    rcases gap with empty | ⟨zero, stored, more⟩
    · exact .inl (cleared_of_none (by simpa using empty))
    · refine .inr ⟨zero, ?_, more⟩
      rw [← zero] at stored ⊢
      rwa [cleared_after (le_refl r') (by omega)]

/-- When the timer expires, VR(UR) moves to the first gap from VR(UX) on. -/
theorem expire_spec (on : w.reorderingTimer = true) :
    ∃ r', r < r' ∧ r' ≤ h ∧ w.expireReorderingTimer.2 = pending 1024 w.rxBuffer r r' ∧
      w.expireReorderingTimer.1.rxBuffer = cleared 1024 w.rxBuffer r r' ∧
      Counts w.expireReorderingTimer.1 r' h ∧
      w.expireReorderingTimer.1.count (r' % 1024) = false := by
  have order := counts.order
  have width := counts.width
  obtain ⟨ur, uh, x, hx, hx', ux⟩ := counts.running on
  have scan := @Scan.skipWhile_map _ succ (fun sn => w.count sn.value) (numbered (h + 512))
    (numbered_succ (h + 512)) 1024 x
  have missing : w.count (h % 1024) = false := by simp [count, counts.missing]
  obtain ⟨below, stops⟩ := Scan.skipWhile_stops 1024
    (p := fun k => w.count (numbered (h + 512) k).value) hx' (by omega) missing
  have above := Scan.le_skipWhile (fun k => w.count (numbered (h + 512) k).value) 1024 x
  generalize Scan.skipWhile Nat.succ (fun k => w.count (numbered (h + 512) k).value) 1024 x = r'
    at scan below stops above
  have kept : Within 1024 (cleared 1024 w.rxBuffer r r') r' h := counts.within.cleared
  have off : false = true → ∃ x', r' < x' ∧ x' ≤ h ∧
      numbered (h + 512) x = numbered (h + 512) x' := fun on => by simp at on
  obtain ⟨counts', buffer⟩ := startReorderingTimer_counts below (by omega) kept off
  have result : w.expireReorderingTimer = (startReorderingTimer ⟨cleared 1024 w.rxBuffer r r',
      numbered (h + 512) r', numbered (h + 512) x, numbered (h + 512) h, false⟩,
      pending 1024 w.rxBuffer r r') := by
    unfold expireReorderingTimer
    simp only [ux, scan, ur, reassembleSnInterval]
    rw [reassembleFrom_eq (by omega) (by omega) (by omega) (by omega)]
    simp [uh]
  simp only [result]
  refine ⟨r', by omega, below, rfl, buffer, counts', ?_⟩
  have edge : cleared 1024 w.rxBuffer r r' (r' % 1024) = w.rxBuffer (r' % 1024) :=
    cleared_after (le_refl r') (by omega)
  simp only [count, buffer, edge]
  exact stops

end

end Ns3.Rlc.UmWindow
