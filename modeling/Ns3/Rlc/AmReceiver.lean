import Ns3.Library.CircularBuffer
import Ns3.Rlc.SequenceNumber

/-!
# The receiving side of `LteRlcAm`

The state variables and the reception buffer, up to the calls of
`ReassembleAndDeliver`, which the operations return in order. `none` is a
failed `NS_ASSERT`. Re-segmentation is not supported by the source: an entry
of the buffer is one complete PDU.
-/

namespace Ns3.Rlc

open SequenceNumber10

structure AmReceiver (Pdu : Type) where
  /-- a map whose keys are below 1024 -/
  rxonBuffer : Nat → Option Pdu
  vrR : SequenceNumber10
  vrMr : SequenceNumber10
  vrX : SequenceNumber10
  vrMs : SequenceNumber10
  vrH : SequenceNumber10
  reorderingTimer : Bool

namespace AmReceiver

variable {Pdu : Type}

def create : AmReceiver Pdu :=
  ⟨fun _ => none, ofNat 0, (ofNat 0).add windowSize, ofNat 0, ofNat 0, ofNat 0, false⟩

def count (w : AmReceiver Pdu) (sn : Nat) : Bool := (w.rxonBuffer sn).isSome

def isInsideReceivingWindow (w : AmReceiver Pdu) (seqNumber : SequenceNumber10) :
    Option (AmReceiver Pdu × Bool) := do
  let w := { w with vrR := w.vrR.setModulusBase w.vrR, vrMr := w.vrMr.setModulusBase w.vrR }
  let seqNumber := seqNumber.setModulusBase w.vrR
  if ← w.vrR.le? seqNumber then
    return (w, ← seqNumber.lt? w.vrMr)
  else
    return (w, false)

/-- The PDU is placed unless its number is already there. -/
def place (w : AmReceiver Pdu) (sn : Nat) (pdu : Pdu) : AmReceiver Pdu :=
  if w.count sn then w else { w with rxonBuffer := Function.update w.rxonBuffer sn (some pdu) }

/-- `while (it != end && complete)`. Coming back to `first` is asserted not to
happen, so 1024 rounds are enough. -/
def firstMissing (w : AmReceiver Pdu) (first : Nat) :
    (fuel : Nat) → SequenceNumber10 → Option SequenceNumber10
  | 0, _ => none
  | fuel + 1, sn =>
    if w.count sn.value then
      if first = sn.succ.value then none else w.firstMissing first fuel sn.succ
    else
      some sn

def advanceVrMs (w : AmReceiver Pdu) : Option (AmReceiver Pdu) := do
  return { w with vrMs := ← w.firstMissing w.vrMs.value 1024 w.vrMs }

/-- One round of the delivery loop: VR(R) moves on, and the other state
variables take it as their modulus base. -/
def passOn (w : AmReceiver Pdu) : AmReceiver Pdu :=
  let vrR := w.vrR.succ.setModulusBase w.vrR.succ
  { w with
    rxonBuffer := Function.update w.rxonBuffer w.vrR.value none
    vrR := vrR
    vrX := w.vrX.setModulusBase vrR
    vrMs := w.vrMs.setModulusBase vrR
    vrH := w.vrH.setModulusBase vrR }

def deliverFrom (w : AmReceiver Pdu) (first : Nat) :
    (fuel : Nat) → Option (AmReceiver Pdu × List Pdu)
  | 0 => none
  | fuel + 1 =>
    match w.rxonBuffer w.vrR.value with
    | none => some (w, [])
    | some pdu =>
      if first = w.passOn.vrR.value then
        none
      else do
        let (w, rest) ← w.passOn.deliverFrom first fuel
        return (w, pdu :: rest)

/-- `if (seqNumber == m_vrR)`. -/
def advanceVrR (w : AmReceiver Pdu) (seqNumber : SequenceNumber10) :
    Option (AmReceiver Pdu × List Pdu) :=
  if seqNumber.eq w.vrR && w.count seqNumber.value then do
    let (w, passed) ← w.deliverFrom w.vrR.value 1024
    return ({ w with vrMr := w.vrR.add windowSize }, passed)
  else
    some (w, [])

def stopReorderingTimer (w : AmReceiver Pdu) : Option (AmReceiver Pdu) :=
  if w.reorderingTimer then
    if w.vrX.eq w.vrR then
      some { w with reorderingTimer := false }
    else do
      let (w, inside) ← w.isInsideReceivingWindow w.vrX
      return if !inside && !w.vrX.eq w.vrMr then { w with reorderingTimer := false } else w
  else
    some w

def startReorderingTimer (w : AmReceiver Pdu) : Option (AmReceiver Pdu) :=
  if w.reorderingTimer then
    some w
  else do
    if ← w.vrH.gt? w.vrR then
      return { w with reorderingTimer := true, vrX := w.vrH }
    else
      return w

/-- The branch of `DoReceivePdu` for a data PDU with sequence number `sn`. -/
def doReceivePdu (w : AmReceiver Pdu) (sn : Nat) (pdu : Pdu) :
    Option (AmReceiver Pdu × List Pdu) := do
  let seqNumber := (ofNat sn).setModulusBase w.vrR
  let (w, inside) ← w.isInsideReceivingWindow seqNumber
  if inside then
    let w := w.place seqNumber.value pdu
    let w := if ← seqNumber.ge? w.vrH then { w with vrH := seqNumber.add 1 } else w
    let w ← w.advanceVrMs
    let (w, passed) ← w.advanceVrR seqNumber
    let w ← w.stopReorderingTimer
    let w ← w.startReorderingTimer
    return (w, passed)
  else
    return (w, [])

def expireReorderingTimer (w : AmReceiver Pdu) : Option (AmReceiver Pdu) := do
  let vrMs ← w.firstMissing w.vrX.value 1024 w.vrX
  let w := { w with vrMs := vrMs, reorderingTimer := false }
  if ← w.vrH.gt? w.vrMs then
    return { w with reorderingTimer := true, vrX := w.vrH }
  else
    return w

end AmReceiver

end Ns3.Rlc

/-!
## The counters behind the receiving side of `LteRlcAm`

`Counts w r ms h`: VR(R), VR(MS) and VR(H) stand for counters `r`, `ms` and
`h`, all compared from `r` on. The operations keep this, so no assertion in
them fails, and they pass on the PDUs from the old `r` up to the new one.
-/

namespace Ns3.Rlc.AmReceiver

open SequenceNumber10 CircularBuffer Option

variable {Pdu : Type} {w : AmReceiver Pdu} {buf : Nat → Option Pdu} {r ms h n : Nat}

structure Counts (w : AmReceiver Pdu) (r ms h : Nat) : Prop where
  vrR : w.vrR = numbered r r
  vrMr : w.vrMr = numbered r (r + 512)
  vrMs : w.vrMs = numbered r ms
  vrH : w.vrH = numbered r h
  vrX : w.vrX.modulusBase = r % 1024
  r_le_ms : r ≤ ms
  ms_le_h : ms ≤ h
  h_le_mr : h ≤ r + 512
  within : Within 1024 w.rxonBuffer r h
  missingR : w.rxonBuffer (r % 1024) = none
  missingMs : w.rxonBuffer (ms % 1024) = none
  idle : w.reorderingTimer = false → ms = h
  running : w.reorderingTimer = true → ∃ x, r < x ∧ x ≤ h ∧ w.vrX = numbered r x

theorem create_counts : Counts (create : AmReceiver Pdu) 0 0 0 where
  vrR := rfl
  vrMr := rfl
  vrMs := rfl
  vrH := rfl
  vrX := rfl
  r_le_ms := le_refl 0
  ms_le_h := le_refl 0
  h_le_mr := by decide
  within := fun key some => by simp [create] at some
  missingR := rfl
  missingMs := rfl
  idle := fun _ => rfl
  running := fun on => by simp [create] at on

/-! ## Loops -/

theorem isInside_eq {s : SequenceNumber10} (vrR : w.vrR = numbered r r)
    (vrMr : w.vrMr = numbered r (r + 512)) (hs : s.value = n % 1024) (low : r ≤ n)
    (high : n < r + 1024) : w.isInsideReceivingWindow s = some (w, decide (n < r + 512)) := by
  obtain ⟨buf, vrR', vrMr', vrX, vrMs, vrH, timer⟩ := w
  subst vrR vrMr
  have rebased : s.setModulusBase (numbered r r) = numbered r n := by
    simp [setModulusBase, numbered, hs]
  unfold isInsideReceivingWindow
  simp only [numbered_setModulusBase, rebased]
  rw [le?_numbered (le_refl r) (by omega) low high, lt?_numbered low high (by omega) (by omega)]
  simp [low]

/-- The scan ends at the first missing number, and does not come round. -/
theorem firstMissing_spec {b f stop fuel : Nat} (from_ : f ≤ n) (before : n ≤ stop)
    (near : stop < f + 1024) (enough : stop < n + fuel) (missing : w.count (stop % 1024) = false) :
    ∃ n', n ≤ n' ∧ n' ≤ stop ∧ (∀ k, n ≤ k → k < n' → w.count (k % 1024) = true) ∧
      w.count (n' % 1024) = false ∧
      w.firstMissing (f % 1024) fuel (numbered b n) = some (numbered b n') := by
  induction fuel generalizing n with
  | zero => omega
  | succ fuel ih =>
    unfold firstMissing
    rw [numbered_value, numbered_succ, numbered_value]
    cases here : w.count (n % 1024) with
    | false => exact ⟨n, le_refl n, before, fun k hk hk' => by omega, here, by simp⟩
    | true =>
      have later : n ≠ stop := by
        rintro rfl
        simp [missing] at here
      have apart : f % 1024 ≠ (n + 1) % 1024 := by
        intro same
        have := Circular.eq_of_residue same (by omega) (by omega)
        omega
      obtain ⟨n', low, high, passed, stops, eq⟩ := ih (n := n + 1) (by omega) (by omega) (by omega)
      refine ⟨n', by omega, high, ?_, stops, by simp [apart, eq]⟩
      intro k hk hk'
      by_cases first : k = n
      · rw [first]
        exact here
      · exact passed k (by omega) hk'

theorem passOn_eq {x b : Nat} {vrMr : SequenceNumber10} {timer : Bool} :
    passOn ⟨buf, numbered r r, vrMr, ⟨x, b⟩, numbered r ms, numbered r h, timer⟩ =
      ⟨Function.update buf (r % 1024) none, numbered (r + 1) (r + 1), vrMr, ⟨x, (r + 1) % 1024⟩,
        numbered (r + 1) ms, numbered (r + 1) h, timer⟩ := by
  simp only [passOn, numbered_succ]
  rfl

/-- The delivery loop passes on the PDUs up to the first missing number. -/
theorem deliverFrom_spec {f stop fuel : Nat} (ms h x : Nat) (vrMr : SequenceNumber10)
    (timer : Bool) (from_ : f ≤ r) (before : r ≤ stop) (near : stop < f + 1024)
    (enough : stop < r + fuel) (missing : buf (stop % 1024) = none) :
    ∃ r', r ≤ r' ∧ r' ≤ stop ∧ (∀ k, r ≤ k → k < r' → (buf (k % 1024)).isSome = true) ∧
      buf (r' % 1024) = none ∧
      deliverFrom ⟨buf, numbered r r, vrMr, ⟨x, r % 1024⟩, numbered r ms, numbered r h, timer⟩
        (f % 1024) fuel =
        some (⟨cleared 1024 buf r r', numbered r' r', vrMr, ⟨x, r' % 1024⟩, numbered r' ms,
          numbered r' h, timer⟩, pending 1024 buf r r') := by
  induction fuel generalizing r buf with
  | zero => omega
  | succ fuel ih =>
    unfold deliverFrom
    simp only [numbered_value]
    cases here : buf (r % 1024) with
    | none =>
      exact ⟨r, le_refl r, before, fun k hk hk' => by omega, here, by simp⟩
    | some pdu =>
      have later : r ≠ stop := by
        rintro rfl
        simp [missing] at here
      have apart : f % 1024 ≠ (r + 1) % 1024 := by
        intro same
        have := Circular.eq_of_residue same (by omega) (by omega)
        omega
      have off (k : Nat) (hk : r < k) (hk' : k < r + 1024) :
          Function.update buf (r % 1024) none (k % 1024) = buf (k % 1024) := by
        apply Function.update_of_ne
        intro same
        have := Circular.eq_of_residue same (by omega) (by omega)
        omega
      obtain ⟨r', low, high, passed, stops, eq⟩ := ih (r := r + 1) (by omega) (by omega) (by omega)
        (show Function.update buf (r % 1024) none (stop % 1024) = none by
          rw [off stop (by omega) (by omega)]
          exact missing)
      have rest : pending 1024 (Function.update buf (r % 1024) none) (r + 1) r' =
          pending 1024 buf (r + 1) r' :=
        pending_congr fun k hk hk' => off k (by omega) (by omega)
      refine ⟨r', by omega, high, ?_, ?_, ?_⟩
      · intro k hk hk'
        by_cases first : k = r
        · rw [first, here]
          rfl
        · rw [← off k (by omega) (by omega)]
          exact passed k (by omega) hk'
      · rwa [off r' (by omega) (by omega)] at stops
      · simp only [passOn_eq, numbered_value, apart, eq, rest]
        rw [cleared_step (by omega), pending_step (show r < r' by omega), here]
        rfl

/-! ## The reordering timer -/

/-- The timer goes on while VR(X) is ahead of VR(R), and stops otherwise. -/
theorem stopReorderingTimer_eq {x : Nat} (h_le_mr : h ≤ r + 512)
    (near : r < x + 512) (below : x ≤ h) :
    stopReorderingTimer ⟨buf, numbered r r, numbered r (r + 512), numbered r x, numbered r ms,
        numbered r h, true⟩ =
      some ⟨buf, numbered r r, numbered r (r + 512), numbered r x, numbered r ms, numbered r h,
        decide (r < x)⟩ := by
  have eq_iff (k : Nat) (hk : k < x + 1024) (hk' : x < k + 1024) :
      (numbered r x).eq (numbered r k) = decide (x = k) := by
    apply Bool.eq_iff_iff.mpr
    simp only [SequenceNumber10.eq, beq_iff_eq, decide_eq_true_eq]
    exact ⟨fun same => Circular.eq_of_residue same (by omega) (by omega), fun same => by rw [same]⟩
  unfold stopReorderingTimer
  simp only [eq_iff r (by omega) (by omega)]
  by_cases here : x = r
  · simp [here]
  · by_cases ahead : r < x
    · have test := isInside_eq (w := ⟨buf, numbered r r, numbered r (r + 512), numbered r x,
        numbered r ms, numbered r h, true⟩) (s := numbered r x) rfl rfl rfl (le_of_lt ahead)
        (by omega)
      have goesOn : x < r + 512 ∨ x = r + 512 := by omega
      simp only [here, decide_false, Bool.false_eq_true, ↓reduceIte, test, bind_eq_bind,
        bind_some, eq_iff (r + 512) (by omega) (by omega), ahead, decide_true]
      rcases goesOn with inside | edge
      · simp [inside]
      · simp [edge]
    · have residue : (numbered r x).value = (x + 1024) % 1024 := by
        rw [numbered_value]
        omega
      have test := isInside_eq (w := ⟨buf, numbered r r, numbered r (r + 512), numbered r x,
        numbered r ms, numbered r h, true⟩) (s := numbered r x) rfl rfl residue (by omega)
        (by omega)
      have differ : (numbered r x).eq (numbered r (r + 512)) = false := by
        simp only [SequenceNumber10.eq, numbered_value, beq_eq_false_iff_ne]
        omega
      have out : ¬x + 1024 < r + 512 := by omega
      simp [here, test, differ, out, ahead]

theorem startReorderingTimer_counts {vrX : SequenceNumber10} {timer : Bool} (r_le_ms : r ≤ ms)
    (ms_le_h : ms ≤ h) (h_le_mr : h ≤ r + 512) (within : Within 1024 buf r h)
    (missingR : buf (r % 1024) = none) (missingMs : buf (ms % 1024) = none)
    (base : vrX.modulusBase = r % 1024)
    (on : timer = true → ∃ x, r < x ∧ x ≤ h ∧ vrX = numbered r x) :
    ∃ w : AmReceiver Pdu, startReorderingTimer ⟨buf, numbered r r, numbered r (r + 512), vrX,
        numbered r ms, numbered r h, timer⟩ = some w ∧ w.rxonBuffer = buf ∧ Counts w r ms h := by
  unfold startReorderingTimer
  cases timer with
  | true =>
    refine ⟨⟨buf, numbered r r, numbered r (r + 512), vrX, numbered r ms, numbered r h, true⟩,
      rfl, rfl, rfl, rfl, rfl, rfl, base, r_le_ms, ms_le_h, h_le_mr, within, missingR, missingMs,
      fun off => by simp at off, fun _ => on rfl⟩
  | false =>
    simp only [gt?_numbered (show r ≤ h by omega) (by omega) (le_refl r) (by omega)]
    by_cases behind : h > r
    · refine ⟨⟨buf, numbered r r, numbered r (r + 512), numbered r h, numbered r ms, numbered r h,
        true⟩, by simp [behind], rfl, rfl, rfl, rfl, rfl, rfl, r_le_ms, ms_le_h, h_le_mr, within,
        missingR, missingMs, fun off => by simp at off, fun _ => ⟨h, behind, le_refl h, rfl⟩⟩
    · refine ⟨⟨buf, numbered r r, numbered r (r + 512), vrX, numbered r ms, numbered r h, false⟩,
        by simp [behind], rfl, rfl, rfl, rfl, rfl, base, r_le_ms, ms_le_h, h_le_mr, within,
        missingR, missingMs, fun _ => by omega, fun on => by simp at on⟩

theorem timer_counts {x : Nat} {timer : Bool} (r_le_ms : r ≤ ms) (ms_le_h : ms ≤ h)
    (h_le_mr : h ≤ r + 512) (within : Within 1024 buf r h) (missingR : buf (r % 1024) = none)
    (missingMs : buf (ms % 1024) = none)
    (on : timer = true → ∃ k, r < k + 512 ∧ k ≤ h ∧ x = k % 1024) :
    ∃ w w' : AmReceiver Pdu, stopReorderingTimer ⟨buf, numbered r r, numbered r (r + 512),
        ⟨x, r % 1024⟩, numbered r ms, numbered r h, timer⟩ = some w ∧
      w.startReorderingTimer = some w' ∧ w'.rxonBuffer = buf ∧ Counts w' r ms h := by
  cases timer with
  | false =>
    obtain ⟨w', start, done⟩ := startReorderingTimer_counts r_le_ms ms_le_h h_le_mr within missingR
      missingMs (show (⟨x, r % 1024⟩ : SequenceNumber10).modulusBase = r % 1024 from rfl)
      (show false = true → _ from fun on => by simp at on)
    exact ⟨_, w', rfl, start, done⟩
  | true =>
    obtain ⟨k, near, below, rfl⟩ := on rfl
    obtain ⟨w', start, done⟩ := startReorderingTimer_counts r_le_ms ms_le_h h_le_mr within missingR
      missingMs (show (numbered r k).modulusBase = r % 1024 from rfl)
      (show decide (r < k) = true → _ from fun on => ⟨k, of_decide_eq_true on, below, rfl⟩)
    exact ⟨_, w', stopReorderingTimer_eq h_le_mr near below, start, done⟩

/-! ## The operations -/

theorem seqNumber_eq (counts : Counts w r ms h) (n : Nat) :
    (ofNat (n % 1024)).setModulusBase w.vrR = numbered r n := by
  rw [counts.vrR]
  simp [ofNat, setModulusBase, numbered]

theorem receive_outside (counts : Counts w r ms h) (low : r + 512 ≤ n) (near : n < r + 1024)
    (pdu : Pdu) : w.doReceivePdu (n % 1024) pdu = some (w, []) := by
  have test := isInside_eq (s := numbered r n) counts.vrR counts.vrMr rfl (by omega) near
  have out : ¬n < r + 512 := by omega
  unfold doReceivePdu
  simp [seqNumber_eq counts, test, out]

theorem place_within (counts : Counts w r ms h) (low : r ≤ n) (pdu : Pdu) :
    Within 1024 (w.place (n % 1024) pdu).rxonBuffer r (max h (n + 1)) := by
  have before := counts.within.mono (le_refl r) (le_max_left h (n + 1))
  unfold place
  split
  · exact before
  · exact before.insert pdu low (by omega)

theorem place_stored (w : AmReceiver Pdu) (sn : Nat) (pdu : Pdu) :
    ((w.place sn pdu).rxonBuffer sn).isSome = true := by
  unfold place
  split
  · assumption
  · simp

theorem place_other (w : AmReceiver Pdu) {sn key : Nat} (other : key ≠ sn) (pdu : Pdu) :
    (w.place sn pdu).rxonBuffer key = w.rxonBuffer key := by
  unfold place
  split
  · rfl
  · exact Function.update_of_ne other _ _

/-- A PDU inside the window fills its place, and VR(R) moves to the first gap. -/
theorem receive_inside (counts : Counts w r ms h) (low : r ≤ n) (near : n < r + 512) (pdu : Pdu)
    (placed : (w.place (n % 1024) pdu).rxonBuffer = buf) :
    ∃ w' r' ms', r ≤ r' ∧ w.doReceivePdu (n % 1024) pdu = some (w', pending 1024 buf r r') ∧
      (∀ k, r ≤ k → k < r' → (buf (k % 1024)).isSome = true) ∧
      w'.rxonBuffer = cleared 1024 buf r r' ∧ Counts w' r' ms' (max h (n + 1)) := by
  have test := isInside_eq (s := numbered r n) counts.vrR counts.vrMr rfl low (by omega)
  have number := seqNumber_eq counts n
  have within := place_within counts low pdu
  have stored := place_stored w (n % 1024) pdu
  have other := fun key (other : key ≠ n % 1024) => place_other w other pdu
  rw [placed] at within stored other
  have r_le_ms := counts.r_le_ms
  have ms_le_h := counts.ms_le_h
  have h_le_mr := counts.h_le_mr
  have top : max h (n + 1) ≤ r + 512 := by omega
  have missingTop : buf (max h (n + 1) % 1024) = none :=
    within.eq_none (by omega) le_rfl (by omega) (by omega)
  obtain ⟨b0, vrR, vrMr, ⟨x, base⟩, vrMs, vrH, timer⟩ := w
  obtain ⟨hR, hMr, hMs, hH, hX, -, -, -, -, missingR, -, -, running⟩ := counts
  subst hR hMr hMs hH hX
  have stepPlace : (place ⟨b0, numbered r r, numbered r (r + 512), ⟨x, r % 1024⟩, numbered r ms,
      numbered r h, timer⟩ (n % 1024) pdu) = ⟨buf, numbered r r, numbered r (r + 512),
      ⟨x, r % 1024⟩, numbered r ms, numbered r h, timer⟩ := by
    rw [← placed]
    unfold place
    split <;> rfl
  have stepH : (if decide (h ≤ n) = true then numbered r (n + 1) else numbered r h) =
      numbered r (max h (n + 1)) := by
    by_cases above : h ≤ n
    · simp [above, show max h (n + 1) = n + 1 by omega]
    · simp [above, show max h (n + 1) = h by omega]
  obtain ⟨ms', ms_le, ms_top, -, absent, stepMs⟩ := firstMissing_spec (b := r)
    (w := ⟨buf, numbered r r, numbered r (r + 512), ⟨x, r % 1024⟩, numbered r ms,
      numbered r (max h (n + 1)), timer⟩) (le_refl ms)
    (show ms ≤ max h (n + 1) by omega) (by omega) (show max h (n + 1) < ms + 1024 by omega)
    (by simp [count, missingTop])
  have missingMs : buf (ms' % 1024) = none := by simpa [count] using absent
  -- VR(R) moves only if it is the one received; its place is empty otherwise
  have stepR : ∃ r', r ≤ r' ∧ r' ≤ ms' ∧ (∀ k, r ≤ k → k < r' → (buf (k % 1024)).isSome = true) ∧
      buf (r' % 1024) = none ∧
      advanceVrR ⟨buf, numbered r r, numbered r (r + 512), ⟨x, r % 1024⟩, numbered r ms',
        numbered r (max h (n + 1)), timer⟩ (numbered r n) =
        some (⟨cleared 1024 buf r r', numbered r' r', numbered r' (r' + 512), ⟨x, r' % 1024⟩,
          numbered r' ms', numbered r' (max h (n + 1)), timer⟩, pending 1024 buf r r') := by
    by_cases head : n = r
    · subst head
      obtain ⟨r', low', high', passed, missing', delivered⟩ := deliverFrom_spec
        ms' (max h (n + 1)) x (numbered n (n + 512)) timer (le_refl n) (show n ≤ ms' by omega)
        (by omega) (show ms' < n + 1024 by omega) missingMs
      refine ⟨r', low', high', passed, missing', ?_⟩
      have next : (numbered r' r').add windowSize = numbered r' (r' + 512) :=
        numbered_add r' r' windowSize (by decide)
      have test : ((numbered n n).eq (numbered n n) && (buf (n % 1024)).isSome) = true := by
        simp [SequenceNumber10.eq, stored]
      unfold advanceVrR
      simp only [count, numbered_value, test, ↓reduceIte, delivered, bind_eq_bind, bind_some, next]
      rfl
    · have away : r % 1024 ≠ n % 1024 := by
        intro same
        exact head (Circular.eq_of_residue same (by omega) (by omega)).symm
      refine ⟨r, le_refl r, by omega, fun k hk hk' => by omega, ?_, ?_⟩
      · rw [other _ away]
        exact missingR
      · have differ : (numbered r n).eq (numbered r r) = false := by
          simp only [SequenceNumber10.eq, beq_eq_false_iff_ne]
          exact away.symm
        unfold advanceVrR
        simp [differ]
  obtain ⟨r', low', high', passed, missingR', stepR⟩ := stepR
  have on : timer = true → ∃ k, r' < k + 512 ∧ k ≤ max h (n + 1) ∧ x = k % 1024 := by
    intro on
    obtain ⟨k, hk, hk', eq⟩ := running on
    exact ⟨k, by omega, by omega, congrArg value eq⟩
  obtain ⟨w₁, w₂, stop, start, buffer, counts'⟩ := timer_counts high' ms_top
    (show max h (n + 1) ≤ r' + 512 by omega) within.cleared (cleared_of_none missingR')
    (cleared_of_none missingMs) on
  refine ⟨w₂, r', ms', low', ?_, passed, buffer, counts'⟩
  have next : (numbered r n).add 1 = numbered r (n + 1) := numbered_add r n 1 (by decide)
  have atLeast := ge?_numbered low (show n < r + 1024 by omega) (show r ≤ h by omega)
    (show h < r + 1024 by omega)
  have advanced : advanceVrMs ⟨buf, numbered r r, numbered r (r + 512), ⟨x, r % 1024⟩,
      numbered r ms, numbered r (max h (n + 1)), timer⟩ = some ⟨buf, numbered r r,
      numbered r (r + 512), ⟨x, r % 1024⟩, numbered r ms', numbered r (max h (n + 1)), timer⟩ := by
    simp only [advanceVrMs, numbered_value, stepMs]
    rfl
  unfold doReceivePdu
  simp only [number, test, near, decide_true, bind_eq_bind, bind_some, ↓reduceIte,
    numbered_value, stepPlace, atLeast, next]
  have raised : (if decide (h ≤ n) = true then (⟨buf, numbered r r, numbered r (r + 512),
      ⟨x, r % 1024⟩, numbered r ms, numbered r (n + 1), timer⟩ : AmReceiver Pdu)
      else ⟨buf, numbered r r, numbered r (r + 512), ⟨x, r % 1024⟩, numbered r ms, numbered r h,
        timer⟩) = ⟨buf, numbered r r, numbered r (r + 512), ⟨x, r % 1024⟩, numbered r ms,
        numbered r (max h (n + 1)), timer⟩ := by
    rw [← stepH]
    split <;> rfl
  simp only [raised, advanced, bind_some, stepR, stop, start]
  rfl

/-- When the timer expires, VR(MS) moves to the first gap from VR(X) on. -/
theorem expire_spec (counts : Counts w r ms h) (on : w.reorderingTimer = true) :
    ∃ w' ms', w.expireReorderingTimer = some w' ∧ w'.rxonBuffer = w.rxonBuffer ∧
      Counts w' r ms' h := by
  have r_le_ms := counts.r_le_ms
  have ms_le_h := counts.ms_le_h
  have h_le_mr := counts.h_le_mr
  have missingTop : w.rxonBuffer (h % 1024) = none :=
    counts.within.eq_none (by omega) (le_refl h) (by omega) (by omega)
  obtain ⟨x, ahead, below, vrX⟩ := counts.running on
  obtain ⟨ms', low, high, -, absent, scan⟩ := firstMissing_spec (b := r) (w := w)
    (le_refl x) below (by omega) (show h < x + 1024 by omega) (by simp [count, missingTop])
  have missingMs : w.rxonBuffer (ms' % 1024) = none := by simpa [count] using absent
  have test : w.vrH.gt? (numbered r ms') = some (decide (h > ms')) := by
    rw [counts.vrH]
    exact gt?_numbered (by omega) (by omega) (by omega) (by omega)
  unfold expireReorderingTimer
  simp only [vrX, numbered_value, scan, bind_eq_bind, bind_some, test]
  by_cases behind : h > ms'
  · refine ⟨{ w with vrX := w.vrH, vrMs := numbered r ms', reorderingTimer := true }, ms',
      by simp only [behind, decide_true, ↓reduceIte]; rfl, rfl, ?_⟩
    exact { counts with
      vrMs := rfl
      vrX := congrArg modulusBase counts.vrH
      r_le_ms := by omega
      ms_le_h := high
      missingMs := missingMs
      idle := fun off => by simp at off
      running := fun _ => ⟨h, by omega, le_refl h, counts.vrH⟩ }
  · refine ⟨{ w with vrX := numbered r x, vrMs := numbered r ms', reorderingTimer := false }, ms',
      by simp only [behind, decide_false, Bool.false_eq_true, ↓reduceIte]; rfl, rfl, ?_⟩
    exact { counts with
      vrMs := rfl
      vrX := rfl
      r_le_ms := by omega
      ms_le_h := high
      missingMs := missingMs
      idle := fun _ => by omega
      running := fun on => by simp at on }

end Ns3.Rlc.AmReceiver
