import Ns3.Library.CircularBuffer
import Ns3.Library.Scan
import Ns3.Rlc.SequenceNumber

/-!
# The receive window of `LteRlcUm`

The part of the entity that decides which PDUs reach `ReassembleAndDeliver`,
and when. The operations return these PDUs in the order of the calls. The
reordering timer is running or not; that it expires is a step of its own.
-/

namespace Ns3.Rlc

open SequenceNumber10

structure UmWindow (Pdu : Type) where
  /-- a map whose keys are below 1024 -/
  rxBuffer : Nat → Option Pdu
  vrUr : SequenceNumber10
  vrUx : SequenceNumber10
  vrUh : SequenceNumber10
  reorderingTimer : Bool

namespace UmWindow

variable {Pdu : Type}

def create : UmWindow Pdu := ⟨fun _ => none, ofNat 0, ofNat 0, ofNat 0, false⟩

def count (w : UmWindow Pdu) (sn : Nat) : Bool := (w.rxBuffer sn).isSome

def insert (w : UmWindow Pdu) (sn : Nat) (pdu : Pdu) : UmWindow Pdu :=
  { w with rxBuffer := Function.update w.rxBuffer sn (some pdu) }

def erase (w : UmWindow Pdu) (sn : Nat) : UmWindow Pdu :=
  { w with rxBuffer := Function.update w.rxBuffer sn none }

/-- The test rebases VR(UH) as well. -/
def isInsideReorderingWindow (w : UmWindow Pdu) (seqNumber : SequenceNumber10) :
    UmWindow Pdu × Bool :=
  let w := { w with vrUh := w.vrUh.setModulusBase (w.vrUh.sub windowSize) }
  let seqNumber := seqNumber.setModulusBase (w.vrUh.sub windowSize)
  (w, (w.vrUh.sub windowSize).le seqNumber && seqNumber.lt w.vrUh)

/-- Goes through the map from its first key on, up to the first one inside. -/
def reassembleOutsideFrom (w : UmWindow Pdu) : List Nat → UmWindow Pdu × List Pdu
  | [] => (w, [])
  | key :: keys =>
    match w.rxBuffer key with
    | none => w.reassembleOutsideFrom keys
    | some pdu =>
      let (w, inside) := w.isInsideReorderingWindow (ofNat key)
      if inside then
        (w, [])
      else
        let (w, rest) := (w.erase key).reassembleOutsideFrom keys
        (w, pdu :: rest)

def reassembleOutsideWindow (w : UmWindow Pdu) : UmWindow Pdu × List Pdu :=
  w.reassembleOutsideFrom (List.range 1024)

/-- `while (reassembleSn < highSeqNumber)`, at most `fuel` rounds. -/
def reassembleFrom (w : UmWindow Pdu) (highSeqNumber : SequenceNumber10) :
    (fuel : Nat) → SequenceNumber10 → UmWindow Pdu × List Pdu
  | 0, _ => (w, [])
  | fuel + 1, reassembleSn =>
    if reassembleSn.lt highSeqNumber then
      match w.rxBuffer reassembleSn.value with
      | none => w.reassembleFrom highSeqNumber fuel reassembleSn.succ
      | some pdu =>
        let (w, rest) :=
          (w.erase reassembleSn.value).reassembleFrom highSeqNumber fuel reassembleSn.succ
        (w, pdu :: rest)
    else
      (w, [])

def reassembleSnInterval (w : UmWindow Pdu) (lowSeqNumber highSeqNumber : SequenceNumber10) :
    UmWindow Pdu × List Pdu :=
  w.reassembleFrom highSeqNumber 1024 lowSeqNumber

/-- The PDU was received before, or is behind VR(UR). -/
def discards (w : UmWindow Pdu) (seqNumber : SequenceNumber10) : Bool :=
  (w.vrUr.lt seqNumber && seqNumber.lt w.vrUh && w.count seqNumber.value) ||
    ((w.vrUh.sub windowSize).le seqNumber && seqNumber.lt w.vrUr)

/-- The modulus bases that `DoReceivePdu` sets first. -/
def rebaseForReceive (w : UmWindow Pdu) : UmWindow Pdu :=
  let base := w.vrUh.sub windowSize
  { w with vrUr := w.vrUr.setModulusBase base, vrUh := w.vrUh.setModulusBase base }

/-- `DoReceivePdu` does not discard a PDU with sequence number `sn`. -/
def accepts (w : UmWindow Pdu) (sn : Nat) : Bool :=
  !w.rebaseForReceive.discards ((ofNat sn).setModulusBase (w.vrUh.sub windowSize))

/-- `if (!IsInsideReorderingWindow (seqNumber))`: the window moves. -/
def moveWindow (w : UmWindow Pdu) (seqNumber : SequenceNumber10) : UmWindow Pdu × List Pdu :=
  let (w, inside) := w.isInsideReorderingWindow seqNumber
  if inside then
    (w, [])
  else
    let (w, outside) := { w with vrUh := seqNumber.add 1 }.reassembleOutsideWindow
    let (w, urInside) := w.isInsideReorderingWindow w.vrUr
    (if urInside then w else { w with vrUr := w.vrUh.sub windowSize }, outside)

/-- `if (m_rxBuffer.count (m_vrUr) > 0)`: VR(UR) moves over what was received.
The scan is on a `uint16_t`, which does not wrap at 1024. -/
def advanceVrUr (w : UmWindow Pdu) : UmWindow Pdu × List Pdu :=
  if w.count w.vrUr.value then
    let newVrUr := Scan.skipWhile Nat.succ w.count 1024 (w.vrUr.value + 1)
    { w with vrUr := w.vrUr.assign newVrUr }.reassembleSnInterval w.vrUr (w.vrUr.assign newVrUr)
  else
    (w, [])

def rebase (w : UmWindow Pdu) : UmWindow Pdu :=
  let base := w.vrUh.sub windowSize
  { w with
    vrUr := w.vrUr.setModulusBase base
    vrUx := w.vrUx.setModulusBase base
    vrUh := w.vrUh.setModulusBase base }

def stopReorderingTimer (w : UmWindow Pdu) : UmWindow Pdu :=
  if w.reorderingTimer then
    let (rebased, inside) := w.isInsideReorderingWindow w.vrUx
    if w.vrUx.le w.vrUr || (!inside && !w.vrUx.eq w.vrUh) then
      { rebased with reorderingTimer := false }
    else
      rebased
  else
    w

def startReorderingTimer (w : UmWindow Pdu) : UmWindow Pdu :=
  if !w.reorderingTimer && w.vrUh.gt w.vrUr then
    { w with reorderingTimer := true, vrUx := w.vrUh }
  else
    w

/-- `DoReceivePdu` for a PDU with sequence number `sn`. -/
def doReceivePdu (w : UmWindow Pdu) (sn : Nat) (pdu : Pdu) : UmWindow Pdu × List Pdu :=
  let seqNumber := (ofNat sn).setModulusBase (w.vrUh.sub windowSize)
  if !w.accepts sn then
    (w.rebaseForReceive, [])
  else
    let (w, outside) := (w.rebaseForReceive.insert seqNumber.value pdu).moveWindow seqNumber
    let (w, interval) := w.advanceVrUr
    (w.rebase.stopReorderingTimer.startReorderingTimer, outside ++ interval)

def expireReorderingTimer (w : UmWindow Pdu) : UmWindow Pdu × List Pdu :=
  let newVrUr := Scan.skipWhile succ (fun sn => w.count sn.value) 1024 w.vrUx
  let (w, interval) := { w with vrUr := newVrUr }.reassembleSnInterval w.vrUr newVrUr
  ({ w with reorderingTimer := false }.startReorderingTimer, interval)

end UmWindow

end Ns3.Rlc

/-!
## What the loops of the receive window do

Each operation of the window in terms of counters: `r` behind VR(UR) and `h`
behind VR(UH). The operations compare from `h - 512` on, a counter that is the
same number as `h + 512`.
-/

namespace Ns3.Rlc

open SequenceNumber10 CircularBuffer

/-- Where a sequence number lies from the lower edge of the window on, whose
upper edge is `h`. The window is the positions below 512. -/
def position (h sn : Nat) : Nat := Circular.offset 1024 ((h + 512) % 1024) sn

theorem position_counter {h n : Nat} (low : h ≤ n + 512) (high : n < h + 512) :
    position h (n % 1024) = n + 512 - h := by
  have at_ := Circular.offset_add (h + 512) (show n + 512 - h < 1024 by omega)
  rwa [show h + 512 + (n + 512 - h) = n + 1024 by omega, Nat.add_mod_right] at at_

/-- A counter that fell out of the window by less than its width. -/
theorem position_below {h n : Nat} (low : h ≤ n + 1024) (high : n + 512 < h) :
    position h (n % 1024) = n + 1536 - h := by
  have at_ := Circular.offset_add (h + 512) (show n + 1536 - h < 1024 by omega)
  rwa [show h + 512 + (n + 1536 - h) = n + 1024 + 1024 by omega, Nat.add_mod_right,
    Nat.add_mod_right] at at_

/-- Every sequence number is that of a counter around the upper edge. -/
theorem counter_of_position (h : Nat) {sn : Nat} (hsn : sn < 1024) :
    (h + 512 + position h sn) % 1024 = sn := by
  have there := Circular.add_offset (Nat.mod_lt (h + 512) (by decide)) hsn
  rw [Nat.mod_add_mod] at there
  exact there

theorem position_lt (h sn : Nat) : position h sn < 1024 := Circular.offset_lt (by decide) _ _

theorem takeWhile_congr {α : Type} {p q : α → Bool} {l : List α} (same : ∀ a ∈ l, p a = q a) :
    l.takeWhile p = l.takeWhile q := by
  induction l with
  | nil => rfl
  | cons a l ih =>
    simp only [List.takeWhile_cons, same a (by simp)]
    rw [ih fun b hb => same b (by simp [hb])]

namespace UmWindow

variable {Pdu : Type} {w : UmWindow Pdu}

theorem setModulusBase_window {s t : SequenceNumber10} {n h : Nat} (hs : s.value = n % 1024)
    (ht : t.value = h % 1024) : s.setModulusBase (t.sub windowSize) = numbered (h + 512) n :=
  setModulusBase_sub hs ht (show 512 + windowSize = 1024 from rfl) (by decide)

theorem numbered_edge (h b : Nat) : (numbered b h).sub windowSize = numbered b (h + 512) :=
  numbered_sub b h (show 512 + windowSize = 1024 from rfl) (by decide)

/-! ## Loops -/

theorem isInside_eq {h : Nat} {s : SequenceNumber10} (uh : w.vrUh.value = h % 1024)
    (hs : s.value < 1024) : w.isInsideReorderingWindow s =
      ({ w with vrUh := numbered (h + 512) h }, decide (position h s.value < 512)) := by
  have hh := setModulusBase_window uh uh
  have edge := numbered_edge h (h + 512)
  have here := counter_of_position h hs
  have hs' : s.setModulusBase (numbered (h + 512) (h + 512)) =
      numbered (h + 512) (h + 512 + position h s.value) := by simp [setModulusBase, numbered, here]
  have bound := position_lt h s.value
  have low : (numbered (h + 512) (h + 512)).le
      (numbered (h + 512) (h + 512 + position h s.value)) = true := by
    rw [← base_circle (h + 512) (h + 512), ← base_circle (h + 512) (h + 512 + _),
      le_numbered (by omega) (by omega) (by omega) (by omega)]
    exact decide_eq_true (by omega)
  have high : (numbered (h + 512) (h + 512 + position h s.value)).lt (numbered (h + 512) h) =
      decide (position h s.value < 512) := by
    rw [← base_circle (h + 512) h, ← base_circle (h + 512) (h + 512 + _), ← numbered_circle _ h,
      lt_numbered (by omega) (by omega) (by omega) (by omega), decide_eq_decide]
    omega
  simp [isInsideReorderingWindow, hh, edge, hs', low, high]

/-- `ReassembleSnInterval` passes on what is stored from `n` up to `hi`. -/
theorem reassembleFrom_eq {b n hi fuel : Nat} (base : b ≤ n + 1024) (order : n ≤ hi)
    (circle : hi < b) (enough : hi ≤ n + fuel) :
    w.reassembleFrom (numbered b hi) fuel (numbered b n) =
      ({ w with rxBuffer := cleared 1024 w.rxBuffer n hi }, pending 1024 w.rxBuffer n hi) := by
  induction fuel generalizing n w with
  | zero =>
    obtain rfl : n = hi := by omega
    simp [reassembleFrom]
  | succ fuel ih =>
    unfold reassembleFrom
    rw [lt_numbered (by omega) (by omega) (by omega) (by omega)]
    by_cases more : n < hi
    · rw [if_pos (by simp [more]), numbered_value, numbered_succ]
      cases here : w.rxBuffer (n % 1024) with
      | none =>
        have same : Function.update w.rxBuffer (n % 1024) none = w.rxBuffer := by simp [← here]
        simp only [ih (w := w) (n := n + 1) (by omega) (by omega) (by omega)]
        rw [pending_step more, here, ← cleared_step more, same]
        rfl
      | some pdu =>
        simp only [ih (w := w.erase (n % 1024)) (n := n + 1) (by omega) (by omega) (by omega)]
        have later : pending 1024 (w.erase (n % 1024)).rxBuffer (n + 1) hi =
            pending 1024 w.rxBuffer (n + 1) hi := by
          apply pending_congr
          intro k hk hk'
          apply Function.update_of_ne
          intro same
          have := Circular.eq_of_residue same (by omega) (by omega)
          omega
        rw [later, pending_step more, here, ← cleared_step more]
        rfl
    · obtain rfl : n = hi := by omega
      simp

/-- `ReassembleOutsideWindow` goes on past this key. -/
def goesOn (h : Nat) (buf : Nat → Option Pdu) (key : Nat) : Bool :=
  !((buf key).isSome && decide (position h key < 512))

/-- `ReassembleOutsideWindow` takes the keys before the first one inside. -/
theorem reassembleOutsideFrom_eq {h : Nat} {keys : List Nat} (uh : w.vrUh.value = h % 1024)
    (small : ∀ key ∈ keys, key < 1024) (nodup : keys.Nodup) :
    ∃ u : SequenceNumber10, u.value = h % 1024 ∧ w.reassembleOutsideFrom keys = ({ w with
          rxBuffer := fun sn => if sn ∈ keys.takeWhile (goesOn h w.rxBuffer) then none
            else w.rxBuffer sn
          vrUh := u },
        (keys.takeWhile (goesOn h w.rxBuffer)).filterMap w.rxBuffer) := by
  induction keys generalizing w with
  | nil => exact ⟨w.vrUh, uh, by simp [reassembleOutsideFrom]⟩
  | cons key keys ih =>
    obtain ⟨fresh, nodup⟩ := List.nodup_cons.mp nodup
    have hkey := small key (by simp)
    have later := fun k hk => small k (List.mem_cons_of_mem key hk)
    unfold reassembleOutsideFrom
    cases here : w.rxBuffer key with
    | none =>
      obtain ⟨u, hu, eq⟩ := ih uh later nodup
      have passed : goesOn h w.rxBuffer key = true := by simp [goesOn, here]
      refine ⟨u, hu, ?_⟩
      simp only [eq, List.takeWhile_cons, passed, ↓reduceIte, List.filterMap_cons, here]
      congr 2
      funext sn
      by_cases first : sn = key <;> simp [first, here]
    | some pdu =>
      have value : (ofNat key).value = key := Nat.mod_eq_of_lt hkey
      have test := isInside_eq uh (s := ofNat key) (by rwa [value])
      rw [value] at test
      simp only [test]
      by_cases inside : position h key < 512
      · have stopped : goesOn h w.rxBuffer key = false := by simp [goesOn, here, inside]
        exact ⟨numbered (h + 512) h, rfl, by simp [inside, stopped]⟩
      · have passed : goesOn h w.rxBuffer key = true := by simp [goesOn, inside]
        have off (k : Nat) (hk : k ∈ keys) : Function.update w.rxBuffer key none k = w.rxBuffer k :=
          Function.update_of_ne (by rintro rfl; exact fresh hk) _ _
        have taken : keys.takeWhile (goesOn h (Function.update w.rxBuffer key none)) =
            keys.takeWhile (goesOn h w.rxBuffer) :=
          takeWhile_congr fun k hk => by simp only [goesOn, off k hk]
        obtain ⟨u, hu, eq⟩ := ih (w := ({ w with vrUh := numbered (h + 512) h } :
          UmWindow Pdu).erase key) rfl later nodup
        refine ⟨u, hu, ?_⟩
        simp only [erase, taken] at eq
        simp only [inside, decide_false, Bool.false_eq_true, ↓reduceIte, erase, eq,
          List.takeWhile_cons, passed, List.filterMap_cons, here]
        congr 2
        · funext sn
          by_cases first : sn = key <;> simp [first]
        · exact List.filterMap_congr fun k hk => off k (List.takeWhile_subset _ hk)

end UmWindow

end Ns3.Rlc
