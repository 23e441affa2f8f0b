import Mathlib.Data.List.Basic
import Ns3.Time

/-!
# `WifiMacQueueContainer`

The container queues of a MAC queue, and how MPDUs with expired lifetime are extracted from one.
-/

namespace Ns3.Wifi.MacQueue

open List

/-- The octets of an address, the first one in the highest bits. -/
abbrev Mac48Address := BitVec 48

def Mac48Address.isGroup (address : Mac48Address) : Bool := address.getLsbD 40

/-- `IsCtl`, `IsMgt` and `IsQosData` of a header. -/
inductive FrameType
  | ctl
  | mgt
  | qosData
  | data
  deriving DecidableEq

/-- An original MPDU is a pointer, `id`. -/
structure WifiMpdu where
  id : Nat
  type : FrameType
  addr1 : Mac48Address
  addr2 : Mac48Address
  qosTid : UInt8
  isRetry : Bool
  size : Nat
  deriving DecidableEq

inductive WifiContainerQueueType
  | ctlQueue
  | mgtQueue
  | qosdataQueue
  | dataQueue
  deriving DecidableEq

inductive WifiReceiverAddressType
  | unicast
  | broadcast
  deriving DecidableEq

structure WifiContainerQueueId where
  type : WifiContainerQueueType
  addrType : WifiReceiverAddressType
  address : Mac48Address
  tid : Option UInt8
  deriving DecidableEq

namespace WifiMpdu

def isCtl (mpdu : WifiMpdu) : Bool := mpdu.type = .ctl

def isMgt (mpdu : WifiMpdu) : Bool := mpdu.type = .mgt

def getQueueId (mpdu : WifiMpdu) : WifiContainerQueueId :=
  let addrType := if mpdu.addr1.isGroup then .broadcast else .unicast
  let address := if mpdu.addr1.isGroup then mpdu.addr2 else mpdu.addr1
  match mpdu.type with
  | .ctl => ⟨.ctlQueue, addrType, address, none⟩
  | .mgt => ⟨.mgtQueue, addrType, address, none⟩
  | .qosData => ⟨.qosdataQueue, addrType, address, some mpdu.qosTid⟩
  | .data => ⟨.dataQueue, addrType, address, none⟩

end WifiMpdu

structure WifiMacQueueElem where
  mpdu : WifiMpdu
  expiryTime : Time
  /-- The links on which an alias is in flight. -/
  inflights : List UInt8
  deriving DecidableEq

abbrev ContainerQueue := List WifiMacQueueElem

namespace WifiMacQueueElem

def isInFlight (e : WifiMacQueueElem) : Bool := !e.inflights.isEmpty

/-- The lifetime is over. -/
def isExpired (now : Time) (e : WifiMacQueueElem) : Bool := e.expiryTime ≤ now

def isStale (now : Time) (e : WifiMacQueueElem) : Bool := e.isExpired now && !e.isInFlight

/-- Neither in flight nor expired: no MPDU behind it is extracted. -/
def isLive (now : Time) (e : WifiMacQueueElem) : Bool := !e.isExpired now && !e.isInFlight

end WifiMacQueueElem

open WifiMacQueueElem

/-! ## Expired MPDUs -/

/-- The `do` loop of `DoExtractExpiredMpdus`, where the elements from `lastExpiredIt` on are
`rest`: what remains, and what is transferred. -/
def extractLoop (now : Time) : (fuel : Nat) → (passed rest extracted : ContainerQueue) →
    ContainerQueue × ContainerQueue
  | 0, passed, rest, extracted => (passed ++ rest, extracted)
  | fuel + 1, passed, rest, extracted =>
    let passed := passed ++ rest.takeWhile isInFlight
    let rest := rest.dropWhile isInFlight
    let stale := rest.takeWhile (isStale now)
    if stale.isEmpty then (passed ++ rest, extracted)
    else extractLoop now fuel passed (rest.dropWhile (isStale now)) (extracted ++ stale)

def doExtractExpiredMpdus (now : Time) (queue : ContainerQueue) :
    ContainerQueue × ContainerQueue :=
  extractLoop now (queue.length + 1) [] queue []

/-- What remains: of the MPDUs before the first live one those in flight. -/
def survivors (now : Time) : ContainerQueue → ContainerQueue
  | [] => []
  | e :: rest =>
    if e.isInFlight then e :: survivors now rest
    else if e.isExpired now then survivors now rest
    else e :: rest

/-- What is extracted. -/
def stales (now : Time) : ContainerQueue → ContainerQueue
  | [] => []
  | e :: rest =>
    if e.isInFlight then stales now rest
    else if e.isExpired now then e :: stales now rest
    else []

variable {now : Time}

theorem survivors_cons (e : WifiMacQueueElem) (rest : ContainerQueue) : survivors now (e :: rest) =
      if e.isInFlight then e :: survivors now rest
      else if e.isExpired now then survivors now rest
      else e :: rest :=
  rfl

theorem stales_cons (e : WifiMacQueueElem) (rest : ContainerQueue) : stales now (e :: rest) =
      if e.isInFlight then stales now rest
      else if e.isExpired now then e :: stales now rest
      else [] :=
  rfl

theorem survivors_takeWhile_inFlight (queue : ContainerQueue) : survivors now queue =
        queue.takeWhile isInFlight ++ survivors now (queue.dropWhile isInFlight) ∧
      stales now queue = stales now (queue.dropWhile isInFlight) := by
  induction queue with
  | nil => exact ⟨rfl, rfl⟩
  | cons e rest ih => cases flies : e.isInFlight <;> simp [survivors, stales, flies, ih]

theorem survivors_takeWhile_stale (queue : ContainerQueue) :
    survivors now queue = survivors now (queue.dropWhile (isStale now)) ∧
      stales now queue = queue.takeWhile (isStale now) ++
        stales now (queue.dropWhile (isStale now)) := by
  induction queue with
  | nil => exact ⟨rfl, rfl⟩
  | cons e rest ih =>
    cases stale : e.isStale now with
    | false => simp [stale]
    | true =>
      obtain ⟨due, rests⟩ := Bool.and_eq_true_iff.mp stale
      rw [Bool.not_eq_true'] at rests
      simp [survivors, stales, stale, due, rests, ih]

/-- Behind those in flight the first MPDU is live, unless it is stale. -/
theorem survivors_of_none {queue : ContainerQueue} (rests : queue.dropWhile isInFlight = queue)
    (none : queue.takeWhile (isStale now) = []) :
    survivors now queue = queue ∧ stales now queue = [] := by
  cases queue with
  | nil => exact ⟨rfl, rfl⟩
  | cons e rest =>
    have flies : e.isInFlight = false := by
      by_contra flies
      rw [Bool.not_eq_false] at flies
      rw [dropWhile_cons_of_pos flies] at rests
      have shorter := (dropWhile_sublist isInFlight (l := rest)).length_le
      rw [rests] at shorter
      exact absurd shorter (by simp)
    have due : e.isExpired now = false := by
      by_contra due
      rw [Bool.not_eq_false] at due
      simp [isStale, due, flies] at none
    simp [survivors, stales, flies, due]

theorem dropWhile_dropWhile (queue : ContainerQueue) :
    (queue.dropWhile isInFlight).dropWhile isInFlight = queue.dropWhile isInFlight := by
  induction queue with
  | nil => rfl
  | cons e rest ih => cases flies : e.isInFlight <;> simp [flies, ih]

theorem extractLoop_eq {fuel : Nat} {passed rest extracted : ContainerQueue}
    (enough : rest.length < fuel) :
    extractLoop now fuel passed rest extracted =
      (passed ++ survivors now rest, extracted ++ stales now rest) := by
  induction fuel generalizing passed rest extracted with
  | zero => exact absurd enough (Nat.not_lt_zero _)
  | succ fuel ih =>
    obtain ⟨kept, gone⟩ := @survivors_takeWhile_inFlight now rest
    rw [kept, gone]
    unfold extractLoop
    dsimp only
    split
    case isTrue none =>
      obtain ⟨kept, gone⟩ := survivors_of_none (dropWhile_dropWhile rest) (List.isEmpty_iff.mp none)
      simp [kept, gone]
    case isFalse some =>
      obtain ⟨kept, gone⟩ := @survivors_takeWhile_stale now (rest.dropWhile isInFlight)
      rw [kept, gone, ih, append_assoc, append_assoc]
      have first : (rest.dropWhile isInFlight).length ≤ rest.length :=
        (dropWhile_sublist _).length_le
      have split := congrArg List.length
        (takeWhile_append_dropWhile (p := isStale now) (l := rest.dropWhile isInFlight))
      rw [length_append] at split
      have positive := length_pos_iff.mpr (mt List.isEmpty_iff.mpr some)
      omega

/-- **The extraction** ends with all MPDUs that are stale and not behind a live one. -/
theorem doExtractExpiredMpdus_eq (now : Time) (queue : ContainerQueue) :
    doExtractExpiredMpdus now queue = (survivors now queue, stales now queue) :=
  extractLoop_eq (Nat.lt_succ_self _)

theorem mem_stales_iff {queue : ContainerQueue} {e : WifiMacQueueElem} :
    e ∈ stales now queue ↔ ∃ before after, queue = before ++ e :: after ∧
      e.isStale now = true ∧ ∀ x ∈ before, x.isLive now = false := by
  induction queue with
  | nil => simp [stales]
  | cons x rest ih =>
    have split : (∃ before after, x :: rest = before ++ e :: after ∧ e.isStale now = true ∧
        ∀ y ∈ before, y.isLive now = false) ↔
        (e = x ∧ x.isStale now = true) ∨ x.isLive now = false ∧ e ∈ stales now rest := by
      rw [ih]
      constructor
      · rintro ⟨_ | ⟨y, before⟩, after, eq, stale, passed⟩
        · obtain ⟨rfl, -⟩ := List.cons.inj eq
          exact .inl ⟨rfl, stale⟩
        · obtain ⟨rfl, rest_eq⟩ := List.cons.inj eq
          obtain ⟨first, passed⟩ := forall_mem_cons.mp passed
          exact .inr ⟨first, before, after, rest_eq, stale, passed⟩
      · rintro (⟨rfl, stale⟩ | ⟨first, before, after, rfl, stale, passed⟩)
        · exact ⟨[], rest, rfl, stale, nofun⟩
        · exact ⟨x :: before, after, rfl, stale, forall_mem_cons.mpr ⟨first, passed⟩⟩
    rw [split, stales_cons]
    cases flies : x.isInFlight with
    | true => simp [isLive, isStale, flies]
    | false => cases due : x.isExpired now <;> simp [isLive, isStale, flies, due]

theorem survivors_perm (queue : ContainerQueue) :
    (survivors now queue ++ stales now queue).Perm queue := by
  induction queue with
  | nil => exact .nil
  | cons e rest ih =>
    rw [survivors_cons, stales_cons]
    split
    · exact ih.cons e
    · split
      · exact perm_middle.trans (ih.cons e)
      · rw [append_nil]

theorem survivors_sublist (queue : ContainerQueue) : (survivors now queue).Sublist queue := by
  induction queue with
  | nil => exact .slnil
  | cons e rest ih =>
    rw [survivors_cons]
    split
    · exact ih.cons₂ e
    · split
      · exact ih.cons e
      · exact .refl _

theorem survivors_append_of_live {before : ContainerQueue} {e : WifiMacQueueElem}
    (mem : e ∈ before) (live : e.isLive now = true) (after : ContainerQueue) :
    survivors now (before ++ after) = survivors now before ++ after ∧
      stales now (before ++ after) = stales now before := by
  induction before with
  | nil => cases mem
  | cons x rest ih =>
    rw [cons_append, survivors_cons, survivors_cons, stales_cons, stales_cons]
    rcases mem_cons.mp mem with rfl | mem
    · simp only [isLive, Bool.and_eq_true, Bool.not_eq_true'] at live
      simp [live.1, live.2]
    · obtain ⟨kept, gone⟩ := ih mem
      rw [kept, gone]
      split
      · exact ⟨rfl, rfl⟩
      · split <;> exact ⟨rfl, rfl⟩

/-- Without a live MPDU those in flight remain. -/
theorem survivors_append_of_passed {before : ContainerQueue}
    (passed : ∀ e ∈ before, e.isLive now = false) (after : ContainerQueue) :
    survivors now (before ++ after) = before.filter isInFlight ++ survivors now after ∧
      stales now (before ++ after) =
        before.filter (fun e => !e.isInFlight) ++ stales now after := by
  induction before with
  | nil => exact ⟨rfl, rfl⟩
  | cons x rest ih =>
    obtain ⟨first, passed⟩ := forall_mem_cons.mp passed
    obtain ⟨kept, gone⟩ := ih passed
    rw [cons_append, survivors_cons, stales_cons, kept, gone]
    cases flies : x.isInFlight with
    | true => simp [flies]
    | false =>
      have due : x.isExpired now = true := by simpa [isLive, flies] using first
      simp [flies, due]

theorem survivors_survivors (queue : ContainerQueue) :
    survivors now (survivors now queue) = survivors now queue ∧
      stales now (survivors now queue) = [] := by
  induction queue with
  | nil => exact ⟨rfl, rfl⟩
  | cons e rest ih =>
    rw [survivors_cons]
    cases flies : e.isInFlight with
    | true => simp [survivors_cons, stales_cons, flies, ih]
    | false =>
      cases due : e.isExpired now with
      | true => simpa using ih
      | false => simp [survivors_cons, stales_cons, flies, due]

end Ns3.Wifi.MacQueue
