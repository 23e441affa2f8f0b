import Ns3.Internet.Ipv4Address
import Ns3.Time

/-!
# `ArpCache` and `ArpL3Protocol`

`none` is a failed `NS_ASSERT` or a fatal error. A packet with its IPv4 header is
a `P`, a hardware address an `A`. ARP requests and replies that are sent do not
change the cache and are left out.
-/

namespace Ns3.Internet

inductive ArpState
  | alive
  | waitReply
  | dead
  | permanent
  | staticAutogenerated
  deriving DecidableEq

/-- `ArpCache::Entry`. A hardware address that is `none` is invalid. -/
structure ArpEntry (P A : Type) where
  state : ArpState
  lastSeen : Time
  macAddress : Option A
  pending : List P
  retries : Nat

/-- `Time::Max ()`, the end of the simulation clock -/
def timeMax : Time := 2 ^ 63 - 1

/-- The attributes of `ArpCache`. -/
structure ArpAttributes where
  aliveTimeout : Time
  deadTimeout : Time
  waitReplyTimeout : Time
  maxRetries : Nat
  pendingQueueSize : Nat

namespace ArpEntry

variable {P A : Type}

/-- The constructor. -/
def create : ArpEntry P A := ⟨.alive, 0, none, [], 0⟩

def getTimeout (a : ArpAttributes) (e : ArpEntry P A) : Time :=
  match e.state with
  | .waitReply => a.waitReplyTimeout
  | .dead => a.deadTimeout
  | .alive => a.aliveTimeout
  | .permanent | .staticAutogenerated => timeMax

def isExpired (a : ArpAttributes) (now : Time) (e : ArpEntry P A) : Bool :=
  now - e.lastSeen > e.getTimeout a

/-- `MarkDead`, in one of the states where it is called. -/
def markDead (now : Time) (e : ArpEntry P A) : ArpEntry P A :=
  { e with state := .dead, retries := 0, lastSeen := now }

def markAlive (now : Time) (macAddress : A) (e : ArpEntry P A) : ArpEntry P A :=
  { e with macAddress := some macAddress, state := .alive, retries := 0, lastSeen := now }

/-- `MarkPermanent` and `MarkAutoGenerated`. -/
def markStatic (state : ArpState) (now : Time) (e : ArpEntry P A) : Option (ArpEntry P A) :=
  if e.macAddress.isSome then some { e with state := state, retries := 0, lastSeen := now }
  else none

def markPermanent (now : Time) (e : ArpEntry P A) : Option (ArpEntry P A) :=
  e.markStatic .permanent now

def markAutoGenerated (now : Time) (e : ArpEntry P A) : Option (ArpEntry P A) :=
  e.markStatic .staticAutogenerated now

/-- With the answer whether there was room. -/
def updateWaitReply (a : ArpAttributes) (waiting : P) (e : ArpEntry P A) : ArpEntry P A × Bool :=
  if a.pendingQueueSize ≤ e.pending.length then (e, false)
  else ({ e with pending := e.pending ++ [waiting] }, true)

/-- Up to the start of the timer. -/
def markWaitReply (now : Time) (waiting : P) (e : ArpEntry P A) : Option (ArpEntry P A) :=
  if (e.state = .alive ∨ e.state = .dead) ∧ e.pending.isEmpty then
    some { e with state := .waitReply, pending := [waiting], lastSeen := now }
  else
    none

end ArpEntry

/-- The map from addresses to entries, in the order of the addresses, and when
`m_waitReplyTimer` runs out. -/
structure ArpCache (P A : Type) where
  cache : List (Ipv4Address × ArpEntry P A)
  waitReplyTimer : Option Time

/-- What becomes of a packet given to `ArpL3Protocol::Lookup`. -/
inductive ArpVerdict (A : Type)
  | found (hardwareDestination : Option A)
  | pending
  | drop
  deriving DecidableEq

namespace ArpCache

variable {P A : Type}

def create : ArpCache P A := ⟨[], none⟩

/-- `m_arpCache.find` -/
def find (to_ : Ipv4Address) : List (Ipv4Address × ArpEntry P A) → Option (ArpEntry P A)
  | [] => none
  | (key, e) :: rest => if key = to_ then some e else find to_ rest

/-- The entry is changed in its place. -/
def assign (to_ : Ipv4Address) (e : ArpEntry P A) :
    List (Ipv4Address × ArpEntry P A) → List (Ipv4Address × ArpEntry P A)
  | [] => []
  | (key, old) :: rest => if key = to_ then (key, e) :: rest else (key, old) :: assign to_ e rest

/-- `m_arpCache.erase` -/
def eraseKey (to_ : Ipv4Address) :
    List (Ipv4Address × ArpEntry P A) → List (Ipv4Address × ArpEntry P A)
  | [] => []
  | (key, old) :: rest => if key = to_ then rest else (key, old) :: eraseKey to_ rest

/-- A new key goes before the first larger one. -/
def insertKey (to_ : Ipv4Address) (e : ArpEntry P A) :
    List (Ipv4Address × ArpEntry P A) → List (Ipv4Address × ArpEntry P A)
  | [] => [(to_, e)]
  | (key, old) :: rest =>
    if to_ < key then (to_, e) :: (key, old) :: rest else (key, old) :: insertKey to_ e rest

variable (c : ArpCache P A)

def lookup (to_ : Ipv4Address) : Option (ArpEntry P A) := find to_ c.cache

def add (to_ : Ipv4Address) : Option (ArpCache P A) :=
  if (c.lookup to_).isSome then none
  else some { c with cache := insertKey to_ .create c.cache }

/-- A delay that is negative fails in `Simulator::Schedule`. -/
def schedule (a : ArpAttributes) (now : Time) : Option (ArpCache P A) :=
  if a.waitReplyTimeout < 0 then none
  else some { c with waitReplyTimer := some (now + a.waitReplyTimeout) }

def startWaitReplyTimer (a : ArpAttributes) (now : Time) : Option (ArpCache P A) :=
  if c.waitReplyTimer.isSome then some c else c.schedule a now

/-- An entry in the loop of `HandleWaitReplyTimeout`: itself, the packets dropped,
and whether the timer is to be restarted. -/
def handleEntry (a : ArpAttributes) (now : Time) (e : ArpEntry P A) : ArpEntry P A × List P × Bool :=
  if e.state = .waitReply then
    if e.retries < a.maxRetries then
      ({ e with retries := e.retries + 1, lastSeen := now }, [], true)
    else
      ({ e.markDead now with pending := [] }, e.pending, false)
  else
    (e, [], false)

/-- With the packets dropped. The timer has run out before. -/
def handleWaitReplyTimeout (a : ArpAttributes) (now : Time) : Option (ArpCache P A × List P) := do
  let c' : ArpCache P A :=
    ⟨c.cache.map fun (key, e) => (key, (handleEntry a now e).1), none⟩
  let dropped := c.cache.flatMap fun (_, e) => (handleEntry a now e).2.1
  let restart := c.cache.any fun (_, e) => (handleEntry a now e).2.2
  return (← if restart then c'.schedule a now else some c', dropped)

/-- `SetMacAddress` of the entry for an address -/
def setMacAddress (to_ : Ipv4Address) (macAddress : A) : Option (ArpCache P A) := do
  let e ← c.lookup to_
  return { c with cache := assign to_ { e with macAddress := some macAddress } c.cache }

/-- `MarkPermanent` of the entry for an address -/
def markPermanent (now : Time) (to_ : Ipv4Address) : Option (ArpCache P A) := do
  let e ← (← c.lookup to_).markPermanent now
  return { c with cache := assign to_ e c.cache }

/-- `MarkAutoGenerated` of the entry for an address -/
def markAutoGenerated (now : Time) (to_ : Ipv4Address) : Option (ArpCache P A) := do
  let e ← (← c.lookup to_).markAutoGenerated now
  return { c with cache := assign to_ e c.cache }

/-- With the packets that the entry kept. -/
def remove (to_ : Ipv4Address) : Option (ArpCache P A × List P) := do
  let e ← c.lookup to_
  return ({ c with cache := eraseKey to_ c.cache }, e.pending)

/-- With the packets that the entries kept. -/
def removeAutoGeneratedEntries : ArpCache P A × List P :=
  ({ c with cache := c.cache.filter fun x => x.2.state ≠ .staticAutogenerated },
    (c.cache.filter fun x => x.2.state = .staticAutogenerated).flatMap fun x => x.2.pending)

/-- With the packets that the entries kept. -/
def flush : ArpCache P A × List P := (create, c.cache.flatMap fun x => x.2.pending)

end ArpCache

/-! ## `ArpL3Protocol` -/

namespace ArpL3Protocol

variable {P A : Type}

/-- `MarkWaitReply` of the entry for an address -/
def wait (a : ArpAttributes) (now : Time) (c : ArpCache P A) (packet : P) (destination : Ipv4Address)
    (e : ArpEntry P A) : Option (ArpCache P A × ArpVerdict A) := do
  let e ← e.markWaitReply now packet
  let c ← { c with cache := ArpCache.assign destination e c.cache }.startWaitReplyTimer a now
  return (c, .pending)

def lookup (a : ArpAttributes) (now : Time) (c : ArpCache P A) (packet : P)
    (destination : Ipv4Address) : Option (ArpCache P A × ArpVerdict A) :=
  match c.lookup destination with
  | some e =>
    if e.isExpired a now then
      match e.state with
      | .dead | .alive => wait a now c packet destination e
      | .waitReply | .permanent | .staticAutogenerated => none
    else
      match e.state with
      | .dead => some (c, .drop)
      | .alive => some (c, .found e.macAddress)
      | .waitReply =>
        let (e, room) := e.updateWaitReply a packet
        if room then some ({ c with cache := ArpCache.assign destination e c.cache }, .pending)
        else some (c, .drop)
      | .permanent | .staticAutogenerated => some (c, .found e.macAddress)
  | none => do
    let c ← c.add destination
    wait a now c packet destination .create

structure ArpHeader (A : Type) where
  isRequest : Bool
  sourceHardwareAddress : A
  sourceIpv4Address : Ipv4Address
  destinationHardwareAddress : A
  destinationIpv4Address : Ipv4Address

/-- `Receive` at an interface with these addresses, on a device with the address `own`, with the
pending packets it sends. An ARP packet of no use is dropped. -/
def receive [DecidableEq A] (addresses : List Ipv4Address) (own : A) (now : Time) (c : ArpCache P A)
    (arp : ArpHeader A) : ArpCache P A × List P :=
  if addresses.contains arp.destinationIpv4Address ∧ !arp.isRequest ∧
      arp.destinationHardwareAddress = own then
    match c.lookup arp.sourceIpv4Address with
    | some e =>
      if e.state = .waitReply then
        let sent := { e.markAlive now arp.sourceHardwareAddress with pending := [] }
        ({ c with cache := ArpCache.assign arp.sourceIpv4Address sent c.cache }, e.pending)
      else (c, [])
    | none => (c, [])
  else
    (c, [])

end ArpL3Protocol

end Ns3.Internet
