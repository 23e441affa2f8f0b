import Mathlib
import Ns3.Library.Machine

/-!
# The routing table of `Rip`

An entry holds its one event, which either invalidates or deletes it. What is
sent and the sockets are left out. Addresses and masks are 32-bit numbers,
`none` is an event that does not come at its time.
-/

namespace Ns3.Internet

inductive RipStatus where
  | valid
  | invalid
  deriving DecidableEq

/-- `RipRoutingTableEntry` -/
structure RipRoute where
  network : Nat
  mask : Nat
  gateway : Nat
  interface : Nat
  tag : Nat := 0
  metric : Nat
  status : RipStatus
  changed : Bool
  deriving DecidableEq

inductive RipAction where
  | invalidateRoute
  | deleteRoute
  deriving DecidableEq

/-- `SetRouteMetric`, into 8 bits. -/
def RipRoute.setRouteMetric (route : RipRoute) (routeMetric : Nat) : RipRoute :=
  { route with metric := routeMetric % 2 ^ 8 }

/-- A scheduled event that still runs. -/
structure RipTimer where
  action : RipAction
  ts : Nat
  deriving DecidableEq

structure RipEntry where
  route : RipRoute
  event : Option RipTimer
  deriving DecidableEq

inductive AddressScope where
  | host
  | link
  | global
  deriving DecidableEq

structure Ipv4InterfaceAddress where
  localAddress : Nat
  mask : Nat
  scope : AddressScope

def Ipv4InterfaceAddress.network (address : Ipv4InterfaceAddress) : Nat :=
  address.localAddress &&& address.mask

structure RipRte where
  tag : Nat
  prefixAddress : Nat
  subnetMask : Nat
  metric : Nat

structure Rip where
  routes : List RipEntry
  now : Nat
  linkDown : Nat
  timeoutDelay : Nat
  garbageCollectionDelay : Nat
  interfaceMetrics : Nat → Option Nat
  interfaceExclusions : Nat → Bool

namespace Rip

variable (s : Rip)

/-- `GetDelayLeft` -/
def delayLeft (event : Option RipTimer) : Nat :=
  match event with
  | none => 0
  | some timer => timer.ts - s.now

/-- `AddNetworkRouteTo` without a next hop. -/
def addNetworkRouteTo (network mask interface : Nat) : Rip :=
  { s with routes := s.routes ++ [⟨⟨network, mask, 0, interface, 0, 1, .valid, true⟩, none⟩] }

/-- `InvalidateRoute` of an entry in the table. -/
def invalidateRoute (entry : RipEntry) : RipEntry where
  route := { entry.route.setRouteMetric s.linkDown with status := .invalid, changed := true }
  event := some ⟨.deleteRoute, s.now + s.garbageCollectionDelay⟩

def notifyInterfaceUp (i : Nat) (loopback : Bool) (addresses : List Ipv4InterfaceAddress) : Rip :=
  if loopback then s
  else addresses.foldl (fun s address =>
    if address.scope = .global then s.addNetworkRouteTo address.network address.mask i else s) s

def notifyInterfaceDown (interface : Nat) : Rip :=
  { s with routes := s.routes.map fun entry =>
      if entry.route.interface = interface then s.invalidateRoute entry else entry }

def notifyAddAddress (interface : Nat) (up : Bool) (address : Ipv4InterfaceAddress) : Rip :=
  if !up || s.interfaceExclusions interface then s
  else if address.scope = .global then
    s.addNetworkRouteTo address.network address.mask interface
  else s

/-- `IsNetwork` -/
def isNetwork (route : RipRoute) : Bool := route.mask ≠ 2 ^ 32 - 1

def notifyRemoveAddress (interface : Nat) (up : Bool) (address : Ipv4InterfaceAddress) : Rip :=
  if !up || address.scope ≠ .global then s
  else { s with routes := s.routes.map fun entry =>
      if entry.route.interface = interface ∧ isNetwork entry.route ∧
          entry.route.network = address.network ∧ entry.route.mask = address.mask then
        s.invalidateRoute entry
      else entry }

/-! ## Responses -/

/-- The metric of a RTE over the interface. -/
def rteMetric (incomingInterface : Nat) (rte : RipRte) : Nat :=
  min ((rte.metric + (s.interfaceMetrics incomingInterface).getD 1) % 2 ^ 32) s.linkDown

/-- A route as a RTE describes it. -/
def learned (sender incomingInterface : Nat) (rte : RipRte) : RipRoute where
  network := rte.prefixAddress &&& rte.subnetMask
  mask := rte.subnetMask
  gateway := sender
  interface := incomingInterface
  metric := s.rteMetric incomingInterface rte % 2 ^ 8
  status := .valid
  changed := true

def timeout : RipTimer := ⟨.invalidateRoute, s.now + s.timeoutDelay⟩

/-- Whether the RTE is about the network of an entry. -/
def matching (rte : RipRte) (entry : RipEntry) : Bool :=
  entry.route.network = (rte.prefixAddress &&& rte.subnetMask) ∧ entry.route.mask = rte.subnetMask

/-- What an RTE does to an entry of its network. -/
def updateEntry (sender incomingInterface : Nat) (rte : RipRte) (entry : RipEntry) : RipEntry :=
  let metric := s.rteMetric incomingInterface rte
  if metric < entry.route.metric then
    let route := if sender ≠ entry.route.gateway then s.learned sender incomingInterface rte
      else entry.route
    ⟨{ route.setRouteMetric metric with status := .valid, tag := rte.tag, changed := true },
      some s.timeout⟩
  else if metric = entry.route.metric then
    if sender = entry.route.gateway then { entry with event := some s.timeout }
    else if s.delayLeft entry.event < s.timeoutDelay / 2 then
      ⟨{ s.learned sender incomingInterface rte with tag := rte.tag }, some s.timeout⟩
    else entry
  else if sender = entry.route.gateway then
    if metric < s.linkDown then
      ⟨{ entry.route.setRouteMetric metric with
        status := .valid, tag := rte.tag, changed := true }, some s.timeout⟩
    else s.invalidateRoute entry
  else entry

/-- One RTE of `HandleResponses`. -/
def handleRte (sender incomingInterface : Nat) (s : Rip) (rte : RipRte) : Rip :=
  if s.routes.any (matching rte) then
    { s with routes := s.routes.map fun entry =>
        if matching rte entry then s.updateEntry sender incomingInterface rte entry else entry }
  else if s.rteMetric incomingInterface rte ≠ s.linkDown then
    { s with routes := ⟨s.learned sender incomingInterface rte, some s.timeout⟩ :: s.routes }
  else s

/-- The check of an RTE before any is processed. -/
def wellFormed (rte : RipRte) : Bool :=
  rte.metric ≠ 0 ∧ rte.metric ≤ s.linkDown ∧ rte.prefixAddress ≠ 0x7f000001 ∧
    rte.prefixAddress ≠ 0xffffffff ∧
    ¬ (0xe0000000 ≤ rte.prefixAddress ∧ rte.prefixAddress ≤ 0xefffffff)

def handleResponses (rtes : List RipRte) (sender incomingInterface : Nat) : Rip :=
  if s.interfaceExclusions incomingInterface then s
  else if rtes.all s.wellFormed then rtes.foldl (handleRte sender incomingInterface) s
  else s

/-! ## Lookup -/

/-- The loop of `GetPrefixLength`, of 32 rounds at most. -/
def prefixLength : (rounds : Nat) → (mask : Nat) → Nat
  | 0, _ => 0
  | rounds + 1, mask => if mask = 0 then 0 else prefixLength rounds (mask * 2 % 2 ^ 32) + 1

/-- `Lookup` of an address that is not a local multicast address: the length of the mask and
the route that were found. -/
def lookup (dst : Nat) (interface : Option Nat) : Option RipRoute :=
  (s.routes.foldl (fun (found : Nat × Option RipRoute) entry =>
    let route := entry.route
    if route.status = .valid ∧ (dst &&& route.mask) = (route.network &&& route.mask) ∧
        interface.all (· = route.interface) ∧ found.1 ≤ prefixLength 32 route.mask then
      (prefixLength 32 route.mask, some route)
    else found) (0, none)).2

/-! ## Events -/

inductive Event where
  | interfaceUp (i : Nat) (loopback : Bool) (addresses : List Ipv4InterfaceAddress)
  | interfaceDown (interface : Nat)
  | addAddress (interface : Nat) (up : Bool) (address : Ipv4InterfaceAddress)
  | removeAddress (interface : Nat) (up : Bool) (address : Ipv4InterfaceAddress)
  | responses (rtes : List RipRte) (sender incomingInterface : Nat)
  /-- The event of an entry is due. -/
  | expire (index : Nat)
  /-- `DoSendRouteUpdate` clears the changes. -/
  | updateSent

/-- The event of an entry runs. -/
def expire (index : Nat) : Option Rip := do
  let entry ← s.routes[index]?
  let timer ← entry.event
  if timer.ts ≠ s.now then none
  else match timer.action with
    | .invalidateRoute => return { s with routes := s.routes.set index (s.invalidateRoute entry) }
    | .deleteRoute => return { s with routes := s.routes.eraseIdx index }

/-- What happens at a time, which is not after an event that is still to run. -/
def step (s : Rip) (event : Nat × Event) : Option Rip :=
  if s.now ≤ event.1 ∧ s.routes.all (fun entry => entry.event.all (event.1 ≤ ·.ts)) then
    let s := { s with now := event.1 }
    match event.2 with
    | .interfaceUp i loopback addresses => some (s.notifyInterfaceUp i loopback addresses)
    | .interfaceDown interface => some (s.notifyInterfaceDown interface)
    | .addAddress interface up address => some (s.notifyAddAddress interface up address)
    | .removeAddress interface up address => some (s.notifyRemoveAddress interface up address)
    | .responses rtes sender incomingInterface =>
      some (s.handleResponses rtes sender incomingInterface)
    | .expire index => s.expire index
    | .updateSent => some { s with routes := s.routes.map fun entry =>
        { entry with route := { entry.route with changed := false } } }
  else none

end Rip

end Ns3.Internet
