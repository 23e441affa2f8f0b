import Mathlib.Data.List.Basic

/-!
# `RoutingTableComputation` of OLSR

The host table from the repositories, and the HNA table from the host table and
what the HNA table held before.
-/

namespace Ns3.Olsr

/-- An `Ipv4Address`, or an `Ipv4Mask`, as a number. -/
abbrev Address := UInt32

/-- A willingness as a HELLO message carries it: any octet, with names for five of them. -/
structure Willingness where
  value : UInt8
  deriving DecidableEq

namespace Willingness

def never : Willingness := ⟨0⟩

def low : Willingness := ⟨1⟩

def default : Willingness := ⟨3⟩

def high : Willingness := ⟨6⟩

def always : Willingness := ⟨7⟩

end Willingness

inductive NeighborStatus where
  | notSym
  | sym
  deriving DecidableEq

structure NeighborTuple where
  neighborMainAddr : Address
  status : NeighborStatus
  willingness : Willingness

structure LinkTuple where
  localIfaceAddr : Address
  neighborIfaceAddr : Address
  time : Int

structure TwoHopNeighborTuple where
  neighborMainAddr : Address
  twoHopNeighborAddr : Address

structure TopologyTuple where
  destAddr : Address
  lastAddr : Address

structure IfaceAssocTuple where
  ifaceAddr : Address
  mainAddr : Address

/-- A network that a gateway announces. -/
structure AssociationTuple where
  gatewayAddr : Address
  networkAddr : Address
  netmask : Address

/-- A network that the node announces. -/
structure Association where
  networkAddr : Address
  netmask : Address

/-- The node, its interfaces with their addresses, and its repositories. -/
structure OlsrState where
  mainAddress : Address
  now : Int
  interfaces : List (List Address)
  neighborSet : List NeighborTuple
  linkSet : List LinkTuple
  twoHopNeighborSet : List TwoHopNeighborTuple
  topologySet : List TopologyTuple
  ifaceAssocSet : List IfaceAssocTuple
  associationSet : List AssociationTuple
  associations : List Association

structure RoutingTableEntry where
  destAddr : Address
  nextAddr : Address
  interface : Nat
  distance : Nat
  deriving DecidableEq

/-- `m_table`. -/
abbrev Table := Address → Option RoutingTableEntry

namespace Table

def addEntry (table : Table) (dest next : Address) (interface distance : Nat) : Table :=
  fun a => if a = dest then some ⟨dest, next, interface, distance⟩ else table a

theorem addEntry_self (table : Table) (dest next : Address) (interface distance : Nat) :
    table.addEntry dest next interface distance dest = some ⟨dest, next, interface, distance⟩ :=
  if_pos rfl

theorem addEntry_ne_none (table : Table) (dest next : Address) (interface distance : Nat) :
    table.addEntry dest next interface distance dest ≠ none := by
  rw [addEntry_self]
  exact Option.some_ne_none _

theorem of_addEntry {table : Table} {dest next d : Address} {interface distance : Nat}
    {e : RoutingTableEntry} (given : table.addEntry dest next interface distance d = some e) :
    d = dest ∧ e = ⟨dest, next, interface, distance⟩ ∨ table d = some e := by
  unfold addEntry at given
  split at given
  · rename_i same
    exact Or.inl ⟨same, (Option.some.inj given).symm⟩
  · exact Or.inr given

theorem addEntry_of_ne (table : Table) {dest a : Address} (other : a ≠ dest) (next : Address)
    (interface distance : Nat) : table.addEntry dest next interface distance a = table a :=
  if_neg other

end Table

namespace OlsrState

variable (s : OlsrState)

/-- The interface with the address; an address of no interface fails an assertion. -/
def interfaceOf (interfaceAddress : Address) : Nat :=
  (s.interfaces.findIdx? fun addresses => addresses.contains interfaceAddress).getD 0

def getMainAddress (ifaceAddr : Address) : Address :=
  match s.ifaceAssocSet.find? fun tuple => tuple.ifaceAddr = ifaceAddr with
  | some tuple => tuple.mainAddr
  | none => ifaceAddr

/-! ## Neighbors -/

/-- A link to the neighbor that is not expired. -/
def linkMatches (nb : NeighborTuple) (link : LinkTuple) : Bool :=
  decide (s.getMainAddress link.neighborIfaceAddr = nb.neighborMainAddr) &&
    decide (link.time ≥ s.now)

/-- The loop over the links of a neighbor: the table, `nb_main_addr` and `lt`. -/
def linkLoop (nb : NeighborTuple) :
    List LinkTuple → Table × Bool × Option LinkTuple → Table × Bool × Option LinkTuple
  | [], state => state
  | link :: links, (table, nbMainAddr, lt) =>
    if s.linkMatches nb link then
      linkLoop nb links (table.addEntry link.neighborIfaceAddr link.neighborIfaceAddr
            (s.interfaceOf link.localIfaceAddr) 1,
          nbMainAddr || decide (link.neighborIfaceAddr = nb.neighborMainAddr), some link)
    else linkLoop nb links (table, nbMainAddr, lt)

def addNeighbor (table : Table) (nb : NeighborTuple) : Table :=
  if nb.status = .sym then
    match s.linkLoop nb s.linkSet (table, false, none) with
    | (table, false, some lt) =>
      table.addEntry nb.neighborMainAddr lt.neighborIfaceAddr (s.interfaceOf lt.localIfaceAddr) 1
    | (table, _, _) => table
  else table

/-! ## Two-hop neighbors and the topology -/

def isSymNeighbor (a : Address) : Bool :=
  s.neighborSet.any fun nb => decide (nb.neighborMainAddr = a) && decide (nb.status = .sym)

/-- `nb2hopOk`. -/
def isWilling (a : Address) : Bool :=
  s.neighborSet.any fun nb =>
    decide (nb.neighborMainAddr = a) && decide (nb.willingness ≠ .never)

def addTwoHop (table : Table) (tuple : TwoHopNeighborTuple) : Table :=
  if s.isSymNeighbor tuple.twoHopNeighborAddr then table
  else if tuple.twoHopNeighborAddr = s.mainAddress then table
  else if !s.isWilling tuple.neighborMainAddr then table
  else
    match table tuple.neighborMainAddr with
    | some entry => table.addEntry tuple.twoHopNeighborAddr entry.nextAddr entry.interface 2
    | none => table

/-- One topology tuple at distance `h`, with `added`. -/
def addTopology (h : Nat) (state : Table × Bool) (tuple : TopologyTuple) : Table × Bool :=
  match state.1 tuple.destAddr, state.1 tuple.lastAddr with
  | none, some last =>
    if last.distance = h then
      (state.1.addEntry tuple.destAddr last.nextAddr last.interface (h + 1), true)
    else state
  | _, _ => state

/-- `for (h = 2;; h++)`, with a bound on the rounds: nothing when it does not end within them. -/
def topologyRounds : Nat → Nat → Table → Option Table
  | 0, _, _ => none
  | rounds + 1, h, table =>
    let (table, added) := s.topologySet.foldl (addTopology h) (table, false)
    if added then topologyRounds rounds (h + 1) table else some table

/-! ## Interface associations -/

def addIfaceAssoc (table : Table) (tuple : IfaceAssocTuple) : Table :=
  match table tuple.mainAddr, table tuple.ifaceAddr with
  | some entry, none =>
    table.addEntry tuple.ifaceAddr entry.nextAddr entry.interface entry.distance
  | _, _ => table

/-- The table before the topology, from an empty one. -/
def nearTable : Table :=
  s.twoHopNeighborSet.foldl s.addTwoHop (s.neighborSet.foldl s.addNeighbor fun _ => none)

def hostTable (rounds : Nat) : Option Table :=
  (s.topologyRounds rounds 2 s.nearTable).map fun table =>
    s.ifaceAssocSet.foldl addIfaceAssoc table

/-! ## Host network associations -/

/-- A route of `m_hnaRoutingTable` with its metric. -/
structure HnaRoute where
  network : Address
  mask : Address
  gateway : Address
  interface : Nat
  metric : Nat
  deriving DecidableEq

/-- `for (i = 0; i < GetNRoutes(); i++) RemoveRoute(0)`, with a bound on the rounds. -/
def clearLoop : Nat → Nat → List HnaRoute → List HnaRoute
  | 0, _, routes => routes
  | rounds + 1, i, routes =>
    if i < routes.length then clearLoop rounds (i + 1) (routes.drop 1) else routes

def clearHna (routes : List HnaRoute) : List HnaRoute := clearLoop routes.length 0 routes

/-- `AddNetworkRouteTo`: a route that is there is not added again. -/
def addNetworkRouteTo (routes : List HnaRoute) (route : HnaRoute) : List HnaRoute :=
  if route ∈ routes then routes else routes ++ [route]

def isLocal (tuple : AssociationTuple) : Bool :=
  s.associations.any fun a =>
    decide (a.networkAddr = tuple.networkAddr) && decide (a.netmask = tuple.netmask)

/-- The route of a table to the network of a tuple. -/
def isRouteTo (tuple : AssociationTuple) (route : HnaRoute) : Bool :=
  decide (route.network = tuple.networkAddr) && decide (route.mask = tuple.netmask)

/-- One tuple of the association set. -/
def addAssociation (table : Table) (routes : List HnaRoute) (tuple : AssociationTuple) :
    List HnaRoute :=
  if s.isLocal tuple then routes
  else
    match table tuple.gatewayAddr with
    | none => routes
    | some entry =>
      let route : HnaRoute :=
        ⟨tuple.networkAddr, tuple.netmask, entry.nextAddr, entry.interface, entry.distance⟩
      match routes.findIdx? (isRouteTo tuple) with
      | none => addNetworkRouteTo routes route
      | some index =>
        if entry.distance < routes[index]?.elim 0 HnaRoute.metric then
          addNetworkRouteTo (routes.eraseIdx index) route
        else routes

def hnaTable (table : Table) (routes : List HnaRoute) : List HnaRoute :=
  s.associationSet.foldl (s.addAssociation table) (clearHna routes)

/-- The host table and the HNA table after the computation. -/
def routingTableComputation (rounds : Nat) (routes : List HnaRoute) :
    Option (Table × List HnaRoute) :=
  (s.hostTable rounds).map fun table => (table, s.hnaTable table routes)

end OlsrState

end Ns3.Olsr
