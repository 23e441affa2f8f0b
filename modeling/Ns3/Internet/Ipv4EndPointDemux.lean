import Ns3.Internet.Ipv4Address
import Ns3.Library.Circular
import Ns3.Library.Machine
import Mathlib.Data.List.Nodup

/-!
# `Ipv4EndPointDemux`

The end points of the sockets of a node, the ports they are given, and the end points that a
packet is for.
-/

namespace Ns3.Internet

open List

structure Ipv4EndPoint (D : Type) where
  /-- The object. -/
  id : Nat
  localAddr : Ipv4Address
  localPort : UInt16
  peerAddr : Ipv4Address := .getAny
  peerPort : UInt16 := 0
  /-- `m_boundnetdevice`, which may be null. -/
  boundDevice : Option D := none
  rxEnabled : Bool := true

structure InterfaceAddress where
  localAddr : Ipv4Address
  mask : Ipv4Mask

structure Ipv4Interface (D : Type) where
  device : D
  addresses : List InterfaceAddress

structure Ipv4EndPointDemux (D : Type) where
  endPoints : List (Ipv4EndPoint D) := []
  ephemeral : UInt16 := 49152
  /-- The next object. -/
  next : Nat := 0

namespace Ipv4EndPointDemux

variable {D : Type} [DecidableEq D] (s : Ipv4EndPointDemux D)

def portFirst : UInt16 := 49152

def portLast : UInt16 := 65535

def lookupPortLocal (port : UInt16) : Bool := s.endPoints.any (·.localPort = port)

def lookupLocal (boundNetDevice : Option D) (addr : Ipv4Address) (port : UInt16) : Bool :=
  s.endPoints.any fun endP => endP.localPort = port && endP.localAddr = addr &&
    endP.boundDevice = boundNetDevice

/-! ## Allocation -/

def nextPort (port : UInt16) : UInt16 :=
  let port := port + 1
  if port < portFirst || port > portLast then portFirst else port

/-- The loop of `AllocateEphemeralPort`, with the tries that are left. -/
def tryPorts : (tries : Nat) → UInt16 → UInt16
  | 0, _ => 0
  | tries + 1, port =>
    let port := nextPort port
    if s.lookupPortLocal port then tryPorts tries port else port

def allocateEphemeralPort : UInt16 × Ipv4EndPointDemux D :=
  let count := portLast - portFirst
  let port := s.tryPorts (count.toNat + 1) s.ephemeral
  if port = 0 then (0, s) else (port, { s with ephemeral := port })

/-- A new end point goes to the end. -/
def pushBack (localAddr : Ipv4Address) (localPort : UInt16)
    (peerAddr : Ipv4Address := .getAny) (peerPort : UInt16 := 0) :
    Option Nat × Ipv4EndPointDemux D :=
  (some s.next, { s with
    endPoints := s.endPoints ++ [{ id := s.next, localAddr, localPort, peerAddr, peerPort }]
    next := s.next + 1 })

/-- `Allocate()` -/
def allocate : Option Nat × Ipv4EndPointDemux D :=
  let (port, s) := s.allocateEphemeralPort
  if port = 0 then (none, s) else s.pushBack .getAny port

/-- `Allocate(address)` -/
def allocateAddress (address : Ipv4Address) : Option Nat × Ipv4EndPointDemux D :=
  let (port, s) := s.allocateEphemeralPort
  if port = 0 then (none, s) else s.pushBack address port

/-- `Allocate(boundNetDevice, address, port)` -/
def allocateLocal (boundNetDevice : Option D) (address : Ipv4Address) (port : UInt16) :
    Option Nat × Ipv4EndPointDemux D :=
  if s.lookupLocal boundNetDevice address port || s.lookupLocal none address port then (none, s)
  else s.pushBack address port

/-- `Allocate(boundNetDevice, port)` -/
def allocatePort (boundNetDevice : Option D) (port : UInt16) : Option Nat × Ipv4EndPointDemux D :=
  s.allocateLocal boundNetDevice .getAny port

/-- The loop that looks for a duplicate of an end point with a peer. -/
def lookupPeer (boundNetDevice : Option D) (localAddress : Ipv4Address) (localPort : UInt16)
    (peerAddress : Ipv4Address) (peerPort : UInt16) : Bool :=
  s.endPoints.any fun endP => endP.localPort = localPort && endP.localAddr = localAddress &&
    endP.peerPort = peerPort && endP.peerAddr = peerAddress &&
    (endP.boundDevice = boundNetDevice || endP.boundDevice.isNone)

/-- `Allocate(boundNetDevice, localAddress, localPort, peerAddress, peerPort)` -/
def allocatePeer (boundNetDevice : Option D) (localAddress : Ipv4Address) (localPort : UInt16)
    (peerAddress : Ipv4Address) (peerPort : UInt16) : Option Nat × Ipv4EndPointDemux D :=
  if s.lookupPeer boundNetDevice localAddress localPort peerAddress peerPort then (none, s)
  else s.pushBack localAddress localPort peerAddress peerPort

/-- What is done to one end point. -/
def modify (id : Nat) (f : Ipv4EndPoint D → Ipv4EndPoint D) : Ipv4EndPointDemux D :=
  { s with endPoints := s.endPoints.map fun endP => if endP.id = id then f endP else endP }

/-- `Ipv4EndPoint::BindToNetDevice` -/
def bindToNetDevice (id : Nat) (device : Option D) : Ipv4EndPointDemux D :=
  s.modify id ({ · with boundDevice := device })

/-- `Ipv4EndPoint::SetPeer` -/
def setPeer (id : Nat) (address : Ipv4Address) (port : UInt16) : Ipv4EndPointDemux D :=
  s.modify id ({ · with peerAddr := address, peerPort := port })

def deAllocate (id : Nat) : Ipv4EndPointDemux D :=
  { s with endPoints := s.endPoints.eraseP (·.id = id) }

/-! ## Lookup -/

/-- The end points that match, by what matches exactly. -/
structure Matches (D : Type) where
  retval1 : List (Ipv4EndPoint D) := []
  retval2 : List (Ipv4EndPoint D) := []
  retval3 : List (Ipv4EndPoint D) := []
  retval4 : List (Ipv4EndPoint D) := []

section Lookup

variable (daddr : Ipv4Address) (dport : UInt16) (saddr : Ipv4Address) (sport : UInt16)
  (incomingInterface : Ipv4Interface D)

/-- Whether an address is the network of the interface that the destination is in. -/
def isSubnetAny (addr : Ipv4Address) : Bool :=
  incomingInterface.addresses.any fun a =>
    let addrNetpart := Ipv4Address.combineMask a.localAddr a.mask
    addr = addrNetpart && addrNetpart = Ipv4Address.combineMask daddr a.mask

/-- The body of the loop. -/
def lookAt (found : Matches D) (endP : Ipv4EndPoint D) : Matches D :=
  if !endP.rxEnabled then found
  else if endP.localPort ≠ dport then found
  else if endP.boundDevice.any (· ≠ incomingInterface.device) then found
  else
    let localAddressMatchesExact := decide (endP.localAddr = daddr)
    let localAddressIsAny := !localAddressMatchesExact && decide (endP.localAddr = .getAny)
    let localAddressIsSubnetAny := !localAddressMatchesExact && !localAddressIsAny &&
      isSubnetAny daddr incomingInterface endP.localAddr
    if !localAddressMatchesExact && !localAddressIsAny && !localAddressIsSubnetAny then found
    else
      let remotePortMatchesExact := decide (endP.peerPort = sport)
      let remotePortMatchesWildCard := decide (endP.peerPort = 0)
      let remoteAddressMatchesExact := decide (endP.peerAddr = saddr)
      let remoteAddressMatchesWildCard := decide (endP.peerAddr = .getAny)
      if !(remotePortMatchesExact || remotePortMatchesWildCard) then found
      else if !(remoteAddressMatchesExact || remoteAddressMatchesWildCard) then found
      else
        let localAddressMatchesWildCard := localAddressIsAny || localAddressIsSubnetAny
        let found := if localAddressMatchesExact && remoteAddressMatchesExact &&
          remotePortMatchesExact then { found with retval4 := found.retval4 ++ [endP] } else found
        let found := if localAddressMatchesWildCard && remoteAddressMatchesExact &&
          remotePortMatchesExact then { found with retval3 := found.retval3 ++ [endP] } else found
        let found := if localAddressMatchesExact && remoteAddressMatchesWildCard &&
          remotePortMatchesWildCard then { found with retval2 := found.retval2 ++ [endP] }
          else found
        if localAddressMatchesWildCard && remoteAddressMatchesWildCard &&
          remotePortMatchesWildCard then { found with retval1 := found.retval1 ++ [endP] }
          else found

/-- The most exact matches. -/
def Matches.most (found : Matches D) : List (Ipv4EndPoint D) :=
  if !found.retval4.isEmpty then found.retval4
  else if !found.retval3.isEmpty then found.retval3
  else if !found.retval2.isEmpty then found.retval2
  else found.retval1

/-- `Lookup`; there is no result when it aborts with too many end points. -/
def lookup : Option (List (Ipv4EndPoint D)) :=
  let retval :=
    (s.endPoints.foldl (lookAt daddr dport saddr sport incomingInterface) {}).most
  if retval.length > 1 then none else some retval

end Lookup

/-! ## Histories -/

/-- A call of one of the overloads of `Allocate`. -/
inductive Request (D : Type) where
  | any
  | address (address : Ipv4Address)
  | port (boundNetDevice : Option D) (port : UInt16)
  | locally (boundNetDevice : Option D) (address : Ipv4Address) (port : UInt16)
  | peer (boundNetDevice : Option D) (localAddress : Ipv4Address) (localPort : UInt16)
      (peerAddress : Ipv4Address) (peerPort : UInt16)

def answer : Request D → Option Nat × Ipv4EndPointDemux D
  | .any => s.allocate
  | .address address => s.allocateAddress address
  | .port device port => s.allocatePort device port
  | .locally device address port => s.allocateLocal device address port
  | .peer device localAddress localPort peerAddress peerPort =>
    s.allocatePeer device localAddress localPort peerAddress peerPort

/-- What the sockets do. The end point that is allocated is bound to a device at once, where the
socket is; it may be bound later. -/
inductive Event (D : Type) where
  | allocate (request : Request D) (bound : Option D)
  | bindToNetDevice (id : Nat) (device : Option D)
  | setPeer (id : Nat) (address : Ipv4Address) (port : UInt16)
  | deAllocate (id : Nat)

def step : Event D → Option (Ipv4EndPointDemux D)
  | .allocate request bound =>
    match s.answer request with
    | (none, s) => some s
    | (some id, s) => some (s.bindToNetDevice id bound)
  | .bindToNetDevice id device => some (s.bindToNetDevice id device)
  | .setPeer id address port => some (s.setPeer id address port)
  | .deAllocate id => some (s.deAllocate id)

/-! ## Ephemeral ports -/

theorem toNat_nextPort {port : UInt16} {n : Nat} (is : port.toNat = 49152 + n % 16384) :
    (nextPort port).toNat = 49152 + (n + 1) % 16384 := by
  have sum : (port + 1).toNat = (port.toNat + 1) % 2 ^ 16 := UInt16.toNat_add port 1
  have last : portLast.toNat = 65535 := rfl
  have first : portFirst.toNat = 49152 := rfl
  unfold nextPort
  dsimp only
  split
  case isTrue outside =>
    rw [Bool.or_eq_true, decide_eq_true_eq, decide_eq_true_eq, UInt16.lt_iff_toNat_lt, gt_iff_lt,
      UInt16.lt_iff_toNat_lt, sum, first, last] at outside
    rw [first]
    omega
  case isFalse inside =>
    rw [Bool.or_eq_true, decide_eq_true_eq, decide_eq_true_eq, UInt16.lt_iff_toNat_lt, gt_iff_lt,
      UInt16.lt_iff_toNat_lt, sum, first, last] at inside
    rw [sum]
    omega

omit [DecidableEq D] in
theorem tryPorts_spec (tries : Nat) {port : UInt16} {n : Nat}
    (is : port.toNat = 49152 + n % 16384) :
    (s.tryPorts tries port = 0 ∧
      ∀ m, n < m → m ≤ n + tries → s.lookupPortLocal (.ofNat (49152 + m % 16384)) = true) ∨
    (49152 ≤ (s.tryPorts tries port).toNat ∧
      s.lookupPortLocal (s.tryPorts tries port) = false) := by
  induction tries generalizing port n with
  | zero => exact .inl ⟨rfl, fun m above below => absurd above (by omega)⟩
  | succ tries ih =>
    have next := toNat_nextPort is
    unfold tryPorts
    dsimp only
    split
    case isTrue used =>
      rcases ih next with ⟨failed, all⟩ | found
      · refine .inl ⟨failed, fun m above below => ?_⟩
        by_cases first : m = n + 1
        · rw [first, ← next, UInt16.ofNat_toNat]
          exact used
        · exact all m (by omega) (by omega)
      · exact .inr found
    case isFalse free =>
      exact .inr ⟨by omega, Bool.eq_false_iff.mpr free⟩

/-- The last port that was given is an ephemeral one. -/
def EphemeralValid : Prop := 49152 ≤ s.ephemeral.toNat

variable {s}

omit [DecidableEq D] in
theorem allocateEphemeralPort_spec (valid : s.EphemeralValid) : (s.allocateEphemeralPort = (0, s) ∧
      ∀ port : UInt16, 49152 ≤ port.toNat → s.lookupPortLocal port = true) ∨
    ∃ port : UInt16, s.allocateEphemeralPort = (port, { s with ephemeral := port }) ∧
      port ≠ 0 ∧ 49152 ≤ port.toNat ∧ s.lookupPortLocal port = false := by
  have below := s.ephemeral.toNat_lt
  have is : s.ephemeral.toNat = 49152 + (s.ephemeral.toNat - 49152) % 16384 := by
    unfold EphemeralValid at valid
    omega
  have count : (portLast - portFirst).toNat + 1 = 16384 := rfl
  unfold allocateEphemeralPort
  dsimp only
  rw [count]
  rcases tryPorts_spec s 16384 is with ⟨failed, all⟩ | ⟨above, free⟩
  · rw [failed]
    refine .inl ⟨rfl, fun port inside => ?_⟩
    have port_lt := port.toNat_lt
    obtain ⟨m, lower, upper, same⟩ := Circular.exists_counter (m := 16384)
      (s.ephemeral.toNat - 49152 + 1) (by omega : port.toNat - 49152 < 16384)
    have used := all m (by omega) (by omega)
    rwa [same, Nat.add_sub_cancel' inside, UInt16.ofNat_toNat] at used
  · have nonzero : s.tryPorts 16384 s.ephemeral ≠ 0 := by
      intro zero
      rw [zero] at above
      exact absurd above (by decide)
    rw [if_neg nonzero]
    exact .inr ⟨_, rfl, nonzero, above, free⟩

/-! ## What a packet finds -/

/-- Whether an end point takes packets of an interface. -/
def accepts (incomingInterface : Ipv4Interface D) (endP : Ipv4EndPoint D) : Bool :=
  endP.rxEnabled && !endP.boundDevice.any (· ≠ incomingInterface.device)

/-- Whether a local address other than the destination matches it. -/
def matchesWildCard (daddr : Ipv4Address) (incomingInterface : Ipv4Interface D)
    (addr : Ipv4Address) : Bool :=
  !decide (addr = daddr) && (decide (addr = .getAny) || isSubnetAny daddr incomingInterface addr)

/-- Two end points with one local address, or both with a wildcard for one destination. -/
def LocallySame (incomingInterface : Ipv4Interface D) (a b : Ipv4EndPoint D) : Prop :=
  a.localAddr = b.localAddr ∨ ∃ daddr, matchesWildCard daddr incomingInterface a.localAddr = true ∧
    matchesWildCard daddr incomingInterface b.localAddr = true

/-- Two end points of one port and peer that both take packets of an interface. -/
def Confusable (known : Ipv4Interface D → Prop) (a b : Ipv4EndPoint D) : Prop :=
  a.localPort = b.localPort ∧ (a.peerAddr = b.peerAddr ∧ a.peerPort = b.peerPort) ∧
    ∃ incomingInterface, known incomingInterface ∧ accepts incomingInterface a = true ∧
      accepts incomingInterface b = true ∧ LocallySame incomingInterface a b

theorem Confusable.symm {known : Ipv4Interface D → Prop} {a b : Ipv4EndPoint D}
    (confusable : Confusable known a b) : Confusable known b a := by
  obtain ⟨port, ⟨addr, peer⟩, interface, is_known, takes, takes', locally⟩ := confusable
  refine ⟨port.symm, ⟨addr.symm, peer.symm⟩, interface, is_known, takes', takes, ?_⟩
  rcases locally with same | ⟨daddr, wild, wild'⟩
  · exact .inl same.symm
  · exact .inr ⟨daddr, wild', wild⟩

section Lookup

variable (daddr : Ipv4Address) (dport : UInt16) (saddr : Ipv4Address) (sport : UInt16)
  (incomingInterface : Ipv4Interface D) (endP : Ipv4EndPoint D)

/-- Whether an end point is for a packet, by its local address and its peer. -/
def isFor (localAddress remote : Bool) : Bool :=
  accepts incomingInterface endP && decide (endP.localPort = dport) && localAddress && remote

def remoteExact : Bool := decide (endP.peerAddr = saddr) && decide (endP.peerPort = sport)

def remoteAny : Bool := decide (endP.peerAddr = .getAny) && decide (endP.peerPort = 0)

/-- The end points of each of the four lists. -/
def exact4 : Bool :=
  isFor dport incomingInterface endP (decide (endP.localAddr = daddr))
    (remoteExact saddr sport endP)

def exact3 : Bool :=
  isFor dport incomingInterface endP (matchesWildCard daddr incomingInterface endP.localAddr)
    (remoteExact saddr sport endP)

def exact2 : Bool :=
  isFor dport incomingInterface endP (decide (endP.localAddr = daddr)) (remoteAny endP)

def exact1 : Bool :=
  isFor dport incomingInterface endP (matchesWildCard daddr incomingInterface endP.localAddr)
    (remoteAny endP)

theorem lookAt_eq (found : Matches D) :
    lookAt daddr dport saddr sport incomingInterface found endP = {
      retval1 := found.retval1 ++ [endP].filter (exact1 daddr dport incomingInterface)
      retval2 := found.retval2 ++ [endP].filter (exact2 daddr dport incomingInterface)
      retval3 := found.retval3 ++ [endP].filter (exact3 daddr dport saddr sport incomingInterface)
      retval4 :=
        found.retval4 ++ [endP].filter (exact4 daddr dport saddr sport incomingInterface) } := by
  simp only [filter_cons, filter_nil, exact1, exact2, exact3, exact4, isFor, accepts,
    matchesWildCard, remoteExact, remoteAny]
  unfold lookAt
  by_cases rx : endP.rxEnabled = true
  case neg => simp [rx]
  by_cases port : endP.localPort = dport
  case neg => simp [rx, port]
  by_cases device : (endP.boundDevice.any (· ≠ incomingInterface.device)) = true
  case pos => simp only [rx, port, device]; simp
  simp only [rx, port, device]
  generalize decide (endP.localAddr = daddr) = exact
  generalize decide (endP.localAddr = .getAny) = any
  generalize isSubnetAny daddr incomingInterface endP.localAddr = subnet
  generalize decide (endP.peerPort = sport) = portExact
  generalize decide (endP.peerPort = 0) = portAny
  generalize decide (endP.peerAddr = saddr) = addrExact
  generalize decide (endP.peerAddr = .getAny) = addrAny
  cases exact <;> cases any <;> cases subnet <;> cases portExact <;> cases portAny <;>
    cases addrExact <;> cases addrAny <;> simp

theorem foldl_lookAt (endPoints : List (Ipv4EndPoint D)) (found : Matches D) :
    endPoints.foldl (lookAt daddr dport saddr sport incomingInterface) found = {
      retval1 := found.retval1 ++ endPoints.filter (exact1 daddr dport incomingInterface)
      retval2 := found.retval2 ++ endPoints.filter (exact2 daddr dport incomingInterface)
      retval3 :=
        found.retval3 ++ endPoints.filter (exact3 daddr dport saddr sport incomingInterface)
      retval4 :=
        found.retval4 ++ endPoints.filter (exact4 daddr dport saddr sport incomingInterface) } := by
  induction endPoints generalizing found with
  | nil => simp
  | cons endP rest ih =>
    rw [foldl_cons, ih, lookAt_eq]
    simp only [append_assoc, ← filter_append, singleton_append]

end Lookup

/-- Of elements with different keys one at most is found, when all that are found have one key. -/
theorem length_filter_le_one {α : Type} {key : α → Nat} {p : α → Bool} {xs : List α}
    (distinct : (xs.map key).Nodup)
    (same : ∀ x ∈ xs, ∀ y ∈ xs, p x = true → p y = true → key x = key y) :
    (xs.filter p).length ≤ 1 := by
  have found : ∀ x ∈ xs.filter p, x ∈ xs ∧ p x = true := fun x mem => mem_filter.mp mem
  have apart := distinct.sublist ((filter_sublist (p := p)).map key)
  match kept : xs.filter p with
  | [] => exact Nat.zero_le 1
  | [_] => exact le_refl 1
  | x :: y :: rest =>
    rw [kept] at found apart
    obtain ⟨x_mem, x_found⟩ := found x mem_cons_self
    obtain ⟨y_mem, y_found⟩ := found y (mem_cons_of_mem x mem_cons_self)
    rw [map_cons, map_cons, nodup_cons] at apart
    exact absurd (same x x_mem y y_mem x_found y_found ▸ mem_cons_self) apart.1

omit [DecidableEq D] in
theorem Matches.most_length {found : Matches D} (first : found.retval1.length ≤ 1)
    (second : found.retval2.length ≤ 1) (third : found.retval3.length ≤ 1)
    (fourth : found.retval4.length ≤ 1) : found.most.length ≤ 1 := by
  unfold most
  split
  · exact fourth
  · split
    · exact third
    · split
      · exact second
      · exact first

/-- The end points are objects of their own, and none can be taken for another. -/
structure Distinct (known : Ipv4Interface D → Prop) (s : Ipv4EndPointDemux D) : Prop where
  ids : (s.endPoints.map (·.id)).Nodup
  fresh : ∀ endP ∈ s.endPoints, endP.id < s.next
  apart : ∀ a ∈ s.endPoints, ∀ b ∈ s.endPoints, a.id ≠ b.id → ¬ Confusable known a b

variable {known : Ipv4Interface D → Prop}

/-- One end point at most passes tests that no two pass without being confusable. -/
theorem Distinct.one (distinct : Distinct known s) {incomingInterface : Ipv4Interface D}
    (is_known : known incomingInterface) (dport : UInt16)
    {localAddress remote : Ipv4EndPoint D → Bool}
    (locally : ∀ a b, localAddress a = true → localAddress b = true →
      LocallySame incomingInterface a b)
    (peer : ∀ a b, remote a = true → remote b = true →
      a.peerAddr = b.peerAddr ∧ a.peerPort = b.peerPort) :
    ([] ++ s.endPoints.filter fun endP =>
      isFor dport incomingInterface endP (localAddress endP) (remote endP)).length ≤ 1 := by
  refine length_filter_le_one distinct.ids fun a a_mem b b_mem a_found b_found => ?_
  by_contra differ
  simp only [isFor, Bool.and_eq_true, decide_eq_true_eq] at a_found b_found
  obtain ⟨⟨⟨takes, port⟩, local_a⟩, remote_a⟩ := a_found
  obtain ⟨⟨⟨takes', port'⟩, local_b⟩, remote_b⟩ := b_found
  exact distinct.apart a a_mem b b_mem differ ⟨port.trans port'.symm, peer a b remote_a remote_b,
    incomingInterface, is_known, takes, takes', locally a b local_a local_b⟩

/-- A packet finds one end point at most at each level. -/
theorem Distinct.lookup (distinct : Distinct known s) {incomingInterface : Ipv4Interface D}
    (is_known : known incomingInterface) (daddr : Ipv4Address) (dport : UInt16)
    (saddr : Ipv4Address) (sport : UInt16) :
    ∃ found, s.lookup daddr dport saddr sport incomingInterface = some found ∧
      found.length ≤ 1 := by
  have wild : ∀ a b : Ipv4EndPoint D, matchesWildCard daddr incomingInterface a.localAddr = true →
      matchesWildCard daddr incomingInterface b.localAddr = true →
      LocallySame incomingInterface a b := fun a b a_wild b_wild => .inr ⟨daddr, a_wild, b_wild⟩
  have exact_ : ∀ a b : Ipv4EndPoint D, decide (a.localAddr = daddr) = true →
      decide (b.localAddr = daddr) = true → LocallySame incomingInterface a b :=
    fun a b a_is b_is => .inl ((of_decide_eq_true a_is).trans (of_decide_eq_true b_is).symm)
  have peer : ∀ (addr : Ipv4Address) (port : UInt16) (a b : Ipv4EndPoint D),
      (decide (a.peerAddr = addr) && decide (a.peerPort = port)) = true →
      (decide (b.peerAddr = addr) && decide (b.peerPort = port)) = true →
      a.peerAddr = b.peerAddr ∧ a.peerPort = b.peerPort := by
    intro addr port a b a_is b_is
    simp only [Bool.and_eq_true, decide_eq_true_eq] at a_is b_is
    exact ⟨a_is.1.trans b_is.1.symm, a_is.2.trans b_is.2.symm⟩
  have few : (s.endPoints.foldl (lookAt daddr dport saddr sport incomingInterface) {}).most.length
      ≤ 1 := by
    rw [foldl_lookAt]
    apply Matches.most_length
    · exact distinct.one is_known dport wild (peer .getAny 0)
    · exact distinct.one is_known dport exact_ (peer .getAny 0)
    · exact distinct.one is_known dport wild (peer saddr sport)
    · exact distinct.one is_known dport exact_ (peer saddr sport)
  unfold Ipv4EndPointDemux.lookup
  dsimp only
  rw [if_neg (by omega)]
  exact ⟨_, rfl, few⟩

/-! ## Runs -/

/-- No other end point can be taken for this one. -/
def Alone (known : Ipv4Interface D → Prop) (s : Ipv4EndPointDemux D) (new : Ipv4EndPoint D) :
    Prop :=
  ∀ endP ∈ s.endPoints, endP.id ≠ new.id → ¬ Confusable known new endP

/-- The end point that is asked for, when a port is. -/
def Request.endPoint (id : Nat) (bound : Option D) : Request D → Option (Ipv4EndPoint D)
  | .any => none
  | .address _ => none
  | .port _ localPort => some { id, localAddr := .getAny, localPort, boundDevice := bound }
  | .locally _ localAddr localPort => some { id, localAddr, localPort, boundDevice := bound }
  | .peer _ localAddr localPort peerAddr peerPort =>
    some { id, localAddr, localPort, peerAddr, peerPort, boundDevice := bound }

/-- Whether a request is refused for a duplicate. -/
def duplicated (s : Ipv4EndPointDemux D) : Request D → Bool
  | .any => false
  | .address _ => false
  | .port device port => s.lookupLocal device .getAny port || s.lookupLocal none .getAny port
  | .locally device address port =>
    s.lookupLocal device address port || s.lookupLocal none address port
  | .peer device localAddress localPort peerAddress peerPort =>
    s.lookupPeer device localAddress localPort peerAddress peerPort

/-- An end point that is allocated, bound or given a peer cannot be taken for another. -/
def Allowed (known : Ipv4Interface D → Prop) (s : Ipv4EndPointDemux D) : Event D → Prop
  | .allocate request bound => ∀ new ∈ request.endPoint s.next bound,
      s.duplicated request = false → Alone known s new
  | .bindToNetDevice id device => ∀ endP ∈ s.endPoints, endP.id = id →
      Alone known s { endP with boundDevice := device }
  | .setPeer id address port => ∀ endP ∈ s.endPoints, endP.id = id →
      Alone known s { endP with peerAddr := address, peerPort := port }
  | .deAllocate _ => True

/-- A request fails, or a new end point is added: the one that was asked for, or one with a port
that no other has. -/
theorem answer_cases (valid : s.EphemeralValid) (request : Request D) (bound : Option D) :
    s.answer request = (none, s) ∨
    ∃ ephemeral localAddr localPort peerAddr peerPort, s.answer request =
        { s with ephemeral }.pushBack localAddr localPort peerAddr peerPort ∧
      49152 ≤ ephemeral.toNat ∧
      ((request.endPoint s.next bound =
          some ⟨s.next, localAddr, localPort, peerAddr, peerPort, bound, true⟩ ∧
          s.duplicated request = false) ∨
        s.lookupPortLocal localPort = false) := by
  have ephemeral : ∀ address : Ipv4Address, s.allocateAddress address = (none, s) ∨
      ∃ port : UInt16, s.allocateAddress address =
        { s with ephemeral := port }.pushBack address port ∧ 49152 ≤ port.toNat ∧
          s.lookupPortLocal port = false := by
    intro address
    unfold allocateAddress
    rcases allocateEphemeralPort_spec valid with ⟨failed, -⟩ | ⟨port, found, nonzero, above, free⟩
    · rw [failed]
      exact .inl rfl
    · rw [found]
      dsimp only
      rw [if_neg nonzero]
      exact .inr ⟨port, rfl, above, free⟩
  have locally : ∀ (device : Option D) (address : Ipv4Address) (port : UInt16),
      s.allocateLocal device address port = (none, s) ∨
      (s.allocateLocal device address port = s.pushBack address port ∧
        (s.lookupLocal device address port || s.lookupLocal none address port) = false) := by
    intro device address port
    unfold allocateLocal
    split
    case isTrue => exact .inl rfl
    case isFalse free => exact .inr ⟨rfl, Bool.eq_false_iff.mpr free⟩
  cases request with
  | any =>
    refine (ephemeral .getAny).imp_right ?_
    rintro ⟨port, is, above, free⟩
    exact ⟨port, _, _, _, _, is, above, .inr free⟩
  | address address =>
    refine (ephemeral address).imp_right ?_
    rintro ⟨port, is, above, free⟩
    exact ⟨port, _, _, _, _, is, above, .inr free⟩
  | port device port =>
    refine (locally device .getAny port).imp_right ?_
    rintro ⟨is, free⟩
    exact ⟨s.ephemeral, _, _, _, _, is, valid, .inl ⟨rfl, free⟩⟩
  | locally device address port =>
    refine (locally device address port).imp_right ?_
    rintro ⟨is, free⟩
    exact ⟨s.ephemeral, _, _, _, _, is, valid, .inl ⟨rfl, free⟩⟩
  | peer device localAddress localPort peerAddress peerPort =>
    cases dup : s.lookupPeer device localAddress localPort peerAddress peerPort with
    | true => exact .inl (if_pos dup)
    | false =>
      exact .inr ⟨s.ephemeral, _, _, _, _, if_neg (Bool.eq_false_iff.mp dup), valid,
        .inl ⟨rfl, dup⟩⟩

theorem Distinct.push (distinct : Distinct known s) {new : Ipv4EndPoint D} (is : new.id = s.next)
    (alone : Alone known s new) (ephemeral : UInt16) :
    Distinct known { s with
      endPoints := s.endPoints ++ [new], ephemeral, next := s.next + 1 } where
  ids := by
    rw [map_append, map_singleton, nodup_append]
    refine ⟨distinct.ids, nodup_singleton _, fun a a_mem b b_mem same => ?_⟩
    obtain ⟨endP, mem, rfl⟩ := mem_map.mp a_mem
    rw [mem_singleton.mp b_mem, is] at same
    exact absurd (distinct.fresh endP mem) (by omega)
  fresh := by
    intro endP mem
    rcases mem_append.mp mem with old | added
    · exact Nat.lt_succ_of_lt (distinct.fresh endP old)
    · rw [mem_singleton.mp added, is]
      exact Nat.lt_succ_self _
  apart := by
    intro a a_mem b b_mem differ
    rcases mem_append.mp a_mem with a_old | a_new
    · rcases mem_append.mp b_mem with b_old | b_new
      · exact distinct.apart a a_old b b_old differ
      · obtain rfl := mem_singleton.mp b_new
        exact fun confusable => alone a a_old differ confusable.symm
    · obtain rfl := mem_singleton.mp a_new
      rcases mem_append.mp b_mem with b_old | b_new
      · exact alone b b_old (Ne.symm differ)
      · exact absurd (congrArg Ipv4EndPoint.id (mem_singleton.mp b_new)).symm differ

theorem Distinct.modify (distinct : Distinct known s) {id : Nat}
    {f : Ipv4EndPoint D → Ipv4EndPoint D} (keeps : ∀ endP, (f endP).id = endP.id)
    (alone : ∀ endP ∈ s.endPoints, endP.id = id → Alone known s (f endP)) :
    Distinct known (s.modify id f) := by
  have same : ∀ endP : Ipv4EndPoint D, (if endP.id = id then f endP else endP).id = endP.id := by
    intro endP
    split
    · exact keeps endP
    · rfl
  constructor
  · unfold Ipv4EndPointDemux.modify
    rw [map_map]
    rw [show (fun endP : Ipv4EndPoint D => endP.id) ∘
      (fun endP => if endP.id = id then f endP else endP) = fun endP => endP.id from funext same]
    exact distinct.ids
  · intro endP mem
    obtain ⟨before, old, rfl⟩ := mem_map.mp mem
    rw [same]
    exact distinct.fresh before old
  · intro a a_mem b b_mem differ
    obtain ⟨a, a_old, rfl⟩ := mem_map.mp a_mem
    obtain ⟨b, b_old, rfl⟩ := mem_map.mp b_mem
    rw [same, same] at differ
    by_cases a_is : a.id = id
    · rw [if_pos a_is, if_neg (fun b_is => differ (a_is.trans b_is.symm))]
      exact alone a a_old a_is b b_old (by rw [keeps]; exact Ne.symm differ)
    · rw [if_neg a_is]
      by_cases b_is : b.id = id
      · rw [if_pos b_is]
        exact fun confusable =>
          alone b b_old b_is a a_old (by rw [keeps]; exact differ) confusable.symm
      · rw [if_neg b_is]
        exact distinct.apart a a_old b b_old differ

theorem Distinct.deAllocate (distinct : Distinct known s) (id : Nat) :
    Distinct known (s.deAllocate id) := by
  have fewer : (s.deAllocate id).endPoints.Sublist s.endPoints := eraseP_sublist
  constructor
  · exact distinct.ids.sublist (fewer.map _)
  · exact fun endP mem => distinct.fresh endP (fewer.subset mem)
  · exact fun a a_mem b b_mem =>
      distinct.apart a (fewer.subset a_mem) b (fewer.subset b_mem)

omit [DecidableEq D] in
theorem pushBack_bind (fresh : ∀ endP ∈ s.endPoints, endP.id < s.next) (localAddr : Ipv4Address)
    (localPort : UInt16) (peerAddr : Ipv4Address) (peerPort : UInt16) (bound : Option D) :
    (s.pushBack localAddr localPort peerAddr peerPort).2.bindToNetDevice s.next bound =
      { s with
        endPoints := s.endPoints ++
          [⟨s.next, localAddr, localPort, peerAddr, peerPort, bound, true⟩]
        next := s.next + 1 } := by
  have others : s.endPoints.map (fun endP =>
      if endP.id = s.next then { endP with boundDevice := bound } else endP) = s.endPoints := by
    conv_rhs => rw [← map_id s.endPoints]
    refine map_congr_left fun endP mem => ?_
    have below := fresh endP mem
    rw [if_neg (by omega)]
    rfl
  unfold pushBack bindToNetDevice Ipv4EndPointDemux.modify
  dsimp only
  simp [others]

theorem EphemeralValid.step (valid : s.EphemeralValid) {e : Event D} {s' : Ipv4EndPointDemux D}
    (h : s.step e = some s') : s'.EphemeralValid := by
  cases e with
  | allocate request bound =>
    unfold Ipv4EndPointDemux.step at h
    dsimp only at h
    rcases answer_cases valid request bound with failed | ⟨ephemeral, _, _, _, _, is, above, -⟩
    · rw [failed] at h
      cases h
      exact valid
    · rw [is] at h
      cases h
      exact above
  | bindToNetDevice id device =>
    cases h
    exact valid
  | setPeer id address port =>
    cases h
    exact valid
  | deAllocate id =>
    cases h
    exact valid

theorem Distinct.step (distinct : Distinct known s) (valid : s.EphemeralValid) {e : Event D}
    (allowed : Allowed known s e) {s' : Ipv4EndPointDemux D} (h : s.step e = some s') :
    Distinct known s' := by
  cases e with
  | allocate request bound =>
    unfold Ipv4EndPointDemux.step at h
    dsimp only at h
    rcases answer_cases valid request bound with
      failed | ⟨ephemeral, localAddr, localPort, peerAddr, peerPort, is, -, alone⟩
    · rw [failed] at h
      cases h
      exact distinct
    · rw [is] at h
      cases h
      have bind := @pushBack_bind D { s with ephemeral } distinct.fresh localAddr localPort
        peerAddr peerPort bound
      change Distinct known ((Ipv4EndPointDemux.pushBack { s with ephemeral } localAddr localPort
        peerAddr peerPort).2.bindToNetDevice s.next bound)
      rw [bind]
      refine distinct.push rfl ?_ ephemeral
      rcases alone with ⟨asked, free⟩ | unused
      · exact allowed _ asked free
      · intro endP mem _ confusable
        have other := any_eq_false.mp unused endP mem
        exact other (decide_eq_true confusable.1.symm)
  | bindToNetDevice id device =>
    cases h
    exact distinct.modify (fun _ => rfl) allowed
  | setPeer id address port =>
    cases h
    exact distinct.modify (fun _ => rfl) allowed
  | deAllocate id =>
    cases h
    exact distinct.deAllocate id

theorem Distinct.empty (known : Ipv4Interface D → Prop) : Distinct known {} where
  ids := nodup_nil
  fresh := nofun
  apart := nofun

/-- **A packet finds one end point at most** in each run that allocates, binds and connects no end
point that can be taken for another; and in every run an ephemeral port is found unless all are in
use. -/
theorem lookup_unambiguous (known : Ipv4Interface D → Prop) (s : Ipv4EndPointDemux D) :
    (Machine.Reaches step (Allowed known) (· = {}) s →
      ∀ daddr dport saddr sport incomingInterface, known incomingInterface →
        ∃ found, s.lookup daddr dport saddr sport incomingInterface = some found ∧
          found.length ≤ 1) ∧
    (Machine.Reaches step (fun _ _ => True) (· = {}) s →
      (s.allocate.1 = none ↔ ∀ port, portFirst ≤ port → s.lookupPortLocal port = true) ∧
      ∀ address, (s.allocateAddress address).1 = none ↔
        ∀ port, portFirst ≤ port → s.lookupPortLocal port = true) := by
  constructor
  · intro reaches daddr dport saddr sport incomingInterface is_known
    have kept : Distinct known s ∧ s.EphemeralValid := by
      refine reaches.invariant (fun s => Distinct known s ∧ s.EphemeralValid) ?_ ?_
      · rintro _ rfl
        exact ⟨.empty known, le_rfl⟩
      · exact fun s e s' kept allowed here =>
          ⟨kept.1.step kept.2 allowed here, kept.2.step here⟩
    exact kept.1.lookup is_known daddr dport saddr sport
  · intro reaches
    have valid : s.EphemeralValid := by
      refine reaches.invariant EphemeralValid ?_ fun s e s' valid _ here => valid.step here
      rintro _ rfl
      exact le_rfl
    have fails : ∀ address : Ipv4Address, (s.allocateAddress address).1 = none ↔
        ∀ port, portFirst ≤ port → s.lookupPortLocal port = true := by
      intro address
      unfold allocateAddress
      rcases allocateEphemeralPort_spec valid with
        ⟨failed, all⟩ | ⟨port, found, nonzero, above, free⟩
      · rw [failed]
        exact iff_of_true rfl fun port inside => all port (UInt16.le_iff_toNat_le.mp inside)
      · rw [found]
        dsimp only
        rw [if_neg nonzero]
        refine iff_of_false (Option.some_ne_none _) fun all => ?_
        rw [all port (UInt16.le_iff_toNat_le.mpr above)] at free
        cases free
    exact ⟨fails .getAny, fails⟩

/-- An interface of a device, with an address. -/
def onDevice (device : Nat) : Ipv4Interface Nat := ⟨device, [⟨0x0a000001, 0xff000000⟩]⟩

/-- A server on a device. -/
def server (id device : Nat) : Ipv4EndPoint Nat where
  id
  localAddr := .getAny
  localPort := 80
  boundDevice := some device

def twoServers : Ipv4EndPointDemux Nat where
  endPoints := [server 0 1, server 1 2]
  next := 2

/-- The socket of a server asks for its device, and the end point is bound to it. -/
def serve (device : Nat) : Event Nat := .allocate (.port (some device) 80) (some device)

/-- Two servers of one port are bound to two devices, and a packet finds that of its device. -/
theorem lookup_unambiguous_devices :
    (∃ found, twoServers.lookup 0x0a000001 80 0x0a000002 5000 (onDevice 1) = some found ∧
      found.length ≤ 1) ∧ twoServers.allocate.1 = some 2 := by
  have first : Machine.Reaches (step (D := Nat)) (Allowed fun _ => True) (· = {})
      { endPoints := [server 0 1], next := 1 } :=
    .next (e := serve 1) (.start rfl) (fun new asked _ => by rintro endP ⟨⟩) rfl
  have both : Machine.Reaches (step (D := Nat)) (Allowed fun _ => True) (· = {}) twoServers := by
    refine .next (e := serve 2) first ?_ rfl
    rintro new asked - endP mem - ⟨-, -, incomingInterface, -, takes, takes', -⟩
    obtain rfl := Option.some.inj asked
    obtain rfl := mem_singleton.mp mem
    simp only [accepts, server, Bool.true_and, Option.any_some, Bool.not_eq_true',
      decide_eq_false_iff_not, not_not] at takes takes'
    exact absurd (takes.trans takes'.symm) (by decide)
  exact ⟨(lookup_unambiguous (fun _ => True) twoServers).1 both 0x0a000001 80 0x0a000002 5000
    (onDevice 1) trivial, rfl⟩

/-- After the server on a device, one that asks for no device passes the check for duplicates, and a
packet that comes from the device finds both. -/
theorem lookup_too_many :
    ∃ s : Ipv4EndPointDemux Nat, Machine.Reaches step (fun _ _ => True) (· = {}) s ∧
      s.lookup 0x0a000001 80 0x0a000002 5000 (onDevice 1) = none := by
  have first : Machine.Reaches (step (D := Nat)) (fun _ _ => True) (· = {}) _ :=
    .next (e := serve 1) (.start rfl) trivial rfl
  exact ⟨_, .next (e := .allocate (.port none 80) none) first trivial rfl, rfl⟩

end Ipv4EndPointDemux

end Ns3.Internet
