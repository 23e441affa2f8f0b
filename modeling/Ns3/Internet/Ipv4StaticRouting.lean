import Ns3.Internet.Ipv4Address
import Mathlib.Data.List.Basic

/-!
# Static routing of IPv4

`Ipv4StaticRouting::LookupStatic` over the list of network routes. A device of the node is a
`D`; what the node's `Ipv4` knows of its interfaces is a parameter.
-/

namespace Ns3.Internet

open List

structure Ipv4RoutingTableEntry where
  dest : Ipv4Address
  destNetworkMask : Ipv4Mask
  gateway : Ipv4Address
  interface : UInt32
  deriving DecidableEq

structure Ipv4Route (D : Type) where
  destination : Ipv4Address
  source : Ipv4Address
  gateway : Ipv4Address
  outputDevice : D

/-- `Ipv4` of the node, as far as the lookup asks it. -/
structure Ipv4 (D : Type) where
  getNetDevice : (interface : UInt32) → D
  /-- The first address of the interface of a device. -/
  deviceAddress : D → Ipv4Address
  sourceAddressSelection : (interface : UInt32) → (dest : Ipv4Address) → Ipv4Address

namespace Ipv4StaticRouting

/-- A network route and its metric. -/
abbrev NetworkRoute := Ipv4RoutingTableEntry × UInt32

/-- The variables of the loop; `rtentry` is the entry that the route is made of. -/
structure Lookup where
  rtentry : Option NetworkRoute
  longestMask : Nat
  shortestMetric : UInt32

variable {D : Type} [DecidableEq D] (ipv4 : Ipv4 D) (dest : Ipv4Address) (oif : Option D)

/-- The entry is for the destination, and on the device if one is asked for. -/
def applies (route : NetworkRoute) : Bool :=
  route.1.destNetworkMask.isMatch dest route.1.dest &&
    oif.all fun oif => decide (oif = ipv4.getNetDevice route.1.interface)

def masklen (route : NetworkRoute) : Nat := Ipv4Mask.getPrefixLength route.1.destNetworkMask

/-- The loop over the network routes. -/
def scan : List NetworkRoute → Lookup → Lookup
  | [], s => s
  | (j, metric) :: routes, s =>
    let mask := j.destNetworkMask
    let masklen := Ipv4Mask.getPrefixLength mask
    if Ipv4Mask.isMatch mask dest j.dest then
      if oif.any fun oif => oif ≠ ipv4.getNetDevice j.interface then scan routes s
      else if masklen < s.longestMask then scan routes s
      else
        let shortest := if s.longestMask < masklen then 0xffffffff else s.shortestMetric
        if shortest < metric then
          scan routes { s with longestMask := masklen, shortestMetric := shortest }
        else
          let s : Lookup := ⟨some (j, metric), masklen, metric⟩
          if masklen = 32 then s else scan routes s
    else scan routes s

def lookupEntry (routes : List NetworkRoute) : Option NetworkRoute :=
  (scan ipv4 dest oif routes ⟨none, 0, 0xffffffff⟩).rtentry

/-- The route made of an entry. -/
def createRoute (route : NetworkRoute) : Ipv4Route D where
  destination := route.1.dest
  source := ipv4.sourceAddressSelection route.1.interface route.1.dest
  gateway := route.1.gateway
  outputDevice := ipv4.getNetDevice route.1.interface

/-- The outer `none` is a failed assertion, the inner one no route. -/
def lookupStatic (routes : List NetworkRoute) : Option (Option (Ipv4Route D)) :=
  if dest.isLocalMulticast then
    oif.map fun oif => some ⟨dest, ipv4.deviceAddress oif, 0, oif⟩
  else some ((lookupEntry ipv4 dest oif routes).map (createRoute ipv4))

/-! ## Longest prefix, smallest metric -/

/-- At least as long a prefix, and no larger metric for the same length. -/
def AtLeast (a b : NetworkRoute) : Prop :=
  masklen b ≤ masklen a ∧ (masklen b = masklen a → a.2 ≤ b.2)

/-- An entry is found exactly when there is one, and a best one. -/
def LongestPrefix (routes : List NetworkRoute) : Option NetworkRoute → Prop
  | none => routes = []
  | some best => best ∈ routes ∧ ∀ route ∈ routes, AtLeast best route

/-- The variables after some entries. -/
structure Follows (seen : List NetworkRoute) (s : Lookup) : Prop where
  best : LongestPrefix seen s.rtentry
  longest : s.longestMask = s.rtentry.elim 0 masklen
  shortest : s.shortestMetric = s.rtentry.elim 0xffffffff Prod.snd

theorem masklen_le (route : NetworkRoute) : masklen route ≤ 32 := Ipv4Mask.getPrefixLength_le _

theorem AtLeast.refl (a : NetworkRoute) : AtLeast a a := ⟨le_rfl, fun _ => UInt32.le_refl _⟩

theorem AtLeast.trans {a b c : NetworkRoute} (left : AtLeast a b) (right : AtLeast b c) :
    AtLeast a c := by
  have left_le := left.1
  have right_le := right.1
  refine ⟨le_trans right_le left_le, fun same => ?_⟩
  exact UInt32.le_trans (left.2 (by omega)) (right.2 (by omega))

variable {ipv4 dest oif} {seen routes : List NetworkRoute} {route : NetworkRoute} {s : Lookup}

theorem Follows.keep (follows : Follows seen s) {best : NetworkRoute}
    (found : s.rtentry = some best) (better : AtLeast best route) :
    Follows (seen ++ [route]) s := by
  have known := follows.best
  rw [found] at known
  refine ⟨?_, follows.longest, follows.shortest⟩
  rw [found]
  refine ⟨mem_append_left _ known.1, fun other mem => ?_⟩
  rcases mem_append.mp mem with old | new
  · exact known.2 other old
  · rw [mem_singleton.mp new]
    exact better

theorem Follows.replace (follows : Follows seen s)
    (better : ∀ best, s.rtentry = some best → AtLeast route best) :
    Follows (seen ++ [route]) ⟨some route, masklen route, route.2⟩ := by
  have known := follows.best
  refine ⟨⟨mem_append_right _ (mem_singleton_self route), fun other mem => ?_⟩, rfl, rfl⟩
  rcases mem_append.mp mem with old | new
  · cases found : s.rtentry with
    | none =>
      rw [found] at known
      rw [(known : seen = [])] at old
      exact absurd old not_mem_nil
    | some best =>
      rw [found] at known
      exact (better best found).trans (known.2 other old)
  · rw [mem_singleton.mp new]
    exact .refl route

theorem other_device_iff : (oif.any fun oif => decide (oif ≠ ipv4.getNetDevice route.1.interface)) =
    !oif.all fun oif => decide (oif = ipv4.getNetDevice route.1.interface) := by cases oif <;> simp

theorem scan_skip (skipped : applies ipv4 dest oif route = false) :
    scan ipv4 dest oif (route :: routes) s = scan ipv4 dest oif routes s := by
  obtain ⟨j, metric⟩ := route
  rw [applies, Bool.and_eq_false_iff] at skipped
  rw [scan]
  by_cases matched : Ipv4Mask.isMatch j.destNetworkMask dest j.dest = true
  · have other := skipped.resolve_left (by simp [matched])
    rw [if_pos matched, @other_device_iff _ _ ipv4 oif (j, metric), other]
    rfl
  · rw [if_neg matched]

theorem scan_applied (applied : applies ipv4 dest oif route = true) :
    scan ipv4 dest oif (route :: routes) s =
      if masklen route < s.longestMask then scan ipv4 dest oif routes s
      else if (if s.longestMask < masklen route then 0xffffffff else s.shortestMetric) < route.2 then
        scan ipv4 dest oif routes { s with
          longestMask := masklen route
          shortestMetric := if s.longestMask < masklen route then 0xffffffff
            else s.shortestMetric }
      else if masklen route = 32 then ⟨some route, masklen route, route.2⟩
      else scan ipv4 dest oif routes ⟨some route, masklen route, route.2⟩ := by
  obtain ⟨j, metric⟩ := route
  rw [applies, Bool.and_eq_true] at applied
  rw [scan]
  rw [if_pos applied.1, @other_device_iff _ _ ipv4 oif (j, metric), applied.2]
  rfl

/-- No metric is above the one that a longer prefix starts with. -/
theorem not_max_lt (metric : UInt32) : ¬ 0xffffffff < metric := by
  have bound := metric.toNat_lt
  have top : (0xffffffff : UInt32).toNat = 2 ^ 32 - 1 := rfl
  rw [UInt32.lt_iff_toNat_lt]
  omega

theorem scan_shorter (follows : Follows seen s) (applied : applies ipv4 dest oif route = true)
    (shorter : masklen route ≠ 32) :
    ∃ t, Follows (seen ++ [route]) t ∧
      scan ipv4 dest oif (route :: routes) s = scan ipv4 dest oif routes t := by
  have longest := follows.longest
  have shortest := follows.shortest
  rw [scan_applied applied, if_neg shorter]
  by_cases less : masklen route < s.longestMask
  · rw [if_pos less]
    cases found : s.rtentry with
    | none =>
      rw [found] at longest
      rw [longest] at less
      exact absurd less (Nat.not_lt_zero _)
    | some best =>
      rw [found, Option.elim_some] at longest
      refine ⟨s, follows.keep found ⟨by omega, fun same => by omega⟩, rfl⟩
  rw [if_neg less]
  by_cases more : s.longestMask < masklen route
  · rw [if_pos more, if_neg (not_max_lt route.2)]
    refine ⟨_, follows.replace fun best found => ?_, rfl⟩
    rw [found, Option.elim_some] at longest
    exact ⟨by omega, fun same => by omega⟩
  rw [if_neg more]
  by_cases larger : s.shortestMetric < route.2
  · rw [if_pos larger]
    have unchanged : s = { s with longestMask := masklen route } := by
      rw [show masklen route = s.longestMask by omega]
    rw [← unchanged]
    cases found : s.rtentry with
    | none =>
      rw [found] at shortest
      rw [shortest] at larger
      exact absurd larger (not_max_lt route.2)
    | some best =>
      rw [found, Option.elim_some] at longest shortest
      refine ⟨s, follows.keep found ⟨by omega, fun _ => ?_⟩, rfl⟩
      rw [← shortest]
      exact UInt32.le_of_lt larger
  · rw [if_neg larger]
    refine ⟨_, follows.replace fun best found => ?_, rfl⟩
    rw [found, Option.elim_some] at longest shortest
    refine ⟨by omega, fun _ => ?_⟩
    rw [← shortest]
    exact UInt32.not_lt.mp larger

/-- The first entry with a prefix of 32 bits ends the loop. -/
theorem scan_host (follows : Follows seen s) (none_yet : ∀ r ∈ seen, masklen r ≠ 32)
    (applied : applies ipv4 dest oif route = true) (host : masklen route = 32) :
    scan ipv4 dest oif (route :: routes) s = ⟨some route, masklen route, route.2⟩ := by
  have longest := follows.longest
  have known := follows.best
  have below : s.longestMask < masklen route := by
    cases found : s.rtentry with
    | none =>
      rw [found, Option.elim_none] at longest
      omega
    | some best =>
      rw [found, Option.elim_some] at longest
      rw [found] at known
      have bound := masklen_le best
      have small := none_yet best known.1
      omega
  rw [scan_applied applied, if_neg (by omega), if_pos below, if_neg (not_max_lt route.2),
    if_pos host]

/-- **The loop** ends with the first entry for a host, and otherwise with a best entry. -/
theorem scan_spec (follows : Follows seen s) (none_yet : ∀ r ∈ seen, masklen r ≠ 32) :
    match (routes.filter (applies ipv4 dest oif)).find? (masklen · = 32) with
    | some host => (scan ipv4 dest oif routes s).rtentry = some host
    | none => Follows (seen ++ routes.filter (applies ipv4 dest oif))
        (scan ipv4 dest oif routes s) := by
  induction routes generalizing seen s with
  | nil => simpa [scan] using follows
  | cons route routes ih =>
    by_cases applied : applies ipv4 dest oif route = true
    · rw [filter_cons_of_pos applied]
      by_cases host : masklen route = 32
      · rw [find?_cons_of_pos (by simpa using host)]
        rw [scan_host follows none_yet applied host]
      · rw [find?_cons_of_neg (by simpa using host)]
        obtain ⟨t, kept, same⟩ := scan_shorter follows applied host
        rw [same, append_cons]
        apply ih kept
        intro r mem
        rcases mem_append.mp mem with old | new
        · exact none_yet r old
        · rw [mem_singleton.mp new]
          exact host
    · rw [filter_cons_of_neg applied, scan_skip (Bool.eq_false_iff.mpr applied)]
      exact ih follows none_yet

/-- The first entry for a host, among those that apply. -/
def firstHost (ipv4 : Ipv4 D) (dest : Ipv4Address) (oif : Option D)
    (routes : List NetworkRoute) : Option NetworkRoute :=
  (routes.filter (applies ipv4 dest oif)).find? (masklen · = 32)

theorem lookupEntry_spec (ipv4 : Ipv4 D) (dest : Ipv4Address) (oif : Option D)
    (routes : List NetworkRoute) :
    match firstHost ipv4 dest oif routes with
    | some host => lookupEntry ipv4 dest oif routes = some host
    | none => LongestPrefix (routes.filter (applies ipv4 dest oif))
        (lookupEntry ipv4 dest oif routes) := by
  have start : Follows [] ⟨none, 0, 0xffffffff⟩ := ⟨rfl, rfl, rfl⟩
  have ends := @scan_spec _ _ ipv4 dest oif _ routes _ start nofun
  unfold firstHost lookupEntry
  split
  case h_1 host found =>
    rw [found] at ends
    exact ends
  case h_2 none =>
    rw [none] at ends
    exact ends.best

/-- **The lookup** finds an entry with the longest prefix and then the smallest metric, exactly
when no other entry for the host has a smaller metric than the first one: the loop ends there. -/
theorem lookupStatic_iff (ipv4 : Ipv4 D) {dest : Ipv4Address}
    (unicast : dest.isLocalMulticast = false) (oif : Option D) (routes : List NetworkRoute) :
    lookupStatic ipv4 dest oif routes =
        some ((lookupEntry ipv4 dest oif routes).map (createRoute ipv4)) ∧
      (LongestPrefix (routes.filter (applies ipv4 dest oif)) (lookupEntry ipv4 dest oif routes) ↔
        ∀ first ∈ firstHost ipv4 dest oif routes,
          ∀ route ∈ routes.filter (applies ipv4 dest oif), masklen route = 32 →
            first.2 ≤ route.2) := by
  have spec := lookupEntry_spec ipv4 dest oif routes
  constructor
  · unfold lookupStatic
    rw [unicast]
    rfl
  cases host : firstHost ipv4 dest oif routes with
  | none =>
    rw [host] at spec
    exact iff_of_true spec nofun
  | some first =>
    rw [host] at spec
    have mem := mem_of_find?_eq_some host
    have length : masklen first = 32 := by simpa using find?_some host
    rw [spec]
    constructor
    · rintro ⟨-, best⟩ other same route mem host_route
      obtain rfl := Option.some.inj same
      exact (best route mem).2 (host_route.trans length.symm)
    · intro smallest
      refine ⟨mem, fun route mem => ⟨?_, fun same => ?_⟩⟩
      · rw [length]
        exact masklen_le route
      · exact smallest first rfl route mem (same.trans length)

/-- A node with one device. -/
def oneDevice : Ipv4 Unit := ⟨fun _ => (), fun _ => 0x0a000001, fun _ _ => 0x0a000001⟩

/-- 10.0.0.0/8 and 10.1.0.0/16 for 10.1.0.9 -/
theorem lookupStatic_iff_nested : lookupStatic oneDevice 0x0a010009 none
      [(⟨0x0a000000, 0xff000000, 0, 1⟩, 0), (⟨0x0a010000, 0xffff0000, 0x0a000002, 1⟩, 7)] =
      some ((lookupEntry oneDevice 0x0a010009 none
        [(⟨0x0a000000, 0xff000000, 0, 1⟩, 0), (⟨0x0a010000, 0xffff0000, 0x0a000002, 1⟩, 7)]).map
          (createRoute oneDevice)) :=
  (lookupStatic_iff oneDevice (by decide) none _).1

/-- Two routes to the host 10.0.0.9, the second with a smaller metric: the first is taken. -/
theorem lookupStatic_first_host :
    let routes : List NetworkRoute :=
      [(⟨0x0a000009, 0xffffffff, 0x0a000002, 1⟩, 5), (⟨0x0a000009, 0xffffffff, 0x0a000003, 1⟩, 3)]
    (lookupEntry oneDevice 0x0a000009 none routes).map Prod.snd = some 5 ∧
      ¬ LongestPrefix (routes.filter (applies oneDevice 0x0a000009 none))
        (lookupEntry oneDevice 0x0a000009 none routes) := by
  have found : lookupEntry oneDevice 0x0a000009 none
      [(⟨0x0a000009, 0xffffffff, 0x0a000002, 1⟩, 5), (⟨0x0a000009, 0xffffffff, 0x0a000003, 1⟩, 3)] =
      some (⟨0x0a000009, 0xffffffff, 0x0a000002, 1⟩, 5) := by decide
  dsimp only
  rw [found]
  refine ⟨rfl, fun longest => ?_⟩
  have smaller := (longest.2 (⟨0x0a000009, 0xffffffff, 0x0a000003, 1⟩, 3) (by decide)).2 rfl
  exact absurd smaller (by decide)

end Ipv4StaticRouting

end Ns3.Internet
