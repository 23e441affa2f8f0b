import Ns3.Internet.Rip

/-!
# The entries of the routing table

The one event of an entry tells whether it expires or is collected. This holds
while no neighbour poisons a route that is already invalid.
-/

namespace Ns3.Internet.Rip

open List Option

/-- What the table says of one entry. -/
structure EntryValid (s : Rip) (entry : RipEntry) : Prop where
  reachable : entry.route.status = .valid → entry.route.metric < s.linkDown
  expires : entry.route.status = .valid →
    ∀ timer, entry.event = some timer → timer.action = .invalidateRoute
  collected : entry.route.status = .invalid → entry.route.metric = s.linkDown ∧
    ∃ ts, entry.event = some ⟨.deleteRoute, ts⟩ ∧ s.now ≤ ts ∧ ts ≤ s.now + s.garbageCollectionDelay

/-- Two entries that do not both lead to one network. -/
def Apart (a b : RipEntry) : Prop :=
  a.route.status = .valid → b.route.status = .valid →
    ¬ (a.route.network = b.route.network ∧ a.route.mask = b.route.mask)

structure Valid (s : Rip) : Prop where
  single : s.routes.Pairwise Apart
  entries : ∀ entry ∈ s.routes, s.EntryValid entry

/-- A link-down metric of 8 bits, more than the metric of a connected network. -/
def Metrics (s : Rip) : Prop := 1 < s.linkDown ∧ s.linkDown < 2 ^ 8

/-! ## What a step is asked for -/

/-- No valid entry leads to the network. -/
def Unclaimed (s : Rip) (network mask : Nat) : Prop :=
  ∀ entry ∈ s.routes, entry.route.status = .valid →
    ¬ (entry.route.network = network ∧ entry.route.mask = mask)

instance (s : Rip) (network mask : Nat) : Decidable (s.Unclaimed network mask) :=
  inferInstanceAs (Decidable (∀ entry ∈ s.routes, _ → _))

/-- The networks of the addresses, added in turn, are unclaimed. -/
def AllUnclaimed (i : Nat) (s : Rip) : List Ipv4InterfaceAddress → Prop
  | [] => True
  | address :: addresses =>
    (address.scope = .global → s.Unclaimed address.network address.mask) ∧
      AllUnclaimed i (if address.scope = .global then
        s.addNetworkRouteTo address.network address.mask i else s) addresses

instance decidableAllUnclaimed (i : Nat) :
    (s : Rip) → (addresses : List Ipv4InterfaceAddress) → Decidable (AllUnclaimed i s addresses)
  | _, [] => isTrue trivial
  | s, address :: addresses =>
    have := decidableAllUnclaimed i (if address.scope = .global then
      s.addNetworkRouteTo address.network address.mask i else s) addresses
    inferInstanceAs (Decidable ((_ → _) ∧ _))

/-- A reachable network has one entry at most, an unreachable one no invalid entry that the
sender would take over or restart. -/
def RteAllowed (sender incomingInterface : Nat) (s : Rip) (rte : RipRte) : Prop :=
  (s.rteMetric incomingInterface rte < s.linkDown →
    s.routes.Pairwise fun a b => ¬ (matching rte a ∧ matching rte b)) ∧
  (s.rteMetric incomingInterface rte = s.linkDown →
    ∀ entry ∈ s.routes, matching rte entry → entry.route.status = .invalid →
      sender ≠ entry.route.gateway ∧ ¬ s.delayLeft entry.event < s.timeoutDelay / 2)

instance (sender incomingInterface : Nat) (s : Rip) (rte : RipRte) :
    Decidable (RteAllowed sender incomingInterface s rte) :=
  inferInstanceAs (Decidable ((_ → _) ∧ (_ → ∀ entry ∈ s.routes, _ → _ → _)))

def RtesAllowed (sender incomingInterface : Nat) (s : Rip) : List RipRte → Prop
  | [] => True
  | rte :: rtes => RteAllowed sender incomingInterface s rte ∧
      RtesAllowed sender incomingInterface (handleRte sender incomingInterface s rte) rtes

instance decidableRtesAllowed (sender incomingInterface : Nat) :
    (s : Rip) → (rtes : List RipRte) → Decidable (RtesAllowed sender incomingInterface s rtes)
  | _, [] => isTrue trivial
  | s, rte :: rtes =>
    have := decidableRtesAllowed sender incomingInterface
      (handleRte sender incomingInterface s rte) rtes
    inferInstanceAs (Decidable (_ ∧ _))

/-- What an event is asked for in the state at its time. -/
def EventAllowed (s : Rip) : Event → Prop
  | .interfaceUp i loopback addresses => loopback = false → AllUnclaimed i s addresses
  | .addAddress interface up address =>
    up ∧ s.interfaceExclusions interface = false ∧ address.scope = .global →
      s.Unclaimed address.network address.mask
  | .responses rtes sender incomingInterface =>
    s.interfaceExclusions incomingInterface = false ∧ rtes.all s.wellFormed →
      RtesAllowed sender incomingInterface s rtes
  | _ => True

instance (s : Rip) : (event : Event) → Decidable (s.EventAllowed event)
  | .interfaceUp _ _ _ => inferInstanceAs (Decidable (_ → _))
  | .addAddress _ _ _ => inferInstanceAs (Decidable (_ → _))
  | .responses _ _ _ => inferInstanceAs (Decidable (_ → _))
  | .interfaceDown _ | .removeAddress _ _ _ | .expire _ | .updateSent => isTrue trivial

def Allowed (s : Rip) (event : Nat × Event) : Prop :=
  { s with now := event.1 }.EventAllowed event.2

instance (s : Rip) (event : Nat × Event) : Decidable (s.Allowed event) :=
  inferInstanceAs (Decidable (EventAllowed _ _))

/-- An empty table. -/
def Start (s : Rip) : Prop := s.routes = [] ∧ s.Metrics

/-! ## Invalidation -/

variable {s : Rip}

theorem setRouteMetric_metric (route : RipRoute) {routeMetric : Nat} (small : routeMetric < 2 ^ 8) :
    (route.setRouteMetric routeMetric).metric = routeMetric :=
  Nat.mod_eq_of_lt small

theorem invalidateRoute_valid (metrics : s.Metrics) (entry : RipEntry) :
    s.EntryValid (s.invalidateRoute entry) where
  reachable is := nomatch is
  expires is := nomatch is
  collected _ := by
    constructor
    · exact setRouteMetric_metric entry.route metrics.2
    · exact ⟨_, rfl, Nat.le_add_right _ _, Nat.le_refl _⟩

/-- What happens to the entries one by one keeps the table valid, when no entry becomes valid. -/
theorem Valid.map (valid : s.Valid) (f : RipEntry → RipEntry)
    (place : ∀ entry, (f entry).route.network = entry.route.network ∧
      (f entry).route.mask = entry.route.mask)
    (status : ∀ entry ∈ s.routes, (f entry).route.status = .valid → entry.route.status = .valid)
    (entries : ∀ entry ∈ s.routes, s.EntryValid entry → s.EntryValid (f entry)) :
    Valid { s with routes := s.routes.map f } := by
  constructor
  · apply pairwise_map.mpr
    apply valid.single.imp_of_mem
    intro a b memA memB apart validA validB same
    apply apart (status a memA validA) (status b memB validB)
    rw [(place a).1, (place a).2, (place b).1, (place b).2] at same
    exact same
  · intro entry mem
    obtain ⟨before, held, rfl⟩ := List.mem_map.mp mem
    have kept := entries before held (valid.entries before held)
    exact ⟨kept.reachable, kept.expires, kept.collected⟩

theorem Valid.invalidate (valid : s.Valid) (metrics : s.Metrics) (which : RipEntry → Prop)
    [DecidablePred which] :
    Valid { s with routes := s.routes.map (fun entry =>
      if which entry then s.invalidateRoute entry else entry) } := by
  apply valid.map
  · intro entry
    split
    · exact ⟨rfl, rfl⟩
    · exact ⟨rfl, rfl⟩
  · intro entry _ still
    split at still
    · cases still
    · exact still
  · intro entry _ before
    split
    · exact invalidateRoute_valid metrics entry
    · exact before

/-! ## Connected networks -/

theorem Valid.addNetworkRouteTo (valid : s.Valid) (metrics : s.Metrics) {network mask : Nat}
    (unclaimed : s.Unclaimed network mask) (interface : Nat) :
    Valid (s.addNetworkRouteTo network mask interface) := by
  constructor
  · apply pairwise_append.mpr
    refine ⟨valid.single, pairwise_singleton _ _, ?_⟩
    intro entry held added mem validEntry _
    obtain rfl := mem_singleton.mp mem
    exact unclaimed entry held validEntry
  · intro entry mem
    cases mem_append.mp mem with
    | inl held =>
      have before := valid.entries entry held
      exact ⟨before.reachable, before.expires, before.collected⟩
    | inr added =>
      obtain rfl := mem_singleton.mp added
      exact ⟨fun _ => metrics.1, fun _ _ none => (nomatch none), fun is => nomatch is⟩

theorem notifyInterfaceUp_valid (valid : s.Valid) (metrics : s.Metrics) (i : Nat)
    {addresses : List Ipv4InterfaceAddress} (unclaimed : AllUnclaimed i s addresses) :
    Valid (s.notifyInterfaceUp i false addresses) := by
  unfold notifyInterfaceUp
  rw [if_neg Bool.false_ne_true]
  induction addresses generalizing s with
  | nil => exact valid
  | cons address addresses ih =>
    obtain ⟨first, rest⟩ := unclaimed
    rw [foldl_cons]
    apply ih _ _ rest
    · split
      case isTrue global => exact valid.addNetworkRouteTo metrics (first global) i
      case isFalse => exact valid
    · split
      · exact metrics
      · exact metrics

/-! ## Responses -/

theorem matching_iff {rte : RipRte} {entry : RipEntry} :
    matching rte entry ↔ entry.route.network = (rte.prefixAddress &&& rte.subnetMask) ∧
      entry.route.mask = rte.subnetMask :=
  decide_eq_true_iff

variable {sender incomingInterface : Nat} {rte : RipRte} {entry : RipEntry}

theorem rteMetric_le : s.rteMetric incomingInterface rte ≤ s.linkDown := Nat.min_le_right _ _

theorem entryValid_of_timeout {route : RipRoute} (status : route.status = .valid)
    (metric : route.metric < s.linkDown) : s.EntryValid ⟨route, some s.timeout⟩ where
  reachable _ := metric
  expires _ timer is := by
    cases is
    rfl
  collected is := by
    rw [status] at is
    cases is

theorem updateEntry_place (here : matching rte entry) :
    (s.updateEntry sender incomingInterface rte entry).route.network =
      (rte.prefixAddress &&& rte.subnetMask) ∧
    (s.updateEntry sender incomingInterface rte entry).route.mask = rte.subnetMask := by
  have place := matching_iff.mp here
  unfold updateEntry
  dsimp only
  split_ifs
  all_goals first | exact place | exact ⟨rfl, rfl⟩

/-- Over a reachable network every entry becomes valid. -/
theorem updateEntry_reachable (metrics : s.Metrics) (before : s.EntryValid entry)
    (reachable : s.rteMetric incomingInterface rte < s.linkDown) :
    s.EntryValid (s.updateEntry sender incomingInterface rte entry) := by
  have small : s.rteMetric incomingInterface rte < 2 ^ 8 := Nat.lt_trans reachable metrics.2
  have stored : s.rteMetric incomingInterface rte % 2 ^ 8 < s.linkDown := by
    rw [Nat.mod_eq_of_lt small]
    exact reachable
  unfold updateEntry
  dsimp only
  split_ifs with better other equal same late worse
  · exact entryValid_of_timeout rfl stored
  · exact entryValid_of_timeout rfl stored
  · have valid : entry.route.status = .valid := by
      cases status : entry.route.status with
      | valid => rfl
      | invalid =>
        have down := (before.collected status).1
        omega
    exact entryValid_of_timeout valid (before.reachable valid)
  · exact entryValid_of_timeout rfl stored
  · exact before
  · exact entryValid_of_timeout rfl stored
  · exact before

/-- Poison leaves an invalid entry alone or invalidates a valid one. -/
theorem updateEntry_unreachable (metrics : s.Metrics) (before : s.EntryValid entry)
    (down : s.rteMetric incomingInterface rte = s.linkDown)
    (spared : entry.route.status = .invalid →
      sender ≠ entry.route.gateway ∧ ¬ s.delayLeft entry.event < s.timeoutDelay / 2) :
    s.EntryValid (s.updateEntry sender incomingInterface rte entry) ∧
      ((s.updateEntry sender incomingInterface rte entry).route.status = .valid →
        entry.route.status = .valid) := by
  unfold updateEntry
  rw [down]
  cases status : entry.route.status with
  | valid =>
    have up := before.reachable status
    rw [if_neg (by omega), if_neg (by omega), if_neg (Nat.lt_irrefl _)]
    split
    · exact ⟨invalidateRoute_valid metrics entry, fun _ => rfl⟩
    · exact ⟨before, fun _ => rfl⟩
  | invalid =>
    obtain ⟨foreign, early⟩ := spared status
    have same := (before.collected status).1
    rw [if_neg (by omega), if_pos same.symm, if_neg foreign, if_neg early]
    exact ⟨before, fun is => absurd (status.symm.trans is) (nomatch ·)⟩

theorem learn_valid (valid : s.Valid) (unknown : ¬ s.routes.any (matching rte))
    (reachable : s.rteMetric incomingInterface rte ≠ s.linkDown) :
    Valid { s with
      routes := ⟨s.learned sender incomingInterface rte, some s.timeout⟩ :: s.routes } := by
  have lower := Nat.lt_of_le_of_ne rteMetric_le reachable
  have stored : s.rteMetric incomingInterface rte % 2 ^ 8 < s.linkDown :=
    Nat.lt_of_le_of_lt (Nat.mod_le _ _) lower
  constructor
  · apply pairwise_cons.mpr
    constructor
    · intro entry mem _ _ same
      apply unknown
      exact List.any_eq_true.mpr ⟨entry, mem, matching_iff.mpr ⟨same.1.symm, same.2.symm⟩⟩
    · exact valid.single
  · intro entry mem
    have kept : s.EntryValid entry := by
      cases mem with
      | head => exact entryValid_of_timeout rfl stored
      | tail _ held => exact valid.entries entry held
    exact ⟨kept.reachable, kept.expires, kept.collected⟩

/-- What an RTE does to the entries that are there. -/
def updateEntries (sender incomingInterface : Nat) (s : Rip) (rte : RipRte) : Rip :=
  { s with routes := s.routes.map fun entry =>
      if matching rte entry then s.updateEntry sender incomingInterface rte entry else entry }

/-- One entry at most leads to the network, and it is valid afterwards. -/
theorem updateEntries_reachable (valid : s.Valid) (metrics : s.Metrics)
    (one : s.routes.Pairwise fun a b => ¬ (matching rte a ∧ matching rte b))
    (reachable : s.rteMetric incomingInterface rte < s.linkDown) :
    Valid (updateEntries sender incomingInterface s rte) := by
  constructor
  · apply pairwise_map.mpr
    apply (valid.single.and one).imp
    rintro a b ⟨apart, one⟩
    by_cases hereA : matching rte a
    · have awayB : ¬ matching rte b := fun hereB => one ⟨hereA, hereB⟩
      rw [if_pos hereA, if_neg awayB]
      intro _ _ same
      rw [(updateEntry_place hereA).1, (updateEntry_place hereA).2] at same
      exact awayB (matching_iff.mpr ⟨same.1.symm, same.2.symm⟩)
    · rw [if_neg hereA]
      by_cases hereB : matching rte b
      · rw [if_pos hereB]
        intro _ _ same
        rw [(updateEntry_place hereB).1, (updateEntry_place hereB).2] at same
        exact hereA (matching_iff.mpr same)
      · rw [if_neg hereB]
        exact apart
  · intro entry mem
    obtain ⟨before, held, rfl⟩ := List.mem_map.mp mem
    have kept : s.EntryValid (if matching rte before then
        s.updateEntry sender incomingInterface rte before else before) := by
      split
      · exact updateEntry_reachable metrics (valid.entries before held) reachable
      · exact valid.entries before held
    exact ⟨kept.reachable, kept.expires, kept.collected⟩

theorem updateEntries_unreachable (valid : s.Valid) (metrics : s.Metrics)
    (down : s.rteMetric incomingInterface rte = s.linkDown)
    (spared : ∀ entry ∈ s.routes, matching rte entry → entry.route.status = .invalid →
      sender ≠ entry.route.gateway ∧ ¬ s.delayLeft entry.event < s.timeoutDelay / 2) :
    Valid (updateEntries sender incomingInterface s rte) := by
  apply valid.map
  · intro entry
    split
    case isTrue here =>
      rw [(updateEntry_place here).1, (updateEntry_place here).2]
      exact ⟨(matching_iff.mp here).1.symm, (matching_iff.mp here).2.symm⟩
    case isFalse => exact ⟨rfl, rfl⟩
  · intro entry mem now
    split at now
    case isTrue here =>
      have updated := updateEntry_unreachable metrics (valid.entries entry mem) down
        (spared entry mem here)
      exact updated.2 now
    case isFalse => exact now
  · intro entry mem before
    split
    case isTrue here =>
      exact (updateEntry_unreachable metrics before down (spared entry mem here)).1
    case isFalse => exact before

theorem handleRte_valid (valid : s.Valid) (metrics : s.Metrics)
    (allowed : RteAllowed sender incomingInterface s rte) :
    Valid (handleRte sender incomingInterface s rte) := by
  unfold handleRte
  split
  · cases Nat.lt_or_eq_of_le rteMetric_le with
    | inl reachable =>
      exact updateEntries_reachable valid metrics (allowed.1 reachable) reachable
    | inr down => exact updateEntries_unreachable valid metrics down (allowed.2 down)
  · split
    · exact learn_valid valid ‹_› ‹_›
    · exact valid

theorem handleRte_metrics (metrics : s.Metrics) :
    Metrics (handleRte sender incomingInterface s rte) := by
  unfold handleRte
  split_ifs
  all_goals exact metrics

theorem handleRtes_valid (valid : s.Valid) (metrics : s.Metrics) {rtes : List RipRte}
    (allowed : RtesAllowed sender incomingInterface s rtes) :
    Valid (rtes.foldl (handleRte sender incomingInterface) s) := by
  induction rtes generalizing s with
  | nil => exact valid
  | cons rte rtes ih =>
    exact ih (handleRte_valid valid metrics allowed.1) (handleRte_metrics metrics) allowed.2

/-! ## Runs -/

theorem expire_valid (valid : s.Valid) (metrics : s.Metrics) {index : Nat} {s' : Rip}
    (done : s.expire index = some s') : Valid s' := by
  obtain ⟨entry, found, done⟩ := bind_eq_some_iff.mp done
  obtain ⟨timer, running, done⟩ := bind_eq_some_iff.mp done
  split at done
  case isTrue => cases done
  case isFalse =>
    split at done
    case h_1 =>
      cases done
      constructor
      · apply pairwise_iff_getElem.mpr
        intro i j inI inJ before
        have apart := pairwise_iff_getElem.mp valid.single
        rw [length_set] at inI inJ
        rw [getElem_set, getElem_set]
        split
        · exact fun is => nomatch is
        · split
          · exact fun _ is => nomatch is
          · exact apart i j inI inJ before
      · intro other mem
        have kept : s.EntryValid other := by
          cases mem_or_eq_of_mem_set mem with
          | inl held => exact valid.entries other held
          | inr now =>
            rw [now]
            exact invalidateRoute_valid metrics entry
        exact ⟨kept.reachable, kept.expires, kept.collected⟩
    case h_2 =>
      cases done
      have kept := eraseIdx_sublist s.routes index
      constructor
      · exact valid.single.sublist kept
      · intro other mem
        have before := valid.entries other (kept.subset mem)
        exact ⟨before.reachable, before.expires, before.collected⟩

theorem updateSent_valid (valid : s.Valid) : Valid { s with routes := s.routes.map fun entry =>
      { entry with route := { entry.route with changed := false } } } := by
  apply valid.map
  · exact fun _ => ⟨rfl, rfl⟩
  · exact fun _ _ still => still
  · exact fun _ _ before => ⟨before.reachable, before.expires, before.collected⟩

theorem Valid.wait (valid : s.Valid) {now : Nat} (later : s.now ≤ now)
    (due : s.routes.all (fun entry => entry.event.all (now ≤ ·.ts))) :
    Valid { s with now := now } := by
  constructor
  · exact valid.single
  · intro entry mem
    have before := valid.entries entry mem
    refine ⟨before.reachable, before.expires, ?_⟩
    intro invalid
    obtain ⟨metric, ts, pending, -, upper⟩ := before.collected invalid
    have notPast := List.all_eq_true.mp due entry mem
    rw [pending, all_some, decide_eq_true_iff] at notPast
    exact ⟨metric, ts, pending, notPast, Nat.le_trans upper (Nat.add_le_add_right later _)⟩

theorem step_valid {e : Nat × Event} {s' : Rip} (valid : s.Valid) (metrics : s.Metrics)
    (allowed : s.Allowed e) (done : s.step e = some s') : Valid s' := by
  obtain ⟨now, event⟩ := e
  unfold step at done
  rw [ite_none_right_eq_some] at done
  obtain ⟨⟨later, due⟩, done⟩ := done
  have here := valid.wait later due
  have metrics : Metrics { s with now := now } := metrics
  cases event with
  | interfaceUp i loopback addresses =>
    cases done
    cases loopback with
    | true => exact here
    | false => exact notifyInterfaceUp_valid here metrics i (allowed rfl)
  | interfaceDown interface =>
    cases done
    exact here.invalidate metrics (·.route.interface = interface)
  | addAddress interface up address =>
    cases done
    dsimp only [notifyAddAddress]
    split
    case isTrue => exact here
    case isFalse active =>
      rw [Bool.or_eq_true, not_or, Bool.not_eq_true', Bool.not_eq_false] at active
      split
      case isTrue global =>
        have unclaimed := allowed ⟨active.1, Bool.eq_false_iff.mpr active.2, global⟩
        exact here.addNetworkRouteTo metrics unclaimed interface
      case isFalse => exact here
  | removeAddress interface up address =>
    cases done
    dsimp only [notifyRemoveAddress]
    split
    · exact here
    · exact here.invalidate metrics _
  | responses rtes sender incomingInterface =>
    cases done
    dsimp only [handleResponses]
    split
    case isTrue => exact here
    case isFalse active =>
      split
      case isTrue formed =>
        exact handleRtes_valid here metrics (allowed ⟨Bool.eq_false_iff.mpr active, formed⟩)
      case isFalse => exact here
  | expire index => exact expire_valid here metrics done
  | updateSent =>
    cases done
    exact updateSent_valid here

theorem notifyInterfaceUp_linkDown (i : Nat) (loopback : Bool)
    (addresses : List Ipv4InterfaceAddress) :
    (s.notifyInterfaceUp i loopback addresses).linkDown = s.linkDown := by
  unfold notifyInterfaceUp
  split
  · rfl
  · induction addresses generalizing s with
    | nil => rfl
    | cons address addresses ih =>
      rw [foldl_cons, ih]
      split
      · rfl
      · rfl

theorem handleRte_linkDown : (handleRte sender incomingInterface s rte).linkDown = s.linkDown := by
  unfold handleRte
  split_ifs
  all_goals rfl

theorem handleResponses_linkDown (rtes : List RipRte) :
    (s.handleResponses rtes sender incomingInterface).linkDown = s.linkDown := by
  unfold handleResponses
  split_ifs
  · rfl
  · clear * -
    induction rtes generalizing s with
    | nil => rfl
    | cons rte rtes ih => exact ih.trans handleRte_linkDown
  · rfl

theorem expire_linkDown {index : Nat} {s' : Rip} (done : s.expire index = some s') :
    s'.linkDown = s.linkDown := by
  obtain ⟨entry, found, done⟩ := bind_eq_some_iff.mp done
  obtain ⟨timer, running, done⟩ := bind_eq_some_iff.mp done
  split at done
  · cases done
  · split at done
    · cases done
      rfl
    · cases done
      rfl

theorem step_linkDown {e : Nat × Event} {s' : Rip} (done : s.step e = some s') :
    s'.linkDown = s.linkDown := by
  obtain ⟨now, event⟩ := e
  unfold step at done
  rw [ite_none_right_eq_some] at done
  obtain ⟨-, done⟩ := done
  cases event with
  | interfaceUp i loopback addresses =>
    cases done
    exact notifyInterfaceUp_linkDown i loopback addresses
  | addAddress interface up address =>
    cases done
    dsimp only [notifyAddAddress]
    split_ifs
    all_goals rfl
  | removeAddress interface up address =>
    cases done
    dsimp only [notifyRemoveAddress]
    split
    · rfl
    · rfl
  | responses rtes sender incomingInterface =>
    cases done
    exact handleResponses_linkDown rtes
  | expire index => exact expire_linkDown (s := { s with now := now }) done
  | interfaceDown | updateSent =>
    cases done
    rfl

theorem reaches_valid (reaches : Machine.Reaches step Allowed Start s) : s.Valid ∧ s.Metrics := by
  apply reaches.invariant fun s => s.Valid ∧ s.Metrics
  · rintro s ⟨empty, metrics⟩
    constructor
    · constructor
      · rw [empty]
        exact List.Pairwise.nil
      · intro entry mem
        rw [empty] at mem
        cases mem
    · exact metrics
  · rintro s e s' ⟨valid, metrics⟩ allowed done
    constructor
    · exact step_valid valid metrics allowed done
    · unfold Metrics
      rw [step_linkDown done]
      exact metrics

/-! ## Routes in use -/

theorem lookup_mem {dst : Nat} {interface : Option Nat} {route : RipRoute}
    (found : s.lookup dst interface = some route) :
    ∃ entry ∈ s.routes, entry.route = route ∧ route.status = .valid := by
  revert found
  apply List.foldlRecOn s.routes _ (motive := fun (best : Nat × Option RipRoute) =>
    best.2 = some route → ∃ entry ∈ s.routes, entry.route = route ∧ route.status = .valid)
  · exact fun is => nomatch is
  · intro best before entry mem now
    dsimp only at now
    split at now
    case isTrue better =>
      cases now
      exact ⟨entry, mem, rfl, better.1⟩
    case isFalse => exact before now

/-- **Routing table.** While nobody poisons an invalid route and no network is added twice, the
table is valid, only reachable routes are found, and no invalid route outlives its collection. -/
theorem table_valid (reaches : Machine.Reaches step Allowed Start s) : s.Valid ∧
    (∀ dst interface route, s.lookup dst interface = some route →
      route.status = .valid ∧ route.metric < s.linkDown) ∧
    ∀ event s', s.step event = some s' → s.now + s.garbageCollectionDelay < event.1 →
      ∀ entry ∈ s.routes, entry.route.status = .valid := by
  have valid := (reaches_valid reaches).1
  refine ⟨valid, ?_, ?_⟩
  · intro dst interface route found
    obtain ⟨entry, mem, rfl, status⟩ := lookup_mem found
    exact ⟨status, (valid.entries entry mem).reachable status⟩
  · intro event s' done later entry mem
    unfold step at done
    rw [ite_none_right_eq_some] at done
    cases status : entry.route.status with
    | valid => rfl
    | invalid =>
      obtain ⟨-, ts, pending, -, upper⟩ := (valid.entries entry mem).collected status
      have due := List.all_eq_true.mp done.1.2 entry mem
      rw [pending, all_some, decide_eq_true_iff] at due
      dsimp only at due
      omega

/-- The default times in seconds, before the first response. -/
def quiet : Rip where
  routes := []
  now := 0
  linkDown := 16
  timeoutDelay := 180
  garbageCollectionDelay := 120
  interfaceMetrics _ := none
  interfaceExclusions _ := false

/-- A response about 10.1.0.0. -/
def response (seconds sender metric : Nat) : Nat × Event :=
  (seconds, .responses [⟨0, 0x0a010000, 0xffff0000, metric⟩] sender 1)

/-- A route is learned, poisoned and collected. -/
def learnedThenCollected : List (Nat × Event) :=
  [response 0 1 1, response 10 1 16, response 20 2 16, (130, .expire 0)]

theorem collection_valid : ∃ s,
    Machine.runAllowed step Allowed quiet learnedThenCollected = some s ∧ s.Valid := by
  have starts : Start quiet := ⟨rfl, by decide, by decide⟩
  have run : Machine.runAllowed step Allowed quiet learnedThenCollected = some _ := rfl
  exact ⟨_, run, (table_valid (.of_runAllowed (.start starts) run)).1⟩

/-- Another neighbour repeats the poison 40 seconds later. -/
def poisonedTwice : List (Nat × Event) := [response 0 1 1, response 10 1 16, response 50 2 16]

/-- An unreachable route is valid and in use. -/
theorem unreachable_used : ∃ s route,
    Machine.runAllowed step (fun _ _ => True) quiet poisonedTwice = some s ∧
    s.lookup 0x0a010001 none = some route ∧ route.status = .valid ∧
    ¬ route.metric < s.linkDown := by
  refine ⟨_, _, rfl, rfl, rfl, ?_⟩
  decide

end Ns3.Internet.Rip
