import Ns3.Library.Assembly
import Ns3.Library.Machine
import Ns3.SixLowPan.FragmentChain

/-!
# Reassembly of 6LoWPAN datagrams

The device does what the rules for things that arrive in parts say, with the
fragments of a datagram as its parts.
-/

namespace Ns3.SixLowPan

open List Option

/-! ## One datagram -/

section

variable {A : Type} {decompression : Decompression A} {key : FragmentKey A} {d : Datagram}
  {fragments arrived : List Fragment} {fs : Fragments} {f : Fragment}

/-- What is stored when some fragments have arrived. -/
structure Stored (decompression : Decompression A) (key : FragmentKey A)
    (fragments arrived : List Fragment) (fs : Fragments) : Prop where
  pieces : fs.fragments = (fragments.filter (· ∈ arrived)).map (piece decompression key)
  packetSize : fs.packetSize = key.datagramSize
  first : ∀ header data rest, fragments = .frag1 header data :: rest →
    .frag1 header data ∈ arrived → fs.firstFragment = some (header, data)

theorem Stored.start (iter : Nat) :
    Stored decompression key fragments [] ⟨[], key.datagramSize, none, iter⟩ where
  pieces := by
    rw [filter_eq_nil_iff.mpr fun f _ => by simp]
    rfl
  packetSize := rfl
  first _ _ _ _ mem := nomatch mem

theorem Stored.getFragments (stored : Stored decompression key fragments arrived fs) :
    fs.getFragments =
      (fragments.filter (· ∈ arrived)).map fun f => (piece decompression key f).data := by
  rw [Fragments.getFragments, stored.pieces, List.map_map]
  rfl

theorem addFirstFragment_same (f : Fragment) (fs : Fragments) :
    (fs.addFirstFragment f).fragments = fs.fragments ∧
    (fs.addFirstFragment f).packetSize = fs.packetSize ∧
    (fs.addFirstFragment f).timeoutIter = fs.timeoutIter := by
  cases f with
  | frag1 => exact ⟨rfl, rfl, rfl⟩
  | fragN => exact ⟨rfl, rfl, rfl⟩

section

variable (stored : Stored decompression key fragments arrived fs)
include stored

theorem Stored.add (all : Sent decompression key d fragments) (mem : f ∈ fragments) :
    ∃ xs, Fragments.addFragment (piece decompression key f) fs.fragments = some xs ∧
      Stored decompression key fragments (f :: arrived)
        ({ fs with fragments := xs }.addFirstFragment f) := by
  refine ⟨(fragments.filter (· ∈ f :: arrived)).map (piece decompression key), ?_, ?_⟩
  · rw [stored.pieces]
    refine addFragment_filter all.chain all.filled ?_ mem
    intro g
    rw [decide_eq_true_iff, decide_eq_true_iff, mem_cons]
  · obtain ⟨same, size, -⟩ := addFirstFragment_same f
      { fs with fragments := (fragments.filter (· ∈ f :: arrived)).map (piece decompression key) }
    refine ⟨same, size.trans stored.packetSize, ?_⟩
    intro header data rest is came
    obtain ⟨header', data', rest', is', others, -⟩ := all.first
    cases f with
    | frag1 own ownData =>
      have first : Fragment.frag1 own ownData = .frag1 header data := by
        rw [is] at is' mem
        obtain ⟨-, rfl⟩ := List.cons.inj is'
        cases mem with
        | head => rfl
        | tail _ later => exact absurd rfl (others _ later own ownData)
      cases first
      rfl
    | fragN =>
      cases came with
      | tail _ came => exact stored.first header data rest is came

theorem Stored.isEntire_iff (all : Sent decompression key d fragments) :
    fs.isEntire = true ↔ ∀ f ∈ fragments, f ∈ arrived := by
  have reaches := reaches_filter all.chain all.filled all.size.2 (fun f => decide (f ∈ arrived))
  simp only [decide_eq_true_iff] at reaches
  unfold Fragments.isEntire
  rw [stored.pieces, stored.packetSize, all.size.1, Bool.and_eq_true, reaches, and_iff_right_iff_imp]
  intro complete
  obtain ⟨header, data, rest, is, -⟩ := all.first
  have first : Fragment.frag1 header data ∈ fragments := is ▸ mem_cons_self
  rw [Bool.not_eq_true', isEmpty_eq_false_iff]
  exact ne_nil_of_mem (List.mem_map_of_mem
    (mem_filter.mpr ⟨first, decide_eq_true (complete _ first)⟩))

theorem Stored.getPacket
    (all : Sent decompression key d fragments) (complete : ∀ f ∈ fragments, f ∈ arrived) :
    ∃ header, fs.getPacket = some (header, d.packet) := by
  obtain ⟨header, data, rest, is, -, joined⟩ := all.first
  have whole : fragments.filter (· ∈ arrived) = fragments :=
    filter_eq_self.mpr fun f mem => decide_eq_true (complete f mem)
  have first := stored.first header data rest is (complete _ (is ▸ mem_cons_self))
  have chain := all.chain
  rw [is, map_cons] at chain
  obtain ⟨start, later⟩ := chain
  have small := all.size.2
  have grows := later.bounds.1
  have length : (piece decompression key (.frag1 header data)).stop =
      (piece decompression key (.frag1 header data)).data.length := by simp [Segment.stop, start]
  rw [length] at later grows
  have rest_joined := addAtEnd_chain later small data
  rw [flatMap_map, joined] at rest_joined
  unfold Fragments.getPacket
  rw [first, stored.pieces, whole, is, map_cons]
  dsimp only
  rw [Nat.mod_eq_of_lt (by omega), rest_joined]
  exact ⟨header, rfl⟩

end

end

/-! ## The device -/

section

variable {A : Type} [DecidableEq A]

/-- What becomes of the datagrams. -/
def rules (a : SixLowPanAttributes) (decompression : Decompression A)
    (datagram : FragmentKey A → Datagram) (sent : FragmentKey A → List Fragment) :
    Assembly.Rules (FragmentKey A) Fragment Output where
  parts := sent
  lifetime := a.fragmentExpirationTimeout
  notNegative := a.notNegative
  full n := a.fragmentReassemblyListSize ≠ 0 ∧ a.fragmentReassemblyListSize ≤ n
  waiting := .returned none
  assembled key := .returned (some (datagram key).packet)
  evicted key fs := fs.map fun f =>
    .dropTrace .fragmentBufferFull (piece decompression key f).data
  expired key fs := fs.map fun f =>
    .dropTrace .fragmentTimeout (piece decompression key f).data

/-- The table holds what waits, and the entries of the list lead to it. -/
structure Related (decompression : Decompression A) (sent : FragmentKey A → List Fragment)
    (live : FragmentKey A → Prop) (d : SixLowPanNetDevice A)
    (s : Assembly.State (FragmentKey A) Fragment) : Prop where
  now : d.now = s.now
  incoming : d.timeoutEventList.map (fun e => (e.key, e.expiration)) = s.incoming
  keys : d.fragments.keys.Perm (s.incoming.map (·.1))
  live : ∀ e ∈ d.timeoutEventList, live e.key
  stored : ∀ e ∈ d.timeoutEventList, ∃ fs, d.fragments.lookup e.key = some fs ∧
    fs.timeoutIter = e.iter ∧ Stored decompression e.key (sent e.key) (s.arrived e.key) fs
  iters : (d.timeoutEventList.map (·.iter)).Nodup
  fresh : ∀ e ∈ d.timeoutEventList, e.iter < d.nextIter

/-- `HandleTimeout` is scheduled for each entry of the list. -/
def Timed (d : SixLowPanNetDevice A) : Prop :=
  ∀ e ∈ d.timeoutEventList, ∃ t ∈ d.timeoutEvents, t ≤ e.expiration

variable {a : SixLowPanAttributes} {decompression : Decompression A}
  {datagram : FragmentKey A → Datagram} {sent : FragmentKey A → List Fragment}
  {live : FragmentKey A → Prop} {d : SixLowPanNetDevice A}
  {s : Assembly.State (FragmentKey A) Fragment} {e : FragmentsTimeout A}

open SixLowPanNetDevice Assembly

theorem eraseIter_eq {l : List (FragmentsTimeout A)} (iters : (l.map (·.iter)).Nodup)
    (keys : (l.map (·.key)).Nodup) (mem : e ∈ l) :
    eraseIter e.iter l = l.filter (·.key ≠ e.key) := by
  induction l with
  | nil => cases mem
  | cons first rest ih =>
    obtain ⟨iter_new, iters⟩ := nodup_cons.mp iters
    obtain ⟨key_new, keys⟩ := nodup_cons.mp keys
    unfold eraseIter at *
    cases mem with
    | head =>
      rw [eraseP_cons_of_pos (by simp), filter_cons_of_neg (by simp)]
      refine (filter_eq_self.mpr fun other held => decide_eq_true ?_).symm
      intro same
      exact key_new (List.mem_map.mpr ⟨other, held, same⟩)
    | tail _ held =>
      have iter_ne : first.iter ≠ e.iter := fun same =>
        iter_new (List.mem_map.mpr ⟨e, held, same.symm⟩)
      have key_ne : first.key ≠ e.key := fun same =>
        key_new (List.mem_map.mpr ⟨e, held, same.symm⟩)
      rw [eraseP_cons_of_neg (by simpa using iter_ne),
        filter_cons_of_pos (by simpa using key_ne), ih iters keys held]

section

variable (related : Related decompression sent live d s)
include related

theorem Related.list_keys : d.timeoutEventList.map (·.key) = s.incoming.map (·.1) := by
  rw [← related.incoming, List.map_map]
  rfl

theorem Related.remove (nodup : (s.incoming.map (·.1)).Nodup) (mem : e ∈ d.timeoutEventList)
    (arrived : FragmentKey A → List Fragment)
    (others : ∀ key, key ≠ e.key → arrived key = s.arrived key) :
    Related decompression sent live
      { d with
        timeoutEventList := eraseIter e.iter d.timeoutEventList
        fragments := d.fragments.erase e.key }
      ⟨s.now, s.incoming.filter (·.1 ≠ e.key), arrived⟩ := by
  have erased := eraseIter_eq related.iters (related.list_keys ▸ nodup) mem
  rw [erased]
  constructor
  · exact related.now
  · rw [← related.incoming, List.filter_map]
    rfl
  · have left : (s.incoming.filter (·.1 ≠ e.key)).map (·.1) =
        (s.incoming.map (·.1)).erase e.key := by
      rw [nodup.erase_eq_filter, List.filter_map]
      congr 1
      apply filter_congr
      intro i _
      simp [bne, BEq.beq]
    rw [AList.keys_erase, left]
    exact related.keys.erase e.key
  · exact fun other held => related.live other (mem_of_mem_filter held)
  · intro other held
    obtain ⟨there, ne⟩ := mem_filter.mp held
    obtain ⟨fs, is, iter, stored⟩ := related.stored other there
    have ne := of_decide_eq_true ne
    refine ⟨fs, ?_, iter, ?_⟩
    · rw [← is]
      exact AList.lookup_erase_ne ne
    · dsimp only
      rw [others other.key ne]
      exact stored
  · exact related.iters.sublist (filter_sublist.map _)
  · exact fun other held => related.fresh other (mem_of_mem_filter held)

theorem Related.insert
    (nodup : (s.incoming.map (·.1)).Nodup) (mem : e ∈ d.timeoutEventList) {fs : Fragments}
    {arrived : FragmentKey A → List Fragment}
    (others : ∀ key, key ≠ e.key → arrived key = s.arrived key) (iter : fs.timeoutIter = e.iter)
    (stored : Stored decompression e.key (sent e.key) (arrived e.key) fs) :
    Related decompression sent live { d with fragments := d.fragments.insert e.key fs }
      { s with arrived } := by
  have key_mem : e.key ∈ s.incoming.map (·.1) := related.list_keys ▸ List.mem_map_of_mem mem
  refine ⟨related.now, related.incoming, ?_, related.live, ?_, related.iters, related.fresh⟩
  · rw [AList.keys_insert]
    exact (perm_cons_erase (related.keys.mem_iff.mpr key_mem)).symm.trans related.keys
  · intro other held
    by_cases same : other.key = e.key
    · have is : other = e := inj_on_of_nodup_map (related.list_keys ▸ nodup) held mem same
      rw [is]
      exact ⟨fs, AList.lookup_insert _, iter, stored⟩
    · obtain ⟨old, is, old_iter, old_stored⟩ := related.stored other held
      refine ⟨old, ?_, old_iter, ?_⟩
      · rw [← is]
        exact AList.lookup_insert_ne same
      · dsimp only
        rw [others other.key same]
        exact old_stored

end

theorem eraseIter_first (e : FragmentsTimeout A) (rest : List (FragmentsTimeout A)) :
    eraseIter e.iter (e :: rest) = rest :=
  eraseP_cons_of_pos (decide_eq_true rfl)

theorem Related.pop (related : Related decompression sent live d s)
    (nodup : (s.incoming.map (·.1)).Nodup) {rest : List (FragmentsTimeout A)}
    (list : d.timeoutEventList = e :: rest) :
    ∃ fs incoming, d.fragments.lookup e.key = some fs ∧ fs.timeoutIter = e.iter ∧
      fs.getFragments = ((sent e.key).filter (· ∈ s.arrived e.key)).map
        (fun f => (piece decompression e.key f).data) ∧
      s.incoming = (e.key, e.expiration) :: incoming ∧
      Related decompression sent live
        { d with timeoutEventList := rest, fragments := d.fragments.erase e.key }
        { s with incoming } := by
  have mem : e ∈ d.timeoutEventList := list ▸ mem_cons_self
  obtain ⟨fs, is, iter, stored⟩ := related.stored e mem
  have removed := related.remove nodup mem s.arrived fun _ _ => rfl
  have listed := related.incoming
  rw [list, map_cons] at listed
  rw [← listed, map_cons, nodup_cons] at nodup
  have others : s.incoming.filter (·.1 ≠ e.key) = rest.map fun e => (e.key, e.expiration) := by
    rw [← listed, filter_cons_of_neg (by simp)]
    apply filter_eq_self.mpr
    intro i held
    apply decide_eq_true
    intro same
    exact nodup.1 (List.mem_map.mpr ⟨i, held, same⟩)
  rw [list, eraseIter_first, others] at removed
  exact ⟨fs, _, is, iter, stored.getFragments, listed.symm, removed⟩

variable (a datagram) in
theorem Related.eraseOldest (related : Related decompression sent live d s)
    (nodup : (s.incoming.map (·.1)).Nodup) :
    ∃ d', d.eraseOldest a = some (d', ((rules a decompression datagram sent).makeRoom s).2) ∧
      Related decompression sent live d' ((rules a decompression datagram sent).makeRoom s).1 ∧
      d'.timeoutEventList.Sublist d.timeoutEventList ∧ d'.timeoutEvents = d.timeoutEvents := by
  have count : d.fragments.keys.length = s.incoming.length := by simp [related.keys.length_eq]
  unfold SixLowPanNetDevice.eraseOldest Rules.makeRoom
  by_cases full : a.fragmentReassemblyListSize ≠ 0 ∧
      a.fragmentReassemblyListSize ≤ s.incoming.length
  · have is_full : (rules a decompression datagram sent).full s.incoming.length = true :=
      decide_eq_true full
    rw [count, if_pos full, is_full, if_pos rfl]
    cases list : d.timeoutEventList with
    | nil =>
      have listed := related.incoming
      rw [list, map_nil] at listed
      rw [← listed, length_nil] at full
      exact absurd (Nat.le_zero.mp full.2) full.1
    | cons oldest rest =>
      obtain ⟨fs, incoming, is, iter, kept, listed, popped⟩ := related.pop nodup list
      rw [listed]
      dsimp only
      rw [is, map_some, iter, eraseIter_first, kept, List.map_map]
      refine ⟨_, ?_, popped, sublist_cons_self _ _, rfl⟩
      rfl
  · have not_full : (rules a decompression datagram sent).full s.incoming.length = false :=
      decide_eq_false full
    rw [count, if_neg full, not_full, if_neg Bool.false_ne_true]
    exact ⟨d, rfl, related, .refl _, rfl⟩

variable (a datagram) in
/-- The entry of a datagram, perhaps just created. -/
theorem Related.findFragments (related : Related decompression sent live d s) (timed : Timed d)
    (sound : Sound (rules a decompression datagram sent) s) {key : FragmentKey A}
    (key_live : live key) :
    ∃ d' fs, d.findFragments a key key.datagramSize =
        some (d', fs, ((rules a decompression datagram sent).enter s key).2) ∧
      Related decompression sent live d' ((rules a decompression datagram sent).enter s key).1 ∧
      Timed d' ∧ d'.fragments.lookup key = some fs := by
  have there : key ∈ s.incoming.map (·.1) ↔ (d.fragments.lookup key).isSome := by
    rw [AList.lookup_isSome, AList.mem_keys, related.keys.mem_iff]
  unfold SixLowPanNetDevice.findFragments Rules.enter
  cases found : d.fragments.lookup key with
  | some fs =>
    rw [if_pos (there.mpr (found ▸ rfl))]
    exact ⟨d, fs, rfl, related, timed, found⟩
  | none =>
    have absent : key ∉ s.incoming.map (·.1) := by
      rw [there, found]
      exact Bool.false_ne_true
    obtain ⟨d', erased, kept, sub, events⟩ := related.eraseOldest a datagram sound.keys
    have room := sound.makeRoom
    rw [if_neg absent, erased]
    have still_absent : key ∉ ((rules a decompression datagram sent).makeRoom s).1.incoming.map
        (·.1) := fun held => absent ((makeRoom_sublist.map _).subset held)
    generalize (rules a decompression datagram sent).makeRoom s = made at *
    obtain ⟨next, lost⟩ := made
    refine ⟨_, _, rfl, ?_, ?_, AList.lookup_insert _⟩
    · constructor
      · exact kept.now
      · rw [map_append, kept.incoming, kept.now]
        rfl
      · have new : key ∉ d'.fragments.keys := fun held => still_absent (kept.keys.mem_iff.mp held)
        rw [AList.keys_insert, erase_of_not_mem new, map_append]
        exact (perm_append_comm.trans (kept.keys.symm.cons key)).symm
      · intro e mem
        cases mem_append.mp mem with
        | inl held => exact kept.live e held
        | inr is =>
          obtain rfl := mem_singleton.mp is
          exact key_live
      · intro e mem
        cases mem_append.mp mem with
        | inl held =>
          have other : e.key ≠ key := by
            rintro rfl
            exact still_absent (kept.list_keys ▸ List.mem_map_of_mem held)
          obtain ⟨fs, is, iter, stored⟩ := kept.stored e held
          refine ⟨fs, ?_, iter, ?_⟩
          · rw [← is]
            exact AList.lookup_insert_ne other
          · dsimp only
            rw [Function.update_of_ne other]
            exact stored
        | inr is =>
          obtain rfl := mem_singleton.mp is
          refine ⟨_, AList.lookup_insert _, rfl, ?_⟩
          dsimp only
          rw [Function.update_self]
          exact .start _
      · rw [map_append, nodup_append]
        apply And.intro kept.iters
        apply And.intro (nodup_singleton _)
        intro iter held new is
        obtain rfl := mem_singleton.mp is
        rintro rfl
        obtain ⟨e, e_mem, same⟩ := List.mem_map.mp held
        exact absurd (kept.fresh e e_mem) (not_lt.mpr (le_of_eq same.symm))
      · intro e mem
        cases mem_append.mp mem with
        | inl held => exact Nat.lt_succ_of_lt (kept.fresh e held)
        | inr is =>
          obtain rfl := mem_singleton.mp is
          exact Nat.lt_succ_self _
    · have timed' : Timed d' := fun e mem => events ▸ timed e (sub.subset mem)
      intro e mem
      cases mem_append.mp mem with
      | inl held =>
        rw [if_neg (by simpa using ne_nil_of_mem held)]
        exact timed' e held
      | inr is =>
        obtain rfl := mem_singleton.mp is
        cases list : d'.timeoutEventList with
        | nil =>
          rw [isEmpty_nil, if_pos rfl]
          exact ⟨_, mem_append_right _ mem_cons_self, Int.le_refl _⟩
        | cons first rest =>
          have first_mem : first ∈ d'.timeoutEventList := list ▸ mem_cons_self
          obtain ⟨t, scheduled, before⟩ := timed' first first_mem
          have due := room.due (first.key, first.expiration)
            (kept.incoming ▸ List.mem_map_of_mem first_mem)
          rw [isEmpty_cons, if_neg Bool.false_ne_true]
          refine ⟨t, scheduled, Int.le_trans before ?_⟩
          rw [kept.now]
          exact due.2

theorem complete_add (key : FragmentKey A) (f : Fragment) :
    (rules a decompression datagram sent).Complete (Rules.add s key f) key ↔
      ∀ g ∈ sent key, g ∈ f :: s.arrived key := by
  unfold Rules.Complete Rules.add
  dsimp only
  rw [Function.update_self]
  rfl

section

variable (related : Related decompression sent live d s)
include related

theorem Related.processFragment (timed : Timed d)
    (sound : Sound (rules a decompression datagram sent) s)
    (all : ∀ key, live key → Sent decompression key (datagram key) (sent key)) {src dst : A}
    {f : Fragment} (key_live : live (f.key src dst)) (mem : f ∈ sent (f.key src dst)) :
    ∃ d', d.processFragment a decompression src dst f =
        some (d', ((rules a decompression datagram sent).arrive s (f.key src dst) f).2) ∧
      Related decompression sent live d'
        ((rules a decompression datagram sent).arrive s (f.key src dst) f).1 ∧ Timed d' := by
  have here := all _ key_live
  have unpacked : f.unpack decompression src dst = some (.stored (piece decompression _ f)) :=
    here.unpack f mem
  obtain ⟨d₁, fs, found, kept, timed₁, is⟩ := related.findFragments a datagram timed sound key_live
  have admitted := (sound.enter (f.key src dst)).keys
  have waits := enter_mem (rules a decompression datagram sent) s (f.key src dst)
  unfold SixLowPanNetDevice.processFragment Rules.arrive
  rw [unpacked]
  change ∃ d', (d.findFragments a (f.key src dst) (f.key src dst).datagramSize).bind _ = _ ∧ _
  rw [found]
  dsimp only [bind_some]
  generalize (rules a decompression datagram sent).enter s (f.key src dst) = made at *
  obtain ⟨s₁, lost⟩ := made
  obtain ⟨e, e_mem, e_key⟩ := List.mem_map.mp (kept.list_keys ▸ waits)
  obtain ⟨fs', is', iter, stored⟩ := kept.stored e e_mem
  rw [e_key] at is' stored
  obtain rfl : fs = fs' := Option.some.inj (is.symm.trans is')
  obtain ⟨xs, added, stored'⟩ := stored.add here mem
  obtain ⟨-, -, same_iter⟩ := addFirstFragment_same f { fs with fragments := xs }
  have entire := stored'.isEntire_iff here
  have others : ∀ key, key ≠ e.key →
      (Rules.add s₁ (f.key src dst) f).arrived key = s₁.arrived key :=
    fun key other => Function.update_of_ne (e_key ▸ other) _ _
  simp only [added, bind_eq_bind, bind_some, entire, complete_add]
  by_cases complete : ∀ g ∈ sent (f.key src dst), g ∈ f :: s₁.arrived (f.key src dst)
  · obtain ⟨header, joined⟩ := stored'.getPacket here complete
    have removed := kept.remove admitted e_mem _ others
    rw [if_pos complete, if_pos complete, joined]
    rw [← iter, ← same_iter, e_key] at removed
    exact ⟨_, rfl, removed, fun e held => timed₁ e (mem_of_mem_eraseP held)⟩
  · have inserted := kept.insert admitted e_mem others (same_iter.trans iter) (by
      rw [e_key]
      unfold Rules.add
      dsimp only
      rw [Function.update_self]
      exact stored')
    rw [if_neg complete, if_neg complete]
    rw [e_key] at inserted
    exact ⟨_, rfl, inserted, timed₁⟩

/-! ## Time -/

theorem Related.expire
    (sound : Sound (rules a decompression datagram sent) s) (l : List (FragmentsTimeout A))
    (list : d.timeoutEventList = l) :
    ∃ d', SixLowPanNetDevice.expire l d =
        some (d', ((rules a decompression datagram sent).timeout s).2) ∧
      Related decompression sent live d' ((rules a decompression datagram sent).timeout s).1 ∧
      d'.timeoutEvents = d.timeoutEvents := by
  induction l generalizing d s with
  | nil =>
    have none_waits : s.incoming = [] := by
      rw [← related.incoming, list]
      rfl
    rw [timeout_eq_self fun i mem => nomatch none_waits ▸ mem]
    exact ⟨d, rfl, related, rfl⟩
  | cons e rest ih =>
    obtain ⟨fs, incoming, is, -, kept, listed, popped⟩ := related.pop sound.keys list
    rw [SixLowPanNetDevice.expire]
    by_cases due : e.expiration = d.now
    · have left : Sound (rules a decompression datagram sent) { s with incoming } := by
        refine sound.sublist rfl ?_
        rw [listed]
        exact sublist_cons_self _ _
      obtain ⟨d', done, related', events⟩ := ih popped left rfl
      have due' : e.expiration = s.now := due.trans related.now
      have gone : (rules a decompression datagram sent).timeout s =
          (((rules a decompression datagram sent).timeout { s with incoming }).1,
            (rules a decompression datagram sent).expired e.key
              ((rules a decompression datagram sent).present s e.key) ++
            ((rules a decompression datagram sent).timeout { s with incoming }).2) := by
        unfold Rules.timeout
        rw [listed, filter_cons_of_neg (by simpa using due'),
          filter_cons_of_pos (by simpa using due'), flatMap_cons]
        rfl
      rw [if_pos due, gone, handleFragmentsTimeout, is]
      dsimp only [map_some, bind_eq_bind, bind_some]
      rw [done, kept, List.map_map]
      exact ⟨d', rfl, related', events⟩
    · have later : ∀ i ∈ s.incoming, i.2 ≠ s.now := by
        intro i mem is_due
        have deadlines := sound.deadlines
        rw [listed] at deadlines mem
        have first := (sound.due (e.key, e.expiration) (listed ▸ mem_cons_self)).1
        have le : e.expiration ≤ i.2 := by
          cases mem with
          | head => exact Int.le_refl _
          | tail _ held => exact (pairwise_cons.mp deadlines).1 i held
        apply due
        rw [related.now]
        exact Int.le_antisymm (is_due ▸ le) first
      rw [if_neg due, timeout_eq_self later]
      exact ⟨d, rfl, related, rfl⟩

theorem Related.handleTimeout (sound : Sound (rules a decompression datagram sent) s) :
    ∃ d', d.handleTimeout = some (d', ((rules a decompression datagram sent).timeout s).2) ∧
      Related decompression sent live d' ((rules a decompression datagram sent).timeout s).1 ∧
      Timed d' := by
  obtain ⟨d', done, related', -⟩ := related.expire sound d.timeoutEventList rfl
  have left : Sound (rules a decompression datagram sent)
      ((rules a decompression datagram sent).timeout s).1 := sound.sublist rfl filter_sublist
  rw [SixLowPanNetDevice.handleTimeout, done]
  cases list : d'.timeoutEventList with
  | nil =>
    refine ⟨d', ?_, related', ?_⟩
    · rw [map_some]
      dsimp only
      rw [list]
    · intro e mem
      rw [list] at mem
      cases mem
  | cons first rest =>
    refine ⟨{ d' with timeoutEvents := d'.timeoutEvents ++ [first.expiration] }, ?_, ?_, ?_⟩
    · rw [map_some]
      dsimp only
      rw [list]
    · exact { related' with }
    · intro e mem
      refine ⟨first.expiration, mem_append_right _ mem_cons_self, ?_⟩
      have deadlines := left.deadlines
      rw [← related'.incoming, list, map_cons] at deadlines
      rw [list] at mem
      cases mem with
      | head => exact Int.le_refl _
      | tail _ held =>
        exact (pairwise_cons.mp deadlines).1 _ (List.mem_map_of_mem held)

end

/-! ## Runs -/

/-- The event, with the datagram of the fragment. -/
def Event.part : Event A → Assembly.Event (FragmentKey A) Fragment
  | .arrive src dst f => .arrive (f.key src dst) f
  | .elapse now => .elapse now
  | .timeout => .timeout

/-- Only fragments arrive that were sent. -/
def Event.Genuine (sent : FragmentKey A → List Fragment) (live : FragmentKey A → Prop) :
    Event A → Prop
  | .arrive src dst f => live (f.key src dst) ∧ f ∈ sent (f.key src dst)
  | .elapse _ => True
  | .timeout => True

theorem Related.step (related : Related decompression sent live d s) (timed : Timed d)
    (sound : Sound (rules a decompression datagram sent) s)
    (all : ∀ key, live key → Sent decompression key (datagram key) (sent key)) {event : Event A}
    (genuine : event.Genuine sent live) {d' : SixLowPanNetDevice A} {out : List Output}
    (h : d.step a decompression event = some (d', out)) :
    ∃ s', (rules a decompression datagram sent).step s event.part = some (s', out) ∧
      Related decompression sent live d' s' ∧ Timed d' := by
  cases event with
  | arrive src dst f =>
    obtain ⟨d₁, done, related', timed'⟩ :=
      related.processFragment timed sound all genuine.1 genuine.2
    have same := done.symm.trans h
    cases same
    exact ⟨_, rfl, related', timed'⟩
  | elapse now =>
    simp only [SixLowPanNetDevice.step, ite_none_right_eq_some] at h
    obtain ⟨⟨later, scheduled⟩, rfl, rfl⟩ := h
    have in_time : s.now ≤ now ∧ ∀ i ∈ s.incoming, now ≤ i.2 := by
      refine ⟨related.now ▸ later, ?_⟩
      intro i mem
      rw [← related.incoming] at mem
      obtain ⟨e, held, rfl⟩ := List.mem_map.mp mem
      obtain ⟨t, t_mem, before⟩ := timed e held
      exact Int.le_trans (scheduled t t_mem) before
    refine ⟨{ s with now }, if_pos in_time, ?_, timed⟩
    exact { related with now := rfl }
  | timeout =>
    simp only [SixLowPanNetDevice.step, ite_none_right_eq_some] at h
    have related' : Related decompression sent live
      { d with timeoutEvents := d.timeoutEvents.erase d.now } s := { related with }
    obtain ⟨d₁, done, kept, timed'⟩ := related'.handleTimeout sound
    have same := done.symm.trans h.2
    cases same
    exact ⟨_, rfl, kept, timed'⟩

/-- `DoFragmentation` of a datagram. -/
def Datagram.fragments (d : Datagram) (tag : Nat) : Option (List Fragment) :=
  doFragmentation d.l2Mtu tag d.packet d.origPacketSize d.origHdrSize d.extraHdrSize

/-- The device and what waits. -/
structure Simulates (a : SixLowPanAttributes) (decompression : Decompression A)
    (datagram : FragmentKey A → Datagram) (sent : FragmentKey A → List Fragment)
    (live : FragmentKey A → Prop) (s : Assembly.State (FragmentKey A) Fragment)
    (d : SixLowPanNetDevice A) : Prop where
  related : Related decompression sent live d s
  timed : Timed d
  sound : Sound (rules a decompression datagram sent) s
  waits : Open (rules a decompression datagram sent) s

theorem Simulates.start (now : Time) :
    Simulates a decompression datagram sent live (.start now) (create now) where
  related :=
    { now := rfl
      incoming := rfl
      keys := .nil
      live := nofun
      stored := nofun
      iters := .nil
      fresh := nofun }
  timed := nofun
  sound := .start now
  waits := nofun

/-- **The device follows the rules.** -/
theorem device_refines (all : ∀ key, live key → Sent decompression key (datagram key) (sent key)) :
    Machine.Refines (fun s (event : Event A) =>
        (rules a decompression datagram sent).step s event.part)
      (fun d => d.step a decompression) (fun _ event => event.Genuine sent live)
      (Simulates a decompression datagram sent live) := by
  intro s d event d' out simulates genuine done
  obtain ⟨s', same, related, timed⟩ :=
    simulates.related.step simulates.timed simulates.sound all genuine done
  exact ⟨s', same, related, timed, simulates.sound.step same, simulates.waits.step same⟩

end

/-! A packet of 64 bytes, with an uncompressed header, in frames of 60. -/

/-- Headers that were not compressed. -/
def plain : Decompression Nat := ⟨fun _ _ p => p, fun _ _ p => (p, false)⟩

def small : Datagram := ⟨60, 0, 40, 0x41 :: List.replicate 40 0, List.replicate 24 1⟩

def firstFragment : Fragment :=
  .frag1 ⟨64, 7⟩ (0x41 :: (List.replicate 40 0 ++ List.replicate 8 1))

def lastFragment : Fragment := .fragN ⟨64, 7, 6⟩ (List.replicate 16 1)

def unlimited : SixLowPanAttributes := ⟨0, 60, by decide⟩

/-- Room for one datagram. -/
def single : SixLowPanAttributes := ⟨1, 60, by decide⟩

theorem small_fragments : small.fragments 7 = some [firstFragment, lastFragment] := by
  decide +kernel

theorem small_wellFormed : small.WellFormed plain 1 2 where
  l2Mtu := by decide
  large := by decide
  small := by decide
  origPacketSize := by decide
  headers := by decide
  room := by decide
  ipv6Header := by decide
  aligned := by decide
  lossless data := ⟨List.replicate 40 0, rfl, rfl⟩

end Ns3.SixLowPan
