import Ns3.Library.KeyedQueues
import Ns3.Wifi.WifiMacQueue

/-!
# The accounts of a MAC queue

The counts of bytes and packets, and the size, which control frames enlarge, under each operation
of the queue.
-/

namespace Ns3.Wifi.MacQueue

open WifiMacQueueElem List Function UInt32

def sizes (queue : ContainerQueue) : Nat := (queue.map (·.mpdu.size)).sum

def isCtlElem (e : WifiMacQueueElem) : Bool := e.mpdu.isCtl

namespace WifiMacQueue

/-- How many MPDUs of a kind are held, with those whose expired lifetime was found. -/
def held (kind : WifiMacQueueElem → Bool) (w : WifiMacQueue) : Nat :=
  (w.ids.map fun queueId => (w.queues queueId).countP kind).sum + w.expiredQueue.countP kind

/-- The container queues and the counts. -/
structure Consistent (w : WifiMacQueue) : Prop where
  keyed : ∀ queueId, ∀ e ∈ w.queues queueId, e.mpdu.getQueueId = queueId
  nodup : ∀ queueId, ((w.queues queueId).map (·.mpdu.id)).Nodup
  known : ∀ queueId, w.queues queueId ≠ [] → queueId ∈ w.ids
  ids_nodup : w.ids.Nodup
  bytes : ∀ queueId, w.nBytesPerQueue queueId = .ofNat (sizes (w.queues queueId))
  packets : w.nPackets.toNat = w.held fun _ => true

/-- The size is the original one and a packet for each control frame. -/
structure Accounted (original : Nat) (w : WifiMacQueue) : Prop extends Consistent w where
  room : w.nPackets ≤ w.maxSize
  positive : 0 < original
  size : w.maxSize.toNat = original + w.held isCtlElem

variable {now : Time} {w : WifiMacQueue}

/-! ## Extraction -/

theorem extractExpiredMpdus_queues (queueId other : WifiContainerQueueId) :
    (w.extractExpiredMpdus now queueId).queues other =
      if other = queueId then survivors now (w.queues queueId) else w.queues other := by
  unfold extractExpiredMpdus
  rw [doExtractExpiredMpdus_eq]
  exact update_apply ..

theorem extractExpiredMpdus_expired (queueId : WifiContainerQueueId) :
    (w.extractExpiredMpdus now queueId).expiredQueue =
      w.expiredQueue ++ stales now (w.queues queueId) := by
  unfold extractExpiredMpdus
  rw [doExtractExpiredMpdus_eq]

variable {queueId : WifiContainerQueueId} {e : WifiMacQueueElem}

/-- Where nothing is stale, nothing changes. -/
theorem extractExpiredMpdus_same (kept : survivors now (w.queues queueId) = w.queues queueId)
    (none : stales now (w.queues queueId) = []) : w.extractExpiredMpdus now queueId = w := by
  unfold extractExpiredMpdus
  rw [doExtractExpiredMpdus_eq, kept, none]
  simp

theorem foldl_subBytes {es : List WifiMacQueueElem} (keyed : ∀ e ∈ es, e.mpdu.getQueueId = queueId)
    (nBytes : WifiContainerQueueId → UInt32) :
    es.foldl subBytes nBytes =
      Function.update nBytes queueId (nBytes queueId - .ofNat (sizes es)) := by
  induction es generalizing nBytes with
  | nil => simp [sizes]
  | cons e rest ih =>
    obtain ⟨here, keyed⟩ := forall_mem_cons.mp keyed
    rw [foldl_cons, ih keyed]
    unfold subBytes sizes
    rw [here, update_idem, update_self, map_cons, sum_cons, ofNat_add]
    congr 1
    grind

theorem countP_survivors (kind : WifiMacQueueElem → Bool) (queue : ContainerQueue) :
    (survivors now queue).countP kind + (stales now queue).countP kind = queue.countP kind := by
  rw [← countP_append]
  exact (survivors_perm queue).countP_eq kind

theorem sizes_survivors (queue : ContainerQueue) :
    sizes (survivors now queue) + sizes (stales now queue) = sizes queue := by
  unfold sizes
  rw [← sum_append, ← map_append]
  exact ((survivors_perm queue).map _).sum_nat

section

variable (consistent : w.Consistent)
include consistent

theorem held_extractExpiredMpdus (kind : WifiMacQueueElem → Bool) (queueId : WifiContainerQueueId) :
    (w.extractExpiredMpdus now queueId).held kind = w.held kind := by
  by_cases known : queueId ∈ w.ids
  · have count := @countP_survivors now kind (w.queues queueId)
    have total := KeyedQueues.sum_update consistent.ids_nodup known w.queues
      (survivors now (w.queues queueId)) (List.countP kind)
    unfold held extractExpiredMpdus
    rw [doExtractExpiredMpdus_eq]
    dsimp only
    rw [countP_append]
    omega
  · have empty : w.queues queueId = [] := by
      by_contra some
      exact known (consistent.known queueId some)
    rw [extractExpiredMpdus_same (by rw [empty]; rfl) (by rw [empty]; rfl)]

theorem Consistent.extractExpiredMpdus
    (queueId : WifiContainerQueueId) : (w.extractExpiredMpdus now queueId).Consistent := by
  have fewer : ∀ other,
      ((w.extractExpiredMpdus now queueId).queues other).Sublist (w.queues other) := by
    intro other
    rw [extractExpiredMpdus_queues]
    split
    case isTrue same => exact same ▸ survivors_sublist _
    case isFalse => exact .refl _
  constructor
  · exact fun other e mem => consistent.keyed other e ((fewer other).subset mem)
  · exact fun other => (consistent.nodup other).sublist ((fewer other).map _)
  · intro other some
    exact consistent.known other fun none => some (sublist_nil.mp (none ▸ fewer other))
  · exact consistent.ids_nodup
  · intro other
    have keyed : ∀ e ∈ stales now (w.queues queueId), e.mpdu.getQueueId = queueId := by
      intro e mem
      exact consistent.keyed queueId e ((survivors_perm _).subset (mem_append_right _ mem))
    have count := @sizes_survivors now (w.queues queueId)
    rw [extractExpiredMpdus_queues]
    unfold WifiMacQueue.extractExpiredMpdus
    rw [doExtractExpiredMpdus_eq]
    dsimp only
    rw [foldl_subBytes keyed, update_apply]
    split
    · rw [consistent.bytes, ← count, ofNat_add]
      grind
    · exact consistent.bytes other
  · rw [held_extractExpiredMpdus consistent]
    exact consistent.packets

/-! ## The wipe -/

theorem extractFold_spec (ids : List WifiContainerQueueId) :
    let w' := ids.foldl (fun w queueId => w.extractExpiredMpdus now queueId) w
    w'.Consistent ∧ (∀ kind, w'.held kind = w.held kind) ∧
      w'.maxSize = w.maxSize ∧ w'.nPackets = w.nPackets ∧
      (∀ queueId, w'.queues queueId =
        if queueId ∈ ids then survivors now (w.queues queueId) else w.queues queueId) ∧
      ∀ e, e ∈ w'.expiredQueue ↔
        e ∈ w.expiredQueue ∨ ∃ queueId ∈ ids, e ∈ stales now (w.queues queueId) := by
  induction ids generalizing w with
  | nil => exact ⟨consistent, fun _ => rfl, rfl, rfl, fun _ => rfl, fun e => by simp⟩
  | cons first rest ih =>
    obtain ⟨kept, counts, size, packets, queues, expired⟩ := ih (consistent.extractExpiredMpdus first)
    refine ⟨kept, fun kind => (counts kind).trans (held_extractExpiredMpdus consistent kind first),
      size, packets, fun queueId => ?_, fun e => ?_⟩
    · rw [foldl_cons, queues, extractExpiredMpdus_queues]
      by_cases same : queueId = first
      · subst same
        simp [survivors_survivors]
      · simp [same]
    · rw [foldl_cons, expired, extractExpiredMpdus_expired, mem_append]
      have others : (∃ queueId ∈ rest,
          e ∈ stales now ((w.extractExpiredMpdus now first).queues queueId)) ∨
            e ∈ stales now (w.queues first) ↔
          ∃ queueId ∈ first :: rest, e ∈ stales now (w.queues queueId) := by
        simp only [extractExpiredMpdus_queues, mem_cons, exists_eq_or_imp]
        constructor
        · rintro (⟨queueId, mem, here⟩ | here)
          · split at here
            case isTrue same => rw [(survivors_survivors _).2] at here; cases here
            case isFalse => exact .inr ⟨queueId, mem, here⟩
          · exact .inl here
        · rintro (here | ⟨queueId, mem, here⟩)
          · exact .inr here
          · by_cases same : queueId = first
            · exact .inr (same ▸ here)
            · exact .inl ⟨queueId, mem, by rwa [if_neg same]⟩
      rw [or_assoc, or_comm (a := e ∈ stales now (w.queues first)), others]

theorem extractAllExpiredMpdus_queues (queueId : WifiContainerQueueId) :
    (w.extractAllExpiredMpdus now).queues queueId = survivors now (w.queues queueId) := by
  obtain ⟨-, -, -, -, queues, -⟩ := @extractFold_spec now w consistent w.ids
  refine (queues queueId).trans ?_
  split
  · rfl
  case isFalse unknown =>
    have empty : w.queues queueId = [] := by
      by_contra some
      exact unknown (consistent.known queueId some)
    rw [empty]
    rfl

end

/-- What a wipe removes. -/
def Wiped (now : Time) (w : WifiMacQueue) (e : WifiMacQueueElem) : Prop :=
  e ∈ w.expiredQueue ∨ ∃ queueId, e ∈ stales now (w.queues queueId)

theorem mem_extractAll_expired (consistent : w.Consistent) (e : WifiMacQueueElem) :
    e ∈ (w.extractAllExpiredMpdus now).expiredQueue ↔ w.Wiped now e := by
  obtain ⟨-, -, -, -, -, expired⟩ := @extractFold_spec now w consistent w.ids
  refine (expired e).trans (or_congr_right ⟨?_, ?_⟩)
  · rintro ⟨queueId, -, mem⟩
    exact ⟨queueId, mem⟩
  · rintro ⟨queueId, mem⟩
    refine ⟨queueId, consistent.known queueId fun empty => ?_, mem⟩
    rw [empty] at mem
    cases mem

theorem removeExpired_cons {rest : ContainerQueue} (expired : w.expiredQueue = e :: rest)
    (some : w.nPackets ≠ 0) :
    w.removeExpired = { w with expiredQueue := rest, nPackets := w.nPackets - 1 } := by
  unfold removeExpired
  rw [expired]
  exact if_neg some

theorem removeFold_eq {es : ContainerQueue} (expired : w.expiredQueue = es)
    (enough : es.length ≤ w.nPackets.toNat) :
    es.foldl (fun w _ => w.removeExpired) w =
      { w with expiredQueue := [], nPackets := w.nPackets - .ofNat es.length } := by
  induction es generalizing w with
  | nil =>
    cases w
    cases expired
    simp
  | cons e rest ih =>
    rw [length_cons] at enough
    have some : w.nPackets ≠ 0 := by
      intro none
      rw [none] at enough
      exact absurd enough (by simp)
    have one : (w.nPackets - 1).toNat = w.nPackets.toNat - 1 := by
      have := w.nPackets.toNat_lt
      rw [UInt32.toNat_sub_of_le]
      · rfl
      · rw [le_iff_toNat_le]
        change 1 ≤ _
        omega
    rw [foldl_cons, removeExpired_cons expired some, ih rfl (by dsimp only; omega)]
    congr 1
    rw [length_cons, ofNat_add]
    grind

/-- **The wipe** of all expired MPDUs. Each kind of MPDU is held less by those that are wiped. -/
theorem wipe_spec (consistent : w.Consistent) :
    let w' := w.wipeAllExpiredMpdus now
    w'.Consistent ∧ w'.maxSize = w.maxSize ∧ w'.nPackets ≤ w.nPackets ∧ w'.expiredQueue = [] ∧
      (∀ queueId, w'.queues queueId = survivors now (w.queues queueId)) ∧
      ∀ kind, w'.held kind ≤ w.held kind ∧
        (w'.held kind = w.held kind ↔ ∀ e, w.Wiped now e → kind e = false) := by
  obtain ⟨kept, counts, size, packets, -, -⟩ := @extractFold_spec now w consistent w.ids
  have queues := @extractAllExpiredMpdus_queues now w consistent
  have wiped := @mem_extractAll_expired now w consistent
  change (w.extractAllExpiredMpdus now).Consistent at kept
  change ∀ kind, (w.extractAllExpiredMpdus now).held kind = _ at counts
  change (w.extractAllExpiredMpdus now).maxSize = _ at size
  change (w.extractAllExpiredMpdus now).nPackets = _ at packets
  unfold wipeAllExpiredMpdus
  generalize w.extractAllExpiredMpdus now = x at kept counts size packets queues wiped ⊢
  have all : x.nPackets.toNat =
      (x.ids.map fun queueId => (x.queues queueId).countP fun _ => true).sum +
        x.expiredQueue.length := by simp [kept.packets, held]
  have enough : x.expiredQueue.length ≤ x.nPackets.toNat := by omega
  have bound : UInt32.ofNat x.expiredQueue.length ≤ x.nPackets := by
    rw [le_iff_toNat_le, toNat_ofNat']
    omega
  have left : (x.nPackets - .ofNat x.expiredQueue.length).toNat =
      x.nPackets.toNat - x.expiredQueue.length := by
    have := x.nPackets.toNat_lt
    rw [UInt32.toNat_sub_of_le _ _ bound, toNat_ofNat', Nat.mod_eq_of_lt (by omega)]
  rw [removeFold_eq rfl enough]
  refine ⟨⟨kept.keyed, kept.nodup, kept.known, kept.ids_nodup, kept.bytes, ?_⟩, size, ?_, rfl,
    queues, fun kind => ?_⟩
  · simp only [held, countP_nil]
    omega
  · rw [le_iff_toNat_le, left, packets]
    omega
  · have count := counts kind
    unfold held at count ⊢
    rw [countP_nil, ← count, Nat.add_zero]
    refine ⟨Nat.le_add_right _ _, ?_⟩
    rw [Nat.left_eq_add, countP_eq_zero]
    constructor
    · intro none e mem
      simpa using none e ((wiped e).mpr mem)
    · intro none e mem
      simp [none e ((wiped e).mp mem)]

/-! ## Removal and insertion of one MPDU -/

theorem nPackets_pos (consistent : w.Consistent) (mem : e ∈ w.queues e.mpdu.getQueueId) :
    w.nPackets ≠ 0 := by
  intro none
  have known := consistent.known _ (ne_nil_of_mem mem)
  have here : 0 < (w.queues e.mpdu.getQueueId).countP fun _ => true := by
    rw [countP_true]
    exact length_pos_of_mem mem
  have packets := consistent.packets
  rw [none] at packets
  have some : 0 < (w.ids.map fun queueId => (w.queues queueId).countP fun _ => true).sum :=
    List.sum_pos_iff_exists_pos_nat.mpr ⟨_, mem_map_of_mem known, here⟩
  unfold held at packets
  change 0 = _ at packets
  omega

/-- With distinct `id`s one element is removed. -/
theorem filter_id_perm {queue : ContainerQueue} (nodup : (queue.map (·.mpdu.id)).Nodup)
    (mem : e ∈ queue) :
    (e :: queue.filter fun x => x.mpdu.id ≠ e.mpdu.id).Perm queue := by
  induction queue with
  | nil => cases mem
  | cons x rest ih =>
    obtain ⟨absent, nodup⟩ := nodup_cons.mp nodup
    rcases mem_cons.mp mem with rfl | mem
    · have others : rest.filter (fun x => x.mpdu.id ≠ e.mpdu.id) = rest := by
        refine filter_eq_self.mpr fun y y_mem => ?_
        have := ne_of_mem_of_not_mem (mem_map_of_mem (f := (·.mpdu.id)) y_mem) absent
        simpa using this
      rw [filter_cons_of_neg (by simp), others]
    · have other : x.mpdu.id ≠ e.mpdu.id :=
        (ne_of_mem_of_not_mem (mem_map_of_mem (f := (·.mpdu.id)) mem) absent).symm
      rw [filter_cons_of_pos (by simpa using other)]
      exact (List.Perm.swap x e _).trans ((ih nodup mem).cons x)

theorem Consistent.update (consistent : w.Consistent) (known : queueId ∈ w.ids)
    {queue : ContainerQueue} (keyed : ∀ e ∈ queue, e.mpdu.getQueueId = queueId)
    (nodup : (queue.map (·.mpdu.id)).Nodup) {nPackets : UInt32}
    (packets : nPackets.toNat + (w.queues queueId).length = w.nPackets.toNat + queue.length) :
    Consistent { w with
      queues := Function.update w.queues queueId queue
      nBytesPerQueue := Function.update w.nBytesPerQueue queueId (.ofNat (sizes queue))
      nPackets } := by
  constructor
  · intro other e mem
    rcases eq_or_ne other queueId with rfl | ne
    · exact keyed e (by simpa using mem)
    · exact consistent.keyed other e (by simpa [ne] using mem)
  · intro other
    rcases eq_or_ne other queueId with rfl | ne
    · simpa using nodup
    · simpa [ne] using consistent.nodup other
  · intro other some
    rcases eq_or_ne other queueId with rfl | ne
    · exact known
    · exact consistent.known other (by simpa [ne] using some)
  · exact consistent.ids_nodup
  · intro other
    rcases eq_or_ne other queueId with rfl | ne
    · simp
    · simpa [ne] using consistent.bytes other
  · have total := KeyedQueues.sum_update consistent.ids_nodup known w.queues queue
      (List.countP fun _ => true)
    have before := consistent.packets
    unfold held at before ⊢
    simp only [countP_true] at total before ⊢
    omega

theorem held_update (consistent : w.Consistent) (known : queueId ∈ w.ids) (queue : ContainerQueue)
    (nBytesPerQueue : WifiContainerQueueId → UInt32) (nPackets maxSize : UInt32)
    (kind : WifiMacQueueElem → Bool) :
    held kind ⟨Function.update w.queues queueId queue, w.ids, w.expiredQueue, nBytesPerQueue,
        nPackets, maxSize⟩ + (w.queues queueId).countP kind = w.held kind + queue.countP kind := by
  have total := KeyedQueues.sum_update consistent.ids_nodup known w.queues queue (List.countP kind)
  unfold held
  dsimp only
  omega

theorem erase_spec (consistent : w.Consistent) (mem : e ∈ w.queues e.mpdu.getQueueId) :
    (w.erase e).Consistent ∧ (w.erase e).nPackets.toNat + 1 = w.nPackets.toNat ∧
      ∀ kind, (w.erase e).held kind + [e].countP kind = w.held kind := by
  have known := consistent.known _ (ne_nil_of_mem mem)
  have perm := filter_id_perm (consistent.nodup _) mem
  have some := nPackets_pos consistent mem
  have one : (w.nPackets - 1).toNat + 1 = w.nPackets.toNat := by
    have positive : 1 ≤ w.nPackets.toNat :=
      Nat.pos_of_ne_zero fun none => some (UInt32.toNat_inj.mp none)
    have le : 1 ≤ w.nPackets := le_iff_toNat_le.mpr positive
    rw [UInt32.toNat_sub_of_le _ _ le]
    exact Nat.sub_add_cancel positive
  have bytes : subBytes w.nBytesPerQueue e = Function.update w.nBytesPerQueue e.mpdu.getQueueId
      (.ofNat (sizes ((w.queues e.mpdu.getQueueId).filter fun x => x.mpdu.id ≠ e.mpdu.id))) := by
    have total := (perm.map (·.mpdu.size)).sum_nat
    unfold subBytes sizes
    rw [consistent.bytes, sizes, ← total, map_cons, sum_cons, ofNat_add]
    congr 1
    grind
  have length := perm.length_eq
  rw [length_cons] at length
  unfold erase
  dsimp only
  rw [bytes]
  refine ⟨consistent.update known ?_ ?_ ?_, one, fun kind => ?_⟩
  · exact fun x x_mem => consistent.keyed _ x (mem_of_mem_filter x_mem)
  · exact (consistent.nodup _).sublist (filter_sublist.map _)
  · omega
  · have total := held_update consistent known
      ((w.queues e.mpdu.getQueueId).filter fun x => x.mpdu.id ≠ e.mpdu.id) (Function.update
        w.nBytesPerQueue e.mpdu.getQueueId (.ofNat (sizes ((w.queues e.mpdu.getQueueId).filter
          fun x => x.mpdu.id ≠ e.mpdu.id)))) (w.nPackets - 1) w.maxSize kind
    have count := perm.countP_eq kind
    rw [← singleton_append, countP_append] at count
    omega

theorem before_append_onward (pos : Option Nat) (queue : ContainerQueue) :
    before pos queue ++ onward pos queue = queue :=
  takeWhile_append_dropWhile ..

theorem Consistent.join (consistent : w.Consistent) (queueId : WifiContainerQueueId) :
    let ids := if queueId ∈ w.ids then w.ids else w.ids ++ [queueId]
    Consistent { w with ids } ∧ queueId ∈ ids ∧ ∀ kind, held kind { w with ids } = w.held kind := by
  by_cases known : queueId ∈ w.ids
  · simpa [known] using consistent
  · have empty : w.queues queueId = [] := by
      by_contra some
      exact known (consistent.known queueId some)
    have counts : ∀ kind, held kind { w with ids := w.ids ++ [queueId] } = w.held kind := by
      intro kind
      simp [held, empty]
    simp only [if_neg known]
    refine ⟨⟨consistent.keyed, consistent.nodup, ?_, ?_, consistent.bytes, ?_⟩, by simp, counts⟩
    · exact fun other some => mem_append_left _ (consistent.known other some)
    · refine nodup_append.mpr ⟨consistent.ids_nodup, by simp, ?_⟩
      rintro other mem _ same rfl
      exact known (mem_singleton.mp same ▸ mem)
    · rw [counts]
      exact consistent.packets

theorem emplace_spec (consistent : w.Consistent) {pos : Option Nat}
    (points : pointsInto pos (w.queues e.mpdu.getQueueId) = true)
    (fresh : ∀ x ∈ w.queues e.mpdu.getQueueId, x.mpdu.id ≠ e.mpdu.id)
    (counted : w.nPackets.toNat + 1 < 2 ^ 32) :
    ∃ w', w.emplace pos e = some w' ∧ w'.Consistent ∧
      w'.nPackets.toNat = w.nPackets.toNat + 1 ∧ w'.maxSize = w.maxSize ∧
      (∀ kind, w'.held kind = w.held kind + [e].countP kind) ∧
      w'.expiredQueue = w.expiredQueue ∧
      w'.queues = Function.update w.queues e.mpdu.getQueueId
        (before pos (w.queues e.mpdu.getQueueId) ++
          e :: onward pos (w.queues e.mpdu.getQueueId)) := by
  obtain ⟨joined, known, same⟩ := consistent.join e.mpdu.getQueueId
  have perm : (before pos (w.queues e.mpdu.getQueueId) ++
      e :: onward pos (w.queues e.mpdu.getQueueId)).Perm (e :: w.queues e.mpdu.getQueueId) := by
    refine perm_middle.trans (.cons e ?_)
    rw [before_append_onward]
  have one : (w.nPackets + 1).toNat = w.nPackets.toNat + 1 := by
    rw [UInt32.toNat_add]
    exact Nat.mod_eq_of_lt counted
  have bytes : Function.update w.nBytesPerQueue e.mpdu.getQueueId
        (w.nBytesPerQueue e.mpdu.getQueueId + .ofNat e.mpdu.size) =
      Function.update w.nBytesPerQueue e.mpdu.getQueueId
        (.ofNat (sizes (before pos (w.queues e.mpdu.getQueueId) ++
          e :: onward pos (w.queues e.mpdu.getQueueId)))) := by
    have total := (perm.map (·.mpdu.size)).sum_nat
    unfold sizes
    rw [total, map_cons, sum_cons, ofNat_add, consistent.bytes, sizes]
    congr 1
    exact UInt32.add_comm _ _
  have length := perm.length_eq
  rw [length_cons] at length
  unfold emplace
  rw [if_pos points, bytes]
  refine ⟨_, rfl, joined.update known ?_ ?_ ?_, one, rfl, fun kind => ?_, rfl, rfl⟩
  · intro x mem
    rcases mem_cons.mp (perm.subset mem) with rfl | held
    · rfl
    · exact consistent.keyed _ x held
  · refine ((perm.map (·.mpdu.id)).nodup_iff).mpr (nodup_cons.mpr ⟨?_, consistent.nodup _⟩)
    intro mem
    obtain ⟨x, held, same⟩ := mem_map.mp mem
    exact fresh x held same
  · dsimp only
    omega
  · have total := held_update joined known (before pos (w.queues e.mpdu.getQueueId) ++
      e :: onward pos (w.queues e.mpdu.getQueueId)) (Function.update w.nBytesPerQueue
        e.mpdu.getQueueId (.ofNat (sizes (before pos (w.queues e.mpdu.getQueueId) ++
          e :: onward pos (w.queues e.mpdu.getQueueId))))) (w.nPackets + 1) w.maxSize kind
    have count := perm.countP_eq kind
    have split : (e :: w.queues e.mpdu.getQueueId).countP kind =
        [e].countP kind + (w.queues e.mpdu.getQueueId).countP kind :=
      @countP_append _ kind [e] _
    rw [same] at total
    dsimp only at total ⊢
    omega

theorem doRemove_spec (consistent : w.Consistent) (mem : e ∈ w.queues e.mpdu.getQueueId)
    (plain : e.mpdu.isCtl = false) :
    (w.doRemove now e).Consistent ∧ (w.doRemove now e).nPackets.toNat + 1 = w.nPackets.toNat ∧
      (w.doRemove now e).maxSize = w.maxSize ∧
      (∀ kind, (w.doRemove now e).held kind + [e].countP kind = w.held kind) ∧
      ∀ queueId, (w.doRemove now e).queues queueId =
        if queueId = e.mpdu.getQueueId then
          survivors now ((w.queues queueId).filter fun x => x.mpdu.id ≠ e.mpdu.id)
        else w.queues queueId := by
  obtain ⟨erased, packets, counts⟩ := erase_spec consistent mem
  have eq : w.doRemove now e = (w.erase e).extractExpiredMpdus now e.mpdu.getQueueId := by
    unfold doRemove takeOut
    rw [if_neg (nPackets_pos consistent mem), plain]
    rfl
  rw [eq]
  refine ⟨erased.extractExpiredMpdus _, packets, rfl, fun kind => ?_, fun queueId => ?_⟩
  · rw [held_extractExpiredMpdus erased]
    exact counts kind
  · rw [extractExpiredMpdus_queues]
    split
    case isTrue same =>
      subst same
      exact congrArg (survivors now) (update_self ..)
    case isFalse other => exact update_of_ne other ..

/-! ## The choice of the scheduler -/

/-- Nothing is stale. -/
def Settled (now : Time) (w : WifiMacQueue) : Prop :=
  ∀ queueId, survivors now (w.queues queueId) = w.queues queueId ∧
    stales now (w.queues queueId) = []

theorem chooseQueued_spec (settled : w.Settled now) (sortedQueues : List WifiContainerQueueId) :
    (chooseQueued now sortedQueues w).2 = w ∧ (chooseQueued now sortedQueues w).1 ≠ .nothing ∧
      ∀ e, (chooseQueued now sortedQueues w).1 = .queued e → isDroppable e = true ∧
        ∃ queueId, e ∈ w.queues queueId ∧ queueId.type ≠ .ctlQueue := by
  induction sortedQueues with
  | nil => exact ⟨rfl, nofun, nofun⟩
  | cons queueId rest ih =>
    unfold chooseQueued
    split
    · exact ih
    case isFalse plain =>
      obtain ⟨kept, none⟩ := settled queueId
      dsimp only
      rw [extractExpiredMpdus_same kept none]
      cases found : (w.queues queueId).find? isDroppable with
      | none => exact ih
      | some e =>
        refine ⟨rfl, nofun, ?_⟩
        rintro _ ⟨⟩
        exact ⟨by simpa using find?_some found, queueId, mem_of_find?_eq_some found,
          fun ctl => plain (.inr ctl)⟩

theorem isCtl_iff (mpdu : WifiMpdu) : mpdu.isCtl = true ↔ mpdu.getQueueId.type = .ctlQueue := by
  unfold WifiMpdu.isCtl WifiMpdu.getQueueId
  cases mpdu.type <;> simp

/-- The scheduler drops nothing while there is room, and no control frame. -/
theorem hasToDrop_spec (consistent : w.Consistent) (settled : w.Settled now)
    (scheduler : Scheduler) (item : WifiMpdu) :
    (w.hasToDropBeforeEnqueue now scheduler item).2 = w ∧
      ((w.hasToDropBeforeEnqueue now scheduler item).1 = .nothing ↔ w.nPackets < w.maxSize) ∧
      ∀ e, (w.hasToDropBeforeEnqueue now scheduler item).1 = .queued e →
        isDroppable e = true ∧ e ∈ w.queues e.mpdu.getQueueId ∧ e.mpdu.isCtl = false := by
  unfold hasToDropBeforeEnqueue
  split
  case isTrue room => exact ⟨rfl, iff_of_true rfl room, nofun⟩
  case isFalse full =>
    split
    · obtain ⟨same, some, queued⟩ := chooseQueued_spec settled scheduler.sortedQueues
      refine ⟨same, iff_of_false some full, fun e is => ?_⟩
      obtain ⟨droppable, queueId, mem, plain⟩ := queued e is
      obtain rfl := consistent.keyed queueId e mem
      refine ⟨droppable, mem, ?_⟩
      rwa [← Bool.not_eq_true, isCtl_iff]
    · exact ⟨rfl, iff_of_false nofun full, nofun⟩

/-! ## The accounts under the operations -/

variable {original : Nat}

theorem Consistent.resize (consistent : w.Consistent) (maxSize : UInt32) :
    Consistent { w with maxSize } :=
  { consistent with }

section

variable (accounted : w.Accounted original)
include accounted

theorem Accounted.extractExpiredMpdus
    (queueId : WifiContainerQueueId) : (w.extractExpiredMpdus now queueId).Accounted original where
  toConsistent := accounted.toConsistent.extractExpiredMpdus queueId
  room := accounted.room
  positive := accounted.positive
  size := by
    rw [held_extractExpiredMpdus accounted.toConsistent]
    exact accounted.size

/-- A control frame that leaves gives back the room that it was given. -/
theorem Accounted.takeOut
    (mem : e ∈ w.queues e.mpdu.getQueueId) : (w.takeOut e).Accounted original := by
  obtain ⟨kept, packets, counts⟩ := erase_spec accounted.toConsistent mem
  have count := counts isCtlElem
  have size := accounted.size
  have positive := accounted.positive
  have room := le_iff_toNat_le.mp accounted.room
  unfold WifiMacQueue.takeOut
  cases ctl : e.mpdu.isCtl with
  | false =>
    have none : [e].countP isCtlElem = 0 := by simp [isCtlElem, ctl]
    refine ⟨kept, le_iff_toNat_le.mpr ?_, positive, ?_⟩
    · change _ ≤ w.maxSize.toNat
      rw [if_neg Bool.false_ne_true]
      omega
    · change w.maxSize.toNat = _
      rw [if_neg Bool.false_ne_true]
      omega
  | true =>
    have one : [e].countP isCtlElem = 1 := by simp [isCtlElem, ctl]
    have le : (1 : UInt32) ≤ w.maxSize := by
      rw [le_iff_toNat_le]
      change 1 ≤ w.maxSize.toNat
      omega
    have less : (w.maxSize - 1).toNat = w.maxSize.toNat - 1 := UInt32.toNat_sub_of_le _ _ le
    have some : w.maxSize - 1 ≠ 0 := by
      intro zero
      rw [zero] at less
      change 0 = _ at less
      omega
    have same_size : (w.erase e).maxSize = w.maxSize := rfl
    unfold setMaxSize
    rw [if_pos rfl, same_size, if_neg some]
    refine ⟨kept.resize _, le_iff_toNat_le.mpr ?_, positive, ?_⟩
    · change (w.erase e).nPackets.toNat ≤ (w.maxSize - 1).toNat
      omega
    · change (w.maxSize - 1).toNat = original + (w.erase e).held isCtlElem
      omega

theorem mem_takeOut {x : WifiMacQueueElem}
    (mem : e ∈ w.queues e.mpdu.getQueueId) (x_mem : x ∈ w.queues x.mpdu.getQueueId)
    (other : x ≠ e) : x ∈ (w.takeOut e).queues x.mpdu.getQueueId := by
  have same : (w.takeOut e).queues = (w.erase e).queues := by
    unfold takeOut setMaxSize
    dsimp only
    split
    · split <;> rfl
    · rfl
  rw [same]
  change x ∈ Function.update w.queues e.mpdu.getQueueId _ x.mpdu.getQueueId
  rw [update_apply]
  split
  case isTrue here =>
    rw [here] at x_mem
    refine mem_filter.mpr ⟨x_mem, decide_eq_true fun id => other ?_⟩
    exact inj_on_of_nodup_map (accounted.nodup _) x_mem mem id
  case isFalse => exact x_mem

theorem Accounted.doRemove
    (mem : e ∈ w.queues e.mpdu.getQueueId) : (w.doRemove now e).Accounted original := by
  unfold WifiMacQueue.doRemove
  split
  · exact accounted
  · exact (accounted.takeOut mem).extractExpiredMpdus _

theorem Accounted.doDequeue {es : List WifiMacQueueElem}
    (distinct : es.Nodup) (mem : ∀ e ∈ es, e ∈ w.queues e.mpdu.getQueueId) :
    (w.doDequeue now es).Accounted original := by
  have taken : (es.foldl (fun w e => if w.nPackets = 0 then w else w.takeOut e) w).Accounted
      original := by
    induction es generalizing w with
    | nil => exact accounted
    | cons e rest ih =>
      obtain ⟨absent, distinct⟩ := nodup_cons.mp distinct
      obtain ⟨first, mem⟩ := forall_mem_cons.mp mem
      rw [foldl_cons]
      split
      · exact ih accounted distinct mem
      · refine ih (accounted.takeOut first) distinct fun x x_mem => ?_
        exact mem_takeOut accounted first (mem x x_mem) (ne_of_mem_of_not_mem x_mem absent)
  unfold WifiMacQueue.doDequeue
  generalize es.foldl (fun w e => if w.nPackets = 0 then w else w.takeOut e) w = x at taken ⊢
  clear mem distinct
  induction es generalizing x with
  | nil => exact taken
  | cons e rest ih => exact ih _ (taken.extractExpiredMpdus _)

theorem Accounted.wipe (plain : ∀ e, w.Wiped now e → e.mpdu.isCtl = false) :
    (w.wipeAllExpiredMpdus now).Accounted original := by
  obtain ⟨kept, size, fewer, -, -, wiped⟩ := @wipe_spec now w accounted.toConsistent
  refine ⟨kept, ?_, accounted.positive, ?_⟩
  · rw [size]
    exact UInt32.le_trans fewer accounted.room
  · rw [size, accounted.size, (wiped isCtlElem).2.mpr plain]

end

end WifiMacQueue

end Ns3.Wifi.MacQueue
