import Ns3.Internet.TcpRxStored
import Ns3.Internet.TcpTxUpdate
import Ns3.Library.Machine

/-!
# What the lists of `TcpTxBuffer` hold

However the items are split and merged, the lists hold the bytes they held, and no item
is empty.
-/

namespace Ns3.Internet

open SequenceNumber32 List Option

namespace TcpTxBuffer

open Serial

/-- The bytes of the items, in order. -/
def payload (items : List TcpTxItem) : List UInt8 := items.flatMap TcpTxItem.packet

@[simp]
theorem payload_nil : payload [] = [] := rfl

@[simp]
theorem payload_cons (item : TcpTxItem) (rest : List TcpTxItem) :
    payload (item :: rest) = item.packet ++ payload rest := flatMap_cons

@[simp]
theorem payload_append (items others : List TcpTxItem) :
    payload (items ++ others) = payload items ++ payload others := flatMap_append

theorem payload_length (items : List TcpTxItem) : (payload items).length = totalSize items := by
  induction items with
  | nil => rfl
  | cons item rest ih => simp [ih, TcpTxItem.size]

/-- No item is empty. -/
def Filled (items : List TcpTxItem) : Prop := ∀ item ∈ items, 0 < item.size

/-- Each item starts where the one before it ends, the first one at `s`. -/
def Placed : SequenceNumber32 → List TcpTxItem → Prop
  | _, [] => True
  | s, item :: rest => item.startSeq = s ∧ Placed (s.add item.size) rest

@[simp]
theorem placed_nil (s : SequenceNumber32) : Placed s [] := trivial

@[simp]
theorem placed_cons (s : SequenceNumber32) (item : TcpTxItem) (rest : List TcpTxItem) :
    Placed s (item :: rest) ↔ item.startSeq = s ∧ Placed (s.add item.size) rest := Iff.rfl

variable {items others before rest after items' : List TcpTxItem} {n size numBytes i offset : Nat}
  {item : TcpTxItem} {seq begin_ : SequenceNumber32} {now : Time}

theorem placed_append {s : SequenceNumber32} :
    Placed s (items ++ others) ↔ Placed s items ∧ Placed (s.add (totalSize items)) others := by
  induction items generalizing s with
  | nil => simp
  | cons item rest ih =>
    simp [ih, add_add, and_assoc]

/-! ## Splits and merges -/

theorem createFragment_eq {p : List UInt8} {start : Nat} (inside : start + n ≤ p.length)
    (small : p.length < 2 ^ 32) : createFragment p start n = (p.drop start).take n := by
  unfold createFragment
  dsimp only
  rw [add32_eq (by omega), sub32_eq inside small, length_drop]
  congr 1
  omega

theorem splitItems_spec (lt : n < item.size) (small : item.size < 2 ^ 32) :
    payload [(splitItems item n).1, (splitItems item n).2] = item.packet ∧
      (splitItems item n).1.size = n ∧ (splitItems item n).2.size = item.size - n ∧
      ∀ s, item.startSeq = s → Placed s [(splitItems item n).1, (splitItems item n).2] := by
  have first : createFragment item.packet 0 n = item.packet.take n :=
    createFragment_eq (by unfold TcpTxItem.size at lt; omega) small
  unfold TcpTxItem.size at *
  refine ⟨?_, ?_, ?_, ?_⟩
  · simp [splitItems, first]
  · simp [splitItems, first]
    omega
  · simp [splitItems]
  · rintro s rfl
    have length : (item.packet.take n).length = n := length_take_of_le (by omega)
    simp [splitItems, first, TcpTxItem.size, length]

theorem mergeItems_spec {retrans retrans' : Nat} {t1 t2 merged : TcpTxItem}
    (done : mergeItems retrans t1 t2 = some (retrans', merged)) :
    merged.packet = t1.packet ++ t2.packet ∧ merged.startSeq = t1.startSeq := by
  unfold mergeItems at done
  split at done
  · cases done
    exact ⟨rfl, rfl⟩
  · cases done

/-! ## `GetPacketFromList` -/

theorem seek_spec {sent : Bool} {listStartFrom begin' : SequenceNumber32} {list : List TcpTxItem}
    (found : seek sent listStartFrom seq begin_ list = some (before, begin', item, rest)) :
    list = before ++ item :: rest ∧ begin' = begin_.add (totalSize before) ∧
      Lt seq (begin'.add item.size) := by
  induction list generalizing begin_ before with
  | nil => cases found
  | cons first others ih =>
    unfold seek at found
    split at found
    · cases found
    dsimp only at found
    split at found
    · rename_i lt
      cases found
      exact ⟨rfl, (Serial.add_zero _).symm, lt⟩
    · obtain ⟨⟨before', begin₂, item', rest'⟩, found', eq⟩ := map_eq_some_iff.mp found
      cases eq
      obtain ⟨rfl, rfl, lt⟩ := ih found'
      refine ⟨rfl, ?_, lt⟩
      simp [add_add]

/-- A sequence number after the start of an item and before its end. -/
theorem sub_lt_size (small : size < 2 ^ 32) (after : seq.Gt begin_)
    (lt : Lt seq (begin_.add size)) :
    0 < seq.sub begin_ ∧ seq.sub begin_ < size := by
  have seq_small := seq.small
  have begin_small := begin_.small
  obtain ⟨not_after, ne⟩ := lt
  have values : seq.value ≠ (begin_.add size).value := fun same => ne (eq_of_value same)
  unfold Serial.Gt at after not_after
  unfold sub Circular.offset
  unfold Serial.add Serial.of at values not_after
  dsimp only at values not_after
  omega

/-- What the search for a packet leaves of a list, with the place of the packet at `seq`. -/
structure Found (listStartFrom seq : SequenceNumber32) (numBytes : Nat)
    (list list' : List TcpTxItem) (i : Nat) : Prop where
  payload : payload list' = payload list
  filled : Filled list'
  placed : ∀ s, Placed s list → Placed s list'
  here : ∃ before item after, list' = before ++ item :: after ∧ before.length = i ∧
    seq = listStartFrom.add (totalSize before) ∧
    (item.size ≤ numBytes ∨ ¬ Le (seq.add numBytes) (seq.add item.size))

theorem filled_append : Filled (items ++ others) ↔ Filled items ∧ Filled others := forall_mem_append

theorem filled_cons : Filled (item :: rest) ↔ 0 < item.size ∧ Filled rest := forall_mem_cons

theorem split_spec (filled : Filled (before ++ item :: after)) (pos : 0 < n) (lt : n < item.size)
    (small : totalSize (before ++ item :: after) < 2 ^ 32) :
    payload (before ++ (splitItems item n).1 :: (splitItems item n).2 :: after) =
        payload (before ++ item :: after) ∧
      Filled (before ++ (splitItems item n).1 :: (splitItems item n).2 :: after) ∧
      (∀ s, Placed s (before ++ item :: after) →
        Placed s (before ++ (splitItems item n).1 :: (splitItems item n).2 :: after)) := by
  rw [totalSize_append, totalSize_cons] at small
  obtain ⟨content, first, second, placed⟩ := splitItems_spec lt (by omega)
  have parts : payload [(splitItems item n).1, (splitItems item n).2] =
      (splitItems item n).1.packet ++ (splitItems item n).2.packet := by simp
  simp only [filled_append, filled_cons, placed_append, placed_cons] at *
  refine ⟨?_, ⟨filled.1, by omega, by omega, filled.2.2⟩, ?_⟩
  · simp only [payload_append, payload_cons, ← content, parts, append_assoc]
  · rintro s ⟨at_before, at_, at_after⟩
    obtain ⟨one, two, -⟩ := placed _ at_
    refine ⟨at_before, one, two, ?_⟩
    rw [add_add, first, second, Nat.add_sub_cancel' (Nat.le_of_lt lt)]
    exact at_after

theorem merge_spec {next merged : TcpTxItem} {retrans retrans' : Nat}
    (filled : Filled (before ++ item :: next :: after))
    (done : mergeItems retrans item next = some (retrans', merged)) :
    payload (before ++ merged :: after) = payload (before ++ item :: next :: after) ∧
      Filled (before ++ merged :: after) ∧
      (∀ s, Placed s (before ++ item :: next :: after) → Placed s (before ++ merged :: after)) := by
  obtain ⟨content, start⟩ := mergeItems_spec done
  have size : merged.size = item.size + next.size := by simp [TcpTxItem.size, content]
  simp only [filled_append, filled_cons, placed_append, placed_cons] at *
  refine ⟨?_, ⟨filled.1, by omega, filled.2.2.2⟩, ?_⟩
  · simp only [payload_append, payload_cons, content, append_assoc]
  · rintro s ⟨at_before, at_, at_next, at_after⟩
    refine ⟨at_before, start.trans at_, ?_⟩
    rw [size, ← add_add]
    exact at_after

theorem getPacketFromList_spec {sent : Bool} {listStartFrom : SequenceNumber32} {fuel : Nat}
    {e e' : Edited} (filled : Filled e.list) (pos : 0 < numBytes)
    (small : totalSize e.list < 2 ^ 32)
    (done : getPacketFromList sent listStartFrom fuel e numBytes seq = some (e', i)) :
    Found listStartFrom seq numBytes e.list e'.list i := by
  induction fuel generalizing e with
  | zero => cases done
  | succ fuel ih =>
    obtain ⟨⟨before, begin_, item, rest⟩, found, done⟩ := bind_eq_some_iff.mp done
    obtain ⟨list, rfl, lt⟩ := seek_spec found
    dsimp only at done
    have size_small : item.size < 2 ^ 32 := by
      rw [list, totalSize_append, totalSize_cons] at small
      omega
    -- After an edit that keeps the bytes the search starts again.
    have again {e₁ : Edited} (kept : payload e₁.list = payload e.list ∧ Filled e₁.list ∧
          ∀ s, Placed s e.list → Placed s e₁.list)
        (done : getPacketFromList sent listStartFrom fuel e₁ numBytes seq = some (e', i)) :
        Found listStartFrom seq numBytes e.list e'.list i := by
      obtain ⟨content, filled₁, placed₁⟩ := kept
      have found := ih filled₁ (by rw [← payload_length, content, payload_length]; exact small) done
      exact ⟨found.payload.trans content, found.filled,
        fun s placed => found.placed s (placed₁ s placed), found.here⟩
    split at done
    · rename_i here
      split at done
      · split at done
        · rename_i whole
          cases done
          exact ⟨rfl, filled, fun _ => id, before, item, rest, list, rfl, here, .inl (by omega)⟩
        · split at done
          · rename_i less
            cases done
            rw [list] at filled small ⊢
            obtain ⟨content, filled', placed'⟩ := split_spec filled pos less small
            exact ⟨content, filled', placed', before, _, _, rfl, rfl, here,
              .inl (splitItems_spec less size_small).2.1.le⟩
          · cases done
      · rename_i past
        split at done
        · cases done
          refine ⟨rfl, filled, fun _ => id, before, item, [], list, rfl, here, .inr ?_⟩
          rwa [← here] at past
        · obtain ⟨⟨retrans, merged⟩, merge, done⟩ := bind_eq_some_iff.mp done
          refine again ?_ done
          rw [list] at filled ⊢
          exact merge_spec filled merge
    · split at done
      · rename_i after
        obtain ⟨split_pos, split_lt⟩ := sub_lt_size size_small after lt
        refine again ?_ done
        rw [list] at filled small ⊢
        exact split_spec filled split_pos split_lt small
      · cases done

/-! ## Flags -/

/-- The packet of an item and where it starts. -/
def place (item : TcpTxItem) : List UInt8 × SequenceNumber32 := (item.packet, item.startSeq)

/-- The lists differ in flags and times only. -/
def Alike (items items' : List TcpTxItem) : Prop := items'.map place = items.map place

theorem Alike.refl (items : List TcpTxItem) : Alike items items := rfl

theorem Alike.trans {items'' : List TcpTxItem} (first : Alike items items')
    (second : Alike items' items'') : Alike items items'' := Eq.trans second first

theorem Alike.cons {item' : TcpTxItem} {rest' : List TcpTxItem} (here : place item' = place item)
    (alike : Alike rest rest') :
    Alike (item :: rest) (item' :: rest') := congrArg₂ List.cons here alike

theorem Alike.append {others' : List TcpTxItem} (first : Alike items items')
    (second : Alike others others') : Alike (items ++ others) (items' ++ others') := by
  unfold Alike at *
  simp [first, second]

theorem Alike.map {f : TcpTxItem → TcpTxItem} (same : ∀ item, place (f item) = place item)
    (items : List TcpTxItem) : Alike items (items.map f) := by
  unfold Alike
  rw [List.map_map]
  exact map_congr_left fun item _ => same item

theorem Alike.set {item' : TcpTxItem} (at_ : items[i]? = some item)
    (same : place item' = place item) :
    Alike items (items.set i item') := by
  induction items generalizing i with
  | nil => cases at_
  | cons first rest ih =>
    cases i with
    | zero =>
      cases at_
      exact .cons same (.refl rest)
    | succ i => exact .cons rfl (ih at_)

section Alike

variable {items items' : List TcpTxItem} (alike : Alike items items')

include alike

theorem Alike.payload : payload items' = payload items := by
  have packets := congrArg (List.map Prod.fst) alike
  simp only [List.map_map] at packets
  unfold TcpTxBuffer.payload
  rw [flatMap_def, flatMap_def]
  exact congrArg List.flatten packets

theorem Alike.totalSize : totalSize items' = totalSize items := by
  rw [← payload_length, alike.payload, payload_length]

theorem Alike.filled (filled : Filled items) : Filled items' := by
  intro item' mem
  have mem' : place item' ∈ items'.map place := List.mem_map.mpr ⟨item', mem, rfl⟩
  rw [alike] at mem'
  obtain ⟨item, at_, same⟩ := List.mem_map.mp mem'
  have packet : item.packet = item'.packet := congrArg Prod.fst same
  have pos := filled item at_
  unfold TcpTxItem.size at *
  rwa [← packet]

theorem Alike.placed {s : SequenceNumber32} (placed : Placed s items) : Placed s items' := by
  induction items generalizing items' s with
  | nil =>
    obtain rfl := map_eq_nil_iff.mp alike
    trivial
  | cons item rest ih =>
    cases items' with
    | nil => trivial
    | cons item' rest' =>
      obtain ⟨here, others⟩ := List.cons.inj alike
      have packet : item'.packet = item.packet := congrArg Prod.fst here
      have start : item'.startSeq = item.startSeq := congrArg Prod.snd here
      refine ⟨start.trans placed.1, ih others ?_⟩
      unfold TcpTxItem.size
      rw [packet]
      exact placed.2

end Alike

/-! ## Where the items start -/

theorem range_length (seq : SequenceNumber32) (small : n < 2 ^ 32) : (seq.add n).sub seq = n := by
  have length : (of (seq.value + n) : SequenceNumber32).sub (.of seq.value) =
      seq.value + n - seq.value := of_sub_of (by omega) (by omega)
  rwa [of_value, Nat.add_sub_cancel_left] at length

/-- Each item starts less than the size of the list after the first one. -/
theorem Placed.start {s : SequenceNumber32} (placed : Placed s items) (filled : Filled items)
    (here : item ∈ items) : ∃ n < totalSize items, item.startSeq = s.add n := by
  induction items generalizing s with
  | nil => cases here
  | cons first rest ih =>
    obtain ⟨pos, filled⟩ := filled_cons.mp filled
    obtain ⟨start, placed⟩ := placed
    rw [totalSize_cons]
    cases here with
    | head =>
      exact ⟨0, by omega, start.trans (add_zero s).symm⟩
    | tail _ later =>
      obtain ⟨n, lt, at_⟩ := ih placed filled later
      exact ⟨first.size + n, by omega, at_.trans (add_add s _ n)⟩

theorem add_inj (s : SequenceNumber32) {m : Nat} (m_small : m < 2 ^ 32) (n_small : n < 2 ^ 32)
    (same : s.add m = s.add n) : m = n := by
  have residues : (of (s.value + m) : SequenceNumber32) = .of (s.value + n) := same
  have counters := (of_eq_of (by omega) (by omega)).mp residues
  omega

/-! ## The stream -/

/-- The buffer holds these bytes, from the head sequence on. -/
structure Holds (b : TcpTxBuffer) (bytes : List UInt8) : Prop where
  content : payload (b.sentList ++ b.appList) = bytes
  sentSize : b.sentSize = totalSize b.sentList
  size : b.size = bytes.length
  room : b.size ≤ b.maxBuffer
  limit : b.maxBuffer < 2 ^ 32
  filled : Filled (b.sentList ++ b.appList)
  placed : Placed b.firstByteSeq b.sentList

variable {b b' : TcpTxBuffer} {bytes : List UInt8}

theorem Holds.total (holds : Holds b bytes) :
    totalSize b.sentList + totalSize b.appList = b.size := by
  simp [holds.size, ← holds.content, payload_length]

theorem Holds.small (holds : Holds b bytes) : b.size < 2 ^ 32 :=
  Nat.lt_of_le_of_lt holds.room holds.limit

/-- The buffers differ in flags, times and what is counted of them. -/
structure Flagged (b b' : TcpTxBuffer) : Prop where
  alike : Alike b.sentList b'.sentList
  app : b'.appList = b.appList
  first : b'.firstByteSeq = b.firstByteSeq
  sentSize : b'.sentSize = b.sentSize
  size : b'.size = b.size
  maxBuffer : b'.maxBuffer = b.maxBuffer

theorem Flagged.refl (b : TcpTxBuffer) : Flagged b b := ⟨.refl _, rfl, rfl, rfl, rfl, rfl⟩

theorem Flagged.trans {b'' : TcpTxBuffer} (first : Flagged b b') (second : Flagged b' b'') :
    Flagged b b'' :=
  ⟨first.alike.trans second.alike, second.app.trans first.app, second.first.trans first.first,
    second.sentSize.trans first.sentSize, second.size.trans first.size,
    second.maxBuffer.trans first.maxBuffer⟩

theorem Holds.flagged (holds : Holds b bytes) (flagged : Flagged b b') : Holds b' bytes := by
  obtain ⟨alike, app, first, sentSize, size, maxBuffer⟩ := flagged
  constructor
  case content =>
    rw [app, payload_append, alike.payload, ← payload_append]
    exact holds.content
  case sentSize =>
    rw [sentSize, alike.totalSize]
    exact holds.sentSize
  case size => exact size.trans holds.size
  case room =>
    rw [size, maxBuffer]
    exact holds.room
  case limit => exact maxBuffer ▸ holds.limit
  case filled =>
    rw [app, filled_append]
    obtain ⟨sent, rest⟩ := filled_append.mp holds.filled
    exact ⟨alike.filled sent, rest⟩
  case placed => exact first ▸ alike.placed holds.placed

/-- An accepted packet is appended to the stream. -/
theorem Holds.add (holds : Holds b bytes) (p : List UInt8) :
    Holds (b.add p).1 (if (b.add p).2 then bytes ++ p else bytes) := by
  have room := holds.room
  have limit := holds.limit
  have available : b.available = b.maxBuffer - b.size := sub32_eq room limit
  unfold TcpTxBuffer.add
  rw [available]
  by_cases fits : p.length ≤ b.maxBuffer - b.size
  · rw [if_pos fits]
    rw [if_pos rfl]
    by_cases some_ : 0 < p.length
    · rw [if_pos some_]
      have size : add32 b.size p.length = b.size + p.length := add32_eq (by omega)
      constructor
      case content =>
        rw [← holds.content]
        simp [TcpTxItem.create]
      case sentSize => exact holds.sentSize
      case size =>
        rw [length_append, ← holds.size]
        exact size
      case room =>
        dsimp only
        omega
      case limit => exact limit
      case filled =>
        obtain ⟨sent, app⟩ := filled_append.mp holds.filled
        simp only [filled_append, filled_cons]
        exact ⟨sent, app, some_, by simp [Filled]⟩
      case placed => exact holds.placed
    · rw [if_neg some_, length_eq_zero_iff.mp (Nat.eq_zero_of_not_pos some_), append_nil]
      exact holds
  · rw [if_neg fits]
    exact holds

/-! ## `CopyFromSequence` -/

theorem mergeLimit_le (seq : SequenceNumber32) (numBytes : Nat) (items : List TcpTxItem) :
    mergeLimit seq numBytes items ≤ numBytes := by
  fun_induction mergeLimit seq numBytes items <;> simp_all

theorem mergeLimit_pos (filled : Filled items) (small : totalSize items < 2 ^ 32)
    (pos : 0 < numBytes) :
    0 < mergeLimit seq numBytes items := by
  induction items with
  | nil => exact pos
  | cons item rest ih =>
    obtain ⟨item_pos, rest_filled⟩ := filled_cons.mp filled
    rw [totalSize_cons] at small
    unfold mergeLimit
    split
    · split
      · omega
      · rename_i next others
        rw [totalSize_cons] at small
        rw [add32_eq (by omega)]
        split <;> omega
    · exact ih rest_filled (by omega)

/-- An item with the bytes of the stream from `seq` on, at most `numBytes` of them if that can
be compared. -/
structure Carries (b : TcpTxBuffer) (bytes : List UInt8) (numBytes : Nat)
    (seq : SequenceNumber32) (item : TcpTxItem) : Prop where
  start : item.startSeq = seq
  filled : 0 < item.size
  le : b.size < 2 ^ 31 → item.size ≤ numBytes
  range : ∃ offset, seq = b.firstByteSeq.add offset ∧ offset + item.size ≤ bytes.length ∧
    item.packet = (bytes.drop offset).take item.size

theorem carries_of_placed {rest : List UInt8}
    (placed : Placed b.firstByteSeq (before ++ item :: after)) (pos : 0 < item.size)
    (here : seq = b.firstByteSeq.add (totalSize before))
    (content : bytes = payload (before ++ item :: after) ++ rest)
    (le : b.size < 2 ^ 31 → item.size ≤ numBytes) : Carries b bytes numBytes seq item where
  start := by
    rw [here]
    exact (placed_append.mp placed).2.1
  filled := pos
  le := le
  range := by
    refine ⟨totalSize before, here, ?_, ?_⟩
    · rw [content, length_append, payload_length, totalSize_append, totalSize_cons]
      omega
    · rw [content, payload_append, payload_cons, append_assoc, append_assoc,
        ← payload_length, drop_left]
      unfold TcpTxItem.size
      rw [take_left]

theorem size_le_of_found (found : size ≤ numBytes ∨ ¬ Le (seq.add numBytes) (seq.add size))
    (near : size < 2 ^ 31) :
    size ≤ numBytes := by
  by_contra less
  have past := found.resolve_left less
  rw [← of_value seq, of_add, of_add, le_iff ⟨by omega, by omega⟩] at past
  omega

theorem Holds.getTransmittedSegment (holds : Holds b bytes) (pos : 0 < numBytes)
    (done : b.getTransmittedSegment numBytes seq = some (b', i)) :
    Holds b' bytes ∧ b'.firstByteSeq = b.firstByteSeq ∧ b'.size = b.size ∧
      ∃ item ∈ b'.sentList[i]?, Carries b bytes numBytes seq item := by
  unfold TcpTxBuffer.getTransmittedSegment at done
  split at done
  case isFalse => cases done
  rename_i asserted
  obtain ⟨⟨e, j⟩, found, done⟩ := bind_eq_some_iff.mp done
  obtain ⟨item, at_, done⟩ := bind_eq_some_iff.mp done
  cases done
  obtain ⟨sent_filled, app_filled⟩ := filled_append.mp holds.filled
  have total := holds.total
  have small := holds.small
  obtain ⟨content, filled, placed, before, item', after, list, rfl, here, le⟩ :=
    getPacketFromList_spec sent_filled
      (mergeLimit_pos sent_filled (by omega) pos) (by dsimp only; omega) found
  have same : item' = item := by simpa [list] using at_
  subst same
  have alike : Alike e.list (e.list.set before.length { item' with retrans := true }) :=
    .set at_ rfl
  have total' : totalSize e.list = totalSize b.sentList := by
    rw [← payload_length, content, payload_length]
  refine ⟨?_, rfl, rfl, { item' with retrans := true }, ?_, ?_⟩
  · constructor
    case content =>
      rw [payload_append, alike.payload, content, ← payload_append]
      exact holds.content
    case sentSize => exact holds.sentSize.trans (alike.totalSize.trans total').symm
    case size => exact holds.size
    case room => exact holds.room
    case limit => exact holds.limit
    case filled => exact filled_append.mpr ⟨alike.filled filled, app_filled⟩
    case placed => exact alike.placed (placed _ holds.placed)
  · dsimp only
    rw [list, set_append_right _ _ (Nat.le_refl _), Nat.sub_self]
    simp
  · have mem_filled : 0 < item'.size := filled item' (by simp [list])
    have placed' := alike.placed (placed _ holds.placed)
    rw [list, set_append_right _ _ (Nat.le_refl _), Nat.sub_self, set_cons_zero] at placed'
    refine carries_of_placed placed' mem_filled here (?_ : bytes = _ ++ payload b.appList) ?_
    · have same := alike.payload
      rw [list, set_append_right _ _ (Nat.le_refl _), Nat.sub_self, set_cons_zero] at same
      rw [same, ← list, content, ← payload_append]
      exact holds.content.symm
    · intro near
      have limit := mergeLimit_le seq numBytes b.sentList
      have sentSize := holds.sentSize
      have part : item'.size ≤ totalSize e.list := by
        rw [list, totalSize_append, totalSize_cons]
        omega
      have fits : item'.size ≤ _ := size_le_of_found le (by omega)
      exact Nat.le_trans fits limit

/-- New data is taken from the front of the application's list. -/
theorem Holds.getNewSegment (holds : Holds b bytes) (pos : 0 < numBytes)
    (done : b.getNewSegment numBytes = some (b', i)) :
    Holds b' bytes ∧ b'.firstByteSeq = b.firstByteSeq ∧ b'.size = b.size ∧
      ∃ item ∈ b'.sentList[i]?, Carries b bytes numBytes (b.firstByteSeq.add b.sentSize) item := by
  obtain ⟨⟨e, j⟩, found, done⟩ := bind_eq_some_iff.mp done
  obtain ⟨item, at_, done⟩ := bind_eq_some_iff.mp done
  cases done
  obtain ⟨sent_filled, app_filled⟩ := filled_append.mp holds.filled
  have total := holds.total
  have small := holds.small
  have sentSize := holds.sentSize
  obtain ⟨content, filled, -, before, item', after, list, length, here, le⟩ :=
    getPacketFromList_spec app_filled pos (by dsimp only; omega) found
  have total' : totalSize e.list = totalSize b.appList := by
    rw [← payload_length, content, payload_length]
  -- The packet that is found starts where the list does, so that it is the first one.
  have none_before : before = [] := by
    rw [list, totalSize_append] at total'
    rw [← of_value (b.firstByteSeq.add b.sentSize), of_add,
      eq_iff (by omega) (by omega)] at here
    rw [list] at filled
    cases before with
    | nil => rfl
    | cons first others =>
      have pos := (filled_cons.mp filled).1
      rw [totalSize_cons] at here
      omega
  subst none_before
  obtain rfl : j = 0 := length.symm
  rw [list] at at_ filled total' content
  obtain rfl : item' = item := Option.some.inj at_
  obtain ⟨item_pos, after_filled⟩ := filled_cons.mp filled
  rw [nil_append, totalSize_cons] at total'
  have sum : add32 b.sentSize item'.size = b.sentSize + item'.size := add32_eq (by omega)
  have content' : payload (b.sentList ++ [{ item' with
      startSeq := b.firstByteSeq.add b.sentSize }]) ++ payload after = bytes := by
    rw [← holds.content, payload_append b.sentList b.appList, ← content]
    simp
  have placed : Placed b.firstByteSeq (b.sentList ++ [{ item' with
      startSeq := b.firstByteSeq.add b.sentSize }]) := by
    refine placed_append.mpr ⟨holds.placed, ?_, trivial⟩
    rw [sentSize]
  refine ⟨?_, rfl, rfl, { item' with startSeq := b.firstByteSeq.add b.sentSize }, ?_, ?_⟩
  · constructor
    case content =>
      rw [payload_append, list]
      exact content'
    case sentSize =>
      rw [sum, totalSize_append, totalSize_cons, totalSize_nil, sentSize]
      rfl
    case size => exact holds.size
    case room => exact holds.room
    case limit => exact holds.limit
    case filled =>
      rw [list]
      simp only [filled_append, filled_cons]
      exact ⟨⟨sent_filled, item_pos, by simp [Filled]⟩, after_filled⟩
    case placed => exact placed
  · simp
  · refine carries_of_placed placed item_pos (by rw [sentSize]) content'.symm fun near => ?_
    have part : item'.size < 2 ^ 31 := by omega
    exact size_le_of_found le part

theorem Carries.mono {numBytes' : Nat} (carries : Carries b bytes numBytes seq item)
    (le : numBytes ≤ numBytes') :
    Carries b bytes numBytes' seq item :=
  { carries with le := fun near => Nat.le_trans (carries.le near) le }

theorem Holds.copyBytes (holds : Holds b bytes) {depth : Nat} {found : Option Nat}
    (done : b.copyBytes depth numBytes seq = some (b', found)) :
    Holds b' bytes ∧ b'.firstByteSeq = b.firstByteSeq ∧ b'.size = b.size ∧
      ∀ i ∈ found, ∃ item ∈ b'.sentList[i]?, Carries b bytes numBytes seq item := by
  induction depth generalizing numBytes with
  | zero => cases done
  | succ depth ih =>
    unfold TcpTxBuffer.copyBytes at done
    split at done
    · cases done
    dsimp only at done
    have limit : min numBytes (b.sizeFromSequence seq) ≤ numBytes := Nat.min_le_left _ _
    generalize min numBytes (b.sizeFromSequence seq) = s at done limit
    split at done
    · cases done
      exact ⟨holds, rfl, rfl, nofun⟩
    rename_i some_
    have pos := Nat.pos_of_ne_zero some_
    split at done
    · obtain ⟨⟨b₁, i⟩, sent, done⟩ := bind_eq_some_iff.mp done
      obtain ⟨outItem, at_, done⟩ := bind_eq_some_iff.mp done
      split at done
      · cases done
      cases done
      obtain ⟨holds', first, size, item, at', carries⟩ := holds.getTransmittedSegment pos sent
      refine ⟨holds', first, size, ?_⟩
      rintro i ⟨⟩
      exact ⟨item, at', carries.mono limit⟩
    split at done
    · split at done
      · rename_i here
        obtain ⟨⟨b₁, i⟩, new, done⟩ := bind_eq_some_iff.mp done
        obtain ⟨outItem, at_, done⟩ := bind_eq_some_iff.mp done
        split at done
        · cases done
        cases done
        obtain ⟨holds', first, size, item, at', carries⟩ := holds.getNewSegment pos new
        refine ⟨holds', first, size, ?_⟩
        rintro i ⟨⟩
        exact ⟨item, at', here ▸ carries.mono limit⟩
      · cases done
    split at done
    · rename_i partial_
      obtain ⟨holds', first, size, returned⟩ := ih done
      refine ⟨holds', first, size, fun i mem => ?_⟩
      obtain ⟨item, at', carries⟩ := returned i mem
      refine ⟨item, at', carries.mono (Nat.le_trans ?_ limit)⟩
      have end_small := (b.firstByteSeq.add b.sentSize).small
      unfold add32 at partial_
      unfold sub32
      omega
    · cases done

/-- **`CopyFromSequence`** keeps the stream, and what it returns is the part asked for. -/
theorem Holds.copyFromSequence (holds : Holds b bytes) {returned : Option TcpTxItem}
    (done : b.copyFromSequence now numBytes seq = some (b', returned)) :
    Holds b' bytes ∧ b'.firstByteSeq = b.firstByteSeq ∧ b'.size = b.size ∧
      ∀ item ∈ returned, item ∈ b'.sentList ∧ Carries b bytes numBytes seq item := by
  obtain ⟨⟨b₁, found⟩, copied, done⟩ := bind_eq_some_iff.mp done
  obtain ⟨holds₁, first, size, carried⟩ := holds.copyBytes copied
  cases found with
  | none =>
    cases done
    exact ⟨holds₁, first, size, nofun⟩
  | some i =>
    obtain ⟨item, at_, carries⟩ := carried i rfl
    obtain ⟨outItem, at', done⟩ := bind_eq_some_iff.mp done
    obtain rfl : item = outItem := Option.some.inj (at_.symm.trans at')
    dsimp only at done
    split at done
    · cases done
      have alike : Alike b₁.sentList (b₁.sentList.set i { item with lastSent := now }) :=
        .set at' rfl
      refine ⟨holds₁.flagged ⟨alike, rfl, rfl, rfl, rfl, rfl⟩, first, size, ?_⟩
      rintro _ ⟨⟩
      refine ⟨mem_iff_getElem?.mpr ⟨i, ?_⟩, ?_⟩
      · exact getElem?_set_self (List.getElem?_eq_some_iff.mp at').1
      · exact ⟨carries.start, carries.filled, carries.le, carries.range⟩
    · cases done

/-! ## `DiscardUpTo` -/

theorem removeFromCounts_spec (done : b.removeFromCounts item size = some b') : b' = { b with
      sackedOut := b'.sackedOut
      retrans := b'.retrans
      lostOut := b'.lostOut } := by
  unfold removeFromCounts at done
  split at done
  · cases done
    rfl
  · cases done

/-- The first bytes of the stream are gone. -/
structure Dropped (b b' : TcpTxBuffer) (bytes : List UInt8) (n : Nat) : Prop where
  holds : Holds b' (bytes.drop n)
  first : b'.firstByteSeq = b.firstByteSeq.add (min n bytes.length)

/-- Data moves to an empty sent list. -/
def refill (now : Time) (b : TcpTxBuffer) (offset : Nat) : Option TcpTxBuffer :=
  match b.sentList with
  | [] => (b.copyFromSequence now offset b.firstByteSeq).bind fun result =>
    result.2.map fun _ => result.1
  | _ :: _ => some b

/-- The rest of a round, which goes on with `next`. -/
def discardHead (next : TcpTxBuffer → Nat → Option TcpTxBuffer) (b : TcpTxBuffer) (offset : Nat) :
    Option TcpTxBuffer :=
  match b.sentList with
  | [] => none
  | item :: rest =>
    if item.startSeq ≠ b.firstByteSeq then none
    else if item.size ≤ offset then do
      let b ← { b with
        size := sub32 b.size item.size
        sentSize := sub32 b.sentSize item.size
        firstByteSeq := b.firstByteSeq.add item.size }.removeFromCounts item item.size
      next { b with
        sentList := rest
        highestSack := (b.highestSack.1.erased 0, b.highestSack.2) } (offset - item.size)
    else
      let item := { item with
        packet := createFragment item.packet offset (item.size - offset)
        startSeq := item.startSeq.add offset }
      { b with
        sentList := item :: rest
        size := sub32 b.size offset
        sentSize := sub32 b.sentSize offset
        firstByteSeq := b.firstByteSeq.add offset }.removeFromCounts item offset

theorem discardLoop_succ (now : Time) (fuel : Nat) (b : TcpTxBuffer) (offset : Nat) :
    discardLoop now (fuel + 1) b offset =
      if 0 < b.size ∧ 0 < offset then
        (refill now b offset).bind fun b => discardHead (discardLoop now fuel) b offset
      else some b := by
  rw [discardLoop, refill]
  split
  · dsimp only
    cases b.sentList with
    | nil =>
      cases b.copyFromSequence now offset b.firstByteSeq with
      | none => rfl
      | some result =>
        obtain ⟨b₁, _ | item⟩ := result <;> rfl
    | cons head rest => rfl
  · rfl

theorem refill_spec (holds : Holds b bytes) (done : refill now b offset = some b') :
    Holds b' bytes ∧ b'.firstByteSeq = b.firstByteSeq ∧ b'.size = b.size := by
  unfold refill at done
  split at done
  · obtain ⟨⟨b₁, returned⟩, copied, done⟩ := bind_eq_some_iff.mp done
    obtain ⟨item, -, rfl⟩ := map_eq_some_iff.mp done
    obtain ⟨holds', first, size, -⟩ := holds.copyFromSequence copied
    exact ⟨holds', first, size⟩
  · cases done
    exact ⟨holds, rfl, rfl⟩

theorem discardHead_spec {next : TcpTxBuffer → Nat → Option TcpTxBuffer}
    (holds : Holds b bytes) (pos : 0 < offset) (done : discardHead next b offset = some b')
    (next_spec : ∀ b₁ bytes₁ offset₁, Holds b₁ bytes₁ → next b₁ offset₁ = some b' →
      Dropped b₁ b' bytes₁ offset₁) : Dropped b b' bytes offset := by
  obtain ⟨sent_filled, app_filled⟩ := filled_append.mp holds.filled
  have total := holds.total
  have small := holds.small
  have size := holds.size
  have sentSize := holds.sentSize
  have content := holds.content
  have placed := holds.placed
  have room := holds.room
  unfold discardHead at done
  split at done
  · cases done
  rename_i item rest list
  rw [list] at sent_filled total sentSize content placed
  rw [totalSize_cons] at total sentSize
  obtain ⟨item_pos, rest_filled⟩ := filled_cons.mp sent_filled
  split at done
  · cases done
  rename_i start
  rw [not_not] at start
  rw [cons_append, payload_cons] at content
  have length : item.packet.length = item.size := rfl
  have whole : item.size ≤ bytes.length := by omega
  split at done
  · rename_i fits
    obtain ⟨b₁, removed, done⟩ := bind_eq_some_iff.mp done
    have counts := removeFromCounts_spec removed
    have holds₁ : Holds { b₁ with
        sentList := rest
        highestSack := (b₁.highestSack.1.erased 0, b₁.highestSack.2) }
        (bytes.drop item.size) := by
      rw [counts]
      constructor
      case content =>
        simp [← content, ← length]
      case sentSize =>
        dsimp only
        rw [sub32_eq (by omega) (by omega)]
        omega
      case size =>
        dsimp only
        rw [sub32_eq (by omega) (by omega), length_drop]
        omega
      case room =>
        dsimp only
        rw [sub32_eq (by omega) (by omega)]
        omega
      case limit => exact holds.limit
      case filled => exact filled_append.mpr ⟨rest_filled, app_filled⟩
      case placed => exact placed.2
    obtain ⟨holds', first⟩ := next_spec _ _ _ holds₁ done
    constructor
    · rw [drop_drop] at holds'
      rwa [Nat.add_sub_cancel' fits] at holds'
    · rw [first, counts]
      rw [add_add, length_drop]
      congr 1
      omega
  · rename_i less
    have counts := removeFromCounts_spec done
    have kept : createFragment item.packet offset (item.size - offset) = item.packet.drop offset := by
      rw [createFragment_eq (by omega) (by omega), take_of_length_le]
      rw [length_drop]
      omega
    rw [kept] at counts
    have left : (item.packet.drop offset).length = item.size - offset := length_drop
    constructor
    · rw [counts]
      constructor
      case content =>
        rw [← content, drop_append_of_le_length (by omega)]
        rfl
      case sentSize =>
        dsimp only
        rw [sub32_eq (by omega) (by omega), totalSize_cons]
        unfold TcpTxItem.size at *
        dsimp only
        omega
      case size =>
        dsimp only
        rw [sub32_eq (by omega) (by omega), length_drop]
        omega
      case room =>
        dsimp only
        rw [sub32_eq (by omega) (by omega)]
        omega
      case limit => exact holds.limit
      case filled =>
        refine filled_append.mpr ⟨filled_cons.mpr ⟨?_, rest_filled⟩, app_filled⟩
        unfold TcpTxItem.size at *
        dsimp only
        omega
      case placed =>
        refine ⟨congrArg (Serial.add · offset) start, ?_⟩
        have size_eq : TcpTxItem.size { item with
            packet := item.packet.drop offset
            startSeq := item.startSeq.add offset } = item.size - offset := left
        rw [size_eq]
        rw [add_add, Nat.add_sub_cancel' (by omega)]
        exact placed.2
    · rw [counts, Nat.min_eq_left (by omega)]

theorem discardLoop_spec {fuel : Nat} (holds : Holds b bytes)
    (done : discardLoop now fuel b offset = some b') : Dropped b b' bytes offset := by
  induction fuel generalizing b bytes offset with
  | zero => cases done
  | succ fuel ih =>
    rw [discardLoop_succ] at done
    split at done
    · rename_i more
      obtain ⟨b₁, refilled, done⟩ := bind_eq_some_iff.mp done
      obtain ⟨holds₁, first, -⟩ := refill_spec holds refilled
      obtain ⟨holds', first'⟩ := discardHead_spec holds₁ more.2 done
        fun b₂ bytes₂ offset₂ holds₂ done₂ => ih holds₂ done₂
      exact ⟨holds', by rw [first', first]⟩
    · rename_i stop
      cases done
      have size := holds.size
      by_cases none_ : offset = 0
      · subst none_
        exact ⟨holds, by simp⟩
      · have empty : bytes = [] := length_eq_zero_iff.mp (by omega)
        subst empty
        exact ⟨by simpa using holds, by simp⟩

/-! ## The scoreboard -/

theorem addRenoSack_flagged (done : b.addRenoSack = some b') : Flagged b b' := by
  unfold addRenoSack at done
  split at done
  · cases done
  rename_i head rest list
  split at done
  · cases done
  split at done
  · cases done
    exact { Flagged.refl b with }
  · rename_i item after left
    cases done
    refine ⟨?_, rfl, rfl, rfl, rfl, rfl⟩
    have split := takeWhile_append_dropWhile (p := TcpTxItem.sacked) (l := rest)
    rw [left] at split
    have alike : Alike (rest.takeWhile TcpTxItem.sacked ++ item :: after)
        (rest.takeWhile TcpTxItem.sacked ++ { item with sacked := true } :: after) :=
      .append (.refl _) (.cons rfl (.refl after))
    rw [split] at alike
    rw [list]
    exact .cons rfl alike

theorem markHeadAsLost_flagged (b : TcpTxBuffer) : Flagged b b.markHeadAsLost := by
  unfold markHeadAsLost
  split
  · exact .refl b
  · rename_i head rest list
    refine ⟨?_, rfl, rfl, rfl, rfl, rfl⟩
    rw [list]
    exact .cons rfl (.refl rest)

theorem resetRenoSack_flagged (b : TcpTxBuffer) : Flagged b b.resetRenoSack :=
  ⟨.map (f := fun item => { item with sacked := false }) (fun _ => rfl) _, rfl, rfl, rfl, rfl, rfl⟩

theorem setSentListLost_flagged {resetSack : Bool} (done : b.setSentListLost resetSack = some b') :
    Flagged b b' := by
  obtain ⟨-, eq⟩ := ite_none_right_eq_some.mp done
  cases eq
  cases resetSack with
  | false =>
    exact ⟨.map (f := fun item =>
      { item with lost := item.lost || !item.sacked, retrans := false }) (fun _ => rfl) _,
      rfl, rfl, rfl, rfl, rfl⟩
  | true =>
    exact ⟨.map (f := fun item => { item with sacked := false, lost := true, retrans := false })
      (fun _ => rfl) _, rfl, rfl, rfl, rfl, rfl⟩

theorem deleteRetransmittedFlagFromHead_flagged
    (done : b.deleteRetransmittedFlagFromHead = some b') : Flagged b b' := by
  unfold deleteRetransmittedFlagFromHead at done
  split at done
  · cases done
    exact .refl b
  split at done
  · cases done
  rename_i head rest list
  split at done
  · cases done
    refine ⟨?_, rfl, rfl, rfl, rfl, rfl⟩
    rw [list]
    exact .cons rfl (.refl rest)
  · cases done
    exact .refl b

theorem scanBlock_alike {block : SackBlock} {m m' : Marking}
    (scan : scanBlock block i begin_ items m = some (items', m')) : Alike items items' := by
  induction items generalizing i begin_ items' m m' with
  | nil =>
    cases scan
    exact .refl []
  | cons item rest ih =>
    unfold scanBlock at scan
    dsimp only at scan
    split at scan
    · split at scan
      · split at scan
        · cases scan
        · obtain ⟨⟨rest', m₁⟩, scan', eq⟩ := map_eq_some_iff.mp scan
          cases eq
          exact .cons rfl (ih scan')
      · obtain ⟨⟨rest', m₁⟩, scan', eq⟩ := map_eq_some_iff.mp scan
        cases eq
        exact .cons rfl (ih scan')
    · split at scan
      · cases scan
        exact .refl _
      · obtain ⟨⟨rest', m₁⟩, scan', eq⟩ := map_eq_some_iff.mp scan
        cases eq
        exact .cons rfl (ih scan')

theorem scanBlocks_alike {first : SequenceNumber32} {sentSize : Nat} {list : List SackBlock}
    {m m' : Marking} {all : Bool}
    (scan : scanBlocks first sentSize list items m = some (items', m', all)) :
    Alike items items' := by
  induction list generalizing items m with
  | nil =>
    cases scan
    exact .refl _
  | cons block blocks ih =>
    unfold scanBlocks at scan
    split at scan
    · cases scan
      exact .refl _
    · obtain ⟨⟨items₁, m₁⟩, scan₁, rest⟩ := bind_eq_some_iff.mp scan
      exact (scanBlock_alike scan₁).trans (ih rest)

theorem lostFrom_alike (dupAckThresh lostOut : Nat) (items : List TcpTxItem) :
    Alike items (lostFrom dupAckThresh lostOut items).1 := by
  induction items with
  | nil => exact .refl []
  | cons item rest ih =>
    rw [lostFrom]
    dsimp only
    generalize (if item.sacked then (lostFrom dupAckThresh lostOut rest).2.1 + 1
      else (lostFrom dupAckThresh lostOut rest).2.1) = sacked
    by_cases test : dupAckThresh ≤ sacked ∧ (!item.sacked) = true ∧ (!item.lost) = true
    · rw [if_pos test]
      exact .cons rfl ih
    · rw [if_neg test]
      exact .cons rfl ih

theorem updateLostCount_flagged (done : b.updateLostCount = some b') : Flagged b b' := by
  unfold updateLostCount at done
  split at done
  · rename_i i head rest at_ list
    have walked : Alike rest ((lostFrom b.dupAckThresh b.lostOut (rest.take i)).1 ++ rest.drop i) := by
      have alike := (lostFrom_alike b.dupAckThresh b.lostOut (rest.take i)).append
        (.refl (rest.drop i))
      rwa [take_append_drop] at alike
    dsimp only at done
    split at done
    · cases done
      refine ⟨?_, rfl, rfl, rfl, rfl, rfl⟩
      rw [list]
      exact .cons rfl walked
    · cases done
      refine ⟨?_, rfl, rfl, rfl, rfl, rfl⟩
      rw [list]
      exact .cons rfl walked
  · split at done
    · cases done
    · cases done
      exact .refl b
  · cases done

theorem update_flagged {list : List SackBlock} {bytesSacked : Nat}
    (done : b.update list = some (b', bytesSacked)) : Flagged b b' := by
  obtain ⟨⟨items, m, all⟩, scan, done⟩ := bind_eq_some_iff.mp done
  have scanned : Flagged b { b with
      sentList := items
      lostOut := m.lostOut
      sackedOut := m.sackedOut
      highestSack := m.highestSack } := ⟨scanBlocks_alike scan, rfl, rfl, rfl, rfl, rfl⟩
  dsimp only at done
  split at done
  · obtain ⟨b₁, after, eq⟩ := bind_eq_some_iff.mp done
    cases eq
    have rest := afterScan_some after
    split at rest
    · exact scanned.trans (updateLostCount_flagged rest)
    · exact rest ▸ scanned
  · cases done
    exact scanned

theorem Holds.resetSentList (holds : Holds b bytes) : Holds b.resetSentList bytes := by
  have alike : Alike b.sentList (b.sentList.map fun item =>
      { item with retrans := false, sacked := false, lost := false }) :=
    .map (f := fun item => { item with retrans := false, sacked := false, lost := false })
      (fun _ => rfl) _
  obtain ⟨sent, app⟩ := filled_append.mp holds.filled
  constructor
  case content =>
    unfold TcpTxBuffer.resetSentList
    rw [nil_append, payload_append, alike.payload, ← payload_append]
    exact holds.content
  case sentSize => rfl
  case size => exact holds.size
  case room => exact holds.room
  case limit => exact holds.limit
  case filled =>
    exact filled_append.mpr ⟨nofun, filled_append.mpr ⟨alike.filled sent, app⟩⟩
  case placed => trivial

theorem Holds.resetLastSegmentSent (holds : Holds b bytes) :
    Holds b.resetLastSegmentSent bytes := by
  unfold TcpTxBuffer.resetLastSegmentSent
  split
  · exact holds
  · rename_i item last
    have list := dropLast_append_getLast? item last
    have total := holds.total
    have sentSize := holds.sentSize
    have small := holds.small
    have filled := holds.filled
    have content := holds.content
    have placed := holds.placed
    rw [← list] at total sentSize filled content placed
    rw [totalSize_append, totalSize_cons, totalSize_nil] at total sentSize
    constructor
    case content =>
      rw [← content]
      simp
    case sentSize =>
      dsimp only
      rw [sub32_eq (by omega) (by omega)]
      omega
    case size => exact holds.size
    case room => exact holds.room
    case limit => exact holds.limit
    case filled =>
      rwa [append_assoc, singleton_append] at filled
    case placed => exact (placed_append.mp placed).1

/-! ## `DiscardUpTo` as a whole -/

/-- What happens to a head that is sacked. -/
def releaseHead (seq : SequenceNumber32) (b : TcpTxBuffer) : Option TcpTxBuffer :=
  match b.sentList with
  | [] => some b
  | head :: rest =>
    if head.startSeq ≠ seq then none
    else if head.sacked then
      if head.lost then none
      else ({ b with
        sentList := { head with sacked := false } :: rest
        sackedOut := sub32 b.sackedOut head.size }.addRenoSack).map markHeadAsLost
    else some b

theorem releaseHead_flagged (done : releaseHead seq b = some b') : Flagged b b' := by
  unfold releaseHead at done
  split at done
  · cases done
    exact .refl b
  rename_i head rest list
  split at done
  · cases done
  split at done
  · split at done
    · cases done
    · obtain ⟨b₁, sacked, rfl⟩ := map_eq_some_iff.mp done
      have unsacked : Flagged b { b with
          sentList := { head with sacked := false } :: rest
          sackedOut := sub32 b.sackedOut head.size } := by
        refine ⟨?_, rfl, rfl, rfl, rfl, rfl⟩
        rw [list]
        exact .cons rfl (.refl rest)
      exact (unsacked.trans (addRenoSack_flagged sacked)).trans (markHeadAsLost_flagged b₁)
  · cases done
    exact .refl b

/-- The highest sacked item, unless it is behind the head sequence. -/
def resetHighest (b : TcpTxBuffer) : TcpTxBuffer :=
  if Le b.highestSack.2 b.firstByteSeq then { b with highestSack := (.end_, .of 0) } else b

theorem resetHighest_flagged (b : TcpTxBuffer) : Flagged b b.resetHighest := by
  unfold resetHighest
  split
  · exact ⟨.refl _, rfl, rfl, rfl, rfl, rfl⟩
  · exact .refl b

theorem discardUpTo_eq (now : Time) (seq : SequenceNumber32) (b : TcpTxBuffer) :
    b.discardUpTo now seq =
      if Ge b.firstByteSeq seq then some b
      else (discardLoop now (seq.sub b.firstByteSeq + 1) b (seq.sub b.firstByteSeq)).bind fun b₁ =>
        (releaseHead seq (if b₁.size = 0 then { b₁ with firstByteSeq := seq } else b₁)).bind
          fun b₂ =>
            if Ge b₂.resetHighest.firstByteSeq seq ∧
              add32 b₂.resetHighest.sackedOut b₂.resetHighest.lostOut ≤ b₂.resetHighest.sentSize
            then some b₂.resetHighest else none := by
  unfold discardUpTo releaseHead
  split
  · rfl
  · dsimp only [bind_eq_bind]
    congr 1
    funext b₁
    generalize (if b₁.size = 0 then { b₁ with firstByteSeq := seq } else b₁) = b₂
    cases b₂.sentList with
    | nil => rfl
    | cons head rest =>
      dsimp only
      by_cases out : head.startSeq ≠ seq
      · rw [if_pos out, if_pos out]
        rfl
      rw [if_neg out, if_neg out]
      by_cases sacked : head.sacked
      · rw [if_pos sacked, if_pos sacked]
        by_cases lost : head.lost
        · rw [if_pos lost, if_pos lost]
          rfl
        rw [if_neg lost, if_neg lost]
        generalize TcpTxBuffer.addRenoSack _ = more
        cases more with
        | none => rfl
        | some b₃ => rfl
      · rw [if_neg sacked, if_neg sacked]
        rfl

/-- How many bytes `DiscardUpTo` drops. -/
def dropped (b : TcpTxBuffer) (seq : SequenceNumber32) : Nat :=
  if Ge b.firstByteSeq seq then 0 else seq.sub b.firstByteSeq

/-- The head sequence may change as long as nothing has been sent. -/
theorem Holds.moved (holds : Holds b bytes) (unsent : b.sentList = []) (seq : SequenceNumber32) :
    Holds { b with firstByteSeq := seq } bytes :=
  ⟨holds.content, holds.sentSize, holds.size, holds.room, holds.limit, holds.filled, by
    rw [unsent]
    trivial⟩

theorem Holds.unsent_of_empty (holds : Holds b bytes) (empty : b.size = 0) : b.sentList = [] := by
  have total := holds.total
  obtain ⟨sent, -⟩ := filled_append.mp holds.filled
  cases list : b.sentList with
  | nil => rfl
  | cons item rest =>
    rw [list] at total sent
    rw [totalSize_cons] at total
    have pos := (filled_cons.mp sent).1
    omega

/-- **`DiscardUpTo`** drops the bytes before the sequence number, which is the new head
sequence. -/
theorem Holds.discardUpTo (holds : Holds b bytes) (done : b.discardUpTo now seq = some b') :
    Holds b' (bytes.drop (b.dropped seq)) ∧
      b'.firstByteSeq = if Ge b.firstByteSeq seq then b.firstByteSeq else seq := by
  rw [discardUpTo_eq] at done
  unfold dropped
  split at done
  · rename_i old
    cases done
    rw [if_pos old, if_pos old]
    exact ⟨holds, rfl⟩
  rename_i new
  rw [if_neg new, if_neg new]
  obtain ⟨b₁, looped, done⟩ := bind_eq_some_iff.mp done
  obtain ⟨holds₁, first⟩ := discardLoop_spec holds looped
  obtain ⟨b₂, released, done⟩ := bind_eq_some_iff.mp done
  have moved : Holds (if b₁.size = 0 then { b₁ with firstByteSeq := seq } else b₁)
      (bytes.drop (seq.sub b.firstByteSeq)) ∧
      (if b₁.size = 0 then { b₁ with firstByteSeq := seq } else b₁).firstByteSeq = seq := by
    by_cases empty : b₁.size = 0
    · rw [if_pos empty]
      exact ⟨holds₁.moved (holds₁.unsent_of_empty empty) seq, rfl⟩
    · rw [if_neg empty]
      refine ⟨holds₁, ?_⟩
      have size := holds₁.size
      rw [length_drop] at size
      rw [first, Nat.min_eq_left (by omega)]
      exact add_sub seq b.firstByteSeq
  have flagged := releaseHead_flagged released
  have flagged' := flagged.trans (resetHighest_flagged b₂)
  split at done
  · cases done
    exact ⟨moved.1.flagged flagged', flagged'.first.trans moved.2⟩
  · cases done

/-! ## Runs -/

/-- What the socket does with its buffer. -/
inductive TxEvent
  | setHeadSequence (seq : SequenceNumber32)
  | add (p : List UInt8)
  | copyFromSequence (now : Time) (numBytes : Nat) (seq : SequenceNumber32)
  | discardUpTo (now : Time) (seq : SequenceNumber32)
  | update (list : List SackBlock)
  | addRenoSack
  | resetRenoSack
  | setSentListLost (resetSack : Bool)
  | resetSentList
  | resetLastSegmentSent
  | markHeadAsLost
  | deleteRetransmittedFlagFromHead

def step (b : TcpTxBuffer) : TxEvent → Option TcpTxBuffer
  | .setHeadSequence seq => b.setHeadSequence seq
  | .add p => some (b.add p).1
  | .copyFromSequence now numBytes seq => (b.copyFromSequence now numBytes seq).map Prod.fst
  | .discardUpTo now seq => b.discardUpTo now seq
  | .update list => (b.update list).map Prod.fst
  | .addRenoSack => b.addRenoSack
  | .resetRenoSack => some b.resetRenoSack
  | .setSentListLost resetSack => b.setSentListLost resetSack
  | .resetSentList => some b.resetSentList
  | .resetLastSegmentSent => some b.resetLastSegmentSent
  | .markHeadAsLost => some b.markHeadAsLost
  | .deleteRetransmittedFlagFromHead => b.deleteRetransmittedFlagFromHead

/-- The stream after the event. -/
def stream (b : TcpTxBuffer) (bytes : List UInt8) : TxEvent → List UInt8
  | .add p => if (b.add p).2 then bytes ++ p else bytes
  | .discardUpTo _ seq => bytes.drop (b.dropped seq)
  | _ => bytes

/-- **Each event** leaves the stream in the lists. -/
theorem step_holds {e : TxEvent} (holds : Holds b bytes) (done : b.step e = some b') :
    Holds b' (b.stream bytes e) := by
  cases e with
  | setHeadSequence seq =>
    unfold step setHeadSequence at done
    dsimp only at done
    split at done
    · rename_i unsent
      cases done
      exact (holds.moved unsent seq).flagged ⟨.refl _, rfl, rfl, rfl, rfl, rfl⟩
    · cases done
  | add p =>
    cases done
    exact holds.add p
  | copyFromSequence now numBytes seq =>
    obtain ⟨⟨b₁, returned⟩, copied, rfl⟩ := map_eq_some_iff.mp done
    exact (holds.copyFromSequence copied).1
  | discardUpTo now seq => exact (holds.discardUpTo done).1
  | update list =>
    obtain ⟨⟨b₁, sacked⟩, updated, rfl⟩ := map_eq_some_iff.mp done
    exact holds.flagged (update_flagged updated)
  | addRenoSack => exact holds.flagged (addRenoSack_flagged done)
  | resetRenoSack =>
    cases done
    exact holds.flagged (resetRenoSack_flagged b)
  | setSentListLost resetSack => exact holds.flagged (setSentListLost_flagged done)
  | resetSentList =>
    cases done
    exact holds.resetSentList
  | resetLastSegmentSent =>
    cases done
    exact holds.resetLastSegmentSent
  | markHeadAsLost =>
    cases done
    exact holds.flagged (markHeadAsLost_flagged b)
  | deleteRetransmittedFlagFromHead =>
    exact holds.flagged (deleteRetransmittedFlagFromHead_flagged done)

/-- A buffer that is configured and has not been used. -/
structure Initial (b : TcpTxBuffer) : Prop where
  app : b.appList = []
  sent : b.sentList = []
  size : b.size = 0
  sentSize : b.sentSize = 0
  lostOut : b.lostOut = 0
  sackedOut : b.sackedOut = 0
  retrans : b.retrans = 0
  limit : b.maxBuffer < 2 ^ 32

theorem Initial.holds (initial : Initial b) : Holds b [] := by
  obtain ⟨app, sent, size, sentSize, -, -, -, limit⟩ := initial
  constructor
  case content =>
    rw [app, sent]
    rfl
  case sentSize =>
    rw [sent, sentSize]
    rfl
  case size => exact size
  case room => omega
  case limit => exact limit
  case filled =>
    rw [app, sent]
    exact nofun
  case placed =>
    rw [sent]
    trivial

/-- The buffers of sockets. -/
abbrev Reachable : TcpTxBuffer → Prop := Machine.Reaches step (fun _ _ => True) Initial

theorem Reachable.holds (reaches : Reachable b) : ∃ bytes, Holds b bytes :=
  reaches.invariant (fun b => ∃ bytes, Holds b bytes) (fun _ initial => ⟨[], initial.holds⟩)
    fun b e _ ⟨bytes, holds⟩ _ done => ⟨b.stream bytes e, step_holds holds done⟩

end TcpTxBuffer

end Ns3.Internet
