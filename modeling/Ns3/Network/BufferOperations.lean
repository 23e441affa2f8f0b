import Ns3.Network.BufferStorage

/-!
# The bytes of a buffer under its operations

The bytes of a buffer are a head and a tail that the storage holds, and the zeros between them.
-/

namespace Ns3.Network.Buffer

open Regions List Option Nat Buffer

/-- What `CheckInternalState` checks, of offsets in 32 bits. -/
structure Checked (d : Data) (b : Buffer) : Prop where
  start_le : b.start ≤ b.zeroAreaStart
  zero_le : b.zeroAreaStart ≤ b.zeroAreaEnd
  le_end : b.zeroAreaEnd ≤ b.end_
  small : b.end_ < 4294967296
  dirtyStart_le : d.dirtyStart ≤ b.start
  le_dirtyEnd : b.end_ ≤ d.dirtyEnd
  inside : b.zeroAreaStart + (b.end_ - b.zeroAreaEnd) ≤ d.size

def headSize (b : Buffer) : Nat := b.zeroAreaStart - b.start

def zeroSize (b : Buffer) : Nat := b.zeroAreaEnd - b.zeroAreaStart

def tailSize (b : Buffer) : Nat := b.end_ - b.zeroAreaEnd

/-- Where the bytes end in the storage. -/
def internalEnd (b : Buffer) : Nat := b.zeroAreaStart + (b.end_ - b.zeroAreaEnd)

structure Parts where
  head : List UInt8
  zeros : Nat
  tail : List UInt8

def Parts.bytes (p : Parts) : List UInt8 := p.head ++ List.replicate p.zeros 0 ++ p.tail

def partsIn (f : Nat → UInt8) (b : Buffer) : Parts :=
  ⟨slice f b.start b.headSize, b.zeroSize, slice f b.zeroAreaStart b.tailSize⟩

def parts (h : Heap) (b : Buffer) : Parts :=
  match h.data b.data with
  | some d => partsIn d.data b
  | none => ⟨[], 0, []⟩

/-- **Validity** of a heap with these buffers. The buffer that may grow in place at the end ends
last in its storage. -/
structure Valid (h : Heap) (owners : List Buffer) : Prop where
  tidy : Tidy h (owners.map data)
  checked : ∀ b ∈ owners, ∀ d, h.data b.data = some d → Checked d b
  last : ∀ x ∈ owners, ∀ y ∈ owners, ∀ d, h.data x.data = some d → y.data = x.data →
    x.end_ = d.dirtyEnd → y.internalEnd ≤ x.internalEnd

/-- Every byte that no buffer shows is `x`. -/
structure Blank (h : Heap) (owners : List Buffer) (x : UInt8) : Prop where
  garbage : ∀ a i, h.garbage a i = x
  filled : ∀ a d, h.data a = some d → ∀ i,
    (∀ r ∈ owners, r.data = a → i < r.start ∨ r.internalEnd ≤ i) → d.data i = x

/-- The heap after an operation on `b`, which the other buffers do not notice. -/
structure Leaves (h h' : Heap) (b : Buffer) (rest : List Buffer) : Prop where
  valid : Valid h' (b :: rest)
  frame : ∀ r ∈ rest, parts h' r = parts h r

def Alone (b : Buffer) (rest : List Buffer) : Prop := b.data ∉ rest.map data

/-- The buffer grows by `n` bytes. -/
structure Grows (h h' : Heap) (b b' : Buffer) (rest : List Buffer) (n : Nat) : Prop where
  leaves : Leaves h h' b' rest
  alone : Alone b rest → Alone b' rest
  end_le : b'.end_ ≤ b.end_ + n
  recommended : h'.recommendedStart = h.recommendedStart

variable {h h' : Heap} {b b' : Buffer} {owners rest : List Buffer} {d d' : Data} {n : Nat}

theorem Blank.stale {x : UInt8} (blank : Blank h owners x) :
    Stale h (owners.map data) x where
  garbage := blank.garbage
  filled a unused d at_ i := blank.filled a d at_ i fun r mem same =>
    absurd (same ▸ List.mem_map_of_mem mem) unused

theorem parts_eq (at_ : h.data b.data = some d) : parts h b = partsIn d.data b := by rw [parts, at_]

@[simp] theorem raiseMax_data : b.raiseMax.data = b.data := rfl

@[simp] theorem raiseMax_start : b.raiseMax.start = b.start := rfl

@[simp] theorem raiseMax_end : b.raiseMax.end_ = b.end_ := rfl

@[simp] theorem raiseMax_zeroAreaStart : b.raiseMax.zeroAreaStart = b.zeroAreaStart := rfl

@[simp] theorem raiseMax_zeroAreaEnd : b.raiseMax.zeroAreaEnd = b.zeroAreaEnd := rfl

@[simp] theorem partsIn_raiseMax {f : Nat → UInt8} : partsIn f b.raiseMax = partsIn f b := rfl

theorem Checked.getInternalSize_eq (ok : Checked d b) :
    b.getInternalSize = b.headSize + b.tailSize := by
  obtain ⟨start_le, zero_le, le_end, small, -, -, -⟩ := ok
  unfold getInternalSize headSize tailSize sub32 u32
  omega

theorem Checked.getInternalEnd_eq (ok : Checked d b) : b.getInternalEnd = b.internalEnd := by
  obtain ⟨start_le, zero_le, le_end, small, -, -, -⟩ := ok
  unfold getInternalEnd internalEnd sub32
  omega

theorem Checked.getSize_eq (ok : Checked d b) : b.getSize = b.end_ - b.start := by
  obtain ⟨start_le, zero_le, le_end, small, -, -, -⟩ := ok
  exact sub32_eq (by omega) small

theorem Parts.length_bytes (p : Parts) :
    p.bytes.length = p.head.length + p.zeros + p.tail.length := by simp [Parts.bytes, add_assoc]

theorem Checked.length_bytes (ok : Checked d b) {f : Nat → UInt8} :
    (partsIn f b).bytes.length = b.end_ - b.start := by
  obtain ⟨start_le, zero_le, le_end, small, -, -, -⟩ := ok
  rw [Parts.length_bytes]
  simp only [partsIn, length_slice, headSize, zeroSize, tailSize]
  omega

namespace Valid

theorem perm (valid : Valid h owners) {owners' : List Buffer} (perm : owners.Perm owners') :
    Valid h owners' where
  tidy := valid.tidy.perm (perm.map _)
  checked b mem := valid.checked b (perm.mem_iff.mpr mem)
  last x x_mem y y_mem := valid.last x (perm.mem_iff.mpr x_mem) y (perm.mem_iff.mpr y_mem)

theorem live (valid : Valid h owners) (mem : b ∈ owners) : ∃ d, h.data b.data = some d :=
  valid.tidy.live _ (List.mem_map_of_mem mem)

theorem count_pos (valid : Valid h (b :: rest)) (at_ : h.data b.data = some d) : 1 ≤ d.count := by
  rw [valid.tidy.counted _ d at_, map_cons, count_cons_self]
  exact succ_pos _

theorem alone (valid : Valid h (b :: rest)) (at_ : h.data b.data = some d) (one : d.count ≤ 1) :
    Alone b rest := by
  rw [valid.tidy.counted _ d at_, map_cons, count_cons_self] at one
  exact count_eq_zero.mp (by omega)

theorem empty (garbage : Nat → Nat → UInt8) (recommendedStart : Nat) :
    Valid (Heap.empty garbage recommendedStart) [] where
  tidy := ⟨nofun, nofun, nofun, nofun, nodup_nil, fun _ _ => rfl⟩
  checked := nofun
  last := nofun

/-- The buffer changes in its storage, and the dirty area gets no smaller if that is shared. -/
theorem inPlace (valid : Valid h (b :: rest)) (at_ : h.data b.data = some d)
    (same : b'.data = b.data) (count : d'.count = d.count) (size : d'.size = d.size)
    (bytes : d'.data = d.data) (checked : Checked d' b')
    (wider : ¬ Alone b rest → d'.dirtyStart ≤ d.dirtyStart ∧ d.dirtyEnd ≤ d'.dirtyEnd)
    (last : ∀ r ∈ rest, r.data = b.data → (b'.end_ = d'.dirtyEnd → r.internalEnd ≤ b'.internalEnd) ∧
      (r.end_ = d'.dirtyEnd → b'.internalEnd ≤ r.internalEnd)) :
    Leaves h (h.put b.data d') b' rest := by
  have shared {r : Buffer} (mem : r ∈ rest) (there : r.data = b.data) : ¬ Alone b rest :=
    fun alone => alone (there ▸ List.mem_map_of_mem mem)
  have below {r : Buffer} (mem : r ∈ rest) (there : r.data = b.data) : Checked d r :=
    valid.checked r (mem_cons_of_mem b mem) d (there ▸ at_)
  refine ⟨⟨?_, ?_, ?_⟩, ?_⟩
  · rw [map_cons, same]
    exact valid.tidy.put mem_cons_self at_ count size
  · intro r mem e there
    rcases mem_cons.mp mem with rfl | mem
    · rw [same, Heap.data_put_self] at there
      cases there
      exact checked
    · rw [Heap.data_put] at there
      split at there
      case isTrue here =>
        cases there
        obtain ⟨start_le, zero_le, le_end, small, dirtyStart_le, le_dirtyEnd, inside⟩ :=
          below mem here
        obtain ⟨starts, ends⟩ := wider (shared mem here)
        exact ⟨start_le, zero_le, le_end, small, starts.trans dirtyStart_le,
          le_dirtyEnd.trans ends, size ▸ inside⟩
      case isFalse => exact valid.checked r (mem_cons_of_mem b mem) e there
  · intro x x_mem y y_mem e there y_same ends
    rcases mem_cons.mp x_mem with rfl | x_rest
    · rw [same, Heap.data_put_self] at there
      cases there
      rcases mem_cons.mp y_mem with rfl | y_rest
      · exact le_refl _
      · exact (last y y_rest (y_same.trans same)).1 ends
    · rw [Heap.data_put] at there
      split at there
      case isTrue here =>
        cases there
        rcases mem_cons.mp y_mem with rfl | y_rest
        · exact (last x x_rest here).2 ends
        · have wide := (wider (shared x_rest here)).2
          have x_end := (below x_rest here).le_dirtyEnd
          exact valid.last x (mem_cons_of_mem b x_rest) y (mem_cons_of_mem b y_rest) d
            (here ▸ at_) y_same (by omega)
      case isFalse other =>
        rcases mem_cons.mp y_mem with rfl | y_rest
        · exact absurd (y_same.symm.trans same) other
        · exact valid.last x (mem_cons_of_mem b x_rest) y (mem_cons_of_mem b y_rest) e
            there y_same ends
  · intro r mem
    by_cases here : r.data = b.data
    · have after : (h.put b.data d').data r.data = some d' := by simp [here]
      have before : h.data r.data = some d := by rw [here, at_]
      rw [parts_eq after, parts_eq before, bytes]
    · unfold parts
      rw [Heap.data_put_of_ne here]

theorem relocate (valid : Valid h owners) (fewer : ∀ r ∈ rest, r ∈ owners)
    (tidy : Tidy h' ((b :: rest).map data)) (kept : Recounted h h' (rest.map data))
    (alone : Alone b rest) (checked : ∀ d, h'.data b.data = some d → Checked d b) :
    Leaves h h' b rest := by
  have before {r : Buffer} {e : Data} (mem : r ∈ rest) (there : h'.data r.data = some e) :
      ∃ d, h.data r.data = some d ∧ ∃ n, e = { d with count := n } := by
    obtain ⟨d, at_⟩ := valid.live (fewer r mem)
    obtain ⟨n, at'⟩ := kept r.data (List.mem_map_of_mem mem) d at_
    exact ⟨d, at_, n, Option.some.inj (there.symm.trans at')⟩
  have apart {r : Buffer} (mem : r ∈ rest) : r.data ≠ b.data :=
    fun same => alone (same ▸ List.mem_map_of_mem mem)
  refine ⟨⟨tidy, ?_, ?_⟩, ?_⟩
  · intro r mem e there
    rcases mem_cons.mp mem with rfl | mem
    · exact checked e there
    · obtain ⟨d, at_, n, rfl⟩ := before mem there
      exact { valid.checked r (fewer r mem) d at_ with }
  · intro x x_mem y y_mem e there y_same ends
    rcases mem_cons.mp x_mem with rfl | x_rest
    · rcases mem_cons.mp y_mem with rfl | y_rest
      · exact le_refl _
      · exact absurd y_same (apart y_rest)
    · rcases mem_cons.mp y_mem with rfl | y_rest
      · exact absurd y_same.symm (apart x_rest)
      · obtain ⟨d, at_, n, rfl⟩ := before x_rest there
        exact valid.last x (fewer x x_rest) y (fewer y y_rest) d at_ y_same ends
  · intro r mem
    obtain ⟨d, at_⟩ := valid.live (fewer r mem)
    obtain ⟨n, at'⟩ := kept r.data (List.mem_map_of_mem mem) d at_
    rw [parts_eq at_, parts_eq at']

/-- The bytes of a buffer go to a new storage, and it lets go of the old one. -/
theorem copyOver (valid : Valid h (b :: rest)) (at_ : h.data b.data = some d) {size offset : Nat}
    (enough : offset + (b.headSize + b.tailSize) ≤ size) (room : size + 120 ≤ 4294967296) :
    ∃ h₁ a h₂ h₃ d', h.create size = some (h₁, a) ∧
      h₁.read b.data b.start (b.headSize + b.tailSize) =
        some (slice d.data b.start (b.headSize + b.tailSize)) ∧
      h₁.write a offset (slice d.data b.start (b.headSize + b.tailSize)) = some h₂ ∧
      h₂.release b.data = some h₃ ∧ h₃.data a = some d' ∧ size ≤ d'.size ∧
      slice d'.data offset (b.headSize + b.tailSize) =
        slice d.data b.start (b.headSize + b.tailSize) ∧
      a ∉ (b :: rest).map data ∧ (∀ b' d'', b'.data = a → d''.count = d'.count →
        d''.size = d'.size → Checked d'' b' → Leaves h (h₃.put a d'') b' rest) ∧
      h₃.recommendedStart = h.recommendedStart ∧
      ∀ x, Stale h ((b :: rest).map data) x →
        ∀ i, offset + (b.headSize + b.tailSize) ≤ i → d'.data i = x := by
  have ok := valid.checked b mem_cons_self d at_
  obtain ⟨h₁, a, e, created, tidy, unused, there, least, same, start, stale⟩ :=
    valid.tidy.create room
  have b_mem : b.data ∈ (b :: rest).map data := mem_cons_self
  have ne : b.data ≠ a := ne_of_mem_of_not_mem b_mem unused
  have at₁ : h₁.data b.data = some d := (same _ b_mem).trans at_
  let bytes := slice d.data b.start (b.headSize + b.tailSize)
  have length : bytes.length = b.headSize + b.tailSize := length_slice
  let e' : Data := { e with data := patch e.data offset bytes }
  have tidy₂ : Tidy (h₁.put a e') (a :: (b :: rest).map data) :=
    tidy.put mem_cons_self there rfl rfl
  obtain ⟨h₃, released, tidy₃, start₃, recounted⟩ :=
    (tidy₂.perm (List.Perm.swap b.data a _)).release
  obtain ⟨n, at₃⟩ := recounted a mem_cons_self e' Heap.data_put_self
  have fresh : a ∉ rest.map data := fun mem => unused (mem_cons_of_mem _ mem)
  refine ⟨h₁, a, h₁.put a e', h₃, _, created, ?_, ?_, released, at₃, least, ?_, unused, ?_,
    start₃.trans start, fun x filled i past => ?_⟩
  · have inside : b.headSize + b.tailSize = 0 ∨ b.start + (b.headSize + b.tailSize) ≤ d.size := by
      right
      have start_le := ok.start_le
      have last := ok.inside
      unfold headSize tailSize
      omega
    simp only [Heap.read, at₁, bind_eq_bind, bind_some]
    rw [guard_some inside]
    rfl
  · have inside : bytes.length = 0 ∨ offset + bytes.length ≤ e.size := by
      right
      omega
    simp only [Heap.write, there, bind_eq_bind, bind_some]
    rw [guard_some inside]
    rfl
  · have back : slice (patch e.data offset bytes) offset bytes.length = bytes := slice_patch
    rw [length] at back
    exact back
  · rintro b' d'' rfl count size checked
    refine valid.relocate (fun r => mem_cons_of_mem b)
      (tidy₃.put mem_cons_self at₃ count size) ?_ fresh ?_
    · intro a' mem f at_'
      have ne' := ne_of_mem_of_not_mem mem fresh
      rw [Heap.data_put_of_ne ne']
      apply recounted a' (mem_cons_of_mem _ mem)
      rw [Heap.data_put_of_ne ne', same a' (mem_cons_of_mem _ mem)]
      exact at_'
    · intro e there
      rw [Heap.data_put_self] at there
      cases there
      exact checked
  · exact (patch_outside (.inr (length.symm ▸ past))).trans (stale x filled i)

end Valid

/-- An offset in a storage whose window starts elsewhere. -/
theorem u32_moved {s x k : Nat} (le : s ≤ x) (small : x < 4294967296)
    (room : k + (x - s) < 4294967296) : u32 (x + sub32 k s) = k + (x - s) := by
  unfold u32 sub32
  omega

theorem Checked.zeroAreaStart_eq (ok : Checked d b) : b.start + b.headSize = b.zeroAreaStart :=
  add_sub_of_le ok.start_le

theorem Checked.window_eq (ok : Checked d b) :
    b.headSize + b.zeroSize + b.tailSize = b.end_ - b.start := by
  obtain ⟨start_le, zero_le, le_end, -, -, -, -⟩ := ok
  unfold headSize zeroSize tailSize
  omega

theorem Checked.move_eq (ok : Checked d b) (a : Nat) {k : Nat}
    (room : k + (b.end_ - b.start) < 4294967296) :
    b.move a (sub32 k b.start) = ⟨a, b.maxZeroAreaStart, k + b.headSize,
      k + b.headSize + b.zeroSize, k, k + b.headSize + b.zeroSize + b.tailSize⟩ := by
  obtain ⟨start_le, zero_le, le_end, small, -, -, -⟩ := ok
  unfold move headSize zeroSize tailSize
  rw [u32_moved start_le (by omega) (by omega), u32_moved (by omega) (by omega) (by omega),
    u32_moved (le_refl b.start) (by omega) (by omega), u32_moved (by omega) small room]
  simp only [mk.injEq, true_and]
  omega

/-- **Room at the start.** -/
theorem Valid.addAtStart (valid : Valid h (b :: rest))
    (room : b.end_ - b.start + n + 120 ≤ 4294967296) :
    ∃ h' b' fresh, addAtStart h b n = some (h', b') ∧ Grows h h' b b' rest n ∧
      fresh.length = n ∧
      parts h' b' = ⟨fresh ++ (parts h b).head, (parts h b).zeros, (parts h b).tail⟩ ∧
      ∀ r ∈ rest, r.data = b'.data → b'.start + n ≤ r.start := by
  obtain ⟨d, at_⟩ := valid.live mem_cons_self
  have ok := valid.checked b mem_cons_self d at_
  have sizes := ok.getInternalSize_eq
  have head_eq := ok.zeroAreaStart_eq
  have one := valid.count_pos at_
  have dirty := ok.dirtyStart_le
  have window := ok.window_eq
  by_cases stays : b.start ≥ n ∧ ¬ (d.count > 1 ∧ b.start > d.dirtyStart)
  · obtain ⟨space, clean⟩ := stays
    have check : d.count = 1 ∨ b.start = d.dirtyStart := by omega
    have shared : ¬ Alone b rest → b.start = d.dirtyStart := by
      intro shared
      have several := mt (valid.alone at_) shared
      omega
    let b' := { b with start := b.start - n }.raiseMax
    let d' := { d with dirtyStart := b.start - n }
    have leaves : Leaves h (h.put b.data d') b' rest := by
      refine valid.inPlace at_ rfl rfl rfl rfl ?_ ?_ ?_
      · obtain ⟨start_le, zero_le, le_end, small, -, le_dirtyEnd, inside⟩ := ok
        exact ⟨(sub_le _ _).trans start_le, zero_le, le_end, small, le_refl _,
          le_dirtyEnd, inside⟩
      · intro several
        exact ⟨(sub_le _ _).trans (le_of_eq (shared several)), le_refl _⟩
      · intro r mem same
        have old := valid.last
        exact ⟨old b mem_cons_self r (mem_cons_of_mem b mem) d at_ same,
          old r (mem_cons_of_mem b mem) b mem_cons_self d (same ▸ at_) same.symm⟩
    refine ⟨h.put b.data d', b', slice d.data (b.start - n) n, ?_,
      ⟨leaves, id, le_add_right _ _, rfl⟩, length_slice, ?_, ?_⟩
    · simp only [Buffer.addAtStart, at_, bind_eq_bind, bind_some]
      rw [if_pos ⟨space, clean⟩, guard_some check]
      rfl
    · have there : (h.put b.data d').data b'.data = some d' := Heap.data_put_self
      rw [parts_eq there, parts_eq at_]
      have head : b'.headSize = n + b.headSize := by
        have start_le := ok.start_le
        show b.zeroAreaStart - (b.start - n) = n + (b.zeroAreaStart - b.start)
        omega
      have back : b.start - n + n = b.start := Nat.sub_add_cancel space
      have grown : slice d.data (b.start - n) (n + b.headSize) =
          slice d.data (b.start - n) n ++ slice d.data b.start b.headSize := by rw [slice_add, back]
      rw [partsIn, head]
      exact congrArg (fun x => Parts.mk x b.zeroSize (slice d.data b.zeroAreaStart b.tailSize))
        grown
    · intro r mem same
      have several : ¬ Alone b rest := fun alone => alone (same ▸ List.mem_map_of_mem mem)
      have starts := (valid.checked r (mem_cons_of_mem b mem) d (same ▸ at_)).dirtyStart_le
      show b.start - n + n ≤ r.start
      rw [Nat.sub_add_cancel space, shared several]
      exact starts
  · have enough : n + (b.headSize + b.tailSize) ≤ b.headSize + b.tailSize + n :=
      le_of_eq (add_comm _ _)
    obtain ⟨h₁, a, h₂, h₃, d₃, created, read, written, released, at₃, least, copied, unused,
      relocated, start, stale⟩ := valid.copyOver at_ enough (by omega)
    have fresh : a ∉ rest.map data := fun mem => unused (mem_cons_of_mem _ mem)
    have moved := ok.move_eq a (show n + (b.end_ - b.start) < 4294967296 by omega)
    let b' : Buffer := ⟨a, max b.maxZeroAreaStart (n + b.headSize), n + b.headSize,
      n + b.headSize + b.zeroSize, 0, n + b.headSize + b.zeroSize + b.tailSize⟩
    let d' := { d₃ with dirtyStart := 0, dirtyEnd := b'.end_ }
    have checked : Checked d' b' := by
      refine ⟨zero_le _, le_add_right _ _, le_add_right _ _, ?_, le_refl _,
        le_refl _, ?_⟩
      · show n + b.headSize + b.zeroSize + b.tailSize < 4294967296
        omega
      · show n + b.headSize + (n + b.headSize + b.zeroSize + b.tailSize -
          (n + b.headSize + b.zeroSize)) ≤ d₃.size
        omega
    have leaves : Leaves h (h₃.put a d') b' rest := relocated b' d' rfl rfl rfl checked
    refine ⟨h₃.put a d', b', slice d₃.data 0 n, ?_, ⟨leaves, fun _ => fresh, ?_, start⟩,
      length_slice, ?_, ?_⟩
    · have small : u32 (b.headSize + b.tailSize + n) = b.headSize + b.tailSize + n :=
        u32_eq (by omega)
      simp only [Buffer.addAtStart, at_, bind_eq_bind, bind_some]
      rw [if_neg stays, sizes, small, created]
      simp only [bind_some, read, written, released, at₃, moved]
      rw [sub32_eq (Nat.le_refl n) (by omega), Nat.sub_self]
      rfl
    · show n + b.headSize + b.zeroSize + b.tailSize ≤ b.end_ + n
      omega
    · have there : (h₃.put a d').data b'.data = some d' := Heap.data_put_self
      rw [parts_eq there, parts_eq at_]
      obtain ⟨heads, tails⟩ := slice_split copied
      rw [head_eq] at tails
      have head : b'.headSize = n + b.headSize := rfl
      have zeros : b'.zeroSize = b.zeroSize := Nat.add_sub_cancel_left _ _
      have tail : b'.tailSize = b.tailSize := Nat.add_sub_cancel_left _ _
      have grown : slice d₃.data 0 (n + b.headSize) =
          slice d₃.data 0 n ++ slice d.data b.start b.headSize := by simp [slice_add, heads]
      rw [partsIn, head, zeros, tail]
      exact congrArg₂ (fun x y => Parts.mk x b.zeroSize y) grown tails
    · intro r mem same
      have there : r.data ∈ rest.map data := List.mem_map_of_mem mem
      rw [same] at there
      exact absurd there fresh

/-- Whether `AddAtEnd` stays in the storage. -/
def Stays (d : Data) (b : Buffer) (n : Nat) : Prop :=
  b.internalEnd + n ≤ d.size ∧ ¬ (d.count > 1 ∧ b.end_ < d.dirtyEnd)

/-- **Room at the end.** -/
theorem Valid.addAtEnd (valid : Valid h (b :: rest)) (at_ : h.data b.data = some d)
    (room : b.end_ + n + 120 ≤ 4294967296) :
    ∃ h' b' fresh, addAtEnd h b n = some (h', b') ∧ Grows h h' b b' rest n ∧
      fresh.length = n ∧
      parts h' b' = ⟨(parts h b).head, (parts h b).zeros, (parts h b).tail ++ fresh⟩ ∧
      (Stays d b n → b'.data = b.data) ∧ (¬ Stays d b n → Alone b' (b :: rest)) ∧
      (∀ r ∈ rest, r.data = b'.data → r.internalEnd + n ≤ b'.internalEnd) ∧
      ∀ x, Blank h (b :: rest) x → fresh = List.replicate n x := by
  have ok := valid.checked b mem_cons_self d at_
  have sizes := ok.getInternalSize_eq
  have head_eq := ok.zeroAreaStart_eq
  have one := valid.count_pos at_
  have dirty := ok.le_dirtyEnd
  have last_le : b.internalEnd ≤ b.end_ := by
    obtain ⟨start_le, zero_le, le_end, -, -, -, -⟩ := ok
    unfold internalEnd
    omega
  have window := ok.window_eq
  have small : u32 (b.internalEnd + n) = b.internalEnd + n := u32_eq (by omega)
  have end_small : u32 (b.end_ + n) = b.end_ + n := u32_eq (by omega)
  by_cases stays : Stays d b n
  · obtain ⟨space, clean⟩ := stays
    have check : d.count = 1 ∨ b.end_ = d.dirtyEnd := by omega
    have shared : ¬ Alone b rest → b.end_ = d.dirtyEnd := by
      intro shared
      have several := mt (valid.alone at_) shared
      omega
    have apart {r : Buffer} (mem : r ∈ rest) (same : r.data = b.data) : ¬ Alone b rest :=
      fun alone => alone (same ▸ List.mem_map_of_mem mem)
    have before {r : Buffer} (mem : r ∈ rest) (same : r.data = b.data) :
        r.internalEnd ≤ b.internalEnd :=
      valid.last b mem_cons_self r (mem_cons_of_mem b mem) d at_ same (shared (apart mem same))
    let b' := { b with end_ := b.end_ + n }.raiseMax
    let d' := { d with dirtyEnd := b.end_ + n }
    have further : b'.internalEnd = b.internalEnd + n := by
      have le_end := ok.le_end
      show b.zeroAreaStart + (b.end_ + n - b.zeroAreaEnd) =
        b.zeroAreaStart + (b.end_ - b.zeroAreaEnd) + n
      omega
    have leaves : Leaves h (h.put b.data d') b' rest := by
      refine valid.inPlace at_ rfl rfl rfl rfl ?_ ?_ ?_
      · obtain ⟨start_le, zero_le, le_end, -, dirtyStart_le, -, -⟩ := ok
        refine ⟨start_le, zero_le, le_end.trans (le_add_right _ _), ?_, dirtyStart_le,
          le_refl _, ?_⟩
        · show b.end_ + n < 4294967296
          omega
        · show b'.internalEnd ≤ d.size
          rw [further]
          exact space
      · intro several
        exact ⟨le_refl _, (shared several) ▸ le_add_right _ _⟩
      · intro r mem same
        rw [further]
        refine ⟨fun _ => (before mem same).trans (le_add_right _ _), fun ends => ?_⟩
        have r_end := (valid.checked r (mem_cons_of_mem b mem) d (same ▸ at_)).le_dirtyEnd
        have b_end := shared (apart mem same)
        replace ends : r.end_ = b.end_ + n := ends
        have nothing : n = 0 := by omega
        rw [nothing, add_zero]
        exact valid.last r (mem_cons_of_mem b mem) b mem_cons_self d (same ▸ at_)
          same.symm (by omega)
    refine ⟨h.put b.data d', b', slice d.data b.internalEnd n, ?_,
      ⟨leaves, id, le_refl _, rfl⟩, length_slice, ?_, fun _ => rfl,
      fun moves => absurd ⟨space, clean⟩ moves, ?_, fun x blank => ?_⟩
    · rw [Buffer.addAtEnd, at_, bind_eq_bind, bind_some, ok.getInternalEnd_eq,
        small, end_small, if_pos ⟨space, clean⟩, guard_some check]
      rfl
    · have there : (h.put b.data d').data b'.data = some d' := Heap.data_put_self
      rw [parts_eq there, parts_eq at_]
      have tail : b'.tailSize = b.tailSize + n := Nat.sub_add_comm ok.le_end
      have grown : slice d.data b.zeroAreaStart (b.tailSize + n) =
          slice d.data b.zeroAreaStart b.tailSize ++ slice d.data b.internalEnd n := slice_add
      rw [partsIn, tail]
      exact congrArg (Parts.mk (slice d.data b.start b.headSize) b.zeroSize) grown
    · intro r mem same
      rw [further]
      exact Nat.add_le_add_right (before mem same) n
    · apply slice_constant
      intro i from_ below
      apply blank.filled b.data d at_
      intro r mem same
      rcases mem_cons.mp mem with rfl | mem
      · exact .inr from_
      · exact .inr ((before mem same).trans from_)
  · have enough : 0 + (b.headSize + b.tailSize) ≤ b.headSize + b.tailSize + n := by omega
    obtain ⟨h₁, a, h₂, h₃, d₃, created, read, written, released, at₃, least, copied, unused,
      relocated, start, stale⟩ := valid.copyOver at_ enough (by omega)
    have fresh : a ∉ rest.map data := fun mem => unused (mem_cons_of_mem _ mem)
    have moved := ok.move_eq a (show 0 + (b.end_ - b.start) < 4294967296 by omega)
    rw [zero_add] at moved
    let b' : Buffer := ⟨a, max b.maxZeroAreaStart b.headSize, b.headSize,
      b.headSize + b.zeroSize, 0, b.headSize + b.zeroSize + b.tailSize + n⟩
    let d' := { d₃ with dirtyStart := 0, dirtyEnd := b'.end_ }
    have ends : b'.tailSize = b.tailSize + n := by
      show b.headSize + b.zeroSize + b.tailSize + n - (b.headSize + b.zeroSize) = b.tailSize + n
      omega
    have last : b'.internalEnd = b.headSize + b.tailSize + n := by
      show b.headSize + b'.tailSize = b.headSize + b.tailSize + n
      rw [ends, add_assoc]
    have checked : Checked d' b' := by
      refine ⟨zero_le _, le_add_right _ _, ?_, ?_, le_refl _, le_refl _, ?_⟩
      · exact (le_add_right _ _).trans (le_add_right _ _)
      · show b.headSize + b.zeroSize + b.tailSize + n < 4294967296
        omega
      · show b'.internalEnd ≤ d₃.size
        rw [last]
        exact least
    have leaves : Leaves h (h₃.put a d') b' rest := relocated b' d' rfl rfl rfl checked
    have placed : u32 (b.headSize + b.zeroSize + b.tailSize + n) =
        b.headSize + b.zeroSize + b.tailSize + n := u32_eq (by omega)
    have size_small : u32 (b.headSize + b.tailSize + n) = b.headSize + b.tailSize + n :=
      u32_eq (by omega)
    refine ⟨h₃.put a d', b', slice d₃.data (b.headSize + b.tailSize) n, ?_,
      ⟨leaves, fun _ => fresh, ?_, start⟩, length_slice, ?_, fun now => absurd now stays,
      fun _ => unused, ?_, fun x blank => ?_⟩
    · rw [Buffer.addAtEnd, at_, bind_eq_bind, bind_some, ok.getInternalEnd_eq, small,
        if_neg (show ¬ (b.internalEnd + n ≤ d.size ∧
          ¬ (d.count > 1 ∧ b.end_ < d.dirtyEnd)) from stays),
        sizes, size_small, created]
      simp only [bind_eq_bind, bind_some, read, written, released, at₃, moved]
      rw [placed]
      rfl
    · show b.headSize + b.zeroSize + b.tailSize + n ≤ b.end_ + n
      omega
    · have there : (h₃.put a d').data b'.data = some d' := Heap.data_put_self
      rw [parts_eq there, parts_eq at_]
      obtain ⟨heads, tails⟩ := slice_split copied
      rw [zero_add, head_eq] at tails
      have head : b'.headSize = b.headSize := rfl
      have zeros : b'.zeroSize = b.zeroSize := Nat.add_sub_cancel_left _ _
      have grown : slice d₃.data b.headSize (b.tailSize + n) =
          slice d.data b.zeroAreaStart b.tailSize ++ slice d₃.data (b.headSize + b.tailSize) n := by
        rw [slice_add, tails]
      rw [partsIn, head, zeros, ends]
      exact congrArg₂ (fun x y => Parts.mk x b.zeroSize y) heads grown
    · intro r mem same
      have there : r.data ∈ rest.map data := List.mem_map_of_mem mem
      rw [same] at there
      exact absurd there fresh
    · apply slice_constant
      intro i from_ _
      exact stale x blank.stale i ((Nat.zero_add _).symm ▸ from_)

/-- **A new buffer** of zeros. -/
theorem Valid.initializeBuffer (valid : Valid h owners)
    (room : h.recommendedStart + n + 120 ≤ 4294967296) :
    ∃ h' b, initializeBuffer h n = some (h', b) ∧ Leaves h h' b owners ∧ Alone b owners ∧
      parts h' b = ⟨[], n, []⟩ ∧ b.end_ ≤ h.recommendedStart + n ∧
      h'.recommendedStart = h.recommendedStart := by
  obtain ⟨h₁, a, d, created, tidy, fresh, there, -, same, start, -⟩ :=
    valid.tidy.create (show 0 + 120 ≤ 4294967296 by decide)
  obtain ⟨first, first_eq⟩ : ∃ first, first = min d.size h.recommendedStart := ⟨_, rfl⟩
  have least : first ≤ h.recommendedStart := first_eq ▸ min_le_right _ _
  have inside : first ≤ d.size := first_eq ▸ min_le_left _ _
  have end_small : first + n < 4294967296 := by omega
  have small : u32 (first + n) = first + n := u32_eq end_small
  let b : Buffer := ⟨a, first, first, first + n, first, first + n⟩
  let d' : Data := { d with dirtyStart := first, dirtyEnd := first + n }
  have checked : Checked d' b :=
    ⟨le_refl _, le_add_right _ _, le_refl _, end_small, le_refl _, le_refl _,
      (Nat.add_le_add_left (Nat.le_of_eq (Nat.sub_self _)) first).trans inside⟩
  have tidy' : Tidy (h₁.put a d') (a :: owners.map data) :=
    tidy.put mem_cons_self there rfl rfl
  have leaves : Leaves h (h₁.put a d') b owners := by
    refine valid.relocate (fun r mem => mem) tidy' ?_ fresh ?_
    · intro a' mem e before
      refine ⟨e.count, ?_⟩
      rw [Heap.data_put_of_ne (ne_of_mem_of_not_mem mem fresh), same a' mem]
      exact before
    · intro e now
      rw [Heap.data_put_self] at now
      cases now
      exact checked
  refine ⟨h₁.put a d', b, ?_, leaves, fresh, ?_, Nat.add_le_add_right least n, start⟩
  · simp only [Buffer.initializeBuffer, created, bind_eq_bind, bind_some, there, start]
    rw [← first_eq, small]
    rfl
  · have now : (h₁.put a d').data b.data = some d' := Heap.data_put_self
    rw [parts_eq now]
    have head : b.headSize = 0 := Nat.sub_self _
    have zeros : b.zeroSize = n := Nat.add_sub_cancel_left _ _
    have tail : b.tailSize = 0 := Nat.sub_self _
    simp [partsIn, head, zeros, tail]

/-- Bytes are written where no other buffer looks. -/
theorem Valid.write (valid : Valid h (b :: rest)) (at_ : h.data b.data = some d) {p : Nat}
    {bytes : List UInt8} (inside : p + bytes.length ≤ d.size)
    (apart : ∀ r ∈ rest, r.data = b.data → r.internalEnd ≤ p ∨ p + bytes.length ≤ r.start) :
    ∃ h', h.write b.data p bytes = some h' ∧
      h'.data b.data = some { d with data := patch d.data p bytes } ∧ Leaves h h' b rest ∧
      h'.recommendedStart = h.recommendedStart := by
  let d' : Data := { d with data := patch d.data p bytes }
  have checks {r : Buffer} {e : Data} (mem : r ∈ b :: rest) (same : r.data = b.data)
      (there : (h.put b.data d').data r.data = some e) : Checked d r ∧ e = d' := by
    rw [same, Heap.data_put_self] at there
    cases there
    exact ⟨valid.checked r mem d (same ▸ at_), rfl⟩
  refine ⟨h.put b.data d', ?_, Heap.data_put_self, ⟨⟨?_, ?_, ?_⟩, ?_⟩, rfl⟩
  · have inside' : bytes.length = 0 ∨ p + bytes.length ≤ d.size := .inr inside
    simp only [Heap.write, at_, bind_eq_bind, bind_some]
    rw [guard_some inside']
    rfl
  · exact valid.tidy.put mem_cons_self at_ rfl rfl
  · intro r mem e there
    by_cases same : r.data = b.data
    · obtain ⟨⟨start_le, zero_le, le_end, small, dirtyStart_le, le_dirtyEnd, last⟩, rfl⟩ :=
        checks mem same there
      exact ⟨start_le, zero_le, le_end, small, dirtyStart_le, le_dirtyEnd, last⟩
    · rw [Heap.data_put_of_ne same] at there
      exact valid.checked r mem e there
  · intro x x_mem y y_mem e there y_same ends
    by_cases same : x.data = b.data
    · obtain ⟨-, rfl⟩ := checks x_mem same there
      exact valid.last x x_mem y y_mem d (same ▸ at_) y_same ends
    · rw [Heap.data_put_of_ne same] at there
      exact valid.last x x_mem y y_mem e there y_same ends
  · intro r mem
    by_cases same : r.data = b.data
    · have before : h.data r.data = some d := same ▸ at_
      have after : (h.put b.data d').data r.data = some d' := by simp [same]
      have ok := valid.checked r (mem_cons_of_mem b mem) d before
      have head_eq := ok.zeroAreaStart_eq
      have outside := apart r mem same
      have last : r.internalEnd = r.zeroAreaStart + r.tailSize := rfl
      rw [parts_eq before, parts_eq after]
      unfold partsIn
      rw [slice_patch_outside (by omega), slice_patch_outside (by omega)]
    · rw [parts, parts, Heap.data_put_of_ne same]

theorem Checked.zeroAreaEnd_eq (ok : Checked d b) : b.zeroAreaStart + b.zeroSize = b.zeroAreaEnd :=
  add_sub_of_le ok.zero_le

theorem Checked.end_eq (ok : Checked d b) : b.zeroAreaEnd + b.tailSize = b.end_ :=
  add_sub_of_le ok.le_end

/-- **The head is overwritten** from its start. -/
theorem Valid.writeHead (valid : Valid h (b :: rest)) {bytes old head : List UInt8}
    (length : old.length = bytes.length) (begins : (parts h b).head = old ++ head)
    (apart : ∀ r ∈ rest, r.data = b.data → b.start + bytes.length ≤ r.start) :
    ∃ h', b.beginIterator.CheckNoZero b.start bytes.length ∧
      b.beginIterator.CheckNoZero b.start (u32 (b.start + bytes.length)) ∧
      h.write b.data b.beginIterator.place bytes = some h' ∧ Leaves h h' b rest ∧
      parts h' b = ⟨bytes ++ head, (parts h b).zeros, (parts h b).tail⟩ ∧
      h'.recommendedStart = h.recommendedStart := by
  obtain ⟨d, at_⟩ := valid.live mem_cons_self
  have ok := valid.checked b mem_cons_self d at_
  have head_eq := ok.zeroAreaStart_eq
  have zero_eq := ok.zeroAreaEnd_eq
  have end_eq := ok.end_eq
  have small := ok.small
  have inside := ok.inside
  rw [parts_eq at_] at begins ⊢
  have size : b.headSize = bytes.length + head.length := by
    have lengths := congrArg List.length begins
    rw [length_append, length] at lengths
    exact (length_slice).symm.trans lengths
  have place : b.beginIterator.place = b.start := if_pos ok.start_le
  obtain ⟨h', written, there, leaves, start⟩ :=
    valid.write at_ (show b.start + bytes.length ≤ d.size by omega)
      fun r mem same => .inr (apart r mem same)
  have end_small : u32 (b.start + bytes.length) = b.start + bytes.length := u32_eq (by omega)
  have clear {e : Nat} (e_le : e ≤ b.start + bytes.length) :
      b.beginIterator.CheckNoZero b.start e := by
    intro failed
    rcases failed with before | after | ⟨past, -, -, -⟩
    · exact lt_irrefl _ before
    · have after' : e > b.end_ := after
      omega
    · have past' : e > b.zeroAreaStart := past
      omega
  refine ⟨h', clear (le_add_left _ _), clear (le_of_eq end_small), place.symm ▸ written,
    leaves, ?_, start⟩
  rw [parts_eq there]
  have kept : slice d.data (b.start + bytes.length) head.length = head := by
    have split : slice d.data b.start (bytes.length + head.length) = old ++ head := by
      rw [← size]
      exact begins
    rw [slice_add] at split
    exact (append_inj split (by simp [length])).2
  have now : slice (patch d.data b.start bytes) b.start b.headSize = bytes ++ head := by
    rw [size, slice_add, slice_patch, slice_patch_outside (.inr (le_refl _)), kept]
  have tail : slice (patch d.data b.start bytes) b.zeroAreaStart b.tailSize =
      slice d.data b.zeroAreaStart b.tailSize := slice_patch_outside (.inr (by omega))
  rw [partsIn, now, tail]
  rfl

/-- **The tail is overwritten** up to its end. -/
theorem Valid.writeTail (valid : Valid h (b :: rest)) {bytes old tail : List UInt8}
    (length : old.length = bytes.length) (ends : (parts h b).tail = tail ++ old)
    (apart : ∀ r ∈ rest, r.data = b.data → r.internalEnd + bytes.length ≤ b.internalEnd) :
    ∃ h', b.endIterator.prev bytes.length = some (b.iteratorAt (b.end_ - bytes.length)) ∧
      (b.iteratorAt (b.end_ - bytes.length)).CheckNoZero (b.end_ - bytes.length) bytes.length ∧
      (b.iteratorAt (b.end_ - bytes.length)).CheckNoZero (b.end_ - bytes.length)
        (u32 (b.end_ - bytes.length + bytes.length)) ∧
      h.write b.data (b.iteratorAt (b.end_ - bytes.length)).place bytes = some h' ∧
      Leaves h h' b rest ∧
      parts h' b = ⟨(parts h b).head, (parts h b).zeros, tail ++ bytes⟩ ∧
      h'.recommendedStart = h.recommendedStart := by
  obtain ⟨d, at_⟩ := valid.live mem_cons_self
  have ok := valid.checked b mem_cons_self d at_
  have head_eq := ok.zeroAreaStart_eq
  have zero_eq := ok.zeroAreaEnd_eq
  have end_eq := ok.end_eq
  have small := ok.small
  have inside := ok.inside
  have last : b.internalEnd = b.zeroAreaStart + b.tailSize := rfl
  rw [parts_eq at_] at ends ⊢
  have size : b.tailSize = tail.length + bytes.length := by
    have lengths := congrArg List.length ends
    rw [length_append, length] at lengths
    exact (length_slice).symm.trans lengths
  let i : Iterator := b.iteratorAt (b.end_ - bytes.length)
  have place : i.place = b.zeroAreaStart + tail.length := by
    show (if b.end_ - bytes.length ≤ b.zeroAreaStart then b.end_ - bytes.length
      else sub32 (b.end_ - bytes.length) (sub32 b.zeroAreaEnd b.zeroAreaStart)) = _
    unfold sub32
    split <;> omega
  obtain ⟨h', written, there, leaves, start⟩ :=
    valid.write at_ (show b.zeroAreaStart + tail.length + bytes.length ≤ d.size by omega)
      fun r mem same => .inl (by have := apart r mem same; omega)
  have end_small : u32 (b.end_ - bytes.length + bytes.length) = b.end_ := by
    rw [u32_eq (by omega)]
    omega
  have clear {e : Nat} (e_le : e ≤ b.end_) : i.CheckNoZero (b.end_ - bytes.length) e := by
    intro failed
    rcases failed with before | after | ⟨-, behind, -, -⟩
    · have before' : b.end_ - bytes.length < b.start := before
      omega
    · have after' : e > b.end_ := after
      omega
    · have behind' : b.end_ - bytes.length < b.zeroAreaEnd := behind
      omega
  refine ⟨h', ?_, clear (by omega), clear (le_of_eq end_small), place.symm ▸ written, leaves,
    ?_, start⟩
  · have enough : b.endIterator.current ≥ bytes.length := by
      show b.end_ ≥ bytes.length
      omega
    rw [Iterator.prev, guard_some enough]
    rfl
  · rw [parts_eq there]
    have kept : slice d.data b.zeroAreaStart tail.length = tail := by
      have split : slice d.data b.zeroAreaStart (tail.length + bytes.length) = tail ++ old := by
        rw [← size]
        exact ends
      rw [slice_add] at split
      exact (append_inj split length_slice).1
    have now : slice (patch d.data (b.zeroAreaStart + tail.length) bytes) b.zeroAreaStart
        b.tailSize = tail ++ bytes := by
      rw [size, slice_add, slice_patch, slice_patch_outside (.inl (le_refl _)), kept]
    have head : slice (patch d.data (b.zeroAreaStart + tail.length) bytes) b.start b.headSize =
        slice d.data b.start b.headSize := slice_patch_outside (.inl (by omega))
    rw [partsIn, now, head]
    rfl

theorem Checked.readHead (ok : Checked d b) (at_ : h.data b.data = some d) :
    h.read b.data b.start (sub32 b.zeroAreaStart b.start) = some (parts h b).head := by
  have inside := ok.inside
  have end_eq := ok.end_eq
  have head_eq := ok.zeroAreaStart_eq
  have size : sub32 b.zeroAreaStart b.start = b.headSize :=
    sub32_eq ok.start_le (by have := ok.zero_le; have := ok.le_end; have := ok.small; omega)
  have room : b.headSize = 0 ∨ b.start + b.headSize ≤ d.size := .inr (by omega)
  rw [size, Heap.read, at_, bind_eq_bind, bind_some, guard_some room, parts_eq at_]
  rfl

theorem Checked.readTail (ok : Checked d b) (at_ : h.data b.data = some d) :
    h.read b.data b.zeroAreaStart (sub32 b.end_ b.zeroAreaEnd) = some (parts h b).tail := by
  have inside := ok.inside
  have end_eq := ok.end_eq
  have size : sub32 b.end_ b.zeroAreaEnd = b.tailSize := sub32_eq ok.le_end ok.small
  have room : b.tailSize = 0 ∨ b.zeroAreaStart + b.tailSize ≤ d.size := .inr (by omega)
  rw [size, Heap.read, at_, bind_eq_bind, bind_some, guard_some room, parts_eq at_]
  rfl

theorem Valid.readHead (valid : Valid h owners) (mem : b ∈ owners) :
    h.read b.data b.start (sub32 b.zeroAreaStart b.start) = some (parts h b).head := by
  obtain ⟨d, at_⟩ := valid.live mem
  exact (valid.checked b mem d at_).readHead at_

theorem Valid.readTail (valid : Valid h owners) (mem : b ∈ owners) :
    h.read b.data b.zeroAreaStart (sub32 b.end_ b.zeroAreaEnd) = some (parts h b).tail := by
  obtain ⟨d, at_⟩ := valid.live mem
  exact (valid.checked b mem d at_).readTail at_

theorem Checked.sizes (ok : Checked d b) (at_ : h.data b.data = some d) :
    sub32 b.zeroAreaStart b.start = (parts h b).head.length ∧
      sub32 b.zeroAreaEnd b.zeroAreaStart = (parts h b).zeros ∧
      sub32 b.end_ b.zeroAreaEnd = (parts h b).tail.length := by
  obtain ⟨start_le, zero_le, le_end, small, -, -, -⟩ := ok
  rw [parts_eq at_]
  simp only [partsIn, length_slice]
  exact ⟨sub32_eq start_le (by omega), sub32_eq zero_le (by omega), sub32_eq le_end small⟩

theorem Iterator.write_eq {i : Iterator} {bytes : List UInt8}
    (check : i.CheckNoZero i.current bytes.length)
    (written : h.write i.data i.place bytes = some h') :
    i.write h bytes = some (h', { i with current := u32 (i.current + bytes.length) }) := by
  rw [Iterator.write, guard_some check, bind_eq_bind, bind_some, written]
  rfl

theorem Valid.writeBegin (valid : Valid h (b :: rest)) {bytes old head : List UInt8}
    (length : old.length = bytes.length) (begins : (parts h b).head = old ++ head)
    (apart : ∀ r ∈ rest, r.data = b.data → b.start + bytes.length ≤ r.start) :
    ∃ h' i, b.beginIterator.write h bytes = some (h', i) ∧ Leaves h h' b rest ∧
      parts h' b = ⟨bytes ++ head, (parts h b).zeros, (parts h b).tail⟩ ∧
      h'.recommendedStart = h.recommendedStart := by
  obtain ⟨h', check, -, written, leaves, now, start⟩ := valid.writeHead length begins apart
  exact ⟨h', _, Iterator.write_eq check written, leaves, now, start⟩

theorem Valid.writeU8Begin (valid : Valid h (b :: rest)) {old head : List UInt8} (data : UInt8)
    (length : old.length = n) (begins : (parts h b).head = old ++ head)
    (apart : ∀ r ∈ rest, r.data = b.data → b.start + n ≤ r.start) :
    ∃ h' i, b.beginIterator.writeU8 h data n = some (h', i) ∧ Leaves h h' b rest ∧
      parts h' b = ⟨List.replicate n data ++ head, (parts h b).zeros, (parts h b).tail⟩ ∧
      h'.recommendedStart = h.recommendedStart := by
  have same : (List.replicate n data).length = n := length_replicate
  obtain ⟨h', -, check, written, leaves, now, start⟩ :=
    valid.writeHead (length.trans same.symm) begins (same.symm ▸ apart)
  rw [same] at check
  refine ⟨h', { b.beginIterator with current := u32 (b.start + n) }, ?_, leaves, now, start⟩
  have check' : b.beginIterator.CheckNoZero b.beginIterator.current
    (u32 (b.beginIterator.current + n)) := check
  have written' : h.write b.beginIterator.data b.beginIterator.place (List.replicate n data) =
    some h' := written
  rw [Iterator.writeU8, guard_some check', bind_eq_bind, bind_some, written']
  rfl

theorem Valid.writeEnd (valid : Valid h (b :: rest)) {bytes old tail : List UInt8}
    (length : old.length = bytes.length) (ends : (parts h b).tail = tail ++ old)
    (apart : ∀ r ∈ rest, r.data = b.data → r.internalEnd + bytes.length ≤ b.internalEnd) :
    ∃ i h' i', b.endIterator.prev bytes.length = some i ∧ i.write h bytes = some (h', i') ∧
      Leaves h h' b rest ∧
      parts h' b = ⟨(parts h b).head, (parts h b).zeros, tail ++ bytes⟩ ∧
      h'.recommendedStart = h.recommendedStart := by
  obtain ⟨h', back, check, -, written, leaves, now, start⟩ := valid.writeTail length ends apart
  exact ⟨_, h', _, back, Iterator.write_eq check written, leaves, now, start⟩

theorem Alone.apart (alone : Alone b rest) {P : Buffer → Prop} :
    ∀ r ∈ rest, r.data = b.data → P r :=
  fun _ mem same => absurd (same ▸ List.mem_map_of_mem mem) alone

theorem Valid.size_eq (valid : Valid h (b :: rest)) :
    b.end_ - b.start = (parts h b).bytes.length := by
  obtain ⟨d, at_⟩ := valid.live mem_cons_self
  rw [parts_eq at_, (valid.checked b mem_cons_self d at_).length_bytes]

end Ns3.Network.Buffer
