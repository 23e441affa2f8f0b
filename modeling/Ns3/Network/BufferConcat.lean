import Ns3.Network.BufferCopy

/-!
# Buffers put one behind the other
-/

namespace Ns3.Network.Buffer

open Regions List Option

/-- `AddAtEnd(const Buffer&)`, of another buffer. -/
def addAtEndBuffer (h : Heap) (b o : Buffer) : Option (Heap × Buffer) := do
  let d ← h.data b.data
  if d.count = 1 ∧ (b.end_ = b.zeroAreaEnd ∨ b.zeroAreaStart = b.zeroAreaEnd) ∧
      b.end_ = d.dirtyEnd ∧ o.start = o.zeroAreaStart ∧
      sub32 o.zeroAreaEnd o.zeroAreaStart > 0 then
    let zeroAreaStart := if b.zeroAreaStart = b.zeroAreaEnd then b.end_ else b.zeroAreaStart
    let zeroSize := sub32 o.zeroAreaEnd o.zeroAreaStart
    let zeroAreaEnd := u32 (b.end_ + zeroSize)
    let b := { b with zeroAreaStart, zeroAreaEnd, end_ := zeroAreaEnd }
    let h := h.put b.data { d with dirtyEnd := b.zeroAreaEnd }
    let endData := sub32 o.end_ o.zeroAreaEnd
    let (h, b) ← addAtEnd h b endData
    let dst ← b.endIterator.prev endData
    let src ← o.endIterator.prev endData
    let (h, _) ← dst.writeRange h src o.endIterator
    return (h, b)
  else
    let (h, b) ← transformIntoRealBuffer h b
    let (h, b) ← addAtEnd h b o.getSize
    let destStart ← b.endIterator.prev o.getSize
    let (h, _) ← destStart.writeRange h o.beginIterator o.endIterator
    return (h, b)

variable {h h' : Heap} {b o : Buffer} {owners rest : List Buffer} {d e : Data} {a a' p n : Nat}
  {bytes : List UInt8} {i : Iterator}

@[simp] theorem Heap.put_put : (h.put a d).put a e = h.put a e := by simp [Heap.put]

theorem Heap.put_eq (at_ : h.data a = some d) : h.put a d = h := by
  unfold Heap.put
  simp [← at_]

theorem Heap.read_put_of_ne (ne : a' ≠ a) : (h.put a d).read a' p n = h.read a' p n := by
  unfold Heap.read
  rw [Heap.data_put_of_ne ne]

theorem Heap.write_eq (at_ : h.data a = some d)
    (inside : bytes.length = 0 ∨ p + bytes.length ≤ d.size) :
    h.write a p bytes = some (h.put a { d with data := patch d.data p bytes }) := by
  rw [Heap.write, at_, bind_eq_bind, bind_some, guard_some inside]
  rfl

/-- **A whole buffer is written** to another storage, at the offset of the iterator. -/
theorem Valid.writeRange (valid : Valid h owners) (mem : o ∈ owners) (at_ : h.data i.data = some e)
    (other : i.data ≠ o.data)
    (check : i.CheckNoZero i.current (u32 (i.current + (parts h o).bytes.length)))
    (inside : i.current + (parts h o).bytes.length ≤ e.size) (sized : e.size < 4294967296) :
    ∃ i', i.writeRange h o.beginIterator o.endIterator =
      some (h.put i.data { e with data := patch e.data i.current (parts h o).bytes }, i') := by
  obtain ⟨d, there⟩ := valid.live mem
  have ok := valid.checked o mem d there
  obtain ⟨head_size, zeros_size, tail_size⟩ := ok.sizes there
  have readHead := valid.readHead mem
  have readTail := valid.readTail mem
  have length := (parts h o).length_bytes
  have window : o.end_ - o.start = (parts h o).bytes.length := by
    rw [parts_eq there, ok.length_bytes]
  obtain ⟨start_le, zero_le, le_end, small, -, -, -⟩ := ok
  rw [head_size] at readHead
  rw [tail_size] at readTail
  have head_eq : (parts h o).head.length = o.zeroAreaStart - o.start := by
    rw [← head_size, sub32_eq start_le (by omega)]
  have zeros_eq : (parts h o).zeros = o.zeroAreaEnd - o.zeroAreaStart := by
    rw [← zeros_size, sub32_eq zero_le (by omega)]
  have bytes_eq : (parts h o).bytes =
      (parts h o).head ++ List.replicate (parts h o).zeros 0 ++ (parts h o).tail := rfl
  generalize parts h o = p at *
  have size : sub32 o.end_ o.start = p.bytes.length := by rw [sub32_eq (by omega) small, window]
  have left₁ : sub32 p.bytes.length p.head.length = p.zeros + p.tail.length := by
    rw [sub32_eq (by omega) (by omega)]
    omega
  have left₂ : sub32 (p.zeros + p.tail.length) p.zeros = p.tail.length := by
    rw [sub32_eq (by omega) (by omega)]
    omega
  have reached₁ : u32 (o.start + p.head.length) = o.zeroAreaStart := by
    rw [u32_eq (by omega)]
    omega
  have reached₂ : u32 (o.zeroAreaStart + p.zeros) = o.zeroAreaEnd := by
    rw [u32_eq (by omega)]
    omega
  have source : sub32 o.zeroAreaEnd p.zeros = o.zeroAreaStart := by
    rw [sub32_eq (by omega) (by omega)]
    omega
  have placed₁ : u32 (i.current + p.head.length) = i.current + p.head.length := u32_eq (by omega)
  have placed₂ : u32 (i.current + p.head.length + p.zeros) = i.current + p.head.length + p.zeros :=
    u32_eq (by omega)
  have less₁ : min p.bytes.length p.head.length = p.head.length := Nat.min_eq_right (by omega)
  have less₂ : min (p.zeros + p.tail.length) p.zeros = p.zeros :=
    Nat.min_eq_right (Nat.le_add_right _ _)
  let f₁ := patch e.data i.current p.head
  let f₂ := patch f₁ (i.current + p.head.length) (List.replicate p.zeros 0)
  let f₃ := patch f₂ (i.current + p.head.length + p.zeros) p.tail
  have whole : f₃ = patch e.data i.current p.bytes := by
    have zeros_length : (List.replicate p.zeros (0 : UInt8)).length = p.zeros := length_replicate
    have second : f₂ = patch e.data i.current (p.head ++ List.replicate p.zeros 0) := patch_patch
    have third : i.current + p.head.length + p.zeros =
        i.current + (p.head ++ List.replicate p.zeros (0 : UInt8)).length := by simp [Nat.add_assoc]
    show patch f₂ (i.current + p.head.length + p.zeros) p.tail = _
    rw [second, third, patch_patch, bytes_eq]
  have write₁ : h.write i.data i.current p.head = some (h.put i.data { e with data := f₁ }) :=
    Heap.write_eq at_ (.inr (by omega))
  have again {f : Nat → UInt8} {q : Nat} {ys : List UInt8} (room : q + ys.length ≤ e.size) :
      (h.put i.data { e with data := f }).write i.data q ys =
        some (h.put i.data { e with data := patch f q ys }) := by
    have now : (h.put i.data { e with data := f }).data i.data = some { e with data := f } :=
      Heap.data_put_self
    simp [Heap.write_eq now (.inr room)]
  have write₂ : (h.put i.data { e with data := f₁ }).write i.data (i.current + p.head.length)
      (List.replicate p.zeros 0) = some (h.put i.data { e with data := f₂ }) :=
    again (by
      rw [length_replicate]
      omega)
  have write₃ : (h.put i.data { e with data := f₂ }).write i.data
      (i.current + p.head.length + p.zeros) p.tail = some (h.put i.data { e with data := f₃ }) :=
    again (by omega)
  have last : (h.put i.data { e with data := f₂ }).read o.data o.zeroAreaStart p.tail.length =
      some p.tail := by
    rw [Heap.read_put_of_ne (Ne.symm other)]
    exact readTail
  rw [← whole]
  refine ⟨{ i with current := u32 (i.current + p.head.length + p.zeros + p.tail.length) }, ?_⟩
  have order : o.start ≤ o.end_ := by omega
  have forth₁ : o.beginIterator.current ≤ o.beginIterator.zeroStart := start_le
  rw [Iterator.writeRange, guard_some (show o.beginIterator.data = o.endIterator.data from rfl),
    guard_some (show o.beginIterator.current ≤ o.endIterator.current from order),
    guard_some (show o.beginIterator.zeroStart = o.endIterator.zeroStart from rfl),
    guard_some (show o.beginIterator.zeroEnd = o.endIterator.zeroEnd from rfl),
    guard_some (show i.data ≠ o.beginIterator.data from other)]
  simp only [bind_eq_bind, bind_some]
  simp only [beginIterator, endIterator, iteratorAt, size]
  rw [guard_some check]
  simp only [bind_some, start_le, if_true, head_size, less₁, readHead, write₁,
    Iterator.advance, placed₁, reached₁, left₁, Option.pure_def, zero_le, zeros_size, less₂, write₂,
    placed₂, reached₂, left₂, tail_size, Nat.min_self, source, last, write₃]

/-- The branch of two zero areas that come together. -/
def Adjacent (d : Data) (b o : Buffer) : Prop :=
  d.count = 1 ∧ (b.end_ = b.zeroAreaEnd ∨ b.zeroAreaStart = b.zeroAreaEnd) ∧
    b.end_ = d.dirtyEnd ∧ o.start = o.zeroAreaStart ∧ o.zeroAreaStart < o.zeroAreaEnd

/-- **When the buffers are joined:** nothing comes behind the second of two zero areas; and
otherwise the bytes do not stay in a storage that both buffers have. -/
def Joins (d : Data) (b o : Buffer) : Prop :=
  (Adjacent d b o → o.end_ = o.zeroAreaEnd) ∧
    (¬ Adjacent d b o → b.zeroAreaStart ≠ b.zeroAreaEnd ∨ b.data ≠ o.data ∨
      ¬ Stays d b (o.end_ - o.start))

/-- The offsets of the result are in 32 bits. -/
structure Room (h : Heap) (b o : Buffer) : Prop where
  inPlace : b.end_ + (o.end_ - o.start) + 120 ≤ 4294967296
  copied : h.recommendedStart + (b.end_ - b.start) + (o.end_ - o.start) + 120 ≤ 4294967296

/-- What `AddAtEnd` is for. -/
def Concatenates (h : Heap) (b o : Buffer) : Prop :=
  ∃ h' b', addAtEndBuffer h b o = some (h', b') ∧
    (parts h' b').bytes = (parts h b).bytes ++ (parts h o).bytes ∧ parts h' o = parts h o

theorem Checked.adjacent_iff (ok : Checked e o) :
    (d.count = 1 ∧ (b.end_ = b.zeroAreaEnd ∨ b.zeroAreaStart = b.zeroAreaEnd) ∧
      b.end_ = d.dirtyEnd ∧ o.start = o.zeroAreaStart ∧
      sub32 o.zeroAreaEnd o.zeroAreaStart > 0) ↔ Adjacent d b o := by
  have zero_le := ok.zero_le
  have small := ok.small
  have le_end := ok.le_end
  unfold Adjacent
  rw [sub32_eq zero_le (by omega)]
  have positive : o.zeroAreaEnd - o.zeroAreaStart > 0 ↔ o.zeroAreaStart < o.zeroAreaEnd := by omega
  rw [positive]

theorem place_of_together (together : b.zeroAreaStart = b.zeroAreaEnd) (k : Nat)
    (small : k < 4294967296) : (b.iteratorAt k).place = k := by
  unfold iteratorAt Iterator.place sub32
  dsimp only
  split <;> omega

theorem Valid.concatenates_copied (valid : Valid h (b :: o :: rest))
    (at_ : h.data b.data = some d) (room : Room h b o) (apart : ¬ Adjacent d b o)
    (ok : b.zeroAreaStart ≠ b.zeroAreaEnd ∨ b.data ≠ o.data ∨ ¬ Stays d b (o.end_ - o.start)) :
    Concatenates h b o := by
  obtain ⟨in_place, copied⟩ := room
  have o_mem : o ∈ b :: o :: rest := mem_cons_of_mem b mem_cons_self
  obtain ⟨e, o_at⟩ := valid.live o_mem
  have o_ok := valid.checked o o_mem e o_at
  have o_size : o.getSize = o.end_ - o.start := o_ok.getSize_eq
  have o_bytes : (parts h o).bytes.length = o.end_ - o.start := by
    rw [parts_eq o_at, o_ok.length_bytes]
  obtain ⟨h₁, c, real, leaves₁, bytes₁, together, cases₁⟩ :=
    valid.transformIntoRealBuffer at_ (by omega)
  obtain ⟨f, c_at⟩ := leaves₁.valid.live mem_cons_self
  have c_end : c.end_ + (o.end_ - o.start) + 120 ≤ 4294967296 := by
    split at cases₁
    · rw [cases₁.1]
      exact in_place
    · have := cases₁.2
      omega
  obtain ⟨h₂, c', fresh, grown, grows, fresh_length, parts₂, stays, moves, beyond, -⟩ :=
    leaves₁.valid.addAtEnd c_at c_end
  have other : c'.data ≠ o.data := by
    intro same
    have there : o.data ∈ (o :: rest).map Buffer.data := mem_cons_self
    split at cases₁
    case isFalse => exact grows.alone cases₁.1 (same ▸ there)
    case isTrue none_ =>
      obtain ⟨rfl, b_at⟩ := cases₁
      cases c_at.symm.trans b_at
      rcases ok with some_ | different | leaves
      · exact some_ none_
      · by_cases now : Stays d b (o.end_ - o.start)
        · exact different ((stays now).symm.trans same)
        · exact moves now (mem_cons_of_mem _ (same ▸ there))
      · exact moves leaves (mem_cons_of_mem _ (same ▸ there))
  have o_parts : parts h₂ o = parts h o := by
    rw [grows.leaves.frame o mem_cons_self, leaves₁.frame o mem_cons_self]
  have n_eq : (parts h₂ o).bytes.length = o.end_ - o.start := by rw [o_parts, o_bytes]
  obtain ⟨h₃, back, -, check, written, leaves₃, parts₃, -⟩ :=
    @Valid.writeTail _ _ _ grows.leaves.valid (parts h₂ o).bytes fresh (parts h₁ c).tail
      (fresh_length.trans n_eq.symm) (by rw [parts₂]) (n_eq.symm ▸ beyond)
  obtain ⟨g, g_at⟩ := grows.leaves.valid.live mem_cons_self
  have g_ok := grows.leaves.valid.checked c' mem_cons_self g g_at
  have together' : c'.zeroAreaStart = c'.zeroAreaEnd := by
    have zeros : (parts h₂ c').zeros = (parts h₁ c).zeros := by rw [parts₂]
    rw [parts_eq g_at, parts_eq c_at] at zeros
    have none_left : c'.zeroAreaEnd - c'.zeroAreaStart = c.zeroAreaEnd - c.zeroAreaStart := zeros
    have zero_le := g_ok.zero_le
    omega
  have inside := g_ok.inside
  have small := g_ok.small
  have sized := grows.leaves.valid.tidy.sized c'.data g g_at
  have window := grows.leaves.valid.size_eq
  rw [parts₂, Parts.length_bytes] at window
  simp only [length_append, fresh_length] at window
  obtain ⟨i', ranged⟩ :=
    @Valid.writeRange _ _ _ _ (c'.iteratorAt (c'.end_ - (parts h₂ o).bytes.length))
      grows.leaves.valid (mem_cons_of_mem c' mem_cons_self) g_at other check
      (by
        show c'.end_ - (parts h₂ o).bytes.length + (parts h₂ o).bytes.length ≤ g.size
        omega) (by omega)
  have place := place_of_together together' (c'.end_ - (parts h₂ o).bytes.length) (by omega)
  rw [place, Heap.write_eq g_at (.inr (by omega))] at written
  have done : (c'.iteratorAt (c'.end_ - (parts h₂ o).bytes.length)).writeRange h₂
      o.beginIterator o.endIterator = some (h₃, i') := by
    rw [← Option.some.inj written]
    exact ranged
  refine ⟨h₃, c', ?_, ?_, ?_⟩
  · rw [addAtEndBuffer, at_, bind_eq_bind, bind_some,
      if_neg (o_ok.adjacent_iff.not.mpr apart), real, bind_eq_bind, bind_some]
    rw [n_eq] at back done
    simp only [o_size, grown, bind_eq_bind, bind_some, back, done]
    rfl
  · rw [parts₃, parts₂, o_parts, ← bytes₁]
    simp [Parts.bytes]
  · rw [leaves₃.frame o mem_cons_self, o_parts]

theorem guard_none {p : Prop} [Decidable p] (fails : ¬ p) : (guard p : Option Unit) = none :=
  if_neg fails

/-- The general branch fails where the bytes stay in a storage that both buffers have. -/
theorem Valid.addAtEndBuffer_shared (valid : Valid h (b :: o :: rest))
    (at_ : h.data b.data = some d) (room : Room h b o) (apart : ¬ Adjacent d b o)
    (none_ : b.zeroAreaStart = b.zeroAreaEnd) (shared : b.data = o.data)
    (stays : Stays d b (o.end_ - o.start)) : addAtEndBuffer h b o = none := by
  obtain ⟨in_place, copied⟩ := room
  have o_mem : o ∈ b :: o :: rest := mem_cons_of_mem b mem_cons_self
  obtain ⟨e, o_at⟩ := valid.live o_mem
  have o_ok := valid.checked o o_mem e o_at
  have o_size : o.getSize = o.end_ - o.start := o_ok.getSize_eq
  have order : o.start ≤ o.end_ := o_ok.start_le.trans (o_ok.zero_le.trans o_ok.le_end)
  obtain ⟨h₁, c, real, leaves₁, -, -, cases₁⟩ := valid.transformIntoRealBuffer at_ (by omega)
  rw [if_pos none_] at cases₁
  obtain ⟨rfl, b_at⟩ := cases₁
  obtain ⟨h₂, c', fresh, grown, grows, fresh_length, parts₂, remains, -, beyond, -⟩ :=
    leaves₁.valid.addAtEnd b_at in_place
  have same : c'.data = o.data := (remains stays).trans shared
  obtain ⟨-, back, -⟩ :=
    @Valid.writeTail _ _ _ grows.leaves.valid fresh fresh _ rfl (by rw [parts₂])
      (fresh_length.symm ▸ beyond)
  rw [fresh_length] at back
  have refused : (c'.iteratorAt (c'.end_ - (o.end_ - o.start))).writeRange h₂ o.beginIterator
      o.endIterator = none := by
    have own : ¬ (c'.iteratorAt (c'.end_ - (o.end_ - o.start))).data ≠ o.beginIterator.data :=
      fun ne => ne same
    rw [Iterator.writeRange, guard_some (show o.beginIterator.data = o.endIterator.data from rfl),
      guard_some (show o.beginIterator.current ≤ o.endIterator.current from order),
      guard_some (show o.beginIterator.zeroStart = o.endIterator.zeroStart from rfl),
      guard_some (show o.beginIterator.zeroEnd = o.endIterator.zeroEnd from rfl), guard_none own]
    rfl
  rw [addAtEndBuffer, at_, bind_eq_bind, bind_some,
    if_neg (o_ok.adjacent_iff.not.mpr apart), real, bind_eq_bind, bind_some]
  simp only [o_size, grown, bind_eq_bind, bind_some, back, refused]
  rfl

/-- The zero area of `b` with `zeros` more, and nothing behind it. -/
def extended (b : Buffer) (zeros : Nat) : Buffer :=
  { b with
    zeroAreaStart := if b.zeroAreaStart = b.zeroAreaEnd then b.end_ else b.zeroAreaStart
    zeroAreaEnd := b.end_ + zeros
    end_ := b.end_ + zeros }

theorem Valid.extend (valid : Valid h (b :: rest)) (at_ : h.data b.data = some d)
    (one : d.count = 1) (edge : b.end_ = b.zeroAreaEnd ∨ b.zeroAreaStart = b.zeroAreaEnd)
    (room : b.end_ + n < 4294967296) :
    Leaves h (h.put b.data { d with dirtyEnd := b.end_ + n }) (b.extended n) rest ∧
      (b.extended n).Alone rest ∧
      (parts (h.put b.data { d with dirtyEnd := b.end_ + n }) (b.extended n)).bytes =
        (parts h b).bytes ++ List.replicate n 0 ∧
      (b.extended n).zeroAreaStart + n ≤ (b.extended n).end_ ∧
      (parts (h.put b.data { d with dirtyEnd := b.end_ + n }) (b.extended n)).tail = [] ∧
      (b.extended n).internalEnd = b.internalEnd := by
  have alone : Alone b rest := valid.alone at_ (Nat.le_of_eq one)
  have ok := valid.checked b mem_cons_self d at_
  obtain ⟨start_le, zero_le, le_end, small, dirtyStart_le, le_dirtyEnd, inside⟩ := ok
  have from_ : b.start ≤ (b.extended n).zeroAreaStart := by
    unfold extended
    dsimp only
    split <;> omega
  have below : (b.extended n).zeroAreaStart ≤ b.end_ := by
    unfold extended
    dsimp only
    split <;> omega
  have last : (b.extended n).internalEnd = b.internalEnd := by
    unfold internalEnd extended
    dsimp only
    split <;> omega
  let d' : Data := { d with dirtyEnd := b.end_ + n }
  have now : (h.put b.data d').data (b.extended n).data = some d' := Heap.data_put_self
  have leaves : Leaves h (h.put b.data d') (b.extended n) rest := by
    refine valid.inPlace at_ rfl rfl rfl rfl ?_ ?_ ?_
    · have still : (b.extended n).internalEnd ≤ d.size := last.symm ▸ inside
      exact ⟨from_, below.trans (Nat.le_add_right _ _), Nat.le_refl _, room, dirtyStart_le,
        Nat.le_refl _, still⟩
    · exact fun shared => absurd alone shared
    · exact alone.apart
  have tail_size : (b.extended n).tailSize = 0 := Nat.sub_self _
  refine ⟨leaves, alone, ?_, Nat.add_le_add_right below n, ?_, last⟩
  · rw [parts_eq now, parts_eq at_]
    unfold Parts.bytes partsIn
    rw [tail_size, slice_zero, append_nil]
    by_cases none_ : b.zeroAreaStart = b.zeroAreaEnd
    · have zs : (b.extended n).zeroAreaStart = b.end_ := if_pos none_
      have head_size : (b.extended n).headSize = b.headSize + b.tailSize := by
        unfold headSize tailSize
        rw [zs]
        show b.end_ - b.start = _
        omega
      have zeros : (b.extended n).zeroSize = n := by
        unfold zeroSize
        rw [zs]
        exact Nat.add_sub_cancel_left _ _
      have none_left : b.zeroSize = 0 := by
        unfold zeroSize
        omega
      have head_eq := (valid.checked b mem_cons_self d at_).zeroAreaStart_eq
      rw [head_size, zeros, none_left]
      show slice d.data b.start (b.headSize + b.tailSize) ++ _ = _
      rw [slice_add, head_eq]
      simp
    · have ends : b.end_ = b.zeroAreaEnd := edge.resolve_right none_
      have zs : (b.extended n).zeroAreaStart = b.zeroAreaStart := if_neg none_
      have head_size : (b.extended n).headSize = b.headSize := by
        unfold headSize
        rw [zs]
        rfl
      have zeros : (b.extended n).zeroSize = b.zeroSize + n := by
        unfold zeroSize
        rw [zs]
        show b.end_ + n - b.zeroAreaStart = _
        omega
      have no_tail : b.tailSize = 0 := by
        unfold tailSize
        omega
      rw [head_size, zeros, no_tail, slice_zero, append_nil, replicate_add, append_assoc]
      rfl
  · rw [parts_eq now, partsIn, tail_size, slice_zero]

theorem Iterator.advance_zero {size : Nat} (start : Iterator) (i_small : i.current < 4294967296)
    (start_small : start.current < 4294967296) (size_small : size < 4294967296) :
    i.advance start size 0 = (i, start, size) := by
  simp [Iterator.advance, u32_eq i_small, u32_eq start_small, sub32_eq (Nat.zero_le _) size_small]

/-- What comes behind the zeros of `o` is written at the offset of the iterator. -/
theorem Valid.writeRangeTail (valid : Valid h owners) (mem : o ∈ owners)
    (some_ : o.zeroAreaStart < o.zeroAreaEnd) (at_ : h.data i.data = some e)
    (other : i.data ≠ o.data) (small : i.current < 4294967296)
    (check : i.CheckNoZero i.current (u32 (i.current + (parts h o).tail.length))) :
    (i.writeRange h (o.iteratorAt o.zeroAreaEnd) o.endIterator).map Prod.fst =
      h.write i.data i.current (parts h o).tail := by
  obtain ⟨d, there⟩ := valid.live mem
  have ok := valid.checked o mem d there
  obtain ⟨-, zeros_size, tail_size⟩ := ok.sizes there
  have readTail := valid.readTail mem
  rw [tail_size] at readTail
  obtain ⟨start_le, zero_le, le_end, o_small, -, -, -⟩ := ok
  have zeros_eq : (parts h o).zeros = o.zeroAreaEnd - o.zeroAreaStart := by
    rw [← zeros_size, sub32_eq zero_le (by omega)]
  generalize parts h o = p at *
  have none_ : sub32 o.zeroAreaEnd o.zeroAreaEnd = 0 := by
    rw [sub32_eq (Nat.le_refl _) (by omega), Nat.sub_self]
  have tail_small : p.tail.length < 4294967296 := by
    rw [← tail_size, sub32_eq le_end o_small]
    omega
  have still := Iterator.advance_zero (o.iteratorAt o.zeroAreaEnd) small
    (show o.zeroAreaEnd < 4294967296 by omega) tail_small
  have source : sub32 o.zeroAreaEnd p.zeros = o.zeroAreaStart := by
    rw [sub32_eq (by omega) (by omega)]
    omega
  have past : ¬ o.zeroAreaEnd ≤ o.zeroAreaStart := Nat.not_le_of_lt some_
  have nothing : h.write i.data i.current (List.replicate 0 0) = some h := by
    rw [Heap.write_eq at_ (.inl rfl), replicate_zero, patch_nil]
    exact congrArg some (Heap.put_eq at_)
  rw [Iterator.writeRange,
    guard_some (show (o.iteratorAt o.zeroAreaEnd).data = o.endIterator.data from rfl),
    guard_some (show (o.iteratorAt o.zeroAreaEnd).current ≤ o.endIterator.current from le_end),
    guard_some (show (o.iteratorAt o.zeroAreaEnd).zeroStart = o.endIterator.zeroStart from rfl),
    guard_some (show (o.iteratorAt o.zeroAreaEnd).zeroEnd = o.endIterator.zeroEnd from rfl),
    guard_some (show i.data ≠ (o.iteratorAt o.zeroAreaEnd).data from other)]
  simp only [bind_eq_bind, bind_some]
  simp only [endIterator, iteratorAt, tail_size]
  rw [guard_some check]
  rw [iteratorAt] at still
  simp only [bind_some, past, if_false, Option.pure_def, Nat.le_refl, if_true, none_,
    Nat.min_zero, nothing, still, tail_size, Nat.min_self, zeros_size, source, readTail]
  cases h.write i.data i.current p.tail <;> rfl

/-- The branch of two zero areas writes behind both at an offset that counts the zeros. -/
theorem Valid.addAtEndBuffer_adjacent (valid : Valid h (b :: o :: rest))
    (at_ : h.data b.data = some d) (room : Room h b o) (adjacent : Adjacent d b o) :
    ∃ h₂ b₂ fresh, addAtEndBuffer h b o =
        (h₂.write b₂.data b₂.zeroAreaEnd (parts h o).tail).map (fun h₃ => (h₃, b₂)) ∧
      Leaves h h₂ b₂ (o :: rest) ∧ fresh.length = (parts h o).tail.length ∧
      (parts h₂ b₂).bytes = (parts h b).bytes ++ List.replicate (parts h o).zeros 0 ++ fresh ∧
      (parts h₂ b₂).tail = fresh ∧ b₂.zeroAreaStart < b₂.zeroAreaEnd ∧
      ∀ x, Blank h (b :: o :: rest) x → fresh = List.replicate (parts h o).tail.length x := by
  obtain ⟨in_place, -⟩ := room
  have o_mem : o ∈ b :: o :: rest := mem_cons_of_mem b mem_cons_self
  obtain ⟨e, o_at⟩ := valid.live o_mem
  have o_ok := valid.checked o o_mem e o_at
  obtain ⟨-, zeros_size, tail_size⟩ := o_ok.sizes o_at
  have code := o_ok.adjacent_iff.mpr adjacent
  obtain ⟨one, edge, -, starts, some_⟩ := adjacent
  have zeros_eq : (parts h o).zeros = o.zeroAreaEnd - o.zeroAreaStart := by
    rw [parts_eq o_at]
    rfl
  have tail_eq : (parts h o).tail.length = o.end_ - o.zeroAreaEnd := by
    rw [parts_eq o_at]
    exact length_slice
  have o_le := o_ok.le_end
  have o_small := o_ok.small
  have end_small : u32 (b.end_ + (parts h o).zeros) = b.end_ + (parts h o).zeros :=
    u32_eq (by omega)
  have source : o.endIterator.prev (parts h o).tail.length = some (o.iteratorAt o.zeroAreaEnd) := by
    have enough : o.endIterator.current ≥ (parts h o).tail.length := by
      show o.end_ ≥ (parts h o).tail.length
      omega
    have reached : o.end_ - (parts h o).tail.length = o.zeroAreaEnd := by omega
    rw [Iterator.prev, guard_some enough]
    show some (o.iteratorAt (o.end_ - (parts h o).tail.length)) = _
    rw [reached]
  obtain ⟨leaves₁, alone₁, bytes₁, zeros₁, tail₁, last₁⟩ :=
    @Valid.extend _ _ _ _ (parts h o).zeros valid at_ one edge (by omega)
  have end₁ : (b.extended (parts h o).zeros).end_ = b.end_ + (parts h o).zeros := rfl
  have at₁ : (h.put b.data { d with dirtyEnd := b.end_ + (parts h o).zeros }).data
      (b.extended (parts h o).zeros).data =
        some { d with dirtyEnd := b.end_ + (parts h o).zeros } := Heap.data_put_self
  obtain ⟨h₂, b₂, fresh, grown, grows, fresh_length, parts₂, -, -, beyond, blank₂⟩ :=
    @Valid.addAtEnd _ _ _ _ (parts h o).tail.length leaves₁.valid at₁ (by omega)
  have alone₂ := grows.alone alone₁
  have other : b₂.data ≠ o.data := fun same =>
    alone₂ (same ▸ List.mem_map_of_mem mem_cons_self)
  obtain ⟨-, back, -, check, -⟩ :=
    @Valid.writeTail _ _ _ grows.leaves.valid fresh fresh _ rfl (by rw [parts₂])
      (fresh_length.symm ▸ beyond)
  obtain ⟨g, g_at⟩ := grows.leaves.valid.live mem_cons_self
  have g_ok := grows.leaves.valid.checked b₂ mem_cons_self g g_at
  have tail₂ : (parts h₂ b₂).tail = fresh := by simp [parts₂, tail₁]
  have behind : b₂.end_ - (parts h o).tail.length = b₂.zeroAreaEnd := by
    have size := congrArg List.length tail₂
    rw [parts_eq g_at, fresh_length] at size
    have size' : b₂.tailSize = (parts h o).tail.length := length_slice.symm.trans size
    rw [← size', ← g_ok.end_eq, Nat.add_sub_cancel]
  have zeros₂ : b₂.zeroAreaStart < b₂.zeroAreaEnd := by
    have same := congrArg Parts.zeros parts₂
    rw [parts_eq g_at, parts_eq at₁] at same
    have same' : b₂.zeroAreaEnd - b₂.zeroAreaStart = (b.extended (parts h o).zeros).zeroAreaEnd -
        (b.extended (parts h o).zeros).zeroAreaStart := same
    have end_eq : (b.extended (parts h o).zeros).zeroAreaEnd =
      (b.extended (parts h o).zeros).end_ := rfl
    omega
  have o_parts : parts h₂ o = parts h o := by
    rw [grows.leaves.frame o mem_cons_self, leaves₁.frame o mem_cons_self]
  rw [fresh_length, behind] at back check
  have done := @Valid.writeRangeTail _ _ _ _ (b₂.iteratorAt b₂.zeroAreaEnd) grows.leaves.valid
    (mem_cons_of_mem b₂ mem_cons_self) some_ g_at other
    (Nat.lt_of_le_of_lt g_ok.le_end g_ok.small) (o_parts.symm ▸ check)
  refine ⟨h₂, b₂, fresh, ?_, ⟨grows.leaves.valid, fun r mem => ?_⟩, fresh_length, ?_, tail₂, zeros₂,
    fun x blank => ?_⟩
  · rw [addAtEndBuffer, at_, bind_eq_bind, bind_some, if_pos code, zeros_size, tail_size]
    simp only [end_small]
    show (Buffer.addAtEnd (h.put b.data { d with dirtyEnd := b.end_ + (parts h o).zeros })
      (b.extended (parts h o).zeros) (parts h o).tail.length).bind _ = _
    rw [grown, bind_some]
    simp only [back, source, bind_eq_bind, bind_some]
    rw [o_parts] at done
    replace done : _ = h₂.write b₂.data b₂.zeroAreaEnd (parts h o).tail := done
    rw [← done]
    cases (b₂.iteratorAt b₂.zeroAreaEnd).writeRange h₂ (o.iteratorAt o.zeroAreaEnd)
      o.endIterator <;> rfl
  · rw [grows.leaves.frame r mem, leaves₁.frame r mem]
  · rw [← bytes₁, parts₂]
    simp [Parts.bytes]
  · apply blank₂
    refine ⟨blank.garbage, fun a' d' there i clear => ?_⟩
    rw [Heap.data_put] at there
    have clear' : ∀ r ∈ b :: o :: rest, r.data = a' → i < r.start ∨ r.internalEnd ≤ i := by
      intro r mem same
      rcases mem_cons.mp mem with rfl | mem
      · exact last₁ ▸ clear _ mem_cons_self same
      · exact clear r (mem_cons_of_mem _ mem) same
    split at there
    case isTrue here =>
      cases there
      exact blank.filled a' d (here ▸ at_) i clear'
    case isFalse => exact blank.filled a' d' there i clear'

/-- What a storage is but for its bytes. -/
def Data.shape (d : Data) : Nat × Nat × Nat × Nat := (d.count, d.size, d.dirtyStart, d.dirtyEnd)

/-- The heaps differ only in bytes that no buffer shows. -/
structure Alike (h h' : Heap) (owners : List Buffer) : Prop where
  next : h'.next = h.next
  freeList : h'.freeList = h.freeList
  recommendedStart : h'.recommendedStart = h.recommendedStart
  shape : ∀ a, (h'.data a).map Data.shape = (h.data a).map Data.shape
  parts : ∀ r ∈ owners, Buffer.parts h' r = Buffer.parts h r

theorem Alike.refl (h : Heap) (owners : List Buffer) : Alike h h owners :=
  ⟨rfl, rfl, rfl, fun _ => rfl, fun _ _ => rfl⟩

theorem Alike.after (alike : Alike h h' owners) (at_ : h.data a = some d) :
    ∃ f, h'.data a = some { d with data := f } := by
  have same := alike.shape a
  rw [at_] at same
  obtain ⟨⟨count, size, dirtyStart, dirtyEnd, f⟩, there, shape⟩ := map_eq_some_iff.mp same
  obtain ⟨rfl, rfl, rfl, rfl⟩ : count = d.count ∧ size = d.size ∧ dirtyStart = d.dirtyStart ∧
      dirtyEnd = d.dirtyEnd := by simpa [Data.shape] using shape
  exact ⟨f, there⟩

theorem Alike.before (alike : Alike h h' owners) (at_ : h'.data a = some e) :
    ∃ d f, h.data a = some d ∧ e = { d with data := f } := by
  have same := alike.shape a
  rw [at_] at same
  obtain ⟨d, there, -⟩ := map_eq_some_iff.mp same.symm
  obtain ⟨f, there'⟩ := alike.after there
  exact ⟨d, f, there, Option.some.inj (at_.symm.trans there')⟩

theorem Alike.valid (alike : Alike h h' owners) (valid : Valid h owners) : Valid h' owners where
  tidy := {
    live := fun a mem => by
      obtain ⟨d, at_⟩ := valid.tidy.live a mem
      obtain ⟨f, there⟩ := alike.after at_
      exact ⟨_, there⟩
    counted := fun a e there => by
      obtain ⟨d, f, at_, rfl⟩ := alike.before there
      exact valid.tidy.counted a d at_
    sized := fun a e there => by
      obtain ⟨d, f, at_, rfl⟩ := alike.before there
      exact valid.tidy.sized a d at_
    free := fun a mem => by
      rw [alike.freeList] at mem
      obtain ⟨nowhere, d, at_⟩ := valid.tidy.free a mem
      obtain ⟨f, there⟩ := alike.after at_
      exact ⟨nowhere, _, there⟩
    distinct := alike.freeList ▸ valid.tidy.distinct
    unused := fun a from_ => by
      rw [alike.next] at from_
      cases there : h'.data a with
      | none => rfl
      | some e =>
        obtain ⟨d, f, at_, -⟩ := alike.before there
        exact nomatch at_.symm.trans (valid.tidy.unused a from_) }
  checked b mem e there := by
    obtain ⟨d, f, at_, rfl⟩ := alike.before there
    exact { valid.checked b mem d at_ with }
  last x x_mem y y_mem e there same ends := by
    obtain ⟨d, f, at_, rfl⟩ := alike.before there
    exact valid.last x x_mem y y_mem d at_ same ends

/-- The heap with `x` wherever no buffer shows the byte. -/
def Heap.fill (h : Heap) (owners : List Buffer) (x : UInt8) : Heap :=
  { h with
    garbage := fun _ _ => x
    data := fun a => (h.data a).map fun d =>
      { d with
        data := fun i =>
          if ∃ r ∈ owners, r.data = a ∧ r.start ≤ i ∧ i < r.internalEnd then d.data i else x } }

theorem Valid.alike_fill (valid : Valid h owners) (x : UInt8) :
    Alike h (h.fill owners x) owners where
  next := rfl
  freeList := rfl
  recommendedStart := rfl
  shape a := by
    simp only [Heap.fill, Option.map_map]
    rfl
  parts r mem := by
    obtain ⟨d, at_⟩ := valid.live mem
    have ok := valid.checked r mem d at_
    have head_eq := ok.zeroAreaStart_eq
    have last : r.internalEnd = r.zeroAreaStart + r.tailSize := rfl
    have now : (h.fill owners x).data r.data = some { d with
        data := fun i => if ∃ r' ∈ owners, r'.data = r.data ∧ r'.start ≤ i ∧ i < r'.internalEnd
          then d.data i else x } := by simp only [Heap.fill, at_, map_some]
    have shown {i : Nat} (from_ : r.start ≤ i) (below : i < r.internalEnd) :
        (if ∃ r' ∈ owners, r'.data = r.data ∧ r'.start ≤ i ∧ i < r'.internalEnd
          then d.data i else x) = d.data i := if_pos ⟨r, mem, rfl, from_, below⟩
    rw [parts_eq at_, parts_eq now]
    unfold partsIn
    rw [slice_congr fun i from_ below => shown from_ (by omega),
      slice_congr fun i from_ below => shown (by omega) (by omega)]

theorem blank_fill (h : Heap) (owners : List Buffer) (x : UInt8) :
    Blank (h.fill owners x) owners x where
  garbage _ _ := rfl
  filled a e there i clear := by
    obtain ⟨d, at_, rfl⟩ := map_eq_some_iff.mp there
    apply if_neg
    rintro ⟨r, mem, same, from_, below⟩
    rcases clear r mem same with before | past
    · exact Nat.not_le_of_lt before from_
    · exact Nat.not_le_of_lt below past

theorem Valid.head_eq_nil (valid : Valid h owners) (mem : b ∈ owners)
    (starts : b.start = b.zeroAreaStart) : (parts h b).head = [] := by
  obtain ⟨d, at_⟩ := valid.live mem
  apply eq_nil_of_length_eq_zero
  rw [parts_eq at_]
  exact length_slice.trans (Nat.sub_eq_zero_of_le (Nat.le_of_eq starts.symm))

/-- The branch of two zero areas succeeds without a tail. -/
theorem Valid.concatenates_adjacent (valid : Valid h (b :: o :: rest))
    (at_ : h.data b.data = some d) (room : Room h b o) (adjacent : Adjacent d b o)
    (ends : o.end_ = o.zeroAreaEnd) : Concatenates h b o := by
  obtain ⟨h₂, b₂, fresh, done, leaves, length, bytes, -, -, -⟩ :=
    valid.addAtEndBuffer_adjacent at_ room adjacent
  have o_mem : o ∈ b :: o :: rest := mem_cons_of_mem b mem_cons_self
  obtain ⟨e, o_at⟩ := valid.live o_mem
  obtain ⟨-, -, -, starts, -⟩ := adjacent
  have no_head := valid.head_eq_nil o_mem starts
  have no_tail : (parts h o).tail = [] := by
    apply eq_nil_of_length_eq_zero
    rw [parts_eq o_at]
    exact length_slice.trans (Nat.sub_eq_zero_of_le (Nat.le_of_eq ends))
  obtain ⟨g, g_at⟩ := leaves.valid.live mem_cons_self
  rw [no_tail, Heap.write_eq g_at (.inl rfl), patch_nil, Heap.put_eq g_at] at done
  refine ⟨h₂, b₂, done, ?_, leaves.frame o mem_cons_self⟩
  have no_fresh : fresh = [] := eq_nil_of_length_eq_zero (by rw [length, no_tail]; rfl)
  have o_bytes : (parts h o).bytes = List.replicate (parts h o).zeros 0 := by
    simp [Parts.bytes, no_head, no_tail]
  simp [bytes, no_fresh, o_bytes]

/-- A tail behind the zeros gets lost where the memory does not happen to hold it. -/
theorem Valid.not_concatenates_adjacent (valid : Valid h (b :: o :: rest))
    (at_ : h.data b.data = some d) (room : Room h b o) (adjacent : Adjacent d b o) {x y : UInt8}
    {ys : List UInt8} (tail : (parts h o).tail = y :: ys) (ne : x ≠ y)
    (blank : Blank h (b :: o :: rest) x) : ¬ Concatenates h b o := by
  obtain ⟨h₂, b₂, fresh, done, leaves, length, bytes, tail₂, zeros₂, blank₂⟩ :=
    valid.addAtEndBuffer_adjacent at_ room adjacent
  rintro ⟨h₃, b₃, done', joined, -⟩
  rw [done] at done'
  obtain ⟨k, written, same⟩ := map_eq_some_iff.mp done'
  obtain ⟨rfl, rfl⟩ := Prod.mk.inj same
  obtain ⟨g, g_at⟩ := leaves.valid.live mem_cons_self
  have ok := leaves.valid.checked b₂ mem_cons_self g g_at
  have start_le := ok.start_le
  have head_eq := ok.zeroAreaStart_eq
  have o_mem : o ∈ b :: o :: rest := mem_cons_of_mem b mem_cons_self
  obtain ⟨-, -, -, starts, -⟩ := adjacent
  have no_head := valid.head_eq_nil o_mem starts
  have now : k.data b₂.data = some { g with
      data := patch g.data b₂.zeroAreaEnd (parts h o).tail } := by
    simp only [Heap.write, g_at, bind_eq_bind, bind_some] at written
    by_cases inside : (parts h o).tail.length = 0 ∨
        b₂.zeroAreaEnd + (parts h o).tail.length ≤ g.size
    · rw [guard_some inside] at written
      rw [← Option.some.inj written]
      exact Heap.data_put_self
    · rw [guard_none inside] at written
      cases written
  have size : b₂.tailSize = ys.length + 1 := by
    have lengths := congrArg List.length tail₂
    rw [parts_eq g_at, length, tail] at lengths
    exact length_slice.symm.trans lengths
  -- The first byte of the tail lies before the place of the writing.
  have first : g.data b₂.zeroAreaStart = x := by
    have filled := tail₂
    rw [blank₂ x blank, tail, parts_eq g_at] at filled
    have filled' : slice g.data b₂.zeroAreaStart b₂.tailSize = List.replicate (ys.length + 1) x :=
      filled
    rw [size, slice_succ, replicate_succ] at filled'
    exact (List.cons.inj filled').1
  have same_head : slice (patch g.data b₂.zeroAreaEnd (parts h o).tail) b₂.start b₂.headSize =
      slice g.data b₂.start b₂.headSize := slice_patch_outside (.inl (by omega))
  have after : ∃ zs, (parts k b₂).bytes =
      (parts h₂ b₂).head ++ List.replicate (parts h₂ b₂).zeros 0 ++ x :: zs := by
    refine ⟨slice (patch g.data b₂.zeroAreaEnd (parts h o).tail) (b₂.zeroAreaStart + 1)
      ys.length, ?_⟩
    have shown : parts k b₂ = partsIn (patch g.data b₂.zeroAreaEnd (parts h o).tail) b₂ :=
      parts_eq now
    rw [shown, parts_eq g_at]
    unfold Parts.bytes partsIn
    rw [same_head, size, slice_succ, patch_outside (.inl zeros₂), first]
  obtain ⟨zs, after⟩ := after
  have split : (parts h₂ b₂).head ++ List.replicate (parts h₂ b₂).zeros 0 =
      (parts h b).bytes ++ List.replicate (parts h o).zeros 0 := by
    have whole : (parts h₂ b₂).head ++ List.replicate (parts h₂ b₂).zeros 0 ++ fresh =
        (parts h b).bytes ++ List.replicate (parts h o).zeros 0 ++ fresh := by
      rw [← bytes, Parts.bytes, tail₂]
    exact append_cancel_right whole
  have o_bytes : (parts h o).bytes = List.replicate (parts h o).zeros 0 ++ y :: ys := by
    simp [Parts.bytes, no_head, tail]
  rw [after, split, o_bytes, ← append_assoc] at joined
  exact ne (List.cons.inj (append_cancel_left joined)).1

theorem Alike.joins_iff (alike : Alike h h' owners) (at_ : h.data b.data = some d)
    (there : h'.data b.data = some e) : Joins e b o ↔ Joins d b o := by
  obtain ⟨f, there'⟩ := alike.after at_
  cases there.symm.trans there'
  rfl

/-- **Concatenation,** whatever the memory that no buffer shows happens to hold. -/
theorem concatenates_iff (valid : Valid h (b :: o :: rest)) (at_ : h.data b.data = some d)
    (room : Room h b o) :
    (∀ h', Alike h h' (b :: o :: rest) → Concatenates h' b o) ↔ Joins d b o := by
  have o_mem : o ∈ b :: o :: rest := mem_cons_of_mem b mem_cons_self
  obtain ⟨e, o_at⟩ := valid.live o_mem
  have o_ok := valid.checked o o_mem e o_at
  constructor
  · intro always
    constructor
    · intro adjacent
      have le_end := o_ok.le_end
      cases tail : (parts h o).tail with
      | nil =>
        have size := congrArg List.length tail
        rw [parts_eq o_at] at size
        have size' : o.end_ - o.zeroAreaEnd = 0 := length_slice.symm.trans size
        omega
      | cons y ys =>
        have ne : y + 1 ≠ y := by
          intro eq
          have nothing : (1 : UInt8) = 0 := by simpa using eq
          cases nothing
        have alike := valid.alike_fill (y + 1)
        obtain ⟨f, there⟩ := alike.after at_
        have room' : Room (h.fill (b :: o :: rest) (y + 1)) b o := ⟨room.inPlace, room.copied⟩
        have still : (parts (h.fill (b :: o :: rest) (y + 1)) o).tail = y :: ys := by
          rw [alike.parts o o_mem, tail]
        exact absurd (always _ alike) ((alike.valid valid).not_concatenates_adjacent there room'
          adjacent still ne (blank_fill h _ _))
    · intro apart
      by_contra fails
      simp only [not_or, not_ne_iff, not_not] at fails
      obtain ⟨none_, shared, stays⟩ := fails
      obtain ⟨h', b', done, -⟩ := always h (Alike.refl h _)
      rw [valid.addAtEndBuffer_shared at_ room apart none_ shared stays] at done
      cases done
  · intro joins h' alike
    obtain ⟨f, there⟩ := alike.after at_
    have joins' := (alike.joins_iff at_ there).mpr joins
    have room' : Room h' b o := ⟨room.inPlace, alike.recommendedStart ▸ room.copied⟩
    by_cases adjacent : Adjacent { d with data := f } b o
    · exact (alike.valid valid).concatenates_adjacent there room' adjacent (joins'.1 adjacent)
    · exact (alike.valid valid).concatenates_copied there room' adjacent (joins'.2 adjacent)

theorem concatenates_zeros :
    ∃ h b h' o d, initializeBuffer (Heap.empty (fun _ _ => 7) 0) 3 = some (h, b) ∧
      initializeBuffer h 2 = some (h', o) ∧ h'.data b.data = some d ∧
      ((∀ h₂, Alike h' h₂ [b, o] → Concatenates h₂ b o) ↔ Joins d b o) := by
  obtain ⟨h, b, made, leaves, -, parts, end_le, start⟩ :=
    @Valid.initializeBuffer _ _ 3 (Valid.empty (fun _ _ => 7) 0) (show 0 + 3 + 120 ≤ _ by omega)
  have start' : h.recommendedStart = 0 := start
  obtain ⟨h', o, made', leaves', -, parts', end_le', start''⟩ :=
    @Valid.initializeBuffer _ _ 2 leaves.valid (by omega)
  have valid : Valid h' [b, o] := leaves'.valid.perm (List.Perm.swap b o [])
  obtain ⟨d, at_⟩ := valid.live mem_cons_self
  have end_le'' : b.end_ ≤ 0 + 3 := end_le
  exact ⟨h, b, h', o, d, made, made', at_, concatenates_iff valid at_ ⟨by omega, by omega⟩⟩

/-- A buffer and its copy, and a buffer of zeros with a byte behind them. -/
theorem concatenates_fails : ((initializeBuffer (Heap.empty (fun _ _ => 0) 0) 0).any fun (h, b) =>
      (addAtEnd h b 4).any fun (h, b) =>
        (copy h b).any fun (h, o) => (addAtEndBuffer h b o).isNone) ∧
    ((initializeBuffer (Heap.empty (fun _ _ => 0) 0) 1).any fun (h, b) =>
      (initializeBuffer h 1).any fun (h, o) =>
        (addAtEnd h o 1).any fun (h, o) =>
          (o.endIterator.prev 1).any fun i => (i.write h [7]).any fun (h, _) =>
            (parts h o).bytes == [0, 7] && (addAtEndBuffer h b o).any fun (h, b) =>
              (parts h b).bytes == [0, 0, 0]) := by decide +kernel

end Ns3.Network.Buffer
