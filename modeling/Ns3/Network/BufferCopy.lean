import Ns3.Network.BufferOperations

/-!
# Copies of buffers

A copy shares the storage, and a full copy turns the zero area into bytes of a storage.
-/

namespace Ns3.Network.Buffer

open Regions List Buffer

variable {h h' : Heap} {b o : Buffer} {owners owners' rest : List Buffer} {d : Data} {n : Nat}

/-- Only the references have changed: the windows are those of buffers before. -/
theorem Valid.recounted (valid : Valid h owners) (tidy : Tidy h' (owners'.map data))
    (kept : Recounted h h' (owners'.map data))
    (windows : ∀ r' ∈ owners', ∃ r ∈ owners, ∃ m, r' = { r with maxZeroAreaStart := m }) :
    Valid h' owners' where
  tidy := tidy
  checked r' mem' e there := by
    obtain ⟨r, mem, m, rfl⟩ := windows r' mem'
    obtain ⟨d, at_⟩ := valid.live mem
    obtain ⟨n, at'⟩ := kept r.data (mem_map.mpr ⟨_, mem', rfl⟩) d at_
    cases there.symm.trans at'
    exact { valid.checked r mem d at_ with }
  last x' x_mem' y' y_mem' e there same ends := by
    obtain ⟨x, x_mem, m, rfl⟩ := windows x' x_mem'
    obtain ⟨y, y_mem, k, rfl⟩ := windows y' y_mem'
    obtain ⟨d, at_⟩ := valid.live x_mem
    obtain ⟨n, at'⟩ := kept x.data (mem_map.mpr ⟨_, x_mem', rfl⟩) d at_
    cases there.symm.trans at'
    exact valid.last x x_mem y y_mem d at_ same ends

theorem Recounted.parts (kept : Recounted h h' (owners.map data))
    (live : ∃ d, h.data b.data = some d) (mem : b ∈ owners) (m : Nat) :
    parts h' { b with maxZeroAreaStart := m } = parts h b := by
  obtain ⟨d, at_⟩ := live
  obtain ⟨n, at'⟩ := kept b.data (mem_map_of_mem mem) d at_
  have now : h'.data { b with maxZeroAreaStart := m }.data = some { d with count := n } := at'
  rw [parts_eq at_, parts_eq now]
  rfl

/-- **The copy constructor.** -/
theorem Valid.copy (valid : Valid h owners) (mem : b ∈ owners) :
    ∃ h', copy h b = some (h', { b with maxZeroAreaStart := b.zeroAreaStart }) ∧
      Valid h' ({ b with maxZeroAreaStart := b.zeroAreaStart } :: owners) ∧
      Recounted h h' (owners.map data) ∧ h'.recommendedStart = h.recommendedStart := by
  obtain ⟨h', done, tidy, start, kept⟩ := valid.tidy.retain (mem_map_of_mem mem)
  have kept' : Recounted h h' ((b :: owners).map data) := by
    intro a there
    rcases mem_cons.mp there with rfl | there
    · exact kept _ (mem_map_of_mem mem)
    · exact kept a there
  refine ⟨h', ?_, valid.recounted tidy kept' ?_, kept, start⟩
  · rw [Buffer.copy, done]
    rfl
  · intro r' mem'
    rcases mem_cons.mp mem' with rfl | mem'
    · exact ⟨b, mem, _, rfl⟩
    · exact ⟨r', mem', r'.maxZeroAreaStart, rfl⟩

theorem Tidy.recommend {refs : List Nat} (tidy : Tidy h refs) (b : Buffer) :
    Tidy (h.recommend b) refs :=
  { tidy with }

/-- **The destructor.** -/
theorem Valid.destroy (valid : Valid h (b :: rest)) :
    ∃ h', destroy h b = some h' ∧ Valid h' rest ∧ Recounted h h' (rest.map data) := by
  obtain ⟨h', done, tidy, -, kept⟩ := (valid.tidy.recommend b).release
  exact ⟨h', done, valid.recounted tidy kept fun r mem =>
    ⟨r, mem_cons_of_mem b mem, r.maxZeroAreaStart, rfl⟩, kept⟩

/-- **`operator=`.** -/
theorem Valid.assign (valid : Valid h (b :: owners)) (mem : o ∈ owners) :
    ∃ h', assign h b o = some (h', o) ∧ Valid h' (o :: owners) ∧
      Recounted h h' (owners.map data) := by
  have o_mem : o.data ∈ owners.map data := mem_map_of_mem mem
  have windows : ∀ r' ∈ o :: owners, ∃ r ∈ b :: owners, ∃ m,
      r' = { r with maxZeroAreaStart := m } := by
    intro r' mem'
    rcases mem_cons.mp mem' with rfl | mem'
    · exact ⟨r', mem_cons_of_mem b mem, r'.maxZeroAreaStart, rfl⟩
    · exact ⟨r', mem_cons_of_mem b mem', r'.maxZeroAreaStart, rfl⟩
  by_cases other : b.data ≠ o.data
  · obtain ⟨h₁, released, tidy₁, -, kept₁⟩ := valid.tidy.release
    obtain ⟨h₂, retained, tidy₂, -, kept₂⟩ := tidy₁.retain o_mem
    have kept : Recounted h h₂ (owners.map data) := kept₁.trans kept₂
    refine ⟨h₂.recommend b, ?_, valid.recounted (tidy₂.recommend b) ?_ windows, kept⟩
    · rw [Buffer.assign, if_pos other, released, Option.bind_eq_bind, Option.bind_some, retained]
      rfl
    · intro a there
      rcases mem_cons.mp there with rfl | there
      · exact kept _ o_mem
      · exact kept a there
  · have same : b.data = o.data := not_ne_iff.mp other
    have tidy : Tidy (h.recommend b) (o.data :: owners.map data) :=
      same ▸ valid.tidy.recommend b
    refine ⟨h.recommend b, ?_, valid.recounted tidy ?_ windows, ?_⟩
    · rw [Buffer.assign, if_neg other]
      rfl
    · exact fun a there d at_ => ⟨d.count, at_⟩
    · exact fun a there d at_ => ⟨d.count, at_⟩

theorem Recounted.frame (kept : Recounted h h' (owners.map data))
    (live : ∀ r ∈ owners, ∃ d, h.data r.data = some d) :
    ∀ r ∈ owners, Buffer.parts h' r = Buffer.parts h r :=
  fun r mem => kept.parts (live r mem) mem r.maxZeroAreaStart

/-- **A full copy** has the same bytes and no zero area. A buffer without one is only copied. -/
theorem Valid.createFullCopy (valid : Valid h (b :: rest))
    (room : h.recommendedStart + (b.end_ - b.start) + 120 ≤ 4294967296) :
    ∃ h' c, createFullCopy h b = some (h', c) ∧ Valid h' (c :: b :: rest) ∧
      (∀ r ∈ b :: rest, parts h' r = parts h r) ∧
      (parts h' c).bytes = (parts h b).bytes ∧ c.zeroAreaStart = c.zeroAreaEnd ∧
      (if b.zeroAreaStart = b.zeroAreaEnd then
        c = { b with maxZeroAreaStart := b.zeroAreaStart } ∧
          Recounted h h' ((b :: rest).map data)
      else Alone c (b :: rest) ∧ c.end_ ≤ h.recommendedStart + (b.end_ - b.start)) := by
  obtain ⟨d, at_⟩ := valid.live mem_cons_self
  have ok := valid.checked b mem_cons_self d at_
  obtain ⟨head_size, zeros_size, tail_size⟩ := ok.sizes at_
  have zeros_eq : (parts h b).zeros = b.zeroAreaEnd - b.zeroAreaStart := by
    rw [parts_eq at_]
    rfl
  have zero_le := ok.zero_le
  by_cases none_ : b.zeroAreaStart = b.zeroAreaEnd
  · have none_left : ¬ sub32 b.zeroAreaEnd b.zeroAreaStart ≠ 0 := by
      rw [zeros_size, zeros_eq]
      omega
    obtain ⟨h', copied, valid', kept, -⟩ := valid.copy mem_cons_self
    refine ⟨h', _, ?_, valid', kept.frame fun r => valid.live, ?_, none_, ?_⟩
    · rw [Buffer.createFullCopy]
      simp only
      rw [if_neg none_left]
      exact copied
    · rw [kept.parts ⟨d, at_⟩ mem_cons_self]
    · rw [if_pos none_]
      exact ⟨rfl, kept⟩
  · have some_ : sub32 b.zeroAreaEnd b.zeroAreaStart ≠ 0 := by
      rw [zeros_size, zeros_eq]
      omega
    have size : (parts h b).head.length + (parts h b).zeros +
        (parts h b).tail.length = b.end_ - b.start := by
      rw [valid.size_eq, Parts.length_bytes]
    obtain ⟨h₁, c₁, made, leaves₁, alone₁, parts₁, end₁, start₁⟩ :=
      @Valid.initializeBuffer _ _ 0 valid (by omega)
    have size₁ : c₁.end_ - c₁.start = 0 := by
      rw [leaves₁.valid.size_eq, parts₁]
      rfl
    obtain ⟨h₂, c₂, old₂, grown₂, grows₂, length₂, parts₂, -⟩ :=
      @Valid.addAtStart _ _ _ (parts h b).zeros leaves₁.valid (by omega)
    have alone₂ := grows₂.alone alone₁
    have end₂ := grows₂.end_le
    rw [parts₁] at parts₂
    obtain ⟨h₃, i₃, written₃, leaves₃, parts₃, start₃⟩ :=
      @Valid.writeU8Begin _ _ _ _ grows₂.leaves.valid old₂ [] 0 length₂ (by rw [parts₂])
        alone₂.apart
    rw [parts₂, append_nil] at parts₃
    have size₃ : c₂.end_ - c₂.start = (parts h b).zeros := by
      rw [leaves₃.valid.size_eq, parts₃]
      simp [Parts.bytes]
    obtain ⟨h₄, c₄, old₄, grown₄, grows₄, length₄, parts₄, -⟩ :=
      @Valid.addAtStart _ _ _ (parts h b).head.length leaves₃.valid (by omega)
    have alone₄ := grows₄.alone alone₂
    have end₄ := grows₄.end_le
    rw [parts₃] at parts₄
    obtain ⟨h₅, i₅, written₅, leaves₅, parts₅, start₅⟩ :=
      @Valid.writeBegin _ _ _ grows₄.leaves.valid (parts h b).head old₄ _ length₄
        (by rw [parts₄]) alone₄.apart
    rw [parts₄] at parts₅
    obtain ⟨d₅, at₅⟩ := leaves₅.valid.live mem_cons_self
    obtain ⟨h₆, c₆, old₆, grown₆, grows₆, length₆, parts₆, -⟩ :=
      @Valid.addAtEnd _ _ _ _ (parts h b).tail.length leaves₅.valid at₅ (by omega)
    have alone₆ := grows₆.alone alone₄
    have end₆ := grows₆.end_le
    rw [parts₅] at parts₆
    obtain ⟨i₇, h₇, i₇', back₇, written₇, leaves₇, parts₇, start₇⟩ :=
      @Valid.writeEnd _ _ _ grows₆.leaves.valid (parts h b).tail old₆ [] length₆
        (by rw [parts₆]) alone₆.apart
    rw [parts₆, nil_append] at parts₇
    have frame₄ : ∀ r ∈ b :: rest, parts h₄ r = parts h r := fun r mem => by
      rw [grows₄.leaves.frame r mem, leaves₃.frame r mem, grows₂.leaves.frame r mem,
        leaves₁.frame r mem]
    have frame₆ : ∀ r ∈ b :: rest, parts h₆ r = parts h r := fun r mem => by
      rw [grows₆.leaves.frame r mem, leaves₅.frame r mem, frame₄ r mem]
    have b_mem : b ∈ b :: rest := mem_cons_self
    have readHead := grows₄.leaves.valid.readHead (mem_cons_of_mem c₄ b_mem)
    have readTail := grows₆.leaves.valid.readTail (mem_cons_of_mem c₆ b_mem)
    rw [frame₄ b b_mem, head_size] at readHead
    rw [frame₆ b b_mem, tail_size] at readTail
    have zeros₇ : (parts h₇ c₆).zeros = 0 := by rw [parts₇]
    obtain ⟨d₇, at₇⟩ := leaves₇.valid.live mem_cons_self
    have ok₇ := leaves₇.valid.checked c₆ mem_cons_self d₇ at₇
    have together : c₆.zeroAreaStart = c₆.zeroAreaEnd := by
      rw [parts_eq at₇] at zeros₇
      have zero_le₇ := ok₇.zero_le
      have none_left : c₆.zeroAreaEnd - c₆.zeroAreaStart = 0 := zeros₇
      omega
    refine ⟨h₇, c₆, ?_, leaves₇.valid, fun r mem => (leaves₇.frame r mem).trans (frame₆ r mem), ?_,
      together, ?_⟩
    · rw [zeros_size] at some_
      rw [Buffer.createFullCopy]
      simp only [zeros_size, head_size, tail_size]
      rw [if_pos some_]
      simp only [Option.bind_eq_bind, made, Option.bind_some, grown₂, written₃, grown₄, readHead,
        written₅, grown₆, back₇, readTail, written₇]
      rfl
    · rw [parts₇]
      simp [Parts.bytes]
    · rw [if_neg none_]
      exact ⟨alone₆, by omega⟩

/-- **A real buffer** has the same bytes and no zero area. -/
theorem Valid.transformIntoRealBuffer (valid : Valid h (b :: rest)) (at_ : h.data b.data = some d)
    (room : h.recommendedStart + (b.end_ - b.start) + 120 ≤ 4294967296) :
    ∃ h' c, Buffer.transformIntoRealBuffer h b = some (h', c) ∧ Leaves h h' c rest ∧
      (Buffer.parts h' c).bytes = (Buffer.parts h b).bytes ∧ c.zeroAreaStart = c.zeroAreaEnd ∧
      (if b.zeroAreaStart = b.zeroAreaEnd then
        c = { b with maxZeroAreaStart := b.zeroAreaStart } ∧ h'.data b.data = some d
      else Alone c rest ∧ c.end_ ≤ h.recommendedStart + (b.end_ - b.start)) := by
  obtain ⟨h₁, c, copied, valid₁, frame₁, bytes₁, together, rest₁⟩ := valid.createFullCopy room
  have c_mem : c ∈ c :: rest := mem_cons_self
  obtain ⟨h₂, assigned, valid₂, kept₂⟩ := (valid₁.perm (List.Perm.swap b c rest)).assign c_mem
  obtain ⟨h₃, destroyed, valid₃, kept₃⟩ := valid₂.destroy
  have kept : Recounted h₁ h₃ ((c :: rest).map Buffer.data) := kept₂.trans kept₃
  have frame := kept.frame fun r mem =>
    (valid₁.perm (List.Perm.swap b c rest)).live (mem_cons_of_mem b mem)
  refine ⟨h₃, c, ?_, ⟨valid₃, fun r mem => ?_⟩, ?_, together, ?_⟩
  · rw [Buffer.transformIntoRealBuffer, copied, Option.bind_eq_bind, Option.bind_some]
    simp only [assigned, destroyed, Option.bind_some]
    rfl
  · rw [frame r (mem_cons_of_mem c mem), frame₁ r (mem_cons_of_mem b mem)]
  · rw [frame c c_mem, bytes₁]
  · split at rest₁
    case isTrue none_ =>
      obtain ⟨rfl, kept₁⟩ := rest₁
      rw [if_pos none_]
      obtain ⟨n, at₁⟩ := kept₁ b.data mem_cons_self d at_
      obtain ⟨k, at₃⟩ := kept b.data mem_cons_self _ at₁
      have before := valid.tidy.counted b.data d at_
      have after : k = ((b :: rest).map data).count b.data :=
        valid₃.tidy.counted b.data _ at₃
      refine ⟨rfl, ?_⟩
      rw [at₃, after, ← before]
    case isFalse some_ =>
      rw [if_neg some_]
      exact ⟨fun mem => rest₁.1 (mem_cons_of_mem _ mem), rest₁.2⟩

end Ns3.Network.Buffer
