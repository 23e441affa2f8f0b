import Ns3.Library.Machine
import Ns3.Network.BufferCopy

/-!
# Programs over buffers that share storage

Whatever a program does to one buffer, all buffers show what they would if each were a list of
bytes of its own.
-/

namespace Ns3.Network.Buffer

open Regions List

variable {h h' : Heap} {b b' : Buffer} {rest : List Buffer} {d : Data} {i n : Nat}

/-! ## Smaller windows -/

/-- The byte at an offset of the window, past the zero area or not. -/
def byteAt (f : Nat → UInt8) (b : Buffer) (x : Nat) : Option UInt8 :=
  if x < b.zeroAreaStart then some (f x)
  else if x < b.zeroAreaEnd then some 0
  else if x < b.end_ then some (f (x - b.zeroSize))
  else none

theorem Checked.getElem?_bytes (ok : Checked d b) (f : Nat → UInt8) (i : Nat) :
    (partsIn f b).bytes[i]? = byteAt f b (b.start + i) := by
  obtain ⟨start_le, zero_le, le_end, -, -, -, -⟩ := ok
  simp only [byteAt, Parts.bytes, partsIn, getElem?_append, length_append, length_slice,
    length_replicate, getElem?_slice, getElem?_replicate, headSize, zeroSize, tailSize]
  split_ifs <;> first | omega | rfl | (congr 2; omega)

/-- The window keeps `m` bytes behind the first `k`, in its storage. -/
structure Shrinks (b b' : Buffer) (k m : Nat) : Prop where
  data : b'.data = b.data
  start_le : b'.start ≤ b'.zeroAreaStart
  zero_le : b'.zeroAreaStart ≤ b'.zeroAreaEnd
  le_end : b'.zeroAreaEnd ≤ b'.end_
  starts : b.start ≤ b'.start
  ends : b'.end_ ≤ b.end_
  last : b'.internalEnd ≤ b.internalEnd
  kept : b'.end_ = b.end_ → b'.internalEnd = b.internalEnd
  shows : ∀ f i, byteAt f b' (b'.start + i) =
    if i < m then byteAt f b (b.start + (k + i)) else none

/-- **A smaller window** is not noticed by the other buffers. -/
theorem Valid.shrink {k m : Nat} (valid : Valid h (b :: rest)) (shrinks : Shrinks b b' k m) :
    Leaves h h b' rest ∧ (parts h b').bytes = ((parts h b).bytes.drop k).take m := by
  obtain ⟨d, at_⟩ := valid.live mem_cons_self
  have ok := valid.checked b mem_cons_self d at_
  have ok' : Checked d b' := ⟨shrinks.start_le, shrinks.zero_le, shrinks.le_end,
    shrinks.ends.trans_lt ok.small, ok.dirtyStart_le.trans shrinks.starts,
    shrinks.ends.trans ok.le_dirtyEnd, shrinks.last.trans ok.inside⟩
  have le_dirtyEnd := ok.le_dirtyEnd
  have ends := shrinks.ends
  have put : h.put b.data d = h := by
    unfold Heap.put
    rw [← at_, Function.update_eq_self]
  have leaves := valid.inPlace at_ shrinks.data rfl rfl rfl ok' (fun _ => ⟨le_rfl, le_rfl⟩)
    fun r mem there => ⟨fun now => ?_, fun now => ?_⟩
  · rw [put] at leaves
    refine ⟨leaves, ext_getElem? fun i => ?_⟩
    have at' : h.data b'.data = some d := shrinks.data ▸ at_
    rw [getElem?_take, getElem?_drop, parts_eq at_, parts_eq at', ok.getElem?_bytes,
      ok'.getElem?_bytes, shrinks.shows]
  · rw [shrinks.kept (by omega)]
    exact valid.last b mem_cons_self r (mem_cons_of_mem b mem) d at_ there (by omega)
  · exact shrinks.last.trans (valid.last r (mem_cons_of_mem b mem) b mem_cons_self d (there ▸ at_)
      there.symm now)

theorem Checked.removeAtStart (ok : Checked d b) (room : b.start + n < 4294967296) :
    ∃ b', b.removeAtStart n = some b' ∧ Shrinks b b' n (b.end_ - b.start - n) := by
  obtain ⟨start_le, zero_le, le_end, small, -, -, -⟩ := ok
  unfold Buffer.removeAtStart
  rw [u32_eq room]
  simp only [sub32_eq zero_le (by omega)]
  split_ifs with head zeros tail
  on_goal 2 =>
    rw [sub32_eq (show b.zeroAreaStart ≤ b.start + n by omega) room,
      sub32_eq (by omega) (by omega), sub32_eq (by omega) (by omega)]
  on_goal 3 =>
    rw [sub32_eq (by omega) (by omega), sub32_eq (by omega) (by omega), guard_some (by omega)]
  on_goal 4 => rw [sub32_eq (by omega) (by omega)]
  all_goals
    refine ⟨_, rfl, ?_⟩
    constructor
    case shows => grind [byteAt, zeroSize, raiseMax]
    all_goals simp [internalEnd]
    all_goals omega

theorem Checked.removeAtEnd (ok : Checked d b) (n : Nat) :
    Shrinks b (b.removeAtEnd n) 0 (b.end_ - b.start - n) := by
  obtain ⟨start_le, zero_le, le_end, small, -, -, -⟩ := ok
  unfold Buffer.removeAtEnd
  rw [sub32_eq (show b.start ≤ b.end_ by omega) small, sub32_eq (by omega) small]
  dsimp only
  split_ifs with tail zeros head
  all_goals
    constructor
    case shows => grind [byteAt, zeroSize, raiseMax]
    all_goals simp [internalEnd]
    all_goals omega

/-- The bytes that `CreateFragment` takes; out of range there are none. -/
def fragment (bytes : List UInt8) (start length : Nat) : List UInt8 :=
  if start + length ≤ bytes.length then (bytes.drop start).take length else []

theorem Valid.removeAtStart (valid : Valid h (b :: rest)) (room : b.start + n < 4294967296) :
    ∃ b', b.removeAtStart n = some b' ∧ Leaves h h b' rest ∧
      (parts h b').bytes = (parts h b).bytes.drop n := by
  obtain ⟨d, at_⟩ := valid.live mem_cons_self
  obtain ⟨b', removed, shrinks⟩ := (valid.checked b mem_cons_self d at_).removeAtStart room
  obtain ⟨leaves, bytes⟩ := valid.shrink shrinks
  rw [valid.size_eq, ← length_drop, take_length] at bytes
  exact ⟨b', removed, leaves, bytes⟩

theorem Valid.removeAtEnd (valid : Valid h (b :: rest)) (n : Nat) :
    Leaves h h (b.removeAtEnd n) rest ∧ (parts h (b.removeAtEnd n)).bytes =
      (parts h b).bytes.take ((parts h b).bytes.length - n) := by
  obtain ⟨d, at_⟩ := valid.live mem_cons_self
  rw [← valid.size_eq]
  exact valid.shrink ((valid.checked b mem_cons_self d at_).removeAtEnd n)

theorem Valid.createFragment {buffers : List Buffer} {start length : Nat}
    (valid : Valid h buffers) (mem : b ∈ buffers) (room : b.start + start < 4294967296)
    (small : start + length < 4294967296) :
    ∃ h' b', Buffer.createFragment h b start length = some (h', b') ∧ Leaves h h' b' buffers ∧
      (parts h' b').bytes = fragment (parts h b).bytes start length := by
  obtain ⟨d, at_⟩ := valid.live mem
  have ok := valid.checked b mem d at_
  obtain ⟨h', copied, valid', kept, -⟩ := valid.copy mem
  obtain ⟨tmp, removed, leaves, dropped⟩ := valid'.removeAtStart (n := start) room
  obtain ⟨leaves', taken⟩ := leaves.valid.removeAtEnd (sub32 b.getSize (u32 (start + length)))
  refine ⟨h', _, by simp [Buffer.createFragment, copied, removed],
    ⟨leaves'.valid, kept.frame fun r => valid.live⟩, ?_⟩
  have size := ok.length_bytes (f := d.data)
  have end_small := ok.small
  rw [taken, dropped, kept.parts ⟨d, at_⟩ mem, ok.getSize_eq, u32_eq small, parts_eq at_, fragment,
    length_drop, size]
  unfold sub32
  split_ifs with inside
  · congr 1
    omega
  · rw [take_eq_nil_iff]
    left
    omega

/-- A buffer without a zero area is read as it is. -/
theorem Valid.read (valid : Valid h (b :: rest)) (together : b.zeroAreaStart = b.zeroAreaEnd) :
    h.read b.data b.start b.getSize = some (parts h b).bytes := by
  obtain ⟨d, at_⟩ := valid.live mem_cons_self
  have ok := valid.checked b mem_cons_self d at_
  have size : b.getSize = b.headSize + b.tailSize := by
    rw [ok.getSize_eq, ← ok.window_eq, zeroSize, together, Nat.sub_self, Nat.add_zero]
  have room : b.headSize + b.tailSize = 0 ∨ b.start + (b.headSize + b.tailSize) ≤ d.size := by
    rw [← Nat.add_assoc, ok.zeroAreaStart_eq]
    exact .inr ok.inside
  rw [size, Heap.read, at_, Option.bind_eq_bind, Option.bind_some, guard_some room, parts_eq at_,
    slice_add, ok.zeroAreaStart_eq]
  simp [Parts.bytes, partsIn, zeroSize, together]

/-! ## Programs -/

/-- What a program does to a buffer. Bytes that are added are written by an iterator at once. -/
inductive Action
  | copy
  | assign (j : Nat)
  | destroy
  | addAtStart (bytes : List UInt8)
  | addAtEnd (bytes : List UInt8)
  | removeAtStart (n : Nat)
  | removeAtEnd (n : Nat)
  | createFragment (start length : Nat)
  | peekData

inductive Operation
  | construct (size : Nat)
  | apply (i : Nat) (action : Action)

/-- The newest buffer is the first. -/
structure World where
  heap : Heap
  buffers : List Buffer

def World.contents (w : World) : List (List UInt8) :=
  w.buffers.map fun b => (parts w.heap b).bytes

def act (w : World) (i : Nat) (b : Buffer) : Action → Option (World × List (List UInt8))
  | .copy => do
    let (h, b) ← copy w.heap b
    return (⟨h, b :: w.buffers⟩, [])
  | .assign j => do
    let (h, b) ← assign w.heap b (← w.buffers[j]?)
    return (⟨h, w.buffers.set i b⟩, [])
  | .destroy => do
    return (⟨← destroy w.heap b, w.buffers.eraseIdx i⟩, [])
  | .addAtStart bytes => do
    let (h, b) ← addAtStart w.heap b bytes.length
    let (h, _) ← b.beginIterator.write h bytes
    return (⟨h, w.buffers.set i b⟩, [])
  | .addAtEnd bytes => do
    let (h, b) ← addAtEnd w.heap b bytes.length
    let (h, _) ← (← b.endIterator.prev bytes.length).write h bytes
    return (⟨h, w.buffers.set i b⟩, [])
  | .removeAtStart n => do
    return (⟨w.heap, w.buffers.set i (← b.removeAtStart n)⟩, [])
  | .removeAtEnd n => some (⟨w.heap, w.buffers.set i (b.removeAtEnd n)⟩, [])
  | .createFragment start length => do
    let (h, b) ← createFragment w.heap b start length
    return (⟨h, b :: w.buffers⟩, [])
  | .peekData => do
    let (h, b) ← transformIntoRealBuffer w.heap b
    return (⟨h, w.buffers.set i b⟩, [← h.read b.data b.start b.getSize])

def step (w : World) : Operation → Option (World × List (List UInt8))
  | .construct size => do
    let (h, b) ← initializeBuffer w.heap size
    return (⟨h, b :: w.buffers⟩, [])
  | .apply i action => do act w i (← w.buffers[i]?) action

/-- The same on lists of bytes that share nothing. -/
def actOn (contents : List (List UInt8)) (i : Nat) (c : List UInt8) :
    Action → Option (List (List UInt8) × List (List UInt8))
  | .copy => some (c :: contents, [])
  | .assign j => contents[j]?.map fun c => (contents.set i c, [])
  | .destroy => some (contents.eraseIdx i, [])
  | .addAtStart bytes => some (contents.set i (bytes ++ c), [])
  | .addAtEnd bytes => some (contents.set i (c ++ bytes), [])
  | .removeAtStart n => some (contents.set i (c.drop n), [])
  | .removeAtEnd n => some (contents.set i (c.take (c.length - n)), [])
  | .createFragment start length => some (fragment c start length :: contents, [])
  | .peekData => some (contents, [c])

def reference (contents : List (List UInt8)) :
    Operation → Option (List (List UInt8) × List (List UInt8))
  | .construct size => some (replicate size 0 :: contents, [])
  | .apply i action => contents[i]?.bind fun c => actOn contents i c action

/-- No offset and no size comes near to 32 bits. -/
def roomFor (h : Heap) (b : Buffer) : Action → Bool
  | .addAtStart bytes => b.end_ - b.start + bytes.length + 120 ≤ 4294967296
  | .addAtEnd bytes => b.end_ + bytes.length + 120 ≤ 4294967296
  | .removeAtStart n => b.start + n < 4294967296
  | .createFragment start length => b.start + start < 4294967296 ∧ start + length < 4294967296
  | .peekData => h.recommendedStart + (b.end_ - b.start) + 120 ≤ 4294967296
  | _ => true

def hasRoom (w : World) : Operation → Bool
  | .construct size => w.heap.recommendedStart + size + 120 ≤ 4294967296
  | .apply i action => w.buffers[i]?.all (roomFor w.heap · action)

structure Shows (w : World) (contents : List (List UInt8)) : Prop where
  valid : Valid w.heap w.buffers
  shown : w.contents = contents

variable {w : World} {contents : List (List UInt8)}

theorem Shows.push (shows : Shows w contents) (leaves : Leaves w.heap h' b' w.buffers) :
    Shows ⟨h', b' :: w.buffers⟩ ((parts h' b').bytes :: contents) := by
  refine ⟨leaves.valid, ?_⟩
  rw [← shows.shown]
  exact congrArg _ (map_congr_left fun r mem => congrArg _ (leaves.frame r mem))

theorem Shows.set (shows : Shows w contents) (at_ : w.buffers[i]? = some b)
    (leaves : Leaves w.heap h' b' (w.buffers.eraseIdx i)) :
    Shows ⟨h', w.buffers.set i b'⟩ (contents.set i (parts h' b').bytes) := by
  have inside : i < w.buffers.length := (List.getElem?_eq_some_iff.mp at_).1
  refine ⟨leaves.valid.perm (set_perm_cons_eraseIdx inside b').symm, ?_⟩
  rw [← shows.shown, World.contents, World.contents, map_set]
  apply ext_getElem?
  intro j
  by_cases same : i = j
  · simp [← same, inside]
  · rw [getElem?_set_ne same, getElem?_set_ne same, getElem?_map, getElem?_map]
    cases at_j : w.buffers[j]? with
    | none => rfl
    | some r =>
      have mem := mem_eraseIdx_iff_getElem?.mpr ⟨j, Ne.symm same, at_j⟩
      exact congrArg (fun p => some p.bytes) (leaves.frame r mem)

theorem Leaves.trans {h'' : Heap} (first : Leaves h h' b rest) (second : Leaves h' h'' b' rest) :
    Leaves h h'' b' rest :=
  ⟨second.valid, fun r mem => (second.frame r mem).trans (first.frame r mem)⟩

/-- **Each action** does to a buffer what it would do to a list of bytes. -/
theorem act_refines {action : Action} {contents' out : List (List UInt8)}
    (shows : Shows w contents) (here : w.buffers[i]? = some b)
    (room : roomFor w.heap b action = true)
    (done : actOn contents i (parts w.heap b).bytes action = some (contents', out)) :
    ∃ w', act w i b action = some (w', out) ∧ Shows w' contents' := by
  have mem := mem_of_getElem? here
  obtain ⟨inside, rfl⟩ := List.getElem?_eq_some_iff.mp here
  have valid := shows.valid.perm (getElem_cons_eraseIdx_perm inside).symm
  generalize w.buffers[i] = b at *
  obtain ⟨d, at_⟩ := valid.live mem_cons_self
  cases action with
  | copy =>
    cases done
    obtain ⟨h', copied, valid', kept, -⟩ := shows.valid.copy mem
    have push := shows.push ⟨valid', kept.frame fun r => shows.valid.live⟩
    rw [kept.parts ⟨d, at_⟩ mem] at push
    exact ⟨_, by simp [act, copied], push⟩
  | assign j =>
    obtain ⟨c, at_j, done⟩ := Option.map_eq_some_iff.mp done
    cases done
    rw [← shows.shown, World.contents, getElem?_map, Option.map_eq_some_iff] at at_j
    obtain ⟨o, there, rfl⟩ := at_j
    by_cases same : i = j
    · subst same
      cases here.symm.trans there
      have kept : Leaves w.heap (w.heap.recommend b) b (w.buffers.eraseIdx i) :=
        ⟨⟨valid.tidy.recommend b, valid.checked, valid.last⟩, fun _ _ => rfl⟩
      exact ⟨⟨w.heap.recommend b, _⟩, by simp [act, here, assign], shows.set here kept⟩
    · have mem' := mem_eraseIdx_iff_getElem?.mpr ⟨j, Ne.symm same, there⟩
      obtain ⟨h', assigned, valid', kept⟩ := valid.assign mem'
      have frame := kept.frame fun r mem => valid.live (mem_cons_of_mem b mem)
      have set := shows.set here ⟨valid', frame⟩
      rw [frame o mem'] at set
      exact ⟨_, by simp [act, there, assigned], set⟩
  | destroy =>
    cases done
    obtain ⟨h', destroyed, valid', kept⟩ := valid.destroy
    have frame := kept.frame fun r mem => valid.live (mem_cons_of_mem b mem)
    refine ⟨_, by simp [act, destroyed]; rfl, valid', ?_⟩
    rw [← shows.shown, World.contents, World.contents, eraseIdx_map]
    exact map_congr_left fun r mem => congrArg _ (frame r mem)
  | addAtStart bytes =>
    cases done
    obtain ⟨h₁, b', fresh, grown, grows, length, parts₁, apart⟩ :=
      valid.addAtStart (of_decide_eq_true room)
    obtain ⟨h₂, it, written, leaves, parts₂, -⟩ :=
      grows.leaves.valid.writeBegin length (congrArg Parts.head parts₁) apart
    have set := shows.set here (grows.leaves.trans leaves)
    rw [parts₂, parts₁] at set
    refine ⟨_, by simp [act, grown, written]; rfl, ?_⟩
    simpa [Parts.bytes] using set
  | addAtEnd bytes =>
    cases done
    obtain ⟨h₁, b', fresh, grown, grows, length, parts₁, -, -, apart, -⟩ :=
      valid.addAtEnd at_ (of_decide_eq_true room)
    obtain ⟨it, h₂, it', back, written, leaves, parts₂, -⟩ :=
      grows.leaves.valid.writeEnd length (congrArg Parts.tail parts₁) apart
    have set := shows.set here (grows.leaves.trans leaves)
    rw [parts₂, parts₁] at set
    refine ⟨_, by simp [act, grown, back, written]; rfl, ?_⟩
    simpa [Parts.bytes] using set
  | removeAtStart n =>
    cases done
    obtain ⟨b', removed, leaves, bytes⟩ := valid.removeAtStart (of_decide_eq_true room)
    exact ⟨_, by simp [act, removed], bytes ▸ shows.set here leaves⟩
  | removeAtEnd n =>
    cases done
    obtain ⟨leaves, bytes⟩ := valid.removeAtEnd n
    exact ⟨_, rfl, bytes ▸ shows.set here leaves⟩
  | createFragment start length =>
    cases done
    obtain ⟨near, small⟩ := of_decide_eq_true room
    obtain ⟨h', b', made, leaves, bytes⟩ := shows.valid.createFragment mem near small
    exact ⟨_, by simp [act, made], bytes ▸ shows.push leaves⟩
  | peekData =>
    cases done
    obtain ⟨h', b', made, leaves, bytes, together, -⟩ :=
      valid.transformIntoRealBuffer at_ (of_decide_eq_true room)
    have set := shows.set here leaves
    have same : contents[i]? = some (parts w.heap b).bytes := by
      rw [← shows.shown, World.contents, getElem?_map, here, Option.map_some]
    obtain ⟨_, same⟩ := List.getElem?_eq_some_iff.mp same
    rw [bytes, ← same, set_getElem_self] at set
    refine ⟨_, ?_, set⟩
    simp [act, made, leaves.valid.read together, bytes]

theorem step_refines : Machine.Refines step reference (fun w o => hasRoom w o = true) Shows := by
  intro w contents o contents' out shows room done
  cases o with
  | construct size =>
    cases done
    obtain ⟨h', b, made, leaves, -, zeros, -⟩ :=
      shows.valid.initializeBuffer (of_decide_eq_true room)
    have push := shows.push leaves
    simp only [zeros, Parts.bytes, nil_append, append_nil] at push
    exact ⟨_, by simp [step, made], push⟩
  | apply i action =>
    obtain ⟨c, at_, done⟩ := Option.bind_eq_some_iff.mp done
    rw [← shows.shown, World.contents, getElem?_map, Option.map_eq_some_iff] at at_
    obtain ⟨b, here, rfl⟩ := at_
    have room' : roomFor w.heap b action = true := by simpa [hasRoom, here] using room
    obtain ⟨w', acted, shows'⟩ := act_refines shows here room' done
    exact ⟨w', by simpa [step, here] using acted, shows'⟩

/-- **Copy-on-write is invisible**: a program whose sizes stay in 32 bits comes to no failed
assertion, and reads of each buffer what it would read if nothing were shared. -/
theorem copy_on_write_invisible (garbage : Nat → Nat → UInt8) (recommendedStart : Nat)
    {program : List Operation} {seen : List (List UInt8)}
    (room : Machine.Meets step (fun w o => hasRoom w o = true)
      ⟨.empty garbage recommendedStart, []⟩ program)
    (expected : Machine.run reference [] program = some (contents, seen)) :
    ∃ w, Machine.run step ⟨.empty garbage recommendedStart, []⟩ program = some (w, seen) ∧
      w.contents = contents := by
  have start : Shows ⟨.empty garbage recommendedStart, []⟩ [] := ⟨.empty _ _, rfl⟩
  obtain ⟨w, run, shows⟩ := step_refines.run start room expected
  exact ⟨w, run, shows.shown⟩

/-- A copy and a fragment share the storage of a buffer while all of them grow. -/
theorem shared_storage : ∃ w, Machine.run step ⟨.empty (fun _ _ => 7) 0, []⟩
      [.construct 2, .apply 0 .copy, .apply 0 (.addAtStart [1]), .apply 1 (.addAtEnd [2, 3]),
        .apply 1 (.createFragment 1 2), .apply 0 .peekData, .apply 2 (.assign 1),
        .apply 1 .peekData] = some (w, [[0, 2], [1, 0, 0]]) ∧
      w.contents = [[0, 2], [1, 0, 0], [1, 0, 0]] :=
  copy_on_write_invisible (fun _ _ => 7) 0 (.of_checks (fun _ _ => id) (by decide)) rfl

end Ns3.Network.Buffer
