import Mathlib

/-!
# Reading bytes back

A reader takes bytes from the front of a sequence or fails. It reads some
written bytes as a value when it does so before any rest, and readers in a row
read what was written in a row.
-/

namespace ByteReader

variable {ε α β : Type}

abbrev Reader (ε α : Type) := StateT (List UInt8) (Except ε) α

/-- The reader takes exactly the written bytes, as the value. -/
def Reads (reader : Reader ε α) (written : List UInt8) (value : α) : Prop :=
  ∀ rest, reader (written ++ rest) = .ok (value, rest)

theorem Reads.pure (value : α) : Reads (pure value : Reader ε α) [] value := fun _ => rfl

variable {first reader : Reader ε α} {front bytes rest : List UInt8} {a : α}
  {second : α → Reader ε β} {b : β} {write : α → List UInt8} {e : ε} {n size : Nat} {items : List α}

/-- After the written bytes the next reader goes on with the rest. -/
theorem Reads.next (one : Reads first front a) (second : α → Reader ε β) (rest : List UInt8) :
    (first >>= second) (front ++ rest) = second a rest := by
  change (first (front ++ rest) >>= fun p => second p.1 p.2) = _
  rw [one rest]
  rfl

theorem Reads.bind {back : List UInt8} (one : Reads first front a) (two : Reads (second a) back b) :
    Reads (first >>= second) (front ++ back) b := by
  intro rest
  rw [List.append_assoc, one.next]
  exact two rest

theorem Reads.bind_nil (one : Reads first front a) (two : Reads (second a) [] b) :
    Reads (first >>= second) front b := by
  have both := one.bind two
  rwa [List.append_nil] at both

theorem Reads.map {written : List UInt8} (reads : Reads reader written a) (f : α → β) :
    Reads (reader >>= fun a => Pure.pure (f a)) written (f a) := reads.bind_nil (.pure (f a))

theorem map_run (reader : Reader ε α) (f : α → β) (bytes : List UInt8) :
    (reader >>= fun a => Pure.pure (f a)) bytes = (reader bytes).map fun p => (f p.1, p.2) := by
  change (reader bytes >>= fun p => Pure.pure (f p.1, p.2)) = _
  cases reader bytes <;> rfl

theorem of_bind {next : α → Reader ε β} (done : (reader >>= next) bytes = .ok (b, rest)) :
    ∃ a between, reader bytes = .ok (a, between) ∧ next a between = .ok (b, rest) := by
  change (reader bytes >>= fun p => next p.1 p.2) = _ at done
  cases first : reader bytes with
  | error e =>
    rw [first] at done
    cases done
  | ok p =>
    rw [first] at done
    exact ⟨p.1, p.2, rfl, done⟩

theorem of_pure {value b : α} (done : (Pure.pure value : Reader ε α) bytes = .ok (b, rest)) :
    b = value ∧ rest = bytes := by
  cases done
  exact ⟨rfl, rfl⟩

/-- A list of items, read one after the other. -/
def readMany (reader : Reader ε α) : Nat → Reader ε (List α)
  | 0 => Pure.pure []
  | n + 1 => do
    let a ← reader
    let rest ← readMany reader n
    return a :: rest

theorem readMany_reads (reads : ∀ a, Reads reader (write a) a) (items : List α) :
    Reads (readMany reader items.length) (items.flatMap write) items := by
  induction items with
  | nil => exact .pure []
  | cons a items ih =>
    rw [List.flatMap_cons]
    exact (reads a).bind (ih.map (a :: ·))

/-- The reader takes a fixed number of bytes, whatever they are, and fails with `e` only when there
are fewer. -/
def Takes (e : ε) (reader : Reader ε α) (n : Nat) : Prop :=
  ∀ bytes, (n ≤ bytes.length → ∃ a, reader bytes = .ok (a, bytes.drop n)) ∧
    (bytes.length < n → reader bytes = .error e)

theorem Takes.pure (e : ε) (value : α) : Takes e (pure value : Reader ε α) 0 :=
  fun _ => ⟨fun _ => ⟨value, rfl⟩, nofun⟩

theorem Takes.bind {m : Nat} (one : Takes e first m) (two : ∀ a, Takes e (second a) n) :
    Takes e (first >>= second) (m + n) := by
  intro bytes
  have unfolded : (first >>= second) bytes = first bytes >>= fun p => second p.1 p.2 := rfl
  by_cases here : m ≤ bytes.length
  · obtain ⟨a, reads⟩ := (one bytes).1 here
    have later : (first >>= second) bytes = second a (bytes.drop m) := by
      rw [unfolded, reads]
      rfl
    have left := two a (bytes.drop m)
    rw [List.length_drop, List.drop_drop] at left
    rw [later]
    exact ⟨fun enough => left.1 (by omega), fun short => left.2 (by omega)⟩
  · refine ⟨fun enough => absurd enough (by omega), fun _ => ?_⟩
    rw [unfolded, (one bytes).2 (by omega)]
    rfl

theorem Takes.map (takes : Takes e reader n) (f : α → β) :
    Takes e (reader >>= fun a => Pure.pure (f a)) n := takes.bind fun a => .pure e (f a)

theorem readMany_takes (takes : Takes e reader n) (count : Nat) :
    Takes e (readMany reader count) (n * count) := by
  induction count with
  | zero => exact .pure e []
  | succ count ih =>
    rw [Nat.mul_add, Nat.mul_one, Nat.add_comm (n * count)]
    exact takes.bind fun a => ih.map (a :: ·)

theorem length_of_readMany (done : readMany reader n bytes = .ok (items, rest)) :
    items.length = n := by
  induction n generalizing bytes items rest with
  | zero =>
    cases done
    rfl
  | succ n ih =>
    obtain ⟨a, between, _, later⟩ := of_bind done
    obtain ⟨items', last, others, ends⟩ := of_bind later
    obtain ⟨rfl, rfl⟩ := of_pure ends
    exact congrArg (· + 1) (ih others)

/-- A part that is there or not. -/
def readWhen (present : Bool) (reader : Reader ε α) : Reader ε (Option α) :=
  if present then reader >>= fun a => Pure.pure (some a) else Pure.pure none

theorem readWhen_reads {present : Bool} {part : Option α} (there : present = part.isSome)
    (reads : ∀ a, part = some a → Reads reader (write a) a) :
    Reads (readWhen present reader) (part.elim [] write) part := by
  subst there
  cases part with
  | none => exact .pure none
  | some a => exact (reads a rfl).map some

/-! ## Items inside a size

Items are read while fewer bytes than the size are taken, so the last one may
end past it.
-/

/-- The loop with the bytes taken so far and a bound on its rounds. -/
def readWithin (endless : ε) (reader : Reader ε α) (size : Nat) :
    Nat → Nat → Reader ε (List α)
  | 0, taken => if taken < size then throw endless else Pure.pure []
  | rounds + 1, taken => fun bytes =>
    if taken < size then do
      let (a, between) ← reader bytes
      let (items, rest) ←
        readWithin endless reader size rounds (taken + (bytes.length - between.length)) between
      return (a :: items, rest)
    else .ok ([], bytes)

/-- The items that start before the size, with the width of each. -/
def startedBefore (width : α → Nat) (size : Nat) : Nat → List α → List α
  | _, [] => []
  | taken, a :: items =>
    if taken < size then a :: startedBefore width size (taken + width a) items else []

/-- The items that do not start before the size. -/
def notStarted (width : α → Nat) (size : Nat) : Nat → List α → List α
  | _, [] => []
  | taken, a :: items =>
    if taken < size then notStarted width size (taken + width a) items else a :: items

theorem readWithin_written (endless : ε) {keep : α → α} (rest : List UInt8)
    (reads : ∀ a ∈ items, Reads reader (write a) (keep a)) (some_ : ∀ a, 0 < (write a).length)
    (rounds taken : Nat) (enough : size ≤ taken + rounds)
    (reached : size ≤ taken + (items.flatMap write).length) :
    readWithin endless reader size rounds taken (items.flatMap write ++ rest) =
      .ok ((startedBefore (fun a => (write a).length) size taken items).map keep,
        (notStarted (fun a => (write a).length) size taken items).flatMap write ++ rest) := by
  induction items generalizing rounds taken with
  | nil =>
    have done : ¬ taken < size := by simpa using reached
    cases rounds with
    | zero =>
      unfold readWithin
      rw [if_neg done]
      rfl
    | succ rounds =>
      unfold readWithin
      rw [if_neg done]
      rfl
  | cons a items ih =>
    by_cases more : taken < size
    · cases rounds with
      | zero => omega
      | succ rounds =>
        have here := reads a List.mem_cons_self (items.flatMap write ++ rest)
        have taken_ : ((write a ++ items.flatMap write) ++ rest).length -
            (items.flatMap write ++ rest).length = (write a).length := by
          simp only [List.length_append]
          omega
        have wide := some_ a
        rw [List.flatMap_cons, List.length_append] at reached
        have later := ih (fun b mem => reads b (List.mem_cons_of_mem a mem))
          rounds (taken + (write a).length) (by omega) (by omega)
        unfold readWithin
        rw [if_pos more, List.flatMap_cons, List.append_assoc, here]
        dsimp only [bind, Except.bind]
        rw [← List.append_assoc, taken_, later, startedBefore, notStarted, if_pos more, if_pos more]
        rfl
    · have stops : readWithin endless reader size rounds taken
          ((a :: items).flatMap write ++ rest) = .ok ([], (a :: items).flatMap write ++ rest) := by
        cases rounds with
        | zero =>
          unfold readWithin
          rw [if_neg more]
          rfl
        | succ rounds =>
          unfold readWithin
          rw [if_neg more]
      rw [stops, startedBefore, notStarted, if_neg more, if_neg more]
      rfl

theorem startedBefore_eq_iff {width : α → Nat} {taken : Nat} :
    startedBefore width size taken items = items ↔
      items = [] ∨ taken + (items.dropLast.map width).sum < size := by
  induction items generalizing taken with
  | nil => simp [startedBefore]
  | cons a items ih =>
    unfold startedBefore
    cases items with
    | nil =>
      by_cases more : taken < size <;> simp [startedBefore, more]
    | cons b items =>
      have lengths : taken + width a + (((b :: items).dropLast).map width).sum =
          taken + (((a :: b :: items).dropLast).map width).sum := by
        simp only [List.dropLast_cons_cons, List.map_cons, List.sum_cons]
        omega
      by_cases more : taken < size
      · rw [if_pos more, List.cons.injEq, ih, lengths]
        simp
      · rw [if_neg more]
        simp only [reduceCtorEq, false_or, false_iff]
        omega

theorem started_append (width : α → Nat) (size taken : Nat) (items : List α) :
    startedBefore width size taken items ++ notStarted width size taken items = items := by
  induction items generalizing taken with
  | nil => rfl
  | cons a items ih =>
    unfold startedBefore notStarted
    split
    · rw [List.cons_append, ih]
    · rfl

theorem notStarted_eq_nil {width : α → Nat} {taken : Nat}
    (all : startedBefore width size taken items = items) :
    notStarted width size taken items = [] := by
  have both := started_append width size taken items
  rw [all] at both
  exact List.append_right_eq_self.mp both

/-! ## Numbers in network order -/

variable (e : ε)

/-- `ReadU8`; `e` is the failure at the end of the bytes. -/
def readU8 : Reader ε UInt8
  | [] => .error e
  | b :: rest => .ok (b, rest)

def readBytes (n : Nat) : Reader ε (List UInt8) := readMany (readU8 e) n

def readNtohU16 : Reader ε UInt16 := do
  let high ← readU8 e
  let low ← readU8 e
  return .ofNat (high.toNat * 2 ^ 8 + low.toNat)

def readNtohU32 : Reader ε UInt32 := do
  let high ← readNtohU16 e
  let low ← readNtohU16 e
  return .ofNat (high.toNat * 2 ^ 16 + low.toNat)

def writeHtonU16 (value : UInt16) : List UInt8 :=
  [.ofNat (value.toNat / 2 ^ 8), .ofNat value.toNat]

def writeHtonU32 (value : UInt32) : List UInt8 :=
  writeHtonU16 (.ofNat (value.toNat / 2 ^ 16)) ++ writeHtonU16 (.ofNat value.toNat)

@[simp]
theorem length_writeHtonU16 (value : UInt16) : (writeHtonU16 value).length = 2 := rfl

theorem readU8_reads (b : UInt8) : Reads (readU8 e) [b] b := fun _ => rfl

theorem readBytes_reads (bytes : List UInt8) : Reads (readBytes e bytes.length) bytes bytes := by
  have := readMany_reads (readU8_reads e) bytes
  rwa [List.flatMap_singleton'] at this

theorem readNtohU16_reads (value : UInt16) : Reads (readNtohU16 e) (writeHtonU16 value) value := by
  have back : UInt16.ofNat ((UInt8.ofNat (value.toNat / 2 ^ 8)).toNat * 2 ^ 8 +
      (UInt8.ofNat value.toNat).toNat) = value := by
    apply UInt16.toNat_inj.mp
    have := value.toNat_lt
    rw [UInt16.toNat_ofNat', UInt8.toNat_ofNat', UInt8.toNat_ofNat']
    omega
  have reads : Reads (readNtohU16 e) (writeHtonU16 value) _ :=
    (readU8_reads e (.ofNat (value.toNat / 2 ^ 8))).bind
      ((readU8_reads e (.ofNat value.toNat)).map _)
  rwa [back] at reads

theorem readNtohU32_reads (value : UInt32) : Reads (readNtohU32 e) (writeHtonU32 value) value := by
  have back : UInt32.ofNat ((UInt16.ofNat (value.toNat / 2 ^ 16)).toNat * 2 ^ 16 +
      (UInt16.ofNat value.toNat).toNat) = value := by
    apply UInt32.toNat_inj.mp
    have := value.toNat_lt
    rw [UInt32.toNat_ofNat', UInt16.toNat_ofNat', UInt16.toNat_ofNat']
    omega
  have reads : Reads (readNtohU32 e) (writeHtonU32 value) _ :=
    (readNtohU16_reads e (.ofNat (value.toNat / 2 ^ 16))).bind
      ((readNtohU16_reads e (.ofNat value.toNat)).map _)
  rwa [back] at reads

theorem readU8_takes : Takes e (readU8 e) 1 := by
  intro bytes
  cases bytes with
  | nil => exact ⟨nofun, fun _ => rfl⟩
  | cons b rest => exact ⟨fun _ => ⟨b, rfl⟩, fun short => absurd short (by simp)⟩

theorem readBytes_takes (n : Nat) : Takes e (readBytes e n) n := by
  have := readMany_takes (readU8_takes e) n
  rwa [Nat.one_mul] at this

theorem readNtohU16_takes : Takes e (readNtohU16 e) 2 :=
  (readU8_takes e).bind fun _ => (readU8_takes e).map _

theorem readNtohU32_takes : Takes e (readNtohU32 e) 4 :=
  (readNtohU16_takes e).bind fun _ => (readNtohU16_takes e).map _

end ByteReader
