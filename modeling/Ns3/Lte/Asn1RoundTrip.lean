import Ns3.Lte.Asn1Bits

/-!
# The round trip of a message
-/

namespace Ns3.Lte

open MsbBits Asn1Header List

/-- The bit count of an integer of a range. -/
def rangeBits (nmin nmax : Int) : Nat := requiredBits (nmax - nmin + 1)

/-- How many bits a call writes. -/
def Field.bitCount : Field → Nat
  | .boolean => 1
  | .integer nmin nmax | .sequenceOf nmax nmin => rangeBits nmin nmax
  | .enum numElems => rangeBits 0 (numElems - 1)
  | .choice numOptions marker => marker.toNat + rangeBits 0 (numOptions - 1)
  | .sequence size marker => marker.toNat + size
  | .bitstring size => size

/-- A value of a range of 2^20 values at most. -/
def InRange (nmin nmax n : Int) : Prop := nmin ≤ n ∧ n ≤ nmax ∧ nmax - nmin + 1 ≤ 2 ^ 20

/-- The values that a call may write. The widths of bitsets are a `uint8_t`. -/
def Field.Valid : (f : Field) → f.Value → Prop
  | .boolean, _ => True
  | .integer nmin nmax, n | .sequenceOf nmax nmin, n => InRange nmin nmax n
  | .enum numElems, n | .choice numElems _, n => InRange 0 (numElems - 1) n
  | .sequence size _, _ | .bitstring size, _ => size < 256

/-- The call has one value only, and no bits for it. -/
def Field.Single : Field → Prop
  | .boolean | .sequence _ _ | .bitstring _ => False
  | .integer nmin nmax | .sequenceOf nmax nmin => nmin = nmax
  | .enum numElems | .choice numElems _ => numElems = 1

def rangeEncoding (nmin nmax n : Int) : List Bool := ofNat (n - nmin).toNat (rangeBits nmin nmax)

def markerEncoding (marker : Bool) : List Bool := if marker then [false] else []

/-- The bits of a value. -/
def Field.encoding : (f : Field) → f.Value → List Bool
  | .boolean, value => [value]
  | .integer nmin nmax, n | .sequenceOf nmax nmin, n => rangeEncoding nmin nmax n
  | .enum numElems, n => rangeEncoding 0 (numElems - 1) n
  | .choice numOptions marker, n => markerEncoding marker ++ rangeEncoding 0 (numOptions - 1) n
  | .sequence size marker, mask => markerEncoding marker ++ ofNat (BitVec.toNat mask) size
  | .bitstring size, data => ofNat (BitVec.toNat data) size

theorem length_encoding (f : Field) (value : f.Value) : (f.encoding value).length = f.bitCount := by
  have marked : ∀ marker, (markerEncoding marker).length = marker.toNat := by decide
  cases f with
  | boolean => rfl
  | _ => simp [Field.encoding, Field.bitCount, rangeEncoding, marked]

/-! ## Ranges -/

variable {nmin nmax n : Int} {calls : List Call}

theorem InRange.bits (inRange : InRange nmin nmax n) (several : nmin ≠ nmax) :
    1 ≤ rangeBits nmin nmax ∧ rangeBits nmin nmax ≤ 20 := by
  obtain ⟨low, high, few⟩ := inRange
  constructor
  · exact Nat.clog_pos (by decide) (by omega)
  · apply Nat.clog_le_of_le_pow
    omega

theorem InRange.lt_pow (inRange : InRange nmin nmax n) :
    (n - nmin).toNat < 2 ^ rangeBits nmin nmax := by
  obtain ⟨low, high, few⟩ := inRange
  have := Nat.le_pow_clog (b := 2) (by decide) (nmax - nmin + 1).toNat
  unfold rangeBits requiredBits
  omega

theorem rangeEncoding_single : rangeEncoding nmin nmin n = [] := by
  unfold rangeEncoding rangeBits requiredBits
  have one : (nmin - nmin + 1).toNat = 1 := by omega
  rw [one, Nat.clog_one_right]
  rfl

/-! ## Serialization -/

/-- A call writes some bits. -/
def Writes (write : Asn1Header → Option Asn1Header) (written : List Bool) : Prop :=
  ∀ h : Asn1Header, h.Clean → ∃ t, write h = some t ∧ t.Clean ∧ t.bits = h.bits ++ written

theorem serializeBitset_writes {n : Nat} (small : n < 256) (value : Nat) :
    Writes (fun h => some (h.serializeBitset n value)) (ofNat value n) := by
  intro h clean
  obtain ⟨is, clean'⟩ := serializeBitset_spec clean small value
  exact ⟨_, rfl, clean', is⟩

theorem serializeBoolean_writes (value : Bool) :
    Writes (fun h => some (h.serializeBoolean value)) [value] := by
  have bit : ofNat value.toNat 1 = [value] := by cases value <;> rfl
  rw [← bit]
  exact serializeBitset_writes (by decide) _

theorem serializeMarker_writes (marker : Bool) :
    Writes (fun h => some (h.serializeMarker marker)) (markerEncoding marker) := by
  cases marker with
  | false => exact fun h clean => ⟨h, rfl, clean, (append_nil _).symm⟩
  | true => exact serializeBoolean_writes false

theorem serializeInteger_writes (inRange : InRange nmin nmax n) :
    Writes (fun h => h.serializeInteger n nmin nmax) (rangeEncoding nmin nmax n) := by
  by_cases single : nmin = nmax
  · intro h clean
    refine ⟨h, ?_, clean, ?_⟩
    · unfold serializeInteger
      dsimp only
      simp [single]
    · simp [← single, rangeEncoding_single]
  · obtain ⟨low, high⟩ := inRange.bits single
    have several : ¬ nmax - nmin + 1 ≤ 1 := by
      have := inRange.1
      have := inRange.2.1
      omega
    have writes := serializeBitset_writes (n := rangeBits nmin nmax) (by omega) (n - nmin).toNat
    intro h clean
    obtain ⟨t, done, clean', is⟩ := writes h clean
    refine ⟨t, ?_, clean', is⟩
    unfold serializeInteger
    dsimp only
    rw [if_neg several, if_pos ⟨low, high⟩]
    exact done

theorem Writes.after {first : Asn1Header → Asn1Header} {second : Asn1Header → Option Asn1Header}
    {front back : List Bool} (one : Writes (fun h => some (first h)) front)
    (two : Writes second back) : Writes (fun h => second (first h)) (front ++ back) := by
  intro h clean
  obtain ⟨t, done, clean', is⟩ := one h clean
  cases done
  obtain ⟨t', done', clean'', is'⟩ := two _ clean'
  refine ⟨t', done', clean'', ?_⟩
  simp [is', is]

/-- **Each call** writes the bits of its value. -/
theorem Field.serialize_writes (f : Field) {value : f.Value} (valid : f.Valid value) :
    Writes (f.serialize value) (f.encoding value) := by
  cases f with
  | boolean => exact serializeBoolean_writes value
  | integer nmin nmax => exact serializeInteger_writes valid
  | enum numElems => exact serializeInteger_writes valid
  | choice numOptions marker =>
    by_cases several : numOptions < 2
    · have one : numOptions = 1 := by
        have := valid.1
        have := valid.2.1
        omega
      subst one
      have nothing : Field.encoding (.choice 1 marker) value = markerEncoding marker := by
        exact (congrArg _ rangeEncoding_single).trans (append_nil _)
      rw [nothing]
      exact serializeMarker_writes marker
    · have is : Field.serialize (.choice numOptions marker) value = fun h =>
          (h.serializeMarker marker).serializeInteger value 0 (numOptions - 1) := by
        funext h
        unfold Field.serialize serializeChoice
        dsimp only
        rw [if_neg several]
      rw [is]
      exact (serializeMarker_writes marker).after (serializeInteger_writes valid)
  | sequence size marker =>
    exact (serializeMarker_writes marker).after (serializeBitset_writes valid _)
  | sequenceOf nMax nMin => exact serializeInteger_writes valid
  | bitstring size => exact serializeBitset_writes valid _

theorem serializeCalls_writes (valid : ∀ c ∈ calls, c.field.Valid c.value) :
    Writes (serializeCalls calls) (calls.flatMap fun c => c.field.encoding c.value) := by
  induction calls with
  | nil => exact fun h clean => ⟨h, rfl, clean, (append_nil _).symm⟩
  | cons c calls ih =>
    intro h clean
    obtain ⟨t, done, clean', is⟩ := c.field.serialize_writes (valid c mem_cons_self) h clean
    obtain ⟨t', done', clean'', is'⟩ := ih (fun c mem => valid c (mem_cons_of_mem _ mem)) t clean'
    refine ⟨t', ?_, clean'', ?_⟩
    · unfold serializeCalls
      rw [done]
      exact done'
    · simp [is', is]

theorem ofNat_octet (octet : BitVec 8) : ofNat octet.toNat 8 = leading octet 8 := by
  revert octet
  decide +kernel

/-- **The last octet** is filled with less than eight bits. -/
theorem finalizeSerialization_spec {h : Asn1Header} (clean : h.Clean) :
    ∃ padding : List Bool, padding.length < 8 ∧
      ofOctets h.finalizeSerialization.serializationResult = h.bits ++ padding := by
  unfold finalizeSerialization
  by_cases some_pending : 0 < h.numSerializationPendingBits
  · rw [if_pos some_pending]
    generalize empty : ({ h with numSerializationPendingBits := 0 } : Asn1Header) = t
    have nothing : ¬ 0 < t.numSerializationPendingBits := by
      rw [← empty]
      exact lt_irrefl 0
    have eight := length_ofNat h.serializationPendingBits.toNat 8
    refine ⟨leading (h.serializationPendingBits <<< h.numSerializationPendingBits)
      (8 - h.numSerializationPendingBits), ?_, ?_⟩
    · rw [length_leading]
      omega
    · have wrote : (t.serializeBitset 8 h.serializationPendingBits.toNat).serializationResult =
          h.serializationResult ++ [octetToWrite (ofNat h.serializationPendingBits.toNat 8).reverse
            1 0] := by
        have count : 8 % 2 ^ 8 = 8 := rfl
        unfold serializeBitset completeOctet
        rw [if_neg (by decide), if_pos (by decide), if_neg nothing, count]
        dsimp only
        rw [writeRemaining_octet eight, ← empty]
        rfl
      rw [wrote, ofOctets_append, ofOctets_cons, leading_octetToWrite eight, ofNat_octet,
        leading_split _ (le_of_lt clean.short), ofOctets_nil, append_nil]
      unfold bits
      rw [append_assoc]
  · rw [if_neg some_pending]
    refine ⟨[], by decide, ?_⟩
    have none : h.numSerializationPendingBits = 0 := by omega
    unfold bits
    rw [none]
    simp [leading]

/-! ## Deserialization -/

instance : (f : Field) → Decidable f.Single
  | .boolean | .sequence _ _ | .bitstring _ => inferInstanceAs (Decidable False)
  | .integer nmin nmax | .sequenceOf nmax nmin => inferInstanceAs (Decidable (nmin = nmax))
  | .enum numElems | .choice numElems _ => inferInstanceAs (Decidable (numElems = 1))

/-- What the output of a call holds after it. -/
def Field.output (f : Field) (value old : f.Value) : f.Value := if f.Single then old else value

/-- A call reads some bits as a value. -/
def Reads {α : Type} (read : Source → Option (α × Source)) (written : List Bool) (value : α) :
    Prop :=
  ∀ (source : Source) (rest : List Bool), source.bits = written ++ rest →
    ∃ source', read source = some (value, source') ∧ source'.bits = rest

theorem deserializeBitset_reads {n value : Nat} (fits : value < 2 ^ n) :
    Reads (deserializeBitset n) (ofNat value n) value := by
  intro source rest is
  obtain ⟨source', reads, left⟩ := deserializeBitset_spec is
  rw [Nat.mod_eq_of_lt fits] at reads
  exact ⟨source', reads, left⟩

theorem Reads.map {α β : Type} {read : Source → Option (α × Source)} {written : List Bool}
    {value : α} (reads : Reads read written value) (f : α → β) :
    Reads (fun source => do
      let (a, source) ← read source
      return (f a, source)) written (f value) := by
  intro source rest is
  obtain ⟨source', done, left⟩ := reads source rest is
  refine ⟨source', ?_, left⟩
  dsimp only
  rw [done]
  rfl

theorem deserializeBoolean_reads (value : Bool) : Reads deserializeBoolean [value] value := by
  have reads := (deserializeBitset_reads (n := 1) (Bool.toNat_lt value)).map
    fun readBit => decide (readBit = 1)
  cases value <;> exact reads

theorem deserializeInteger_reads (inRange : InRange nmin nmax n) (old : Int) :
    Reads (deserializeInteger old nmin nmax) (rangeEncoding nmin nmax n)
      (if nmin = nmax then old else n) := by
  have ordered : ¬ nmax < nmin := by
    have := inRange.1
    have := inRange.2.1
    omega
  by_cases single : nmin = nmax
  · intro source rest is
    rw [← single, rangeEncoding_single] at is
    refine ⟨source, ?_, is⟩
    unfold deserializeInteger
    rw [if_neg ordered, if_pos single]
    dsimp only
    rw [if_pos (by omega)]
  · obtain ⟨low, high⟩ := inRange.bits single
    have reads := (deserializeBitset_reads inRange.lt_pow).map
      fun bitsRead => (bitsRead : Int) + nmin
    have back : ((n - nmin).toNat : Int) + nmin = n := by
      have := inRange.1
      omega
    rw [back] at reads
    rw [if_neg single]
    intro source rest is
    obtain ⟨source', done, left⟩ := reads source rest is
    refine ⟨source', ?_, left⟩
    unfold deserializeInteger
    rw [if_neg ordered]
    dsimp only
    rw [if_neg (by omega), if_pos ⟨low, high⟩]
    exact done

theorem Reads.marked {α : Type} {read : Source → Option (α × Source)} {written : List Bool}
    {value : α} (reads : Reads read written value) (marker : Bool) :
    Reads (fun source => do
      let source ← deserializeMarker marker source
      read source) (markerEncoding marker ++ written) value := by
  cases marker with
  | false => exact reads
  | true =>
    intro source rest is
    rw [append_assoc] at is
    obtain ⟨between, done, left⟩ := deserializeBoolean_reads false source _ is
    obtain ⟨source', done', left'⟩ := reads between rest left
    refine ⟨source', ?_, left'⟩
    unfold deserializeMarker
    dsimp only
    rw [if_pos rfl, done]
    exact done'

theorem deserializeBitstring_reads {size : Nat} (data : BitVec size) :
    Reads (deserializeBitstring size) (ofNat data.toNat size) data := by
  have reads := (deserializeBitset_reads data.isLt).map (BitVec.ofNat size)
  rwa [BitVec.ofNat_toNat, BitVec.setWidth_eq] at reads

theorem deserializeCount_reads {count : Int} (inRange : InRange 0 (count - 1) n) (old : Int) :
    Reads (deserializeInteger old 0 (count - 1)) (rangeEncoding 0 (count - 1) n)
      (if count = 1 then old else n) := by
  have same : (0 : Int) = count - 1 ↔ count = 1 := by omega
  have reads := deserializeInteger_reads inRange old
  simpa only [same] using reads

/-- **Each mirrored call** reads the value, unless its range has one value only. -/
theorem Field.deserialize_reads (f : Field) {value : f.Value} (valid : f.Valid value)
    (old : f.Value) : Reads (f.deserialize old) (f.encoding value) (f.output value old) := by
  cases f with
  | boolean => exact deserializeBoolean_reads value
  | integer nmin nmax => exact deserializeInteger_reads valid old
  | sequenceOf nMax nMin => exact deserializeInteger_reads valid old
  | enum numElems => exact deserializeCount_reads valid old
  | choice numOptions marker => exact (deserializeCount_reads valid old).marked marker
  | sequence size marker => exact (deserializeBitstring_reads value).marked marker
  | bitstring size => exact deserializeBitstring_reads value

theorem deserializeCalls_reads (valid : ∀ c ∈ calls, c.field.Valid c.value) {source : Source}
    {rest : List Bool}
    (is : source.bits = (calls.flatMap fun c => c.field.encoding c.value) ++ rest) :
    deserializeCalls calls source =
      some (calls.map fun c => ⟨c.field, c.field.output c.value c.old⟩) := by
  induction calls generalizing source with
  | nil => rfl
  | cons c calls ih =>
    rw [flatMap_cons, append_assoc] at is
    obtain ⟨source', done, left⟩ :=
      c.field.deserialize_reads (valid c mem_cons_self) c.old source _ is
    unfold deserializeCalls
    rw [done]
    dsimp only [bind, Option.bind]
    rw [ih (fun c mem => valid c (mem_cons_of_mem _ mem)) left]
    rfl

/-! ## The round trip -/

/-- The calls fill a buffer of the exact size, and the mirrored calls give all values back. -/
def RoundTrip (calls : List Call) : Prop :=
  ∃ h, serializeCalls calls create = some h ∧ h.finalizeSerialization.serializationResult.length =
      ((calls.map fun c => c.field.bitCount).sum + 7) / 8 ∧
    deserializeCalls calls (create, h.finalizeSerialization.serializationResult) =
      some (calls.map fun c => ⟨c.field, c.value⟩)

theorem create_clean : Clean create := ⟨Nat.zero_lt_succ 7, fun _ _ => BitVec.getMsbD_zero⟩

theorem length_encodings (calls : List Call) :
    (calls.flatMap fun c => c.field.encoding c.value).length =
      (calls.map fun c => c.field.bitCount).sum := by
  rw [length_flatMap]
  congr 1
  exact map_congr_left fun c _ => length_encoding c.field c.value

/-- What a message gives back: the exact size, and the outputs of its calls. -/
theorem message_spec (valid : ∀ c ∈ calls, c.field.Valid c.value) :
    ∃ h, serializeCalls calls create = some h ∧ h.finalizeSerialization.serializationResult.length =
        ((calls.map fun c => c.field.bitCount).sum + 7) / 8 ∧
      deserializeCalls calls (create, h.finalizeSerialization.serializationResult) =
        some (calls.map fun c => ⟨c.field, c.field.output c.value c.old⟩) := by
  obtain ⟨h, done, clean, is⟩ := serializeCalls_writes valid create create_clean
  obtain ⟨padding, short, octets⟩ := finalizeSerialization_spec clean
  rw [is] at octets
  refine ⟨h, done, ?_, deserializeCalls_reads valid octets⟩
  have count := congrArg List.length octets
  rw [length_ofOctets, length_append, length_append, length_encodings] at count
  have none : create.bits.length = 0 := rfl
  omega

/-- **The round trip** works exactly when each output of a range with one value holds it before. -/
theorem roundTrip_iff {calls : List Call} (valid : ∀ c ∈ calls, c.field.Valid c.value) :
    RoundTrip calls ↔ ∀ c ∈ calls, c.field.Single → c.old = c.value := by
  obtain ⟨h, done, size, outputs⟩ := message_spec valid
  have same : RoundTrip calls ↔
      (calls.map fun c => (⟨c.field, c.field.output c.value c.old⟩ : (f : Field) × f.Value)) =
        calls.map fun c => ⟨c.field, c.value⟩ := by
    constructor
    · rintro ⟨h', done', _, back⟩
      obtain rfl := Option.some.inj (done.symm.trans done')
      exact Option.some.inj (outputs.symm.trans back)
    · intro is
      exact ⟨h, done, size, outputs.trans (congrArg some is)⟩
  rw [same, map_inj_left]
  refine forall₂_congr fun c _ => ?_
  unfold Field.output
  constructor
  · intro is single
    rw [if_pos single] at is
    exact eq_of_heq (Sigma.mk.inj is).2
  · intro kept
    split
    case isTrue single => rw [kept single]
    case isFalse => rfl

instance InRange.decide (nmin nmax n : Int) : Decidable (InRange nmin nmax n) :=
  inferInstanceAs (Decidable (nmin ≤ n ∧ n ≤ nmax ∧ nmax - nmin + 1 ≤ 2 ^ 20))

instance : (f : Field) → (value : f.Value) → Decidable (f.Valid value)
  | .boolean, _ => inferInstanceAs (Decidable True)
  | .integer nmin nmax, n | .sequenceOf nmax nmin, n => InRange.decide nmin nmax n
  | .enum numElems, n | .choice numElems _, n => InRange.decide 0 (numElems - 1) n
  | .sequence size _, _ | .bitstring size, _ => inferInstanceAs (Decidable (size < 256))

instance : (f : Field) → DecidableEq f.Value
  | .boolean => inferInstanceAs (DecidableEq Bool)
  | .integer _ _ | .enum _ | .choice _ _ | .sequenceOf _ _ => inferInstanceAs (DecidableEq Int)
  | .sequence size _ | .bitstring size => inferInstanceAs (DecidableEq (BitVec size))

/-- A choice of one option behind a marker, between fields of other widths. -/
theorem message_round_trip :
    RoundTrip [⟨.sequence 3 true, 5#3, 0#3⟩, ⟨.choice 1 true, (0 : Int), (0 : Int)⟩,
      ⟨.integer (-30) 33, (-7 : Int), (0 : Int)⟩, ⟨.bitstring 10, 600#10, 0#10⟩,
      ⟨.enum 5, (4 : Int), (0 : Int)⟩, ⟨.boolean, true, false⟩] :=
  (roundTrip_iff (by decide)).mpr (by decide)

/-- The output of a range with one value keeps what it held. -/
theorem single_value_lost : ¬ RoundTrip [⟨.integer 5 5, (5 : Int), (0 : Int)⟩] := by
  rintro ⟨h, done, _, back⟩
  cases done
  have lost := Option.some.inj back
  have same : (0 : Int) = 5 := eq_of_heq (Sigma.mk.inj (List.cons.inj lost).1).2
  exact absurd same (by decide)

end Ns3.Lte
