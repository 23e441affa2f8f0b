import Ns3.Internet.TcpHeader

/-!
# Parsing any TCP header, and one that was written
-/

namespace Ns3.Internet

open ByteReader List

namespace TcpHeader

/-! ## Any bytes -/

/-- The loop over the options comes from one place, with what is left of the option space, to
another one. -/
inductive Reaches : List UInt8 → Nat → List UInt8 → Nat → Prop where
  | here (i : List UInt8) (left : Nat) : Reaches i left i left
  | next {i i' : List UInt8} {n left left' : Nat} : left ≠ 0 → TcpOption.optionLength i = some n →
      TcpOption.kindByte i ≠ 0 → n ≤ left → Reaches (i.drop n) (left - n) i' left' →
      Reaches i left i' left'

/-- Each option that the loop comes to is readable. -/
def AllReadable (i : List UInt8) (left : Nat) : Prop :=
  ∀ i' left', Reaches i left i' left' → left' ≠ 0 → TcpOption.Readable i'

theorem AllReadable.next {i : List UInt8} {n left : Nat} (all : AllReadable i left)
    (more : left ≠ 0) (length : TcpOption.optionLength i = some n)
    (kind : TcpOption.kindByte i ≠ 0) (fits : n ≤ left) :
    AllReadable (i.drop n) (left - n) :=
  fun i' left' reaches => all i' left' (.next more length kind fits reaches)

variable {l : OptionLoop} {h : TcpHeader}

theorem optionRounds_ended (none : l.optionLen = 0) (rounds : Nat) :
    optionRounds rounds l = .ok l := by cases rounds <;> unfold optionRounds <;> rw [if_pos none]

section
variable {l : OptionLoop} {size : Nat} {op : TcpOption} (more : l.optionLen ≠ 0)
  (parsed : TcpOption.deserialize l.rest = .ok (size, op)) (rounds : Nat)

include more parsed

theorem optionRounds_rejected (wrong : size ≠ op.getSerializedSize) :
    optionRounds (rounds + 1) l = .ok l := by
  unfold optionRounds
  rw [if_neg more, parsed]
  dsimp only [bind, Except.bind]
  rw [if_pos wrong]
  rfl

section

variable (right : op.getSerializedSize = size)
include right

theorem optionRounds_exceeds (long : ¬ size ≤ l.optionLen) :
    optionRounds (rounds + 1) l = .ok l := by
  unfold optionRounds
  rw [if_neg more, parsed]
  dsimp only [bind, Except.bind]
  rw [if_neg (not_not.mpr right.symm), if_neg long]
  rfl

theorem optionRounds_last (fits : size ≤ l.optionLen) (last : op.getKind = 0) :
    optionRounds (rounds + 1) l =
      .ok ⟨0, (l.rest.drop size).drop (l.optionLen - size), l.options ++ [op],
        l.optionsLen + size + (l.optionLen - size)⟩ := by
  unfold optionRounds
  rw [if_neg more, parsed]
  dsimp only [bind, Except.bind]
  rw [if_neg (not_not.mpr right.symm), if_pos fits, if_pos last]
  rfl

theorem optionRounds_next (fits : size ≤ l.optionLen) (kind : op.getKind ≠ 0) :
    optionRounds (rounds + 1) l =
      optionRounds rounds ⟨l.optionLen - size, l.rest.drop size, l.options ++ [op],
        l.optionsLen + size⟩ := by
  conv_lhs => unfold optionRounds
  rw [if_neg more, parsed]
  dsimp only [bind, Except.bind]
  rw [if_neg (not_not.mpr right.symm), if_pos fits, if_neg kind]

end

end

/-- **The loop ends** inside the option space when each option is readable. -/
theorem optionRounds_ends (all : AllReadable l.rest l.optionLen) :
    ∃ rounds l', optionRounds rounds l = .ok l' ∧ l.rest.length ≤ l'.rest.length + l.optionLen := by
  induction space : l.optionLen using Nat.strongRecOn generalizing l with
  | ind optionLen ih =>
    subst space
    by_cases none : l.optionLen = 0
    · exact ⟨0, l, optionRounds_ended none 0, Nat.le_add_right _ _⟩
    · have readable := all _ _ (.here _ _) none
      have parse := TcpOption.deserialize_parse l.rest
      cases result : TcpOption.deserialize l.rest with
      | error e =>
        rw [result] at parse
        cases parse with
        | failed _ unreadable => exact absurd readable unreadable
      | ok p =>
        obtain ⟨size, op⟩ := p
        rw [result] at parse
        cases parse with
        | accepted _ positive accepted =>
          by_cases fits : size ≤ l.optionLen
          · by_cases last : op.getKind = 0
            · refine ⟨1, _, optionRounds_last none result 0 accepted.size fits last, ?_⟩
              rw [length_drop, length_drop]
              omega
            · have kind : TcpOption.kindByte l.rest ≠ 0 := fun zero => last (accepted.last.mpr zero)
              obtain ⟨rounds, l', ends, inside⟩ := ih (l.optionLen - size) (by omega)
                (l := ⟨l.optionLen - size, l.rest.drop size, l.options ++ [op],
                  l.optionsLen + size⟩) (all.next none accepted.length kind fits) rfl
              refine ⟨rounds + 1, l', ?_, ?_⟩
              · rw [optionRounds_next none result rounds accepted.size fits last]
                exact ends
              · dsimp only at inside
                rw [length_drop] at inside
                omega
          · exact ⟨1, l, optionRounds_exceeds none result 0 accepted.size fits,
              Nat.le_add_right _ _⟩
        | rejected _ rejected =>
          exact ⟨1, l, optionRounds_rejected none result 0 rejected.size, Nat.le_add_right _ _⟩
        | stuck unreadable => exact absurd readable unreadable

/-- **A loop that ends** comes to readable options only. -/
theorem allReadable_of_ends {rounds : Nat} {l' : OptionLoop}
    (ends : optionRounds rounds l = .ok l') :
    AllReadable l.rest l.optionLen := by
  induction rounds generalizing l with
  | zero =>
    unfold optionRounds at ends
    split at ends
    case isTrue none =>
      intro i left reaches more
      cases reaches with
      | here => exact absurd none more
      | next some_left => exact absurd none some_left
    case isFalse => cases ends
  | succ rounds ih =>
    intro i left reaches more
    by_cases none : l.optionLen = 0
    · cases reaches with
      | here => exact absurd none more
      | next some_left => exact absurd none some_left
    have parse := TcpOption.deserialize_parse l.rest
    cases result : TcpOption.deserialize l.rest with
    | error e =>
      unfold optionRounds at ends
      rw [if_neg none, result] at ends
      cases ends
    | ok p =>
      obtain ⟨size, op⟩ := p
      rw [result] at parse
      cases parse with
      | accepted readable positive accepted =>
        cases reaches with
        | here => exact readable
        | next some_left length kind fits later =>
          cases accepted.length.symm.trans length
          have middle : op.getKind ≠ 0 := fun zero => kind (accepted.last.mp zero)
          rw [optionRounds_next none result rounds accepted.size fits middle] at ends
          exact ih ends i left later more
      | rejected readable rejected =>
        cases reaches with
        | here => exact readable
        | next some_left length =>
          rw [rejected.length] at length
          cases length
      | stuck unreadable size kind =>
        -- the loop goes on at the same place
        rw [optionRounds_next none result rounds size (Nat.zero_le _) kind] at ends
        exact absurd (ih ends _ _ (.here _ _) none) unreadable

/-- The data offset, in words. -/
def dataOffset (bytes : List UInt8) : Nat := (bytes.getD 12 0).toNat / 16

/-- The bytes of the option area. A data offset below 5 gives none. -/
def optionArea (bytes : List UInt8) : Nat := 4 * (dataOffset bytes - 5)

/-- **The parse ends**, and does not go past the option area. -/
def ParsesInside (bytes : List UInt8) : Prop :=
  ∃ rounds h size rest, deserialize rounds bytes = .ok (h, size, rest) ∧
    bytes.length ≤ rest.length + (20 + optionArea bytes)

theorem deserializeFields_spec {bytes : List UInt8} (long : 20 ≤ bytes.length) :
    ∃ h, deserializeFields bytes = .ok (h, bytes.drop 20) ∧ h.length = dataOffset bytes := by
  have front_length : (bytes.take 20).length = 20 := length_take_of_le long
  rw [← take_append_drop 20 bytes]
  generalize bytes.take 20 = front at front_length
  generalize bytes.drop 20 = rest
  match front, front_length with
  | [b0, b1, b2, b3, b4, b5, b6, b7, b8, b9, b10, b11, b12, b13, b14, b15, b16, b17, b18, b19], _ =>
    refine ⟨_, rfl, ?_⟩
    change (UInt16.ofNat (b12.toNat * 2 ^ 8 + b13.toNat)).toNat >>> 12 = b12.toNat / 16
    have := b12.toNat_lt
    have := b13.toNat_lt
    rw [UInt16.toNat_ofNat', Nat.shiftRight_eq_div_pow]
    omega

theorem dataOffset_lt (bytes : List UInt8) : dataOffset bytes < 16 := by
  have := (bytes.getD 12 0).toNat_lt
  unfold dataOffset
  omega

theorem optionSpace_spec (bytes : List UInt8) :
    (dataOffset bytes < 5 → maxOptionsLen < optionSpace (dataOffset bytes)) ∧
      (5 ≤ dataOffset bytes →
        optionSpace (dataOffset bytes) = optionArea bytes ∧ optionArea bytes ≤ maxOptionsLen) := by
  have := dataOffset_lt bytes
  unfold optionSpace optionArea maxOptionsLen
  constructor <;> intro short <;> omega

/-- **Any bytes** of at least the longest header parse inside the option area exactly when each
option that the loop comes to is readable. -/
theorem parsesInside_iff {bytes : List UInt8} (long : 60 ≤ bytes.length) :
    ParsesInside bytes ↔ AllReadable (bytes.drop 20) (optionArea bytes) := by
  obtain ⟨h, fields, length⟩ := deserializeFields_spec (Nat.le_trans (by decide) long)
  obtain ⟨below, above⟩ := optionSpace_spec bytes
  by_cases short : dataOffset bytes < 5
  · have none : optionArea bytes = 0 := by
      unfold optionArea
      omega
    constructor
    · intro _ i left reaches more
      rw [none] at reaches
      cases reaches with
      | here => exact absurd rfl more
      | next some_left => exact absurd rfl some_left
    · intro _
      refine ⟨0, h, 20, bytes.drop 20, ?_, ?_⟩
      · unfold deserialize
        rw [fields]
        dsimp only [bind, Except.bind]
        rw [length, if_pos (below short)]
        rfl
      · rw [length_drop]
        omega
  · obtain ⟨space, fits⟩ := above (by omega)
    have unfolded : ∀ rounds, deserialize rounds bytes =
        (optionRounds rounds ⟨optionArea bytes, bytes.drop 20, [], 0⟩).map fun l =>
          ({ h with options := l.options, optionsLen := l.optionsLen },
            getSerializedSize { h with options := l.options, optionsLen := l.optionsLen },
            l.rest) := by
      intro rounds
      unfold deserialize
      rw [fields]
      dsimp only [bind, Except.bind]
      rw [length, space, if_neg (Nat.not_lt.mpr fits)]
      cases optionRounds rounds ⟨optionArea bytes, bytes.drop 20, [], 0⟩ <;> rfl
    constructor
    · rintro ⟨rounds, h', size, rest, done, _⟩
      rw [unfolded] at done
      cases ends : optionRounds rounds ⟨optionArea bytes, bytes.drop 20, [], 0⟩ with
      | error e =>
        rw [ends] at done
        cases done
      | ok l => exact allReadable_of_ends ends
    · intro all
      obtain ⟨rounds, l, ends, inside⟩ :=
        optionRounds_ends (l := ⟨optionArea bytes, bytes.drop 20, [], 0⟩) all
      refine ⟨rounds, { h with options := l.options, optionsLen := l.optionsLen },
        getSerializedSize { h with options := l.options, optionsLen := l.optionsLen }, l.rest,
        ?_, ?_⟩
      · rw [unfolded, ends]
        rfl
      · dsimp only at inside
        rw [length_drop] at inside
        omega

/-! ## A header that was written -/

/-- A header whose options were appended. -/
inductive Built : TcpHeader → Prop where
  | create (sourcePort destinationPort : UInt16) (sequenceNumber ackNumber : UInt32)
      (flags : UInt8) (windowSize urgentPointer : UInt16) :
      Built (create sourcePort destinationPort sequenceNumber ackNumber flags windowSize
        urgentPointer)
  | append {h : TcpHeader} {option : TcpOption} : Built h → option.Known →
      Built (h.appendOption option).1

/-- The options are known, none is an END, and the length is the one of the options. -/
structure Consistent (h : TcpHeader) : Prop where
  known : ∀ op ∈ h.options, op.Known ∧ op.getKind ≠ 0
  optionsLen : h.optionsLen = optionsSize h.options
  fits : optionsSize h.options ≤ 40
  length : h.length = (23 + optionsSize h.options) / 4

theorem optionsSize_append (front back : List TcpOption) :
    optionsSize (front ++ back) = optionsSize front + optionsSize back := by
  unfold optionsSize
  rw [map_append, sum_append]

theorem Built.consistent (built : Built h) : Consistent h := by
  induction built with
  | create =>
    have none : 5 = (23 + optionsSize []) / 4 := by decide
    exact ⟨nofun, rfl, Nat.zero_le 40, none⟩
  | @append h option _ known ih =>
    unfold appendOption
    split
    case isFalse => exact ih
    split
    case isTrue => exact ih
    split
    case isFalse => exact ih
    case isTrue fits _ kind =>
      have size : optionsSize (h.options ++ [option]) =
          optionsSize h.options + option.getSerializedSize := by
        rw [optionsSize_append]
        exact congrArg _ (Nat.add_zero _)
      have total := ih.optionsLen
      unfold maxOptionsLen at fits
      refine ⟨?_, ?_, ?_, ?_⟩
      · intro op mem
        rcases mem_append.mp mem with earlier | last
        · exact ih.known op earlier
        · obtain rfl := mem_singleton.mp last
          exact ⟨known, kind⟩
      · dsimp only
        rw [size, total]
      · dsimp only
        rw [size]
        omega
      · dsimp only
        rw [size, total]

theorem Consistent.getSerializedSize (consistent : Consistent h) :
    h.getSerializedSize = 20 + optionsSize h.options + (4 - optionsSize h.options % 4) % 4 := by
  have := consistent.fits
  unfold TcpHeader.getSerializedSize calculateHeaderLength
  dsimp only
  split <;> omega

theorem length_options {ops : List TcpOption} (known : ∀ op ∈ ops, op.Known ∧ op.getKind ≠ 0) :
    (ops.flatMap TcpOption.serialize).length = optionsSize ops := by
  rw [length_flatMap]
  congr 1
  exact map_congr_left fun op mem => TcpOption.length_serialize (known op mem).1

/-- **`Serialize` writes** as many bytes as `GetSerializedSize` says. -/
theorem Consistent.length_serialize (consistent : Consistent h) (checksum : UInt16) :
    (h.serialize checksum).length = h.getSerializedSize := by
  have fields : (h.serializeFields checksum).length = 20 := rfl
  unfold serialize padding
  rw [consistent.getSerializedSize, length_append, length_append, fields,
    length_options consistent.known, length_replicate]
  omega

/-- **The loop over written options** reads them all. -/
theorem optionRounds_written {ops : List TcpOption}
    (known : ∀ op ∈ ops, op.Known ∧ op.getKind ≠ 0) (fits : optionsSize ops ≤ 40)
    (rounds space : Nat) (rest : List UInt8) (before : List TcpOption) (used : Nat) :
    optionRounds (ops.length + rounds)
        ⟨optionsSize ops + space, ops.flatMap TcpOption.serialize ++ rest, before, used⟩ =
      optionRounds rounds ⟨space, rest, before ++ ops, used + optionsSize ops⟩ := by
  induction ops generalizing before used with
  | nil => simp [optionsSize]
  | cons op ops ih =>
    obtain ⟨op_known, kind⟩ := known op mem_cons_self
    have size : optionsSize (op :: ops) = op.getSerializedSize + optionsSize ops := sum_cons
    have length := TcpOption.length_serialize op_known
    have positive : 0 < op.getSerializedSize := by
      cases op with
      | unknown => exact op_known.elim
      | sack sackList => exact Nat.lt_of_lt_of_le Nat.two_pos (Nat.le_add_right 2 _)
      | _ => exact Nat.zero_lt_succ _
    have parsed : TcpOption.deserialize
        (op.serialize ++ (ops.flatMap TcpOption.serialize ++ rest)) =
          .ok (op.getSerializedSize, op) :=
      TcpOption.deserialize_serialize op_known (by omega) _
    rw [flatMap_cons, append_assoc, size, length_cons, Nat.add_right_comm,
      optionRounds_next (by dsimp only; omega) parsed _ rfl (by dsimp only; omega) kind]
    dsimp only
    rw [← length, drop_left, length]
    have left : op.getSerializedSize + optionsSize ops + space - op.getSerializedSize =
        optionsSize ops + space := by omega
    rw [left, ih (fun op mem => known op (mem_cons_of_mem _ mem)) (by omega),
      append_assoc, Nat.add_assoc]
    rfl

theorem field_spec {length flags : Nat} (length_lt : length < 16) (flags_lt : flags < 256) :
    (length <<< 12 ||| flags) < 2 ^ 16 ∧ (length <<< 12 ||| flags) >>> 12 = length ∧
      (length <<< 12 ||| flags) &&& 0xFF = flags := by
  have all : ∀ length < 16, ∀ flags < 256, (length <<< 12 ||| flags) < 2 ^ 16 ∧
      (length <<< 12 ||| flags) >>> 12 = length ∧ (length <<< 12 ||| flags) &&& 0xFF = flags := by
    decide +kernel
  exact all length length_lt flags flags_lt

/-- **The fields** read back. -/
theorem Consistent.fields_read (consistent : Consistent h) (checksum : UInt16) :
    Reads deserializeFields (h.serializeFields checksum)
      { h with options := [], optionsLen := 0 } := by
  generalize field_is : UInt16.ofNat (h.length <<< 12 ||| h.flags.toNat) = field
  have short : h.length < 16 := by
    have := consistent.fits
    rw [consistent.length]
    omega
  obtain ⟨small, high, low⟩ := field_spec short h.flags.toNat_lt
  have value : field.toNat = h.length <<< 12 ||| h.flags.toNat := by
    rw [← field_is, UInt16.toNat_ofNat', Nat.mod_eq_of_lt small]
  have reads : Reads deserializeFields (h.serializeFields checksum)
      ⟨h.sourcePort, h.destinationPort, h.sequenceNumber, h.ackNumber, field.toNat >>> 12,
        .ofNat (field.toNat &&& 0xFF), h.windowSize, h.urgentPointer, [], 0⟩ := by
    unfold serializeFields
    rw [field_is]
    exact (readNtohU16_reads Stop.pastEnd h.sourcePort).bind
      ((readNtohU16_reads Stop.pastEnd h.destinationPort).bind
      ((readNtohU32_reads Stop.pastEnd h.sequenceNumber).bind
      ((readNtohU32_reads Stop.pastEnd h.ackNumber).bind
      ((readNtohU16_reads Stop.pastEnd field).bind
      ((readNtohU16_reads Stop.pastEnd h.windowSize).bind
      ((readNtohU16_reads Stop.pastEnd checksum).bind
      ((readNtohU16_reads Stop.pastEnd h.urgentPointer).map _)))))))
  rw [value, high, low, UInt8.ofNat_toNat] at reads
  exact reads

/-- The END that the padding reads back as. -/
def paddingEnd (h : TcpHeader) : List TcpOption :=
  if optionsSize h.options % 4 = 0 then [] else [TcpOption.listEnd]

/-- What is read of a written header: the header, with an END where there is padding. -/
def restored (h : TcpHeader) : TcpHeader :=
  { h with
    options := h.options ++ h.paddingEnd
    optionsLen := h.optionsLen + (4 - optionsSize h.options % 4) % 4 }

/-- The header writes as many bytes as it says, and they read back as the header. -/
def RoundTrip (h : TcpHeader) (checksum : UInt16) : Prop :=
  (h.serialize checksum).length = h.getSerializedSize ∧
    ∀ payload, ∃ rounds, deserialize rounds (h.serialize checksum ++ payload) =
      .ok (h.restored, h.getSerializedSize, payload)

/-- **The padding** reads back as one END. -/
theorem optionRounds_padding (h : TcpHeader) (payload : List UInt8) (options : List TcpOption)
    (used : Nat) :
    optionRounds 1 ⟨(4 - optionsSize h.options % 4) % 4, padding (optionsSize h.options) ++ payload,
        options, used⟩ =
      .ok ⟨0, payload, options ++ h.paddingEnd, used + (4 - optionsSize h.options % 4) % 4⟩ := by
  unfold padding paddingEnd
  generalize pad_is : (4 - optionsSize h.options % 4) % 4 = pad
  cases pad with
  | zero =>
    rw [if_pos (by omega), append_nil]
    exact optionRounds_ended rfl 1
  | succ pad =>
    rw [if_neg (by omega)]
    have parsed : TcpOption.deserialize (List.replicate (pad + 1) 0 ++ payload) =
        .ok (1, TcpOption.listEnd) := rfl
    rw [optionRounds_last (l := ⟨pad + 1, List.replicate (pad + 1) 0 ++ payload, options, used⟩)
      (Nat.succ_ne_zero pad) parsed 0 rfl (Nat.le_add_left 1 pad) rfl]
    have others : (List.replicate (pad + 1) (0 : UInt8) ++ payload).drop 1 =
        List.replicate pad 0 ++ payload := rfl
    have rest : (List.replicate pad (0 : UInt8) ++ payload).drop pad = payload :=
      drop_left' length_replicate
    simp [Nat.add_assoc, Nat.add_comm 1 pad]

theorem restored_size (consistent : Consistent h) :
    h.restored.getSerializedSize = h.getSerializedSize := by
  have fits := consistent.fits
  have size : optionsSize h.restored.options = optionsSize h.options + optionsSize h.paddingEnd :=
    optionsSize_append _ _
  have words : h.restored.calculateHeaderLength = h.calculateHeaderLength := by
    unfold calculateHeaderLength
    rw [size]
    unfold paddingEnd
    dsimp only
    split
    case isTrue => rfl
    case isFalse unaligned =>
      have one : optionsSize [TcpOption.listEnd] = 1 := by decide
      rw [one]
      split <;> split <;> omega
  exact congrArg (4 * ·) words

/-- **A header whose options were appended** reads back. -/
theorem Built.roundTrip (built : Built h) (checksum : UInt16) : RoundTrip h checksum := by
  have consistent := built.consistent
  refine ⟨consistent.length_serialize checksum, fun payload => ⟨h.options.length + 1, ?_⟩⟩
  have fits := consistent.fits
  have space : optionSpace h.length =
      optionsSize h.options + (4 - optionsSize h.options % 4) % 4 := by
    rw [consistent.length]
    unfold optionSpace
    omega
  have used : optionsSize h.options + (4 - optionsSize h.options % 4) % 4 =
      h.optionsLen + (4 - optionsSize h.options % 4) % 4 := by rw [consistent.optionsLen]
  have inside : ¬ maxOptionsLen < optionSpace h.length := by
    rw [space]
    unfold maxOptionsLen
    omega
  unfold deserialize serialize
  rw [append_assoc, consistent.fields_read checksum]
  dsimp only [bind, Except.bind]
  rw [if_neg inside, space, append_assoc, optionRounds_written consistent.known fits,
    optionRounds_padding, nil_append, Nat.zero_add, used]
  exact congrArg (fun size => Except.ok (h.restored, size, payload)) (restored_size consistent)

/-- **TCP headers**: any bytes parse inside the option area exactly when the loop comes to readable
options only, and a header whose options were appended reads back. -/
theorem parses_and_reads_back {bytes : List UInt8} (long : 60 ≤ bytes.length) {h : TcpHeader}
    (built : Built h) (checksum : UInt16) :
    (ParsesInside bytes ↔ AllReadable (bytes.drop 20) (optionArea bytes)) ∧ RoundTrip h checksum :=
  ⟨parsesInside_iff long, built.roundTrip checksum⟩

/-- A header of six words with one option word, and 36 bytes after it. -/
def sixWords (b0 b1 b2 b3 : UInt8) : List UInt8 :=
  List.replicate 12 0 ++ [0x60, 0x10] ++ List.replicate 6 0 ++ [b0, b1, b2, b3] ++
    List.replicate 36 0

def withOptions : TcpHeader :=
  (((create 80 5000 7 9 0x18 4096 0).appendOption (.ts 1 2)).1.appendOption
    (.sack [(10, 20), (30, 40)])).1

theorem built_withOptions : Built withOptions :=
  .append (.append (.create 80 5000 7 9 0x18 4096 0) trivial) trivial

/-- A window scale option with a wrong length behind a NOP, and a header with two options. -/
theorem parses_and_reads_back_options : (ParsesInside (sixWords 1 3 7 0) ↔
      AllReadable ((sixWords 1 3 7 0).drop 20) (optionArea (sixWords 1 3 7 0))) ∧
      RoundTrip withOptions 0 :=
  parses_and_reads_back (by decide) built_withOptions 0

/-- An option of an unknown kind with the length zero is parsed again and again. -/
theorem zero_length_endless : ¬ ParsesInside (sixWords 100 0 0 0) := by
  intro parses
  have all := (parsesInside_iff (by decide)).mp parses
  have readable := all _ _ (.here _ _) (by decide)
  exact readable.unknown (by decide) (by decide)

end TcpHeader

end Ns3.Internet
