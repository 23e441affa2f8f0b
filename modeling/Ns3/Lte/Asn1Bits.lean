import Ns3.Lte.Asn1Header

/-!
# The bits that are written and read
-/

namespace Ns3.Lte.Asn1Header

open MsbBits List

/-- The bits so far: the written octets and the pending bits. -/
def bits (h : Asn1Header) : List Bool :=
  ofOctets h.serializationResult ++ leading h.serializationPendingBits h.numSerializationPendingBits

/-- Less than an octet is pending, and nothing is set after the pending bits. -/
structure Clean (h : Asn1Header) : Prop where
  short : h.numSerializationPendingBits < 8
  unset : ∀ i, h.numSerializationPendingBits ≤ i → h.serializationPendingBits.getMsbD i = false

/-! ## Masks -/

theorem getMsbD_mask (n i : Nat) (fits : n < 8) : (0x80#8 >>> n).getMsbD i = decide (i = n) := by
  rw [BitVec.getMsbD_ushiftRight]
  by_cases inside : i < 8
  · have small : ∀ n < 8, ∀ i < 8,
        (decide (i < 8) && (!decide (i < n) && (0x80#8).getMsbD (i - n))) = decide (i = n) := by
      decide
    exact small n fits i inside
  · rw [decide_eq_false inside, Bool.false_and, decide_eq_false (by omega)]

variable {n : Nat} {h : Asn1Header} {rest : List Bool}

theorem mask_step (fits : n < 8) :
    ((0x80#8 >>> n) >>> 1) &&& ~~~(0x80#8 >>> n) = 0x80#8 >>> (n + 1) := by
  have small : ∀ n : Nat, n < 8 →
      ((0x80#8 >>> n) >>> 1) &&& ~~~(0x80#8 >>> n) = 0x80#8 >>> (n + 1) := by
    decide
  exact small n fits

theorem getMsbD_addPending (h : Asn1Header) (b : Bool) (fits : n < 8) (i : Nat) :
    (h.addPending b (0x80#8 >>> n)).serializationPendingBits.getMsbD i =
      (h.serializationPendingBits.getMsbD i || (b && decide (i = n))) := by
  unfold addPending
  rw [BitVec.getMsbD_or]
  cases b with
  | false => simp
  | true =>
    simp [getMsbD_mask n i fits]

theorem leading_addPending (b : Bool) (fits : n < 8)
    (unset : ∀ i, n ≤ i → h.serializationPendingBits.getMsbD i = false) :
    leading (h.addPending b (0x80#8 >>> n)).serializationPendingBits (n + 1) =
      leading h.serializationPendingBits n ++ [b] := by
  rw [leading_succ, getMsbD_addPending h b fits, unset n le_rfl, Bool.false_or,
    decide_eq_true rfl, Bool.and_true]
  congr 1
  apply leading_congr
  intro i less
  rw [getMsbD_addPending h b fits, decide_eq_false (by omega), Bool.and_false, Bool.or_false]

theorem addPending_unset (b : Bool) (fits : n < 8)
    (unset : ∀ i, n ≤ i → h.serializationPendingBits.getMsbD i = false) :
    ∀ i, n + 1 ≤ i →
      (h.addPending b (0x80#8 >>> n)).serializationPendingBits.getMsbD i = false := by
  intro i beyond
  rw [getMsbD_addPending h b fits, unset i (by omega), decide_eq_false (by omega), Bool.and_false,
    Bool.or_false]

/-! ## Writing -/

theorem bits_writeOctet (octet : BitVec 8) (none : h.numSerializationPendingBits = 0) :
    (h.writeOctet octet).bits = h.bits ++ leading octet 8 := by
  unfold bits writeOctet
  rw [none, ofOctets_append]
  simp [leading]

/-- **The loop that fills an octet** takes bits until the octet is full or no bit is left. -/
theorem fillOctet_spec (bits' : List Bool) (fits : h.numSerializationPendingBits ≤ 8)
    (unset : ∀ i, h.numSerializationPendingBits ≤ i → h.serializationPendingBits.getMsbD i = false) :
    ∃ left t, fillOctet bits' (0x80#8 >>> h.numSerializationPendingBits) h = (left, t) ∧
      t.bits ++ left = h.bits ++ bits' ∧ t.numSerializationPendingBits ≤ 8 ∧
      h.numSerializationPendingBits ≤ t.numSerializationPendingBits ∧
      (∀ i, t.numSerializationPendingBits ≤ i → t.serializationPendingBits.getMsbD i = false) ∧
      (left = [] ∨ t.numSerializationPendingBits = 8) := by
  induction bits' generalizing h with
  | nil => exact ⟨[], h, rfl, rfl, fits, le_rfl, unset, .inl rfl⟩
  | cons b bits' ih =>
    unfold fillOctet
    by_cases full : h.numSerializationPendingBits < 8
    · rw [if_pos full, mask_step full]
      generalize added : ({ h.addPending b (0x80#8 >>> h.numSerializationPendingBits) with
        numSerializationPendingBits := h.numSerializationPendingBits + 1 } : Asn1Header) = next
      have more : next.numSerializationPendingBits = h.numSerializationPendingBits + 1 := by
        rw [← added]
      have unset' := addPending_unset b full unset
      obtain ⟨left, t, fills, is, short, grows, rest⟩ := ih (h := next) (by omega) (by
        rw [← added]
        exact unset')
      rw [more] at fills
      refine ⟨left, t, fills, ?_, short, by omega, rest⟩
      rw [is, ← added]
      unfold bits
      rw [leading_addPending b full unset]
      simp [addPending]
    · rw [if_neg full]
      exact ⟨b :: bits', h, rfl, rfl, fits, le_rfl, unset, .inr (by omega)⟩

theorem completeOctet_spec (bits' : List Bool) (clean : h.Clean) :
    ∃ left t, h.completeOctet bits' = (left, t) ∧ t.bits ++ left = h.bits ++ bits' ∧ t.Clean ∧
      (left = [] ∨ t.numSerializationPendingBits = 0) := by
  unfold completeOctet
  by_cases some_pending : 0 < h.numSerializationPendingBits
  · obtain ⟨left, t, fills, is, short, _, unset, done⟩ :=
      fillOctet_spec bits' (le_of_lt clean.short) clean.unset
    rw [if_pos some_pending, fills]
    dsimp only
    by_cases full : 8 ≤ t.numSerializationPendingBits
    · rw [if_pos full]
      refine ⟨left, _, rfl, ?_, ⟨Nat.zero_lt_succ 7, fun i _ => BitVec.getMsbD_zero⟩, .inr rfl⟩
      rw [← is]
      unfold bits writeOctet
      rw [le_antisymm short full, ofOctets_append]
      simp [leading]
    · rw [if_neg full]
      exact ⟨left, t, rfl, is, ⟨by omega, unset⟩, .inl (done.resolve_right (by omega))⟩
  · rw [if_neg some_pending]
    exact ⟨bits', h, rfl, rfl, clean, .inr (by omega)⟩

/-- **The loop that stores the last bits.** -/
theorem storePending_spec (bits' : List Bool) (fits : n + bits'.length ≤ 8)
    (unset : ∀ i, n ≤ i → h.serializationPendingBits.getMsbD i = false) :
    (storePending bits' (0x80#8 >>> n) h).serializationResult = h.serializationResult ∧
      (storePending bits' (0x80#8 >>> n) h).numSerializationPendingBits =
        h.numSerializationPendingBits ∧
      leading (storePending bits' (0x80#8 >>> n) h).serializationPendingBits (n + bits'.length) =
        leading h.serializationPendingBits n ++ bits' ∧
      ∀ i, n + bits'.length ≤ i →
        (storePending bits' (0x80#8 >>> n) h).serializationPendingBits.getMsbD i = false := by
  induction bits' generalizing h n with
  | nil => exact ⟨rfl, rfl, (append_nil _).symm, unset⟩
  | cons b bits' ih =>
    have full : n < 8 := by
      rw [length_cons] at fits
      omega
    unfold storePending
    rw [mask_step full]
    obtain ⟨result, num, is, clear⟩ := ih (h := h.addPending b (0x80#8 >>> n)) (n := n + 1) (by
      rw [length_cons] at fits
      omega) (addPending_unset b full unset)
    have count : n + 1 + bits'.length = n + (b :: bits').length := by
      rw [length_cons]
      omega
    rw [count] at is clear
    refine ⟨result, num, ?_, clear⟩
    rw [is, leading_addPending b full unset, append_assoc]
    rfl

/-- **The octet of eight bits.** -/
theorem leading_octetToWrite {bits' : List Bool} (eight : bits'.length = 8) :
    leading (octetToWrite bits'.reverse 1 0) 8 = bits' := by
  match bits', eight with
  | [b7, b6, b5, b4, b3, b2, b1, b0], _ =>
    revert b7 b6 b5 b4 b3 b2 b1 b0
    decide +kernel

/-- **The loop over the remaining bits**, when nothing is pending. -/
theorem writeRemaining_spec (bits' : List Bool) (clean : h.Clean)
    (done : bits' = [] ∨ h.numSerializationPendingBits = 0) :
    (writeRemaining bits' h).bits = h.bits ++ bits' ∧ (writeRemaining bits' h).Clean := by
  induction bits', h using writeRemaining.induct with
  | case1 h =>
    rw [writeRemaining, if_pos rfl, append_nil]
    exact ⟨rfl, clean⟩
  | case2 bits' h some_left short =>
    have shift : (0x80 : BitVec 8) = 0x80#8 >>> 0 := rfl
    rw [writeRemaining, if_neg some_left, if_pos short, shift]
    have none := done.resolve_left some_left
    have unset : ∀ i, 0 ≤ i → h.serializationPendingBits.getMsbD i = false := by
      have := clean.unset
      rwa [none] at this
    obtain ⟨result, num, is, clear⟩ :=
      storePending_spec bits' (n := 0) (h := { h with numSerializationPendingBits := bits'.length })
        (by omega) unset
    rw [zero_add] at is clear
    refine ⟨?_, ?_, ?_⟩
    · unfold bits
      rw [result, num, is, none]
      simp [leading]
    · rw [num]
      exact short
    · rw [num]
      exact clear
  | case3 bits' h some_left long ih =>
    rw [writeRemaining, if_neg some_left, if_neg long]
    have none := done.resolve_left some_left
    obtain ⟨is, clean'⟩ := ih ⟨clean.short, clean.unset⟩ (.inr none)
    refine ⟨?_, clean'⟩
    rw [is, bits_writeOctet _ none, leading_octetToWrite, append_assoc, take_append_drop]
    rw [length_take]
    omega

theorem writeRemaining_octet {bits' : List Bool} (eight : bits'.length = 8) (h : Asn1Header) :
    writeRemaining bits' h = h.writeOctet (octetToWrite bits'.reverse 1 0) := by
  have some_left : bits' ≠ [] := by
    intro none
    rw [none] at eight
    cases eight
  rw [writeRemaining, if_neg some_left, if_neg (by omega), writeRemaining,
    if_pos (drop_eq_nil_of_le (le_of_eq eight)),
    take_of_length_le (le_of_eq eight)]

/-- **`SerializeBitset`** adds the bits of the number. -/
theorem serializeBitset_spec (clean : h.Clean) {size : Nat} (small : size < 256) (value : Nat) :
    (h.serializeBitset size value).bits = h.bits ++ ofNat value size ∧
      (h.serializeBitset size value).Clean := by
  unfold serializeBitset
  by_cases none : size = 0
  · rw [if_pos none, none]
    exact ⟨(append_nil _).symm, clean⟩
  · have count : size % 2 ^ 8 = size := Nat.mod_eq_of_lt small
    rw [if_neg none, if_pos (by omega), count]
    obtain ⟨left, t, completes, is, clean', done⟩ := completeOctet_spec (ofNat value size) clean
    obtain ⟨is', clean''⟩ := writeRemaining_spec left clean' done
    rw [completes]
    exact ⟨is'.trans is, clean''⟩

/-! ## Reading -/

/-- The bits that are left to read. -/
def Source.bits (source : Source) : List Bool :=
  leading source.1.serializationPendingBits source.1.numSerializationPendingBits ++
    ofOctets source.2

theorem first_bit (octet : BitVec 8) : decide (octet &&& 0x80 ≠ 0) = octet.getMsbD 0 := by
  revert octet
  decide +kernel

/-- **The loop that reads pending bits** stops when none is pending or none is to read. -/
theorem readPending_spec (bitsToRead : Nat) (h : Asn1Header) :
    ∃ front left t, readPending bitsToRead h = (front, left, t) ∧ front.length + left = bitsToRead ∧
      leading h.serializationPendingBits h.numSerializationPendingBits =
        front ++ leading t.serializationPendingBits t.numSerializationPendingBits ∧
      (left = 0 ∨ t.numSerializationPendingBits = 0) := by
  induction bitsToRead generalizing h with
  | zero => exact ⟨[], 0, h, rfl, rfl, rfl, .inl rfl⟩
  | succ bitsToRead ih =>
    unfold readPending
    by_cases some_pending : 0 < h.numSerializationPendingBits
    · obtain ⟨front, left, t, reads, count, is, done⟩ := ih
        { h with
          numSerializationPendingBits := h.numSerializationPendingBits - 1
          serializationPendingBits := h.serializationPendingBits <<< 1 }
      rw [if_pos some_pending, reads]
      refine ⟨_, left, t, rfl, ?_, ?_, done⟩
      · rw [length_cons]
        omega
      · obtain ⟨n, more⟩ := Nat.exists_eq_succ_of_ne_zero (Nat.ne_of_gt some_pending)
        rw [more, Nat.succ_sub_one] at is
        rw [more, leading_shiftLeft, is, first_bit]
        rfl
    · rw [if_neg some_pending]
      exact ⟨[], bitsToRead + 1, h, rfl, zero_add _, rfl, .inr (by omega)⟩

/-- **The loop over an octet** reads its first bits. -/
theorem readOctet_spec (octet : BitVec 8) {count : Nat} (fits : count ≤ 8) :
    readOctet octet count 0x80 = leading octet count := by
  have small : ∀ octet : BitVec 8, ∀ count : Fin 9,
      readOctet octet count 0x80 = leading octet count := by decide +kernel
  exact small octet ⟨count, Nat.lt_succ_of_le fits⟩

theorem leading_split (octet : BitVec 8) {count : Nat} (fits : count ≤ 8) :
    leading octet 8 = leading octet count ++ leading (octet <<< count) (8 - count) := by
  have small : ∀ octet : BitVec 8, ∀ count : Fin 9,
      leading octet 8 = leading octet count ++ leading (octet <<< (count : Nat)) (8 - count) := by
    decide +kernel
  exact small octet ⟨count, Nat.lt_succ_of_le fits⟩

theorem append_split {front back whole : List Bool} (same : front ++ back = whole ++ rest)
    (shorter : front.length ≤ whole.length) :
    ∃ later, whole = front ++ later ∧ back = later ++ rest := by
  rcases append_eq_append_iff.mp same with split | ⟨between, is, rest_is⟩
  · exact split
  · have none : between = [] := by
      have := congrArg List.length is
      rw [length_append] at this
      exact eq_nil_of_length_eq_zero (by omega)
    subst none
    rw [append_nil] at is
    exact ⟨[], by simp [is], rest_is.symm⟩

/-- **The loop over the buffer**, when nothing is pending. -/
theorem readRemaining_spec {octets : List (BitVec 8)} {wanted : List Bool}
    (none : h.numSerializationPendingBits = 0 ∨ wanted = [])
    (is : Source.bits (h, octets) = wanted ++ rest) :
    ∃ source, readRemaining wanted.length h octets = some (wanted, source) ∧
      Source.bits source = rest := by
  induction octets generalizing h wanted with
  | nil =>
    cases wanted with
    | nil => exact ⟨(h, []), rfl, is⟩
    | cons b wanted =>
      unfold Source.bits at is
      rw [none.resolve_right (cons_ne_nil _ _)] at is
      cases is
  | cons octet octets ih =>
    cases wanted with
    | nil => exact ⟨(h, octet :: octets), rfl, is⟩
    | cons b wanted =>
      have empty := none.resolve_right (cons_ne_nil _ _)
      have stream : leading octet 8 ++ ofOctets octets = b :: wanted ++ rest := by
        unfold Source.bits at is
        rwa [empty] at is
      rw [length_cons, readRemaining]
      by_cases whole : 8 ≤ wanted.length + 1
      · rw [if_pos whole, readOctet_spec octet (le_refl 8)]
        obtain ⟨later, split, following⟩ :=
          append_split stream (by rw [length_leading, length_cons]; exact whole)
        have count : wanted.length + 1 - 8 = later.length := by
          have := congrArg List.length split
          rw [length_append, length_leading, length_cons] at this
          omega
        have from_here : Source.bits (h, octets) = later ++ rest := by
          unfold Source.bits
          rw [empty]
          exact following
        obtain ⟨source, reads, left⟩ := ih (.inl empty) from_here
        rw [count, reads, split]
        exact ⟨source, rfl, left⟩
      · rw [if_neg whole, readOctet_spec octet (by omega)]
        rw [leading_split octet (show wanted.length + 1 ≤ 8 by omega), append_assoc] at stream
        obtain ⟨here, left⟩ := append_inj stream (length_leading _ _)
        rw [here]
        exact ⟨_, rfl, left⟩

/-- **`DeserializeBitset`** reads the bits of a number. -/
theorem deserializeBitset_spec {source : Source} {size value : Nat}
    (is : source.bits = ofNat value size ++ rest) :
    ∃ source', deserializeBitset size source = some (value % 2 ^ size, source') ∧
      source'.bits = rest := by
  obtain ⟨h, octets⟩ := source
  obtain ⟨front, left, t, reads, count, split, done⟩ := readPending_spec size h
  have stream : front ++ Source.bits (t, octets) = ofNat value size ++ rest := by
    unfold Source.bits at *
    simp [← is, split]
  obtain ⟨wanted, whole, following⟩ := append_split stream (by rw [length_ofNat]; omega)
  have left_is : left = wanted.length := by
    have := congrArg List.length whole
    rw [length_append, length_ofNat] at this
    omega
  have none : t.numSerializationPendingBits = 0 ∨ wanted = [] := by
    apply done.symm.imp_right
    intro zero
    exact eq_nil_of_length_eq_zero (left_is.symm.trans zero)
  obtain ⟨source', remaining, rest_is⟩ := readRemaining_spec none following
  refine ⟨source', ?_, rest_is⟩
  unfold deserializeBitset
  rw [reads, left_is]
  dsimp only
  rw [remaining]
  dsimp only [bind, Option.bind, pure]
  rw [← whole, toNat_ofNat]

end Ns3.Lte.Asn1Header
