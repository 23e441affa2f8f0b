import Ns3.Internet.Ipv4Fragments

/-!
# The partial packet of `Ipv4L3Protocol::Fragments`

`GetPartialPacket` hands on what has come of a datagram when its time is over. `none` is a failed
assertion, of `Packet::CreateFragment` or of the packet metadata where it is enabled.
-/

namespace Ns3.Internet.Ipv4L3Protocol

open Segment List Fragments

/-- `Packet::CreateFragment`: the metadata has to find each byte it removes. -/
def packetFragment (metadata : Bool) (p : List UInt8) (start length : Nat) :
    Option (List UInt8) :=
  let stop := (start + length) % 2 ^ 32
  if p.length < stop then none
  else
    let tail := p.length - stop
    if metadata && (p.length < start || p.length - start < tail) then none
    else some ((p.drop start).take (p.length - start - tail))

namespace Fragments

/-- One round of `GetPartialPacket`. -/
def addPartial (metadata : Bool) (p : List UInt8) (f : Segment UInt8) : Option (List UInt8) :=
  let lastEndOffset := p.length % 2 ^ 16
  if f.offset < lastEndOffset then
    let newStart := lastEndOffset - f.offset
    let newSize := (f.data.length + 2 ^ 32 - newStart) % 2 ^ 32
    (packetFragment metadata f.data newStart newSize).map (p ++ ·)
  else if lastEndOffset = f.offset then some (p ++ f.data)
  else some p

def partialLoop (metadata : Bool) : List UInt8 → List (Segment UInt8) → Option (List UInt8)
  | p, [] => some p
  | p, f :: rest => (addPartial metadata p f).bind fun p => partialLoop metadata p rest

def getPartialPacket (metadata : Bool) (fs : Fragments) : Option (List UInt8) :=
  match fs.fragments with
  | [] => none
  | f :: rest => if 0 < f.offset then some [] else partialLoop metadata [] (f :: rest)

end Fragments

/-- The offset and the size are those of a header. -/
structure Fits (f : Segment UInt8) : Prop where
  offset : f.offset < 2 ^ 16
  size : f.data.length < 2 ^ 16

/-- A fragment behind those that come before it in the list and leave no gap up to it: it is not
contained in one of them where the metadata is enabled, and adds nothing behind one that ends
beyond `uint16_t`. -/
def TameStep (metadata : Bool) (before : List (Segment UInt8)) (f : Segment UInt8) : Prop :=
  (∀ i < f.offset, Covers before i) →
    if ∃ x ∈ before, 2 ^ 16 ≤ x.stop then ∃ x ∈ before, f.stop ≤ x.stop
    else metadata = true → ∀ x ∈ before, x.stop ≤ f.stop

/-- Every fragment of the rest is tame behind those before it. -/
def TameFrom (metadata : Bool) (before rest : List (Segment UInt8)) : Prop :=
  ∀ between f after, rest = between ++ f :: after → TameStep metadata (before ++ between) f

def Tame (metadata : Bool) (fs : Fragments) : Prop := TameFrom metadata [] fs.fragments

/-! ## One round -/

section

variable {metadata : Bool} {before rest : List (Segment UInt8)} {f : Segment UInt8}
  {p : List UInt8}

theorem packetFragment_rest {start : Nat} {data : List UInt8} (inside : start ≤ data.length)
    (small : data.length < 2 ^ 16) :
    packetFragment metadata data start ((data.length + 2 ^ 32 - start) % 2 ^ 32) =
      some (data.drop start) := by
  have size : (data.length + 2 ^ 32 - start) % 2 ^ 32 = data.length - start := by omega
  have stop : (start + (data.length - start)) % 2 ^ 32 = data.length := by omega
  unfold packetFragment
  simp only [size, stop, Nat.lt_irrefl, if_false, Nat.sub_self, Nat.sub_zero, Nat.not_lt_zero,
    decide_false, Bool.or_false, Nat.not_lt.mpr inside, Bool.and_false, Bool.false_eq_true]
  rw [take_of_length_le (Nat.le_of_eq length_drop)]

/-- Of a contained fragment nothing is left, and the metadata does not find that much. -/
theorem packetFragment_beyond {start : Nat} {data : List UInt8} (beyond : data.length < start)
    (small : start < 2 ^ 16) :
    packetFragment metadata data start ((data.length + 2 ^ 32 - start) % 2 ^ 32) =
      if metadata then none else some [] := by
  have stop : (start + (data.length + 2 ^ 32 - start) % 2 ^ 32) % 2 ^ 32 = data.length := by omega
  unfold packetFragment
  rw [stop]
  simp [beyond, drop_eq_nil_of_le (Nat.le_of_lt beyond)]

theorem addPartial_skip (gap : p.length % 2 ^ 16 < f.offset) :
    addPartial metadata p f = some p := by
  unfold addPartial
  rw [if_neg (by omega), if_neg (by omega)]

theorem addPartial_extend (fits : Fits f) (small : p.length < 2 ^ 16) (start : f.offset ≤ p.length)
    (within : p.length ≤ f.stop) :
    addPartial metadata p f = some (extend p f) := by
  unfold stop at within
  unfold addPartial Segment.extend
  dsimp only
  rw [Nat.mod_eq_of_lt small]
  by_cases overlap : f.offset < p.length
  · rw [if_pos overlap, packetFragment_rest (by omega) fits.size, Option.map_some]
  · rw [if_neg overlap, if_pos (by omega)]
    simp [show p.length - f.offset = 0 by omega]

theorem addPartial_contained (small : p.length < 2 ^ 16) (beyond : f.stop < p.length) :
    addPartial metadata p f = if metadata then none else some p := by
  unfold stop at beyond
  unfold addPartial
  dsimp only
  rw [Nat.mod_eq_of_lt small, if_pos (by omega), packetFragment_beyond (by omega) (by omega)]
  cases metadata with
  | true => rfl
  | false => simp

/-- Behind `uint16_t` the rounds that are left change nothing. -/
theorem partialLoop_skip (gaps : ∀ x ∈ rest, p.length % 2 ^ 16 < x.offset) :
    partialLoop metadata p rest = some p := by
  induction rest with
  | nil => rfl
  | cons x rest ih =>
    rw [partialLoop, addPartial_skip (gaps x mem_cons_self), Option.bind_some]
    exact ih fun y mem => gaps y (mem_cons_of_mem _ mem)

/-! ## Which fragments are tame -/

theorem tameFrom_nil : TameFrom metadata before [] := by
  intro between f after split
  exact absurd split.symm (append_ne_nil_of_right_ne_nil _ (cons_ne_nil _ _))

theorem tameFrom_cons : TameFrom metadata before (f :: rest) ↔
      TameStep metadata before f ∧ TameFrom metadata (before ++ [f]) rest := by
  constructor
  · intro tame
    constructor
    · simpa using tame [] f rest rfl
    · intro between g after split
      simpa using tame (f :: between) g after (by simp [split])
  · rintro ⟨here, later⟩ between g after split
    cases between with
    | nil =>
      obtain ⟨rfl, -⟩ := List.cons.inj split
      simpa using here
    | cons x between =>
      obtain ⟨rfl, rest_split⟩ := List.cons.inj split
      simpa using later between g after rest_split

theorem tameStep_gap (leading : Leading before p) (gap : p.length < f.offset) :
    TameStep metadata before f := by
  intro covered
  exact absurd ((leading.covered_iff _).mp covered) (Nat.not_le.mpr gap)

variable (leading : Leading before p) (all : ∀ x ∈ before, x.stop ≤ p.length)
  (start : f.offset ≤ p.length)
include leading all start

theorem tameStep_small (small : p.length < 2 ^ 16) :
    TameStep metadata before f ↔ (metadata = true → p.length ≤ f.stop) := by
  have none_beyond : ¬ ∃ x ∈ before, 2 ^ 16 ≤ x.stop := by
    rintro ⟨x, mem, beyond⟩
    have le := all x mem
    omega
  unfold TameStep
  rw [if_neg none_beyond, leading.covered_iff, imp_iff_right start]
  apply imp_congr_right
  intro _
  constructor
  · intro ends
    by_cases filled : 0 < p.length
    · obtain ⟨x, mem, last⟩ := leading.exists_stop filled
      have le := ends x mem
      omega
    · omega
  · intro within x mem
    exact Nat.le_trans (all x mem) within

theorem tameStep_large (large : 2 ^ 16 ≤ p.length) :
    TameStep metadata before f ↔ f.stop ≤ p.length := by
  obtain ⟨last, mem, ends⟩ := leading.exists_stop (by omega)
  unfold TameStep
  rw [if_pos ⟨last, mem, by omega⟩, leading.covered_iff, imp_iff_right start]
  constructor
  · rintro ⟨x, held, le⟩
    exact Nat.le_trans le (all x held)
  · intro within
    exact ⟨last, mem, by omega⟩

end

/-! ## The loop -/

section

variable {metadata : Bool} {before rest : List (Segment UInt8)} {f : Segment UInt8}
  {p : List UInt8}

/-- The loop gives what the fragments have from the start on, if and only if they are tame. -/
theorem partialLoop_iff (ordered : Ordered (before ++ rest)) (fits : ∀ x ∈ before ++ rest, Fits x)
    (leading : Leading before p) :
    (∃ r, partialLoop metadata p rest = some r ∧ Leading (before ++ rest) r) ↔
      TameFrom metadata before rest := by
  induction rest generalizing before p with
  | nil =>
    rw [append_nil]
    exact iff_of_true ⟨p, rfl, leading⟩ tameFrom_nil
  | cons f rest ih =>
    have f_fits := fits f (by simp)
    rw [append_cons] at ordered fits
    have go_on {q : List UInt8} (here : addPartial metadata p f = some q)
        (step : TameStep metadata before f) (next : Leading (before ++ [f]) q) :
        (∃ r, partialLoop metadata p (f :: rest) = some r ∧
          Leading (before ++ f :: rest) r) ↔ TameFrom metadata before (f :: rest) := by
      rw [partialLoop, here, tameFrom_cons, append_cons, Option.bind_some, and_iff_right step]
      exact ih ordered fits next
    rw [append_assoc] at ordered
    have earlier : ∀ x ∈ before, x.offset ≤ f.offset :=
      fun x mem => (pairwise_append.mp ordered).2.2 x mem f (by simp)
    by_cases gap : p.length < f.offset
    · have skips : p.length % 2 ^ 16 < f.offset := Nat.lt_of_le_of_lt (Nat.mod_le _ _) gap
      exact go_on (addPartial_skip skips) (tameStep_gap leading gap) (leading.skip (.inl gap))
    have start : f.offset ≤ p.length := Nat.le_of_not_lt gap
    have all : ∀ x ∈ before, x.stop ≤ p.length :=
      fun x mem => leading.stop_le mem (Nat.le_trans (earlier x mem) start)
    by_cases small : p.length < 2 ^ 16
    · have tame := @tameStep_small metadata _ _ _ leading all start small
      by_cases within : p.length ≤ f.stop
      · exact go_on (addPartial_extend f_fits small start within) (tame.mpr fun _ => within)
          (leading.extend all start within)
      · have contained := @addPartial_contained metadata f p small (Nat.lt_of_not_le within)
        cases metadata with
        | false =>
          exact go_on contained (tame.mpr nofun) (leading.skip (.inr (Nat.le_of_not_le within)))
        | true =>
          rw [partialLoop, contained, tameFrom_cons]
          apply iff_of_false
          · rintro ⟨r, fails, -⟩
            cases fails
          · exact fun both => within (tame.mp both.1 rfl)
    · have large : 2 ^ 16 ≤ p.length := Nat.le_of_not_lt small
      have tame := @tameStep_large metadata _ _ _ leading all start large
      -- the piece that ends last starts behind what `uint16_t` makes of the length
      have skips : p.length % 2 ^ 16 < f.offset := by
        obtain ⟨last, mem, ends⟩ := leading.exists_stop (by omega)
        have last_fits := fits last (by simp [mem])
        have le := earlier last mem
        have offset := last_fits.offset
        have size := last_fits.size
        unfold stop at ends
        omega
      by_cases within : f.stop ≤ p.length
      · exact go_on (addPartial_skip skips) (tame.mpr within) (leading.skip (.inr within))
      · apply iff_of_false
        · have gaps : ∀ x ∈ f :: rest, p.length % 2 ^ 16 < x.offset := by
            intro x mem
            have later := (pairwise_append.mp ordered).2.1
            cases mem with
            | head => exact skips
            | tail _ mem => exact Nat.lt_of_lt_of_le skips ((pairwise_cons.mp later).1 x mem)
          rw [partialLoop_skip gaps]
          rintro ⟨r, is, longest⟩
          cases is
          exact longest.ends ⟨f, by simp, start, Nat.lt_of_not_le within⟩
        · exact fun all_tame => within (tame.mp (tameFrom_cons.mp all_tame).1)

end

/-- **Longest prefix.** The partial packet is what the fragments have from the start on, if and
only if they are tame. -/
theorem getPartialPacket_iff {metadata : Bool} {fs : Fragments} (nonempty : fs.fragments ≠ [])
    (ordered : Ordered fs.fragments) (fits : ∀ x ∈ fs.fragments, Fits x) :
    (∃ r, fs.getPartialPacket metadata = some r ∧ Leading fs.fragments r) ↔ Tame metadata fs := by
  have looped := @partialLoop_iff metadata [] fs.fragments [] ordered fits .nil
  unfold getPartialPacket Tame
  cases all : fs.fragments with
  | nil => exact absurd all nonempty
  | cons f rest =>
    rw [all] at looped ordered
    by_cases late : 0 < f.offset
    · have gaps : ∀ x ∈ f :: rest, ([] : List UInt8).length % 2 ^ 16 < x.offset := by
        intro x mem
        cases mem with
        | head => exact late
        | tail _ mem => exact Nat.lt_of_lt_of_le late ((pairwise_cons.mp ordered).1 x mem)
      rw [partialLoop_skip gaps] at looped
      dsimp only
      rw [if_pos late]
      exact looped
    · dsimp only
      rw [if_neg late]
      exact looped

end Ns3.Internet.Ipv4L3Protocol
