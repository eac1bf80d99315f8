import Mathlib

/-!
Contract: fixed-width big-endian byte strings.

Owns:
- `beBytes` and `ofBeBytes`, the big-endian encoding of a natural number in a
  fixed number of bytes and its decoder;
- the round trip, injectivity and exact length of the encoding;
- the agreement of lexicographic byte order with numeric order;
- the same facts for 64-bit signed integers, whose encoding is that of their
  two's complement, and for the sign-flipped order keys built from them;
- `SelfDelimiting` encodings, whose concatenations decode in one way, and tagged
  frames.

Does not own: which tags a frame may carry.
-/

namespace RockStream.Lib

open List

variable {width value : Nat} {α : Type*}

abbrev Bytes := List UInt8

instance lawfulBEqBytes : LawfulBEq Bytes := inferInstance

instance linearOrderUInt8 : LinearOrder UInt8 where
  le_refl := UInt8.le_refl
  le_trans := fun _ _ _ => UInt8.le_trans
  lt_iff_le_not_ge := fun _ _ => by simp [UInt8.lt_iff_toNat_lt, UInt8.le_iff_toNat_le]; omega
  le_antisymm := fun _ _ => UInt8.le_antisymm
  le_total := UInt8.le_total
  toDecidableLE := inferInstance

namespace Bytes

def beBytes : Nat → Nat → Bytes
  | 0, _ => []
  | width + 1, value => UInt8.ofNat (value / 256 ^ width % 256) :: beBytes width value

def ofBeBytes : Bytes → Nat
  | [] => 0
  | byte :: rest => byte.toNat * 256 ^ rest.length + ofBeBytes rest

@[simp] theorem beBytes_length (width value : Nat) : (beBytes width value).length = width := by
  induction width with
  | zero => rfl
  | succ width ih => simp [beBytes, ih]

private theorem toNat_byte (value : Nat) : (UInt8.ofNat (value % 256)).toNat = value % 256 :=
  UInt8.toNat_ofNat_of_lt (Nat.mod_lt _ (by decide))

theorem ofBeBytes_beBytes (width value : Nat) :
    ofBeBytes (beBytes width value) = value % 256 ^ width := by
  induction width with
  | zero => simp [beBytes, ofBeBytes, Nat.mod_one]
  | succ width ih =>
    rw [beBytes, ofBeBytes, toNat_byte, beBytes_length, ih, Nat.mod_pow_succ]
    ring

theorem beBytes_injective {left right : Nat}
    (leftBound : left < 256 ^ width) (rightBound : right < 256 ^ width)
    (same : beBytes width left = beBytes width right) : left = right := by
  have decoded := congrArg ofBeBytes same
  rw [ofBeBytes_beBytes, ofBeBytes_beBytes, Nat.mod_eq_of_lt leftBound,
    Nat.mod_eq_of_lt rightBound] at decoded
  exact decoded

theorem ofBeBytes_lt (bytes : Bytes) : ofBeBytes bytes < 256 ^ bytes.length := by
  induction bytes with
  | nil => simp [ofBeBytes]
  | cons byte rest ih =>
    have small : byte.toNat < 256 := byte.toNat_lt
    calc byte.toNat * 256 ^ rest.length + ofBeBytes rest
        < byte.toNat * 256 ^ rest.length + 256 ^ rest.length := by omega
      _ = (byte.toNat + 1) * 256 ^ rest.length := by ring
      _ ≤ 256 * 256 ^ rest.length := Nat.mul_le_mul_right _ small
      _ = 256 ^ rest.length * 256 := Nat.mul_comm _ _

theorem beBytes_ofBeBytes (bytes : Bytes) : beBytes bytes.length (ofBeBytes bytes) = bytes := by
  have shifted : ∀ width high low, beBytes width (high * 256 ^ width + low) =
    beBytes width low := by
    intro width
    induction width with
    | zero => intro high low; rfl
    | succ width ih =>
      intro high low
      have regroup : high * 256 ^ (width + 1) + low = high * 256 * 256 ^ width + low := by ring
      rw [beBytes, beBytes, regroup, ih,
        Nat.add_comm (high * 256 * 256 ^ width),
          Nat.add_mul_div_right _ _ (Nat.pow_pos (by decide)),
        Nat.add_mul_mod_self_right]
  induction bytes with
  | nil => rfl
  | cons byte rest ih =>
    have top : (byte.toNat * 256 ^ rest.length + ofBeBytes rest) / 256 ^ rest.length =
      byte.toNat := by
      rw [Nat.add_comm, Nat.add_mul_div_right _ _ (Nat.pow_pos (by decide)),
        Nat.div_eq_of_lt (ofBeBytes_lt rest), Nat.zero_add]
    rw [length_cons, ofBeBytes, beBytes, top, shifted, ih,
      Nat.mod_eq_of_lt byte.toNat_lt, UInt8.ofNat_toNat]

/-- Two encodings of one width compare as the numbers they denote. -/
theorem beBytes_lt_iff (width left right : Nat) :
    beBytes width left < beBytes width right ↔ left % 256 ^ width < right % 256 ^ width := by
  induction width with
  | zero => simp [beBytes, Nat.mod_one]
  | succ width ih =>
    rw [beBytes, beBytes, List.cons_lt_cons_iff, ih, Nat.mod_pow_succ,
      Nat.mod_pow_succ, UInt8.lt_iff_toNat_lt, ← UInt8.toNat_inj, toNat_byte, toNat_byte]
    generalize left / 256 ^ width % 256 = leftHead
    generalize right / 256 ^ width % 256 = rightHead
    constructor
    · rintro (headLess | ⟨rfl, restLess⟩)
      · have : 256 ^ width * (leftHead + 1) ≤ 256 ^ width * rightHead :=
          Nat.mul_le_mul_left _ headLess
        rw [Nat.mul_add] at this
        omega
      · omega
    · intro total
      rcases Nat.lt_trichotomy leftHead rightHead with headLess | rfl | headGreater
      · exact .inl headLess
      · exact .inr ⟨rfl, by omega⟩
      · have : 256 ^ width * (rightHead + 1) ≤ 256 ^ width * leftHead :=
          Nat.mul_le_mul_left _ headGreater
        rw [Nat.mul_add] at this
        omega

/-- The comparison of byte strings is that of their lexicographic order. -/
theorem compare_eq_lt_iff (left right : Bytes) : compare left right = .lt ↔ left < right := by
  induction left generalizing right with
  | nil =>
    cases right with
    | nil => simp
    | cons head tail => simp
  | cons head tail ih =>
    cases right with
    | nil => simp
    | cons otherHead otherTail =>
      rw [List.compare_cons_cons, Ordering.then_eq_lt, Std.compare_eq_lt,
        Std.compare_eq_iff_eq, ih, List.cons_lt_cons_iff]

/-- Behind prefixes of one length, the rest decides only where the prefixes are equal. -/
theorem append_lt_append_iff {left right : Bytes} (length : left.length = right.length)
    (leftRest rightRest : Bytes) :
    left ++ leftRest < right ++ rightRest ↔ left < right ∨ left = right ∧ leftRest < rightRest := by
  induction left generalizing right with
  | nil =>
    rw [eq_nil_of_length_eq_zero length.symm]
    simp
  | cons head tail ih =>
    cases right with
    | nil => cases length
    | cons otherHead otherTail =>
      rw [cons_append, cons_append, List.cons_lt_cons_iff, List.cons_lt_cons_iff,
        ih (by simpa using length), cons_eq_cons]
      tauto

theorem flatMap_lt_iff [LT α] {encode : α → Bytes} (fixed : ∀ value, (encode value).length = width)
    (injective : ∀ left right, encode left = encode right → left = right)
    (monotone : ∀ left right, encode left < encode right ↔ left < right) {left right : List α}
    (length : left.length = right.length) :
    left.flatMap encode < right.flatMap encode ↔ left < right := by
  induction left generalizing right with
  | nil =>
    rw [eq_nil_of_length_eq_zero length.symm]
    simp
  | cons head tail ih =>
    cases right with
    | nil => cases length
    | cons otherHead otherTail =>
      rw [flatMap_cons, flatMap_cons,
        append_lt_append_iff ((fixed head).trans (fixed otherHead).symm), monotone,
        ih (by simpa using length), List.cons_lt_cons_iff]
      exact or_congr_right (and_congr_left fun _ =>
        ⟨injective head otherHead, fun same => by rw [same]⟩)

/-! ## Signed 64-bit integers -/

/-- Two's-complement big-endian bytes of a signed 64-bit integer. -/
def ofInt64 (value : Int64) : Bytes := beBytes 8 value.toUInt64.toNat

def toInt64 (bytes : Bytes) : Int64 := (UInt64.ofNat (ofBeBytes bytes)).toInt64

@[simp] theorem ofInt64_length (value : Int64) : (ofInt64 value).length = 8 :=
  beBytes_length 8 _

@[simp] theorem toInt64_ofInt64 (value : Int64) : toInt64 (ofInt64 value) = value := by
  have bound : value.toUInt64.toNat < 256 ^ 8 := value.toUInt64.toNat_lt
  rw [toInt64, ofInt64, ofBeBytes_beBytes, Nat.mod_eq_of_lt bound, UInt64.ofNat_toNat,
    Int64.toInt64_toUInt64]

theorem ofInt64_injective {left right : Int64} (same : ofInt64 left = ofInt64 right) :
    left = right := by
  rw [← toInt64_ofInt64 left, same, toInt64_ofInt64]

/-- The signed 64-bit integers of the whole eight-byte chunks of a string. -/
def words : Bytes → List Int64
  | b0 :: b1 :: b2 :: b3 :: b4 :: b5 :: b6 :: b7 :: rest =>
    toInt64 [b0, b1, b2, b3, b4, b5, b6, b7] :: words rest
  | _ => []

theorem words_ofInt64_append (value : Int64) (rest : Bytes) :
    words (ofInt64 value ++ rest) = value :: words rest := by
  have decoded := toInt64_ofInt64 value
  simp only [ofInt64, beBytes] at decoded
  simp only [ofInt64, beBytes, cons_append, nil_append, words, decoded]

theorem words_flatMap_ofInt64 (values : List Int64) : words (values.flatMap ofInt64) = values := by
  induction values with
  | nil => rfl
  | cons value values ih =>
    rw [flatMap_cons, words_ofInt64_append, ih]

/-! ## Self-delimiting encodings -/

/-- An encoding that says where it ends: over its domain, neither the value nor what
follows it can be read in two ways. -/
structure SelfDelimiting {α : Type*} (encode : α → Bytes) (Domain : α → Prop) : Prop where
  nonempty : ∀ value, encode value ≠ []
  split : ∀ {left right : α} {leftRest rightRest : Bytes}, Domain left → Domain right →
    encode left ++ leftRest = encode right ++ rightRest → left = right ∧ leftRest = rightRest

theorem SelfDelimiting.flatMap_injective {encode : α → Bytes} {Domain : α → Prop}
    (delimiting : SelfDelimiting encode Domain) {left right : List α}
    (leftDomain : ∀ value ∈ left, Domain value) (rightDomain : ∀ value ∈ right, Domain value)
    (same : left.flatMap encode = right.flatMap encode) : left = right := by
  induction left generalizing right with
  | nil =>
    cases right with
    | nil => rfl
    | cons head tail =>
      have hollow := append_eq_nil_iff.mp same.symm
      exact absurd hollow.1 (delimiting.nonempty head)
  | cons head tail ih =>
    cases right with
    | nil =>
      have hollow := append_eq_nil_iff.mp same
      exact absurd hollow.1 (delimiting.nonempty head)
    | cons otherHead otherTail =>
      rw [forall_mem_cons] at leftDomain rightDomain
      have parts := delimiting.split leftDomain.1 rightDomain.1 same
      rw [parts.1, ih leftDomain.2 rightDomain.2 parts.2]

theorem SelfDelimiting.flatMap_append_inj {encode : α → Bytes} {Domain : α → Prop}
    (delimiting : SelfDelimiting encode Domain) {left right : List α} {leftRest rightRest : Bytes}
    (leftDomain : ∀ value ∈ left, Domain value) (rightDomain : ∀ value ∈ right, Domain value)
    (count : left.length = right.length)
    (same : left.flatMap encode ++ leftRest = right.flatMap encode ++ rightRest) :
    left = right ∧ leftRest = rightRest := by
  induction left generalizing right with
  | nil =>
    rw [eq_nil_of_length_eq_zero count.symm] at same ⊢
    exact ⟨rfl, same⟩
  | cons head tail ih =>
    cases right with
    | nil => cases count
    | cons otherHead otherTail =>
      rw [forall_mem_cons] at leftDomain rightDomain
      simp only [flatMap_cons, append_assoc] at same
      have parts := delimiting.split leftDomain.1 rightDomain.1 same
      have rests := ih leftDomain.2 rightDomain.2 (Nat.succ.inj count) parts.2
      exact ⟨by rw [parts.1, rests.1], rests.2⟩

theorem selfDelimiting_ofInt64 : SelfDelimiting ofInt64 fun _ => True where
  nonempty := fun value hollow => by
    have length := ofInt64_length value
    rw [hollow] at length
    cases length
  split := fun _ _ same => by
    have parts := append_inj same (by simp)
    exact ⟨ofInt64_injective parts.1, parts.2⟩

theorem flatMap_ofInt64_injective {left right : List Int64}
    (same : left.flatMap ofInt64 = right.flatMap ofInt64) : left = right :=
  selfDelimiting_ofInt64.flatMap_injective (fun _ _ => trivial) (fun _ _ => trivial) same

/-- A tagged payload behind its 32-bit length, which wraps. -/
def frame (tag : UInt8) (payload : Bytes) : Bytes :=
  tag :: (beBytes 4 payload.length ++ payload)

@[simp] theorem frame_length (tag : UInt8) (payload : Bytes) :
    (frame tag payload).length = 5 + payload.length := by
  simp [frame]
  omega

/-- A frame whose payload length does not wrap is self-delimiting. -/
theorem frame_append_inj {leftTag rightTag : UInt8}
    {leftPayload rightPayload leftRest rightRest : Bytes}
    (leftBound : leftPayload.length < 256 ^ 4) (rightBound : rightPayload.length < 256 ^ 4)
    (same : frame leftTag leftPayload ++ leftRest = frame rightTag rightPayload ++ rightRest) :
    leftTag = rightTag ∧ leftPayload = rightPayload ∧ leftRest = rightRest := by
  simp only [frame, cons_append, append_assoc, cons.injEq] at same
  obtain ⟨sameTag, sameBody⟩ := same
  have header := append_inj sameBody (by simp)
  have sameLength := beBytes_injective leftBound rightBound header.1
  have payload := append_inj header.2 sameLength
  exact ⟨sameTag, payload.1, payload.2⟩

/-! ## Flipping the sign bit -/

/-- Flipping the sign bit shifts the signed range onto the unsigned one. -/
theorem toNat_xor_signBit (value : Int64) :
    ((value.toUInt64 ^^^ 0x8000000000000000).toNat : Int) = value.toInt + 2 ^ 63 := by
  have bound : value.toUInt64.toNat < 2 ^ 64 := value.toUInt64.toNat_lt
  have signed := BitVec.toInt_eq_toNat_cond value.toUInt64.toBitVec
  have sameNat : value.toUInt64.toBitVec.toNat = value.toUInt64.toNat := rfl
  have sameInt : value.toInt = value.toUInt64.toBitVec.toInt := rfl
  rw [sameNat] at signed
  rw [UInt64.toNat_xor, sameInt, signed]
  change ((value.toUInt64.toNat ^^^ 2 ^ 63 : Nat) : Int) = _
  generalize value.toUInt64.toNat = bits at bound
  have low : (bits ^^^ 2 ^ 63) % 2 ^ 63 = bits % 2 ^ 63 := by
    rw [Nat.xor_mod_two_pow, Nat.mod_self, Nat.xor_zero]
  have high : (bits ^^^ 2 ^ 63) / 2 ^ 63 = bits / 2 ^ 63 ^^^ 1 := by
    rw [Nat.xor_div_two_pow, Nat.div_self (by decide)]
  have top : bits / 2 ^ 63 = 0 ∨ bits / 2 ^ 63 = 1 := by omega
  rcases top with zero | one
  · rw [zero, Nat.zero_xor] at high
    split <;> omega
  · rw [one, Nat.xor_self] at high
    split <;> omega

end Bytes

end RockStream.Lib
