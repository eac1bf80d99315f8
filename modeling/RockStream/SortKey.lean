import RockStream.Lib.Bytes

/-!
Contract: order-preserving byte keys of signed integers.

Owns:
- `signedOrderKey`, its decoder, and the byte keys built from them;
- the round trip, and the order of keys: ascending as the integers, or descending when
  the key is inverted.

Does not own: the records that carry such keys.
-/

namespace RockStream

open Lib Bytes

def signBit : UInt64 := 0x8000000000000000

def signedOrderKey (value : Int64) (invert : Bool) : UInt64 :=
  if invert then ~~~(value.toUInt64 ^^^ signBit) else value.toUInt64 ^^^ signBit

def signedOrderKeyDecode (key : UInt64) (invert : Bool) : Int64 :=
  ((if invert then ~~~key else key) ^^^ signBit).toInt64

theorem signedOrderKeyDecode_signedOrderKey (value : Int64) (invert : Bool) :
    signedOrderKeyDecode (signedOrderKey value invert) invert = value := by
  cases invert <;>
    simp [signedOrderKey, signedOrderKeyDecode]

/-- Plain keys ascend with the integers. -/
theorem signedOrderKey_lt_iff (left right : Int64) :
    (signedOrderKey left false).toNat < (signedOrderKey right false).toNat ↔ left < right := by
  have leftKey : ((signedOrderKey left false).toNat : Int) = left.toInt + 2 ^ 63 :=
    toNat_xor_signBit left
  have rightKey : ((signedOrderKey right false).toNat : Int) = right.toInt + 2 ^ 63 :=
    toNat_xor_signBit right
  rw [Int64.lt_iff_toInt_lt]
  omega

theorem signedOrderKey_invert_lt_iff (left right : Int64) :
    (signedOrderKey left true).toNat < (signedOrderKey right true).toNat ↔ right < left := by
  have inverted : ∀ value : Int64, (signedOrderKey value true).toNat =
      UInt64.size - 1 - (signedOrderKey value false).toNat := fun value => UInt64.toNat_not _
  have leftBound : (signedOrderKey left false).toNat < UInt64.size := UInt64.toNat_lt_size _
  rw [inverted, inverted, ← signedOrderKey_lt_iff]
  omega

def minmaxSortKey (value : Int64) (invert : Bool) : Bytes :=
  Bytes.beBytes 8 (signedOrderKey value invert).toNat

def minmaxSortKeyDecode (sortKey : Bytes) (invert : Bool) : Int64 :=
  signedOrderKeyDecode (UInt64.ofNat (Bytes.ofBeBytes sortKey)) invert

theorem minmaxSortKeyDecode_minmaxSortKey (value : Int64) (invert : Bool) :
    minmaxSortKeyDecode (minmaxSortKey value invert) invert = value := by
  have bound : (signedOrderKey value invert).toNat < 256 ^ 8 := UInt64.toNat_lt_size _
  rw [minmaxSortKeyDecode, minmaxSortKey, ofBeBytes_beBytes, Nat.mod_eq_of_lt bound,
    UInt64.ofNat_toNat, signedOrderKeyDecode_signedOrderKey]

theorem minmaxSortKey_injective {left right : Int64} {invert : Bool}
    (same : minmaxSortKey left invert = minmaxSortKey right invert) : left = right := by
  rw [← minmaxSortKeyDecode_minmaxSortKey left invert, same, minmaxSortKeyDecode_minmaxSortKey]

/-- Byte keys compare as the integers, in the direction the key is built for. -/
theorem compare_minmaxSortKey (left right : Int64) (invert : Bool) :
    compare (minmaxSortKey left invert) (minmaxSortKey right invert) = .lt ↔
      if invert then right < left else left < right := by
  have bound : ∀ value : Int64, (signedOrderKey value invert).toNat < 256 ^ 8 :=
    fun value => UInt64.toNat_lt_size _
  rw [compare_eq_lt_iff, minmaxSortKey, minmaxSortKey, beBytes_lt_iff,
    Nat.mod_eq_of_lt (bound left), Nat.mod_eq_of_lt (bound right)]
  cases invert with
  | false => exact signedOrderKey_lt_iff left right
  | true => exact signedOrderKey_invert_lt_iff left right

/-- Concatenated ascending keys compare as the lists of integers. -/
theorem flatMap_minmaxSortKey_lt_iff {left right : List Int64}
    (length : left.length = right.length) :
    (left.flatMap fun value => minmaxSortKey value false) <
        (right.flatMap fun value => minmaxSortKey value false) ↔ left < right := by
  refine flatMap_lt_iff (fun value => beBytes_length 8 _)
    (fun _ _ => minmaxSortKey_injective) (fun first second => ?_) length
  rw [← compare_eq_lt_iff]
  exact compare_minmaxSortKey first second false

end RockStream
