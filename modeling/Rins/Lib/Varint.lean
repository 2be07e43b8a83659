import Mathlib.Algebra.GroupWithZero.Nat
import Mathlib.Tactic.Common

/-!
# Varint — numbers of seven bits a byte

A number is written in bytes of seven bits each, the lowest first; every byte but the last has its
highest bit set.  A reader gives up behind a fixed number of bytes, so both directions carry the
number of bytes that are allowed.
-/

namespace Rins
namespace Lib
namespace Varint

/-- The bytes of a number, at most `limit` of them. -/
def encode : Nat → Nat → List UInt8
  | 0, _ => []
  | limit + 1, n =>
      if n < 128 then [UInt8.ofNat n] else UInt8.ofNat (n % 128 + 128) :: encode limit (n / 128)

/-- The number at the front and what lies behind it. -/
def decode : Nat → List UInt8 → Option (Nat × List UInt8)
  | 0, _ => none
  | _ + 1, [] => none
  | limit + 1, b :: bs =>
      if b.toNat < 128 then some (b.toNat, bs)
      else (decode limit bs).map fun (n, rest) => (b.toNat - 128 + 128 * n, rest)

theorem encode_small (limit : Nat) {n : Nat} (h : n < 128) :
    encode (limit + 1) n = [UInt8.ofNat n] := by
  simp [encode, h]

/-- A number that fits is read back, whatever follows it. -/
theorem decode_encode {limit n : Nat} (hpos : 0 < limit) (hn : n < 128 ^ limit)
    (rest : List UInt8) : decode limit (encode limit n ++ rest) = some (n, rest) := by
  induction limit generalizing n with
  | zero => omega
  | succ limit ih =>
      by_cases hsmall : n < 128
      · have hbyte : (UInt8.ofNat n).toNat = n := by
          rw [UInt8.toNat_ofNat']
          omega
        simp [encode, decode, hsmall, hbyte]
      · -- a number of more than seven bits needs a second byte, so one is allowed
        have hbyte : (UInt8.ofNat (n % 128 + 128)).toNat = n % 128 + 128 := by
          rw [UInt8.toNat_ofNat']
          omega
        have hlimit : 0 < limit := by
          rcases Nat.eq_zero_or_pos limit with rfl | hlimit
          · omega
          · exact hlimit
        have hhigh : n / 128 < 128 ^ limit := by
          rw [Nat.div_lt_iff_lt_mul (by decide)]
          rwa [Nat.pow_succ] at hn
        simp only [encode, hsmall, if_false, List.cons_append, decode, hbyte]
        rw [if_neg (by omega), ih hlimit hhigh]
        simp only [Option.map_some, Option.some.injEq, Prod.mk.injEq, and_true]
        omega

/-- More bytes than the number needs may be allowed. -/
theorem encode_limit {bytes limit n : Nat} (hpos : 0 < bytes) (hle : bytes ≤ limit)
    (hn : n < 128 ^ bytes) : encode limit n = encode bytes n := by
  induction bytes generalizing limit n with
  | zero => omega
  | succ bytes ih =>
      rcases Nat.exists_eq_succ_of_ne_zero (by omega : limit ≠ 0) with ⟨limit, rfl⟩
      by_cases hsmall : n < 128
      · rw [encode_small _ hsmall, encode_small _ hsmall]
      · have hbytes : 0 < bytes := by
          rcases Nat.eq_zero_or_pos bytes with rfl | hbytes
          · omega
          · exact hbytes
        have hhigh : n / 128 < 128 ^ bytes := by
          rw [Nat.div_lt_iff_lt_mul (by decide)]
          rwa [Nat.pow_succ] at hn
        simp only [encode, hsmall, if_false]
        rw [ih hbytes (by omega) hhigh]

theorem length_decode_lt {limit n : Nat} {bs rest : List UInt8}
    (h : decode limit bs = some (n, rest)) : rest.length < bs.length := by
  induction limit generalizing n bs with
  | zero => cases h
  | succ limit ih =>
      cases bs with
      | nil => cases h
      | cons b bs =>
          simp only [decode] at h
          split_ifs at h
          · cases h
            simp
          · rcases Option.map_eq_some_iff.1 h with ⟨⟨n', rest'⟩, hrest, heq⟩
            cases heq
            have hlt := ih hrest
            rw [List.length_cons]
            omega

/-- Seven bits a byte. -/
theorem length_encode_le {limit bytes n : Nat} (hpos : 0 < bytes) (hn : n < 128 ^ bytes) :
    (encode limit n).length ≤ bytes := by
  induction limit generalizing bytes n with
  | zero => simp [encode]
  | succ limit ih =>
      by_cases hsmall : n < 128
      · simp only [encode, hsmall, if_true, List.length_singleton]
        omega
      · rcases Nat.exists_eq_succ_of_ne_zero (by omega : bytes ≠ 0) with ⟨bytes, rfl⟩
        have hbytes : 0 < bytes := by
          rcases Nat.eq_zero_or_pos bytes with rfl | hbytes
          · simp at hn
            omega
          · exact hbytes
        have hhigh : n / 128 < 128 ^ bytes := by
          rw [Nat.div_lt_iff_lt_mul (by decide)]
          rwa [Nat.pow_succ] at hn
        have hrest := ih hbytes hhigh
        simp only [encode, hsmall, if_false, List.length_cons]
        omega

end Varint
end Lib
end Rins
