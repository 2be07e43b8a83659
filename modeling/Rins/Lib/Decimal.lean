import Mathlib.Algebra.Group.Int.Defs
import Mathlib.Algebra.GroupWithZero.Nat
import Mathlib.Data.List.Basic
import Mathlib.Tactic.Common

/-!
# Decimal — numbers as text

A number is written with an optional sign and decimal digits, and read up to the first character
that is no digit.  So a number is read back from a text in which something else than a digit follows
it, and what a format with numbers in it has written can be taken apart again, as long as there is
such a character behind each of them.
-/

namespace Rins
namespace Lib
namespace Decimal

/-! ## Writing -/

/-- The digits of a number, with a sign if it is negative. -/
def decimal : Int → List Char
  | .ofNat n => Nat.toDigits 10 n
  | .negSucc n => '-' :: Nat.toDigits 10 (n + 1)

theorem length_decimal_le {z : Int} {digits : Nat} (hpos : 0 < digits)
    (hlo : -(10 : Int) ^ digits < z) (hhi : z < (10 : Int) ^ digits) :
    (decimal z).length ≤ digits + 1 := by
  cases z with
  | ofNat n =>
      have hlt : n < 10 ^ digits := by
        have hcast : ((10 ^ digits : Nat) : Int) = (10 : Int) ^ digits := by push_cast; rfl
        rw [← hcast] at hhi
        exact Int.ofNat_lt.1 hhi
      exact Nat.le_succ_of_le ((Nat.length_toDigits_le_iff (by decide) hpos).2 hlt)
  | negSucc n =>
      have hlt : n + 1 < 10 ^ digits := by
        have hcast : ((10 ^ digits : Nat) : Int) = (10 : Int) ^ digits := by push_cast; rfl
        rw [← hcast, Int.negSucc_eq] at hlo
        omega
      simp only [decimal, List.length_cons]
      exact Nat.succ_le_succ ((Nat.length_toDigits_le_iff (by decide) hpos).2 hlt)

theorem length_toDigits_le {n digits : Nat} (hpos : 0 < digits) (h : n < 10 ^ digits) :
    (decimal n).length ≤ digits :=
  (Nat.length_toDigits_le_iff (by decide) hpos).2 h

/-! ## Reading -/

/-- The digits at the front, and what lies behind them. -/
def scanNat (cs : List Char) : Option (Nat × List Char) :=
  match cs.takeWhile Char.isDigit with
  | [] => none
  | d :: ds => some (Nat.ofDigitChars 10 (d :: ds) 0, cs.dropWhile Char.isDigit)

/-- A number with an optional sign. -/
def scan : List Char → Option (Int × List Char)
  | '-' :: cs => (scanNat cs).map fun (n, rest) => (-(n : Int), rest)
  | '+' :: cs => (scanNat cs).map fun (n, rest) => ((n : Int), rest)
  | cs => (scanNat cs).map fun (n, rest) => ((n : Int), rest)

/-- Something else than a digit comes next, or nothing. -/
def Stops (rest : List Char) : Prop :=
  ∀ c ∈ rest.head?, c.isDigit = false

instance (rest : List Char) : Decidable (Stops rest) :=
  Option.decidableForallMem rest.head?

theorem takeWhile_digits {ds rest : List Char} (hds : ∀ c ∈ ds, c.isDigit = true)
    (hrest : Stops rest) :
    (ds ++ rest).takeWhile Char.isDigit = ds ∧ (ds ++ rest).dropWhile Char.isDigit = rest := by
  have hhead : rest.takeWhile Char.isDigit = [] ∧ rest.dropWhile Char.isDigit = rest := by
    cases rest with
    | nil => exact ⟨rfl, rfl⟩
    | cons c rest =>
        have hc : c.isDigit = false := hrest c rfl
        exact ⟨List.takeWhile_cons_of_neg (by simp [hc]), List.dropWhile_cons_of_neg (by simp [hc])⟩
  rw [List.takeWhile_append_of_pos hds, List.dropWhile_append_of_pos hds, hhead.1, hhead.2,
    List.append_nil]
  exact ⟨rfl, rfl⟩

theorem scanNat_toDigits (n : Nat) {rest : List Char} (hrest : Stops rest) :
    scanNat (Nat.toDigits 10 n ++ rest) = some (n, rest) := by
  have hdigits : ∀ c ∈ Nat.toDigits 10 n, c.isDigit = true :=
    fun c hc => Nat.isDigit_of_mem_toDigits (by decide) (by decide) hc
  rcases takeWhile_digits hdigits hrest with ⟨htake, hdrop⟩
  unfold scanNat
  rw [htake, hdrop]
  have hvalue := Nat.ofDigitChars_toDigits (b := 10) (n := n) (by decide) (by decide)
  cases hcons : Nat.toDigits 10 n with
  | nil => exact absurd hcons Nat.toDigits_ne_nil
  | cons d ds =>
      rw [hcons] at hvalue
      simp only [hvalue]

/-- A number is read back. -/
theorem scan_decimal (z : Int) {rest : List Char} (hrest : Stops rest) :
    scan (decimal z ++ rest) = some (z, rest) := by
  cases z with
  | ofNat n =>
      have hread := scanNat_toDigits n hrest
      -- the first character is a digit, so it is no sign
      cases hdigits : Nat.toDigits 10 n with
      | nil => exact absurd hdigits Nat.toDigits_ne_nil
      | cons d ds =>
          have hd : d.isDigit = true :=
            Nat.isDigit_of_mem_toDigits (b := 10) (n := n) (by decide) (by decide)
              (by rw [hdigits]; exact List.mem_cons_self)
          rw [decimal, hdigits, List.cons_append]
          rw [hdigits, List.cons_append] at hread
          unfold scan
          split
          · next heq =>
              cases heq
              cases hd
          · next heq =>
              cases heq
              cases hd
          · rw [hread]
            rfl
  | negSucc n =>
      rw [decimal, List.cons_append]
      show (scanNat _).map _ = _
      rw [scanNat_toDigits (n + 1) hrest]
      rfl

/-! ## Formats -/

/-- A piece of a format: text, or a conversion for a number. -/
inductive Piece
  | text (cs : List Char)
  | number

/-- How many numbers a format takes. -/
def arity (fmt : List Piece) : Nat :=
  (fmt.filter fun piece => piece matches .number).length

/-- What `sprintf` writes. -/
def render : List Piece → List Int → List Char
  | [], _ => []
  | .text cs :: fmt, args => cs ++ render fmt args
  | .number :: fmt, z :: args => decimal z ++ render fmt args
  | .number :: fmt, [] => render fmt []

/-- Take a text apart along the format. -/
def parse : List Piece → List Char → Option (List Int × List Char)
  | [], cs => some ([], cs)
  | .text ds :: fmt, cs => if ds.isPrefixOf cs then parse fmt (cs.drop ds.length) else none
  | .number :: fmt, cs =>
      (scan cs).bind fun (z, rest) => (parse fmt rest).map fun (args, rest) => (z :: args, rest)

/-- The format does not go on with a digit or a number. -/
def Parts : List Piece → Prop
  | [] => True
  | .text (c :: _) :: _ => c.isDigit = false
  | .text [] :: _ => False
  | .number :: _ => False

/-- There is something between a number and what follows it. -/
def Separated : List Piece → Prop
  | [] => True
  | .text _ :: fmt => Separated fmt
  | .number :: fmt => Parts fmt ∧ Separated fmt

instance : ∀ fmt, Decidable (Parts fmt)
  | [] => isTrue trivial
  | .text (c :: _) :: _ => inferInstanceAs (Decidable (c.isDigit = false))
  | .text [] :: _ => isFalse id
  | .number :: _ => isFalse id

instance decidableSeparated : ∀ fmt, Decidable (Separated fmt)
  | [] => isTrue trivial
  | .text _ :: fmt => decidableSeparated fmt
  | .number :: fmt =>
      have := decidableSeparated fmt
      inferInstanceAs (Decidable (Parts fmt ∧ Separated fmt))

theorem Parts.stops {fmt : List Piece} (h : Parts fmt) (args : List Int) :
    Stops (render fmt args) := by
  match fmt, h with
  | [], _ =>
      intro c hc
      cases hc
  | .text (c :: cs) :: fmt, h =>
      intro d hd
      cases hd
      exact h

/-- What was written is taken apart into the numbers. -/
theorem parse_render {fmt : List Piece} (hsep : Separated fmt) {args : List Int}
    (hargs : args.length = arity fmt) : parse fmt (render fmt args) = some (args, []) := by
  induction fmt generalizing args with
  | nil =>
      rw [List.length_eq_zero_iff.1 hargs]
      rfl
  | cons piece fmt ih =>
      cases piece with
      | text cs =>
          have hfront : cs.isPrefixOf (cs ++ render fmt args) = true := by simp
          simp only [parse, render, hfront, if_true, List.drop_left]
          exact ih hsep hargs
      | number =>
          cases args with
          | nil => cases hargs
          | cons z args =>
              have hlen : args.length = arity fmt := by
                simpa [arity] using hargs
              simp only [parse, render, scan_decimal z (hsep.1.stops args), Option.bind_some,
                ih hsep.2 hlen, Option.map_some]

/-- Each number takes at most `width` characters. -/
theorem length_render_le (fmt : List Piece) {args : List Int} {width : Nat}
    (hargs : ∀ z ∈ args, (decimal z).length ≤ width) :
    (render fmt args).length ≤ (render fmt []).length + args.length * width := by
  induction fmt generalizing args with
  | nil => simp [render]
  | cons piece fmt ih =>
      cases piece with
      | text cs =>
          have hrest := ih hargs
          simp only [render, List.length_append]
          omega
      | number =>
          cases args with
          | nil => simp [render]
          | cons z args =>
              have hrest := ih fun z' hz' => hargs z' (List.mem_cons_of_mem z hz')
              have hz := hargs z List.mem_cons_self
              simp only [render, List.length_append, List.length_cons, Nat.succ_mul]
              omega

/-- What `snprintf` leaves in a buffer of that size, without the 0 at the end. -/
def snprintf (size : Nat) (fmt : List Piece) (args : List Int) : List Char :=
  (render fmt args).take (size - 1)

end Decimal
end Lib
end Rins
