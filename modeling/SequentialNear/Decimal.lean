/-
Integers as the texts of a script.

`String(z)` writes the decimal digits of an integer, with an exponent from `10 ^ 21` on;
from `2 ^ 53` on only as many digits as it takes to tell the double from the others.
`parseInt(s, 10)` skips white space and takes a sign and the digits after it, and what
follows them does not matter to it. So it reads a natural number below `2 ^ 53` back
([`parseInt_trim_decimal`]), and of `1e+21` it reads the `1`.

Nothing in this file names a program.
-/
import SequentialNear.JsonSpec
import Mathlib.Data.List.DropRight

set_option autoImplicit false

namespace SequentialNear

namespace JsString

open Json (comma isDigit)

/-! ## Texts -/

/-- The white space and the line terminators of ECMAScript. -/
def isWhite (c : Nat) : Bool :=
  (0x09 ≤ c && c ≤ 0x0d) || c = 0x20 || c = 0xa0 || c = 0x1680 || (0x2000 ≤ c && c ≤ 0x200a) ||
    c = 0x2028 || c = 0x2029 || c = 0x202f || c = 0x205f || c = 0x3000 || c = 0xfeff

def trimStart (s : JsString) : JsString := s.dropWhile isWhite

def trim (s : JsString) : JsString := (trimStart s).rdropWhile isWhite

/-- `s.split(",")`. No array holds `2 ^ 32` pieces. -/
def split (s : JsString) : List JsString := (s.splitOn comma).take (2 ^ 32 - 1)

/-- `xs.join(",")`, of the texts of the elements. -/
def join (pieces : List JsString) : JsString := [comma].intercalate pieces

/-! ## Reading -/

/-- The number that decimal digits stand for. -/
def valueOf (digits : JsString) : Nat := digits.foldl (fun value c => 10 * value + (c - 0x30)) 0

/-- `parseInt(s, 10)`; `none` is `NaN`. -/
def parseInt (s : JsString) : Option Number :=
  let s := trimStart s
  let negative := s.head? = some 0x2d
  let s := if s.head? = some 0x2d ∨ s.head? = some 0x2b then s.tail else s
  let digits := s.takeWhile isDigit
  if digits = [] then none
  else some (toDouble (if negative then -(valueOf digits : ℚ) else valueOf digits))

/-! ## Writing -/

def decimal (n : Nat) : JsString := utf16 (toString n)

/-- The fewest digits that the double `n` is read back from, and how many zeros are to
follow them. Of two candidates that are equally short the nearer one is taken. -/
def shortest (n : Nat) : Nat × Nat :=
  let candidates := fun zeros =>
    let below := n / 10 ^ zeros
    let rest := n % 10 ^ zeros
    if 2 * rest < 10 ^ zeros ∨ 2 * rest = 10 ^ zeros ∧ below % 2 = 0 then [below, below + 1]
    else [below + 1, below]
  let found := (List.range (Nat.log 10 n + 2)).reverse.findSome? fun zeros =>
    ((candidates zeros).find? fun digits => toDouble (digits * 10 ^ zeros : ℕ) = .finite n).map
      fun digits => (digits, zeros)
  found.getD (n, 0)

/-- A double from `2 ^ 53` on, in its shortest digits. -/
def rounded (n : Nat) : JsString :=
  let (digits, zeros) := shortest n
  let text := decimal digits
  -- the power of ten that the first digit counts
  let exponent := text.length + zeros - 1
  if exponent < 21 then text ++ List.replicate zeros 0x30
  else match text with
    | first :: d :: rest => first :: 0x2e :: d :: rest ++ utf16 "e+" ++ decimal exponent
    | _ => text ++ utf16 "e+" ++ decimal exponent

/-- `String(z)` of a double without a fraction. -/
def numeral (z : Int) : JsString :=
  let n := z.natAbs
  let text := if n < 2 ^ 53 then decimal n else rounded n
  if z < 0 then 0x2d :: text else text

theorem numeral_nat {n : Nat} (hn : n < 2 ^ 53) : numeral n = decimal n := by
  have hsign : ¬ (n : Int) < 0 := not_lt.2 (Int.natCast_nonneg n)
  rw [numeral, if_neg hsign, Int.natAbs_natCast, if_pos hn]

/-! ## Reading back what was written -/

theorem decimal_of_lt {n : Nat} (hn : n < 10) : decimal n = [0x30 + n] := by
  rw [decimal, utf16_toString, Nat.toDigits_of_lt_base hn, List.flatMap_singleton,
    Json.digitChar_units hn]

/-- The last digit comes off the end. -/
theorem decimal_of_le {n : Nat} (hn : 10 ≤ n) :
    decimal n = decimal (n / 10) ++ [0x30 + n % 10] := by
  rw [decimal, utf16_toString, Nat.toDigits_of_base_le (by decide) hn, List.flatMap_append,
    List.flatMap_singleton, Json.digitChar_units (Nat.mod_lt n (by decide)), decimal,
    utf16_toString]

theorem isDigit_iff {c : Nat} : isDigit c = true ↔ 0x30 ≤ c ∧ c ≤ 0x39 := by
  simp [isDigit]

theorem decimal_ne_nil (n : Nat) : decimal n ≠ [] := by
  rcases Nat.lt_or_ge n 10 with hn | hn
  · rw [decimal_of_lt hn]
    exact List.cons_ne_nil _ _
  · rw [decimal_of_le hn]
    exact List.append_ne_nil_of_right_ne_nil _ (List.cons_ne_nil _ _)

theorem decimal_digits (n : Nat) : ∀ c ∈ decimal n, isDigit c = true := by
  induction n using Nat.strong_induction_on with
  | _ n ih =>
    rcases Nat.lt_or_ge n 10 with hn | hn
    · rw [decimal_of_lt hn, List.forall_mem_singleton, isDigit_iff]
      omega
    · rw [decimal_of_le hn, List.forall_mem_append, List.forall_mem_singleton, isDigit_iff]
      exact ⟨ih (n / 10) (by omega), by omega⟩

theorem valueOf_decimal (n : Nat) : valueOf (decimal n) = n := by
  induction n using Nat.strong_induction_on with
  | _ n ih =>
    rcases Nat.lt_or_ge n 10 with hn | hn
    · rw [decimal_of_lt hn, valueOf, List.foldl_cons, List.foldl_nil]
      omega
    · have hrest := ih (n / 10) (by omega)
      rw [valueOf] at hrest
      rw [decimal_of_le hn, valueOf, List.foldl_append, hrest, List.foldl_cons, List.foldl_nil]
      omega

theorem digit_not_white {c : Nat} (hc : isDigit c = true) : isWhite c = false := by
  rw [isDigit_iff] at hc
  simp only [isWhite, Bool.or_eq_false_iff, Bool.and_eq_false_iff, decide_eq_false_iff_not]
  omega

/-- There is nothing to trim off digits. -/
theorem trimStart_decimal (n : Nat) : trimStart (decimal n) = decimal n := by
  rw [trimStart, List.dropWhile_eq_self_iff]
  intro hpos
  simp [digit_not_white (decimal_digits n _ (List.getElem_mem hpos))]

theorem trim_decimal (n : Nat) : trim (decimal n) = decimal n := by
  rw [trim, trimStart_decimal, List.rdropWhile_eq_self_iff]
  intro hne
  simp [digit_not_white (decimal_digits n _ (List.getLast_mem hne))]

theorem parseInt_decimal (n : Nat) : parseInt (decimal n) = some (toDouble n) := by
  have hhead : ∀ c, (decimal n).head? = some c → isDigit c = true := fun c hc =>
    decimal_digits n c (List.mem_of_mem_head? hc)
  -- no digit is a sign
  have hminus : (decimal n).head? ≠ some 0x2d := fun h => by cases hhead _ h
  have hplus : (decimal n).head? ≠ some 0x2b := fun h => by cases hhead _ h
  have hall : (decimal n).takeWhile isDigit = decimal n :=
    List.takeWhile_eq_self_iff.2 (decimal_digits n)
  simp only [parseInt, trimStart_decimal, hminus, hplus, or_self, if_false, hall,
    decimal_ne_nil, valueOf_decimal]

/-- **A natural number is read back from its digits.** -/
theorem parseInt_trim_decimal {n : Nat} (hn : n < 2 ^ 53) :
    parseInt (trim (decimal n)) = some (.finite n) := by
  rw [trim_decimal, parseInt_decimal, toDouble_nat hn]

theorem comma_not_mem_decimal (n : Nat) : comma ∉ decimal n := fun h => by
  cases decimal_digits n comma h

/-- **What was joined is split again** when no piece has a comma in it. -/
theorem split_join {pieces : List JsString} (hcomma : ∀ s ∈ pieces, comma ∉ s)
    (hne : pieces ≠ []) (hlen : pieces.length < 2 ^ 32) : split (join pieces) = pieces := by
  rw [split, join, List.splitOn_intercalate comma hcomma hne]
  exact List.take_of_length_le (by omega)

end JsString

end SequentialNear
