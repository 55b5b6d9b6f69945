/-!
# Numerals

Reading digits in a base up to sixteen, the bounded unsigned numerals that indices and widths are
written with, and digits of a fixed count.
-/

namespace Playbook.Text

/-- The value of a digit in `base`; letters count from ten in either case. -/
def digit? (base : Nat) (c : Char) : Option Nat :=
  let n := c.toNat
  let value :=
    if 48 ≤ n ∧ n ≤ 57 then some (n - 48)
    else if 97 ≤ n ∧ n ≤ 102 then some (n - 87)
    else if 65 ≤ n ∧ n ≤ 70 then some (n - 55)
    else none
  value.filter (· < base)

def isDigit (c : Char) : Bool :=
  48 ≤ c.toNat && c.toNat ≤ 57

/-- Continues the numeral `start` with the digits `cs`; `none` at the first character that is no
digit. -/
def digitsFrom (base start : Nat) : List Char → Option Nat
  | [] => some start
  | c :: cs => (digit? base c).bind fun d => digitsFrom base (start * base + d) cs

/-- The number that a non-empty run of digits denotes. -/
def digits? (base : Nat) : List Char → Option Nat
  | [] => none
  | cs => digitsFrom base 0 cs

/-- The number that a run of decimal digits denotes, characters that are no digit counting zero. -/
def decimalValue (cs : List Char) : Nat :=
  cs.foldl (fun n c => n * 10 + (c.toNat - 48)) 0

/-- An unsigned decimal numeral below `bound`: a leading plus sign and leading zeros may stand. -/
def unsigned? (bound : Nat) (cs : List Char) : Option Nat :=
  let digits := match cs with
    | '+' :: rest => rest
    | cs => cs
  (digits? 10 digits).filter (· < bound)

def wordBound : Nat := Nat.pow 2 64

/-- A number of 64 bits, as indices are spelled. -/
def word? (cs : List Char) : Option Nat :=
  unsigned? wordBound cs

/-- The lowercase digit for a value below sixteen. -/
def hexDigit (n : Nat) : Char :=
  if n < 10 then Char.ofNat (48 + n) else Char.ofNat (87 + n)

/-- The last `width` hexadecimal digits of `n`. -/
def hexDigits : Nat → Nat → List Char
  | 0, _ => []
  | width + 1, n => hexDigits width (n / 16) ++ [hexDigit (n % 16)]

/-- `n` in hexadecimal after `0x`, padded with zeros to `width` digits. -/
def hexPadded (width n : Nat) : String :=
  String.ofList ('0' :: 'x' :: hexDigits width n)

/-- The decimal digits of `n`, padded with zeros to `width` of them. -/
def decimalPadded (width n : Nat) : String :=
  let digits := Nat.toDigits 10 n
  String.ofList (List.replicate (width - digits.length) '0' ++ digits)

@[simp] theorem length_hexDigits (width n : Nat) : (hexDigits width n).length = width := by
  induction width generalizing n with
  | zero => rfl
  | succ width ih => simp [hexDigits, ih]

end Playbook.Text
