/-!
# Double precision numbers

A finite binary64 number is a sign and a rank: the finite non-negative numbers of the format,
counted upward from zero. Its absolute value is `mantissa · 2 ^ exponent`. Every operation here is
exact arithmetic on naturals followed by one rounding, to the nearest number of the format and to
the even rank on a tie, so that nothing depends on the machine's own arithmetic.
-/

namespace Playbook

/-- A finite binary64 number. -/
structure Double where
  /-- The sign; a zero has one too. -/
  negative : Bool
  /-- The place of the absolute value among the finite non-negative numbers, zero first. -/
  rank : Fin 0x7FF0000000000000
  deriving DecidableEq

namespace Double

/-- How many numbers share one exponent. -/
def binade : Nat := Nat.pow 2 52

/-- The integer that is scaled by the exponent to give the absolute value. -/
def mantissa (x : Double) : Nat :=
  if x.rank < binade then x.rank else binade + x.rank % binade

/-- The power of two that scales the mantissa. -/
def exponent (x : Double) : Int :=
  if x.rank < binade then -1074 else (x.rank / binade : Nat) - 1075

def zero (negative : Bool) : Double :=
  ⟨negative, 0⟩

def isZero (x : Double) : Bool :=
  x.rank.val == 0

/-- `n · 2 ^ e` as a numerator and a denominator. -/
def scaleTwo (n : Nat) (e : Int) : Nat × Nat :=
  if 0 ≤ e then (n * Nat.pow 2 e.toNat, 1) else (n, Nat.pow 2 (-e).toNat)

/-- The quotient rounded to the nearest natural, to the even one on a tie. -/
def divEven (num den : Nat) : Nat :=
  let quotient := num / den
  let double := 2 * (num % den)
  if double < den ∨ (double = den ∧ quotient % 2 = 0) then quotient else quotient + 1

/-- The exponent at which `num / den` has a mantissa of 53 bits, or the least exponent. -/
def exponentFor (num den : Nat) : Int :=
  let guess : Int := (num.log2 : Int) - den.log2 - 52
  let fits : Bool :=
    if 0 ≤ guess then binade * (den * Nat.pow 2 guess.toNat) ≤ num
    else binade * den ≤ num * Nat.pow 2 (-guess).toNat
  max (if fits then guess else guess - 1) (-1074)

/-- The rank of the number nearest to `num / den`, without an upper limit. -/
def rankOfRatio (num den : Nat) : Nat :=
  if num = 0 then 0
  else
    let e := exponentFor num den
    let m :=
      if 0 ≤ e then divEven num (den * Nat.pow 2 e.toNat)
      else divEven (num * Nat.pow 2 (-e).toNat) den
    (e + 1074).toNat * binade + m

/-- The number nearest to `num / den`; `none` when that is beyond the largest. -/
def ofRatio (negative : Bool) (num den : Nat) : Option Double :=
  let rank := rankOfRatio num den
  if h : rank < 0x7FF0000000000000 then some ⟨negative, ⟨rank, h⟩⟩ else none

/-- The number nearest to `n · 10 ^ e`. Exponents far outside the format are settled by the count of
digits, before a power is formed. -/
def ofScientific (negative : Bool) (n : Nat) (e : Int) : Option Double :=
  let digits : Int := (Nat.toDigits 10 n).length
  if n = 0 ∨ digits + e < -400 then some (zero negative)
  else if 400 < digits + e then none
  else if 0 ≤ e then ofRatio negative (n * Nat.pow 10 e.toNat) 1
  else ofRatio negative n (Nat.pow 10 (-e).toNat)

def ratio (x : Double) : Nat × Nat :=
  scaleTwo x.mantissa x.exponent

/-- The rounded product; `none` beyond the largest number. -/
def mul? (x y : Double) : Option Double :=
  let (a, b) := x.ratio
  let (c, d) := y.ratio
  ofRatio (x.negative != y.negative) (a * c) (b * d)

/-- The rounded quotient; `none` beyond the largest number or for a zero divisor. -/
def div? (x y : Double) : Option Double :=
  let (a, b) := x.ratio
  let (c, d) := y.ratio
  if c = 0 then none else ofRatio (x.negative != y.negative) (a * d) (b * c)

def neg (x : Double) : Double :=
  { x with negative := !x.negative }

example : ofScientific false 5 (-324) = some ⟨false, 1⟩ := by decide +kernel
example : ofScientific false 1 400 = none := by decide +kernel
example : (ofScientific false 1 0).map mantissa = some (Nat.pow 2 52) := by decide +kernel

end Double

end Playbook
