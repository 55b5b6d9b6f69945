import Playbook.Text.Numeral
import Playbook.Decimal.Double

/-!
# Decimal literals

A decimal literal as it is spelled, and the two ways a number is read from it: the nearest number of
the format, and the quick reading, which keeps the first digits that fit 64 bits and scales them by
one rounded multiplication or division by a power of ten.
-/

namespace Playbook

/-- A spelled decimal number: sign, digits before and after the point, and the exponent. -/
structure Literal where
  negative : Bool
  whole : List Char
  /-- The digits after the point; `none` when there is no point. -/
  fraction : Option (List Char)
  /-- The sign (negative or not) and the digits of the exponent; `none` when there is no mark. -/
  exponent : Option (Bool × List Char)
  deriving DecidableEq

namespace Literal

/-- The value of the exponent's digits under their sign; zero without a mark. -/
def exponentValue (l : Literal) : Int :=
  match l.exponent with
  | none => 0
  | some (negative, digits) =>
    let n : Int := Text.decimalValue digits
    if negative then -n else n

/-- The number nearest to the literal; `none` when that is beyond the largest. -/
def nearest (l : Literal) : Option Double :=
  let fraction := l.fraction.getD []
  Double.ofScientific l.negative (Text.decimalValue (l.whole ++ fraction))
    (l.exponentValue - fraction.length)

/-! ## The quick reading -/

/-- One more than the largest significand kept. -/
def significandBound : Nat := Nat.pow 2 64

/-- Continues a significand with digits while it fits, and counts the digits that were taken and
those that were left. -/
def takeDigits (significand : Nat) : List Char → Nat × Nat × Nat
  | [] => (significand, 0, 0)
  | c :: cs =>
    let next := significand * 10 + (c.toNat - 48)
    if next < significandBound then
      let (n, taken, left) := takeDigits next cs
      (n, taken + 1, left)
    else (significand, 0, cs.length + 1)

/-- The largest power of ten that scales in one step. -/
def stepLimit : Nat := 308

/-- `10 ^ n` rounded, for `n` up to `stepLimit`. -/
def tenPow (n : Nat) : Option Double :=
  Double.ofRatio false (Nat.pow 10 n) 1

/-- Scales down by full steps and then by the rest. -/
def scaleDown : Nat → Double → Nat → Option Double
  | 0, _, _ => none
  | fuel + 1, f, n =>
    if n ≤ stepLimit then (tenPow n).bind (f.div? ·)
    else if f.isZero then some f
    else (tenPow stepLimit).bind fun p => (f.div? p).bind fun f => scaleDown fuel f (n - stepLimit)

/-- The significand scaled by ten to the `exponent`; `none` beyond the largest number. -/
def scaled (significand : Nat) (exponent : Int) : Option Double :=
  (Double.ofRatio false significand 1).bind fun f =>
    if 0 ≤ exponent then
      if exponent.toNat ≤ stepLimit then (tenPow exponent.toNat).bind (f.mul? ·)
      else if f.isZero then some f else none
    else
      -- a non-zero significand is gone after three full steps
      scaleDown 4 f (-exponent).toNat

/-- The largest exponent that is counted exactly. -/
def exponentLimit : Nat := Nat.pow 2 31 - 1

/-- The quick reading; `none` when it is beyond the largest number. Digits before the point that did
not fit raise the exponent, digits after it that did lower it. -/
def quick (l : Literal) : Option Double :=
  let (whole, _, left) := takeDigits 0 l.whole
  let (significand, taken, _) := takeDigits whole (l.fraction.getD [])
  let start : Int := (left : Int) - taken
  let size : Option Double :=
    match l.exponent with
    | none => scaled significand start
    | some (negative, digits) =>
      let n := Text.decimalValue digits
      if n ≤ exponentLimit then scaled significand (if negative then start - n else start + n)
      else if significand ≠ 0 ∧ !negative then none
      else some (Double.zero false)
  size.map fun f => if l.negative then f.neg else f

end Literal

end Playbook
