import Playbook.Decimal.Shortest

/-!
# Layout of floating point text

Digits and exponent are written positionally for middle-sized exponents and with a mark otherwise;
either way the text shows that the number is no integer.
-/

namespace Playbook

/-- How a format writes the exponents that it does not write positionally. -/
structure FloatLayout where
  /-- The least exponent written positionally. -/
  least : Int
  /-- The greatest exponent written positionally. -/
  greatest : Int
  /-- A plus sign before a positive exponent. -/
  plus : Bool

namespace FloatLayout

/-- Numbers from `0.00001` up to sixteen digits are positional, and `1e+16` has a sign. -/
def json : FloatLayout := ⟨-5, 15, true⟩

/-- Numbers from `0.00001` up to sixteen digits are positional, and `1e16` has no sign. -/
def yaml : FloatLayout := ⟨-5, 15, false⟩

/-- The digits with a point, and at least one digit on each side of it. -/
def positional (digits : List Char) (exponent : Int) : List Char :=
  if exponent < 0 then
    '0' :: '.' :: List.replicate (-exponent - 1).toNat '0' ++ digits
  else
    let whole := exponent.toNat + 1
    if digits.length ≤ whole then
      digits ++ List.replicate (whole - digits.length) '0' ++ ['.', '0']
    else
      digits.take whole ++ '.' :: digits.drop whole

/-- The digits with a point after the first one, if more follow, and the exponent after a mark. -/
def scientific (plus : Bool) (digits : List Char) (exponent : Int) : List Char :=
  let mantissa := match digits with
    | first :: second :: rest => first :: '.' :: second :: rest
    | short => short
  let sign := if exponent < 0 then ['-'] else if plus then ['+'] else []
  mantissa ++ 'e' :: sign ++ Nat.toDigits 10 exponent.natAbs

/-- The text of a number. -/
def render (layout : FloatLayout) (x : Double) : String :=
  let sign := if x.negative then ['-'] else []
  let body :=
    if x.isZero then ['0', '.', '0']
    else
      let s := x.shortest
      if layout.least ≤ s.exponent ∧ s.exponent ≤ layout.greatest then
        positional s.digits s.exponent
      else scientific layout.plus s.digits s.exponent
  String.ofList (sign ++ body)

example : (Double.ofScientific false 1 (-5)).map json.render = some "0.00001" := by decide +kernel
example : (Double.ofScientific false 1 (-7)).map json.render = some "1e-7" := by decide +kernel
example : (Double.ofScientific false 1 15).map json.render = some "1000000000000000.0" := by
  decide +kernel
example : (Double.ofScientific false 1 16).map json.render = some "1e+16" := by decide +kernel
example : (Double.ofScientific false 1 16).map yaml.render = some "1e16" := by decide +kernel
example : json.render (Double.zero true) = "-0.0" := by decide +kernel

end FloatLayout

end Playbook
