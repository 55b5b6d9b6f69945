import Playbook.Decimal.Double

/-!
# Shortest digits

The fewest decimal digits that read back as a given number. The numbers that round to `x` form an
interval around it, which includes its ends when the mantissa is even. For one digit, two digits and
so on, the two neighbours of `x` on the grid of that many digits are tried; the first grid with a
neighbour in the interval wins, and of two such neighbours the nearer one, the even one on a tie.
-/

namespace Playbook

/-- A positive decimal number in scientific form: `digits` with the point after the first one, times
ten to the `exponent`. The last digit is not zero. -/
structure Scientific where
  digits : List Char
  exponent : Int
  deriving DecidableEq

namespace Scientific

/-- `n · 10 ^ e` with the zeros at the end of `n` moved into the exponent. -/
def ofNat (n : Nat) (e : Int) : Scientific :=
  let all := Nat.toDigits 10 n
  let digits := (all.reverse.dropWhile (· == '0')).reverse
  ⟨digits, e + all.length - 1⟩

end Scientific

namespace Double

/-- Whether `10 ^ e` is at most `num / den`. -/
def tenPowLe (e : Int) (num den : Nat) : Bool :=
  if 0 ≤ e then Nat.pow 10 e.toNat * den ≤ num else den ≤ num * Nat.pow 10 (-e).toNat

/-- The largest exponent of a power of ten that is at most `num / den`. -/
def decimalExponent (num den : Nat) : Int :=
  let guess : Int := Int.fdiv (((num.log2 : Int) - den.log2) * 30103) 100000
  if tenPowLe (guess + 1) num den then guess + 1
  else if tenPowLe guess num den then guess
  else if tenPowLe (guess - 1) num den then guess - 1
  else guess - 2

/-- The numbers that round to `x`, as multiples of a quarter of the unit of its mantissa. -/
structure Interval where
  low : Nat
  value : Nat
  high : Nat
  /-- The power of two that these are multiples of. -/
  unit : Int
  closed : Bool

/-- The interval around `x`; below a power of two the numbers lie twice as dense. -/
def interval (x : Double) : Interval :=
  let m := x.mantissa
  let low := if m = binade ∧ -1074 < x.exponent then 4 * m - 1 else 4 * m - 2
  ⟨low, 4 * m, 4 * m + 2, x.exponent - 2, m % 2 = 0⟩

/-- Whether `n · 10 ^ e` lies in the interval. -/
def Interval.holds (i : Interval) (n : Nat) (e : Int) : Bool :=
  -- both sides times a common denominator of the two powers
  let (ten, tenDen) := if 0 ≤ e then (Nat.pow 10 e.toNat, 1) else (1, Nat.pow 10 (-e).toNat)
  let (two, twoDen) := scaleTwo 1 i.unit
  let point := n * ten * twoDen
  let low := i.low * two * tenDen
  let high := i.high * two * tenDen
  if i.closed then low ≤ point && point ≤ high else low < point && point < high

/-- The result of trying the grid of `count` digits: the neighbour that is written, if any. -/
def onGrid (i : Interval) (top : Int) (count : Nat) : Option (Nat × Int) :=
  let e : Int := top - count + 1
  let (num, den) := scaleTwo i.value i.unit
  let (num, den) :=
    if 0 ≤ e then (num, den * Nat.pow 10 e.toNat) else (num * Nat.pow 10 (-e).toNat, den)
  let below := num / den
  let rest := 2 * (num % den)
  let nearer := if rest < den ∨ (rest = den ∧ below % 2 = 0) then below else below + 1
  let farther := if nearer = below then below + 1 else below
  if i.holds nearer e then some (nearer, e)
  else if i.holds farther e then some (farther, e)
  else none

/-- The fewest digits of a non-zero number that read back as it; seventeen always do. -/
def shortest (x : Double) : Scientific :=
  let i := x.interval
  let (num, den) := scaleTwo i.value i.unit
  let top := decimalExponent num den
  match (List.range' 1 17).findSome? (onGrid i top) with
  | some (n, e) => Scientific.ofNat n e
  | none => ⟨['0'], 0⟩

example : (ofScientific false 1 (-1)).map shortest = some ⟨['1'], -1⟩ := by decide +kernel
example : (ofScientific false 5 (-324)).map shortest = some ⟨['5'], -324⟩ := by decide +kernel
example : (ofScientific false 18446744073709551616 0).map shortest =
    some ⟨"18446744073709552".toList, 19⟩ := by decide +kernel

end Double

end Playbook
