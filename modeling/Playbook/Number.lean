import Playbook.Decimal.Layout
import Playbook.Decimal.Literal

/-!
# Numbers

The numbers that plain data carries: integers of 64 bits, and finite double precision numbers.
-/

namespace Playbook

/-- A number of plain data. An integer lies between `-2 ^ 63` and `2 ^ 64 - 1`. -/
inductive Number where
  | int (n : Int)
  | float (x : Double)
  deriving DecidableEq

namespace Number

/-- The integers that a number holds. -/
def Fits (n : Int) : Prop :=
  -0x8000000000000000 ≤ n ∧ n < 0x10000000000000000

instance (n : Int) : Decidable (Fits n) :=
  inferInstanceAs (Decidable (_ ∧ _))

/-- The text of a number; `layout` writes the ones that are no integers. -/
def render (layout : FloatLayout) : Number → String
  | .int n => toString n
  | .float x => layout.render x

/-- The number that a literal spells: an integer when it has neither point nor exponent, is no
negated zero and fits, and the quick reading otherwise; `none` beyond the largest number. -/
def ofLiteral? (l : Literal) : Option Number :=
  let n : Int := Text.decimalValue l.whole
  let n := if l.negative then -n else n
  if l.fraction = none ∧ l.exponent = none ∧ Fits n ∧ ¬(l.negative ∧ n = 0) then some (.int n)
  else l.quick.map .float

end Number

end Playbook
