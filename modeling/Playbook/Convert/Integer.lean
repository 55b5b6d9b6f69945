import Playbook.Text.Blank
import Playbook.Text.Numeral

/-!
# Integer texts

Integers of any size in decimal, or in hexadecimal after `0x`. One minus sign may come first; the
numeral after it may have a sign of its own, and underscores anywhere but at its start.
-/

namespace Playbook.IntegerText

/-- The number that digits denote; underscores after the first character count for nothing. -/
def magnitude? (base : Nat) (cs : List Char) : Option Nat :=
  match cs with
  | '_' :: _ => none
  | [] => none
  | cs => Text.digitsFrom base 0 (cs.filter (· != '_'))

/-- A plus sign is taken off, unless another one follows it. -/
def withoutPlus : List Char → List Char
  | '+' :: '+' :: rest => '+' :: '+' :: rest
  | '+' :: rest => rest
  | cs => cs

/-- The number of a numeral that may have a sign: minus, not followed by plus, or plus. -/
def signed? (base : Nat) : List Char → Option Int
  | '-' :: '+' :: _ => none
  | '-' :: rest => (magnitude? base rest).map fun n => -(n : Int)
  | cs => (magnitude? base (withoutPlus cs)).map fun n => (n : Int)

/-- The number of a numeral in the base that its first characters tell. -/
def based? : List Char → Option Int
  | '0' :: 'x' :: rest => signed? 16 rest
  | '0' :: 'X' :: rest => signed? 16 rest
  | cs => signed? 10 cs

/-- The integer that characters without blanks around them spell. -/
def ofChars? : List Char → Option Int
  | '-' :: rest => (based? rest).map fun n => -n
  | cs => based? cs

def parse? (text : String) : Option Int :=
  ofChars? (Text.trimChars text.toList)

def refusal (text : String) : String :=
  s!"`{text}` is not a decimal or 0x-prefixed hex integer"

example : parse? "--5" = some 5 ∧ parse? "0x-10" = some (-16) ∧ parse? "-+5" = some (-5) := by
  decide +kernel
example : parse? "+0x10" = none ∧ parse? "_1" = none ∧ parse? "1_0" = some 10 := by decide +kernel

end Playbook.IntegerText
