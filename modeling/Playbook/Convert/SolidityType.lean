import Playbook.Text.Blank
import Playbook.Text.Numeral

/-!
# Declared types

The parameter types that arguments are converted for: addresses, booleans, strings, integers of a
width that is a multiple of eight up to 256, and byte strings of one to 32 bytes. Lists, tuples,
unbounded byte strings and fixed-point numbers are not among them.
-/

namespace Playbook

/-- A supported parameter type. -/
inductive SolidityType where
  | address
  | bool
  | string
  | uint (bits : Nat)
  | int (bits : Nat)
  | fixedBytes (length : Nat)
  deriving DecidableEq

/-- The types that are converted alike. -/
inductive Family where
  | address | bool | string | uint | int | bytes
  deriving DecidableEq

namespace SolidityType

/-- The width of an integer type: 256 when it is left out. -/
def width? (cs : List Char) : Option Nat :=
  if cs = [] then some 256
  else (Text.unsigned? 0x10000 cs).filter fun bits => bits % 8 = 0 ∧ 8 ≤ bits ∧ bits ≤ 256

def length? (cs : List Char) : Option Nat :=
  (Text.unsigned? 0x100 cs).filter fun length => 1 ≤ length ∧ length ≤ 32

/-- The type that characters without blanks around them spell. -/
def ofChars? (cs : List Char) : Option SolidityType :=
  if cs = "address".toList then some .address
  else if cs = "bool".toList then some .bool
  else if cs = "string".toList then some .string
  else
    match cs with
    | 'u' :: 'i' :: 'n' :: 't' :: rest => (width? rest).map .uint
    | 'i' :: 'n' :: 't' :: rest => (width? rest).map .int
    | 'b' :: 'y' :: 't' :: 'e' :: 's' :: rest => (length? rest).map .fixedBytes
    | _ => none

def parse? (declared : String) : Option SolidityType :=
  ofChars? (Text.trimChars declared.toList)

/-- The spelling of a type, its width included. -/
def display : SolidityType → String
  | .address => "address"
  | .bool => "bool"
  | .string => "string"
  | .uint bits => s!"uint{bits}"
  | .int bits => s!"int{bits}"
  | .fixedBytes length => s!"bytes{length}"

def family : SolidityType → Family
  | .address => .address
  | .bool => .bool
  | .string => .string
  | .uint _ => .uint
  | .int _ => .int
  | .fixedBytes _ => .bytes

end SolidityType

/-- The name that stands for every width of a family; the others have only one type. -/
def Family.alias? : Family → Option String
  | .uint => some "uint"
  | .int => some "int"
  | .bytes => some "bytes"
  | _ => none

/-- The family that an alias names. -/
def Family.ofAlias? (name : String) : Option Family :=
  [Family.uint, .int, .bytes].find? (·.alias? == some name)

end Playbook
