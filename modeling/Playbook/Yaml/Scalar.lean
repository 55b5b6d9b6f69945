import Playbook.Value.Width
import Playbook.Yaml.Token

/-!
# Plain scalars

What a plain scalar denotes by its text: nothing, a truth value, an integer, a floating point
number, or itself. Integers are decimal, or hexadecimal, octal or binary after a lowercase mark;
digits after a leading zero are a text. Integers of up to 128 bits are exact; wider decimal ones are
floating point numbers.
-/

namespace Playbook.Yaml

/-- What a scalar denotes. -/
inductive Scalar where
  | null
  | bool (flag : Bool)
  /-- An integer, at the width at which it is handed over. -/
  | int (width : Width) (n : Int)
  | float (x : Double)
  /-- A number that is infinite or none at all. -/
  | notFinite
  | string (text : String)

namespace Scalar

def isNull (text : String) : Bool :=
  text == "~" || text == "null" || text == "Null" || text == "NULL"

def bool? (text : String) : Option Bool :=
  if text == "true" || text == "True" || text == "TRUE" then some true
  else if text == "false" || text == "False" || text == "FALSE" then some false
  else none

def isSign (c : Char) : Bool :=
  c == '+' || c == '-'

def withoutPlus : List Char → List Char
  | '+' :: rest => rest
  | cs => cs

def isSigned (cs : List Char) : Bool :=
  (cs.head?.map isSign).getD false

/-- Digits that are no number: more than one, the first of them zero, perhaps after a sign. -/
def isPaddedDigits (cs : List Char) : Bool :=
  let digits := match cs with
    | '-' :: rest => rest
    | '+' :: rest => rest
    | cs => cs
  match digits with
  | '0' :: second :: rest => (second :: rest).all Text.isDigit
  | _ => false

/-- The natural number of digits in the base that a mark tells, decimal ones left out. -/
def marked? : List Char → Option Nat
  | '0' :: 'x' :: rest => Text.digits? 16 rest
  | '0' :: 'o' :: rest => Text.digits? 8 rest
  | '0' :: 'b' :: rest => Text.digits? 2 rest
  | _ => none

def unsigned? (bound : Nat) (cs : List Char) : Option Int :=
  let digits := withoutPlus cs
  match (marked? digits).filter (· < bound) with
  | some n => some n
  | none =>
    if isSigned digits || isPaddedDigits cs then none
    else ((Text.digits? 10 digits).filter (· < bound)).map fun n => n

def signed? (bound : Nat) (cs : List Char) : Option Int :=
  match cs with
  | '-' :: rest =>
    match (marked? rest).filter (· ≤ bound) with
    | some n => some (-n)
    | none =>
      if isPaddedDigits cs then none
      else ((Text.digits? 10 rest).filter (· ≤ bound)).map fun n => -n
  | _ => none

def ofWidth? (cs : List Char) (width : Width) : Option Int :=
  match width with
  | .unsigned64 | .unsigned128 => unsigned? width.bound cs
  | .signed64 | .signed128 => signed? width.bound cs

/-- An integer of up to 128 bits, at the first width at which it is read. -/
def int? (cs : List Char) : Option (Width × Int) :=
  Width.all.findSome? fun width => (ofWidth? cs width).map fun n => (width, n)

/-- The exponent after its mark; nothing else may follow. -/
def exponent? : List Char → Option (Option (Bool × List Char))
  | [] => some none
  | c :: rest =>
    if c == 'e' || c == 'E' then
      let (negative, digits) := match rest with
        | '-' :: digits => (true, digits)
        | '+' :: digits => (false, digits)
        | digits => (false, digits)
      if digits ≠ [] ∧ digits.all Text.isDigit then some (some (negative, digits)) else none
    else none

/-- The literal that characters spell: digits on at least one side of the point, and perhaps an
exponent. -/
def literal? (cs : List Char) : Option Literal :=
  let (negative, cs) := match cs with
    | '-' :: rest => (true, rest)
    | cs => (false, cs)
  let whole := cs.takeWhile Text.isDigit
  let (fraction, rest) := match cs.dropWhile Text.isDigit with
    | '.' :: rest => (some (rest.takeWhile Text.isDigit), rest.dropWhile Text.isDigit)
    | rest => (none, rest)
  if whole = [] ∧ fraction.getD [] = [] then none
  else (exponent? rest).map fun exponent => ⟨negative, whole, fraction, exponent⟩

def isNotFinite (cs : List Char) : Bool :=
  let word := String.ofList (withoutPlus cs)
  let whole := String.ofList cs
  word == ".inf" || word == ".Inf" || word == ".INF" ||
  whole == "-.inf" || whole == "-.Inf" || whole == "-.INF" ||
  whole == ".nan" || whole == ".NaN" || whole == ".NAN"

/-- A floating point number. A literal beyond the largest number is none. -/
def float? (cs : List Char) : Option Scalar :=
  match cs with
  | '+' :: '+' :: _ => none
  | '+' :: '-' :: _ => none
  | cs =>
    if isNotFinite cs then some .notFinite
    else ((literal? (withoutPlus cs)).bind Literal.nearest).map .float

def ofPlain (text : String) : Scalar :=
  let cs := text.toList
  if text == "" || isNull text then .null
  else
    match bool? text with
    | some flag => .bool flag
    | none =>
      match int? cs with
      | some (width, n) => .int width n
      | none =>
        if isPaddedDigits cs then .string text else (float? cs).getD (.string text)

/-- What a text of a kind denotes; the text has to fit the kind. -/
def ofKind? (kind : CoreKind) (text : String) : Option Scalar :=
  match kind with
  | .null => if isNull text then some .null else none
  | .bool => (bool? text).map .bool
  | .int => (int? text.toList).map fun (width, n) => .int width n
  | .float => float? text.toList

/-- What a scalar denotes. Without a tag, and under one that says nothing, this depends on whether
it is plain. Under a tag of the document's own it denotes nothing that is known. -/
def denote? (tag : Option Tag) (form : ScalarForm) (text : String) : Option Scalar :=
  match tag with
  | none | some .garbled => some (if form = .plain then ofPlain text else .string text)
  | some (.core kind) => ofKind? kind text
  | some .own => none
  | some .other => some (.string text)

end Scalar

end Playbook.Yaml
