import Playbook.Json.Basic

/-!
# Spelled JSON

JSON text before its numbers and strings are valued: numbers as literals, strings as characters and
code units, members with their repetitions. A spelling denotes a document unless a number is too
large, half of a surrogate pair stands alone, or containers nest too deep.
-/

namespace Playbook.Json

/-- A piece of a spelled string: a character, or a code unit of sixteen bits from an escape. -/
inductive TextUnit where
  | char (c : Char)
  | code (n : Nat)
  deriving DecidableEq

/-- A JSON text as it is spelled. -/
inductive Spelling where
  | null
  | bool (flag : Bool)
  | number (literal : Literal)
  | string (units : List TextUnit)
  | array (items : List Spelling)
  | object (members : List (List TextUnit × Spelling))

/-! ## Reading the grammar -/

namespace Spelling

/-- The characters that may stand between the parts of a document. -/
def isSpace (c : Char) : Bool :=
  c == ' ' || c == '\n' || c == '\t' || c == '\r'

def skipSpace (cs : List Char) : List Char :=
  cs.dropWhile isSpace

/-- The character that a one-letter escape stands for. -/
def escape? : Char → Option Char
  | '"' => some '"'
  | '\\' => some '\\'
  | '/' => some '/'
  | 'b' => some '\x08'
  | 'f' => some '\x0c'
  | 'n' => some '\n'
  | 'r' => some '\r'
  | 't' => some '\t'
  | _ => none

/-- The rest of a string after its opening quote, up to the closing one, and what follows it. -/
def string? : List Char → Option (List TextUnit × List Char)
  | [] => none
  | '"' :: rest => some ([], rest)
  | '\\' :: 'u' :: a :: b :: c :: d :: rest =>
    (Text.digits? 16 [a, b, c, d]).bind fun n =>
      (string? rest).map fun (units, rest) => (.code n :: units, rest)
  | '\\' :: e :: rest =>
    (escape? e).bind fun c => (string? rest).map fun (units, rest) => (.char c :: units, rest)
  | c :: rest =>
    if c.toNat < 0x20 then none
    else (string? rest).map fun (units, rest) => (.char c :: units, rest)

/-- The digits at the start, which must be some. -/
def digits? (cs : List Char) : Option (List Char × List Char) :=
  match cs.takeWhile Text.isDigit with
  | [] => none
  | digits => some (digits, cs.dropWhile Text.isDigit)

/-- The fraction that a point begins, if there is one. -/
def fraction? : List Char → Option (Option (List Char) × List Char)
  | '.' :: rest => (digits? rest).map fun (digits, rest) => (some digits, rest)
  | cs => some (none, cs)

/-- The exponent that a mark begins, if there is one. -/
def exponent? : List Char → Option (Option (Bool × List Char) × List Char)
  | c :: rest =>
    if c = 'e' ∨ c = 'E' then
      let (negative, rest) := match rest with
        | '-' :: rest => (true, rest)
        | '+' :: rest => (false, rest)
        | rest => (false, rest)
      (digits? rest).map fun (digits, rest) => (some (negative, digits), rest)
    else some (none, c :: rest)
  | [] => some (none, [])

/-- A number: its whole part has no leading zeros. -/
def number? (cs : List Char) : Option (Literal × List Char) := do
  let (negative, cs) := match cs with
    | '-' :: rest => (true, rest)
    | cs => (false, cs)
  let (whole, cs) ← digits? cs
  if whole.head? = some '0' ∧ whole.length ≠ 1 then none
  let (fraction, cs) ← fraction? cs
  let (exponent, cs) ← exponent? cs
  return (⟨negative, whole, fraction, exponent⟩, cs)

mutual

def value? : Nat → List Char → Option (Spelling × List Char)
  | 0, _ => none
  | fuel + 1, cs =>
    match skipSpace cs with
    | 'n' :: 'u' :: 'l' :: 'l' :: rest => some (.null, rest)
    | 't' :: 'r' :: 'u' :: 'e' :: rest => some (.bool true, rest)
    | 'f' :: 'a' :: 'l' :: 's' :: 'e' :: rest => some (.bool false, rest)
    | '"' :: rest => (string? rest).map fun (units, rest) => (.string units, rest)
    | '[' :: rest =>
      match skipSpace rest with
      | ']' :: rest => some (.array [], rest)
      | rest => (items? fuel rest).map fun (items, rest) => (.array items, rest)
    | '\x7b' :: rest =>
      match skipSpace rest with
      | '\x7d' :: rest => some (.object [], rest)
      | rest => (members? fuel rest).map fun (members, rest) => (.object members, rest)
    | cs => (number? cs).map fun (literal, rest) => (.number literal, rest)

/-- The items of an array up to its closing bracket, at least one. -/
def items? : Nat → List Char → Option (List Spelling × List Char)
  | 0, _ => none
  | fuel + 1, cs =>
    (value? fuel cs).bind fun (item, rest) =>
      match skipSpace rest with
      | ',' :: rest => (items? fuel rest).map fun (items, rest) => (item :: items, rest)
      | ']' :: rest => some ([item], rest)
      | _ => none

/-- The members of an object up to its closing brace, at least one. -/
def members? : Nat → List Char → Option (List (List TextUnit × Spelling) × List Char)
  | 0, _ => none
  | fuel + 1, cs =>
    match skipSpace cs with
    | '"' :: rest =>
      (string? rest).bind fun (name, rest) =>
        match skipSpace rest with
        | ':' :: rest =>
          (value? fuel rest).bind fun (value, rest) =>
            match skipSpace rest with
            | ',' :: rest =>
              (members? fuel rest).map fun (members, rest) => ((name, value) :: members, rest)
            | '\x7d' :: rest => some ([(name, value)], rest)
            | _ => none
        | _ => none
    | _ => none

end

/-- Reads a whole text; every step of the reading passes a character, so its length bounds them. -/
def read? (text : String) : Option Spelling :=
  let cs := text.toList
  (value? (2 * cs.length + 2) cs).bind fun (value, rest) =>
    if skipSpace rest = [] then some value else none

end Spelling

/-! ## Values of spellings -/

def isLeading (n : Nat) : Bool :=
  0xD800 ≤ n && n < 0xDC00

def isTrailing (n : Nat) : Bool :=
  0xDC00 ≤ n && n < 0xE000

/-- The characters of a spelled string; `none` when half of a surrogate pair stands alone. -/
def TextUnit.chars? : List TextUnit → Option (List Char)
  | [] => some []
  | .char c :: rest => (chars? rest).map (c :: ·)
  | .code n :: .code m :: rest =>
    if isLeading n then
      if isTrailing m then
        (chars? rest).map (Char.ofNat (0x10000 + (n - 0xD800) * 0x400 + (m - 0xDC00)) :: ·)
      else none
    else if isTrailing n then none
    else (chars? (.code m :: rest)).map (Char.ofNat n :: ·)
  | .code n :: rest =>
    if isLeading n || isTrailing n then none else (chars? rest).map (Char.ofNat n :: ·)

def TextUnit.text? (units : List TextUnit) : Option String :=
  (chars? units).map String.ofList

namespace Spelling

mutual

/-- How many containers lie around the innermost part. -/
def depth : Spelling → Nat
  | .array items => depthOfItems items + 1
  | .object members => depthOfMembers members + 1
  | _ => 0

def depthOfItems : List Spelling → Nat
  | [] => 0
  | item :: rest => max (depth item) (depthOfItems rest)

def depthOfMembers : List (List TextUnit × Spelling) → Nat
  | [] => 0
  | (_, value) :: rest => max (depth value) (depthOfMembers rest)

end

def maxDepth : Nat := 127

mutual

/-- The document that a spelling denotes, its depth left aside. A repeated name keeps its first
place and its last value. -/
def denote? : Spelling → Option Json
  | .null => some .null
  | .bool flag => some (.bool flag)
  | .number literal => (Number.ofLiteral? literal).map .number
  | .string units => (TextUnit.text? units).map .string
  | .array items => (denoteItems? items).map .array
  | .object members => (denoteMembers? members).map fun ms => .object (Fields.ofEntries ms)

def denoteItems? : List Spelling → Option (List Json)
  | [] => some []
  | item :: rest => (denote? item).bind fun v => (denoteItems? rest).map (v :: ·)

def denoteMembers? : List (List TextUnit × Spelling) → Option (List (String × Json))
  | [] => some []
  | (name, value) :: rest =>
    (TextUnit.text? name).bind fun key =>
      (denote? value).bind fun v => (denoteMembers? rest).map ((key, v) :: ·)

end

/-- The document that a spelling denotes. -/
def toJson? (spelling : Spelling) : Option Json :=
  if spelling.depth ≤ maxDepth then spelling.denote? else none

end Spelling

def read? (text : String) : Option Json :=
  (Spelling.read? text).bind Spelling.toJson?

end Playbook.Json
