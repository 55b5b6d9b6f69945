import Playbook.Value.Width
import Playbook.Json.Printer
import Playbook.Json.Spelling

/-!
# Values and JSON

Export flattens the shapes that JSON lacks: big integers become decimal strings, instants RFC 3339
strings, bytes hexadecimal strings after `0x`, and handles objects. Import reads plain data back,
from a document or straight from its spelling.
-/

namespace Playbook.Value

def hexText (octets : List UInt8) : String :=
  String.ofList ('0' :: 'x' :: octets.flatMap fun b => Text.hexDigits 2 b.toNat)

mutual

def toJson : Value → Json
  | .null => .null
  | .bool flag => .bool flag
  | .number n => .number n
  | .bigInt n => .string (toString n)
  | .date t => .string t.rfc3339
  | .string text => .string text
  | .bytes octets => .string (hexText octets)
  | .array items => .array (itemsToJson items)
  | .object fields => .object (fieldsToJson fields)
  | .handle h =>
    .object (("contract", .string h.contract) ::
      match h.address with
      | none => []
      | some address => [("address", .string address)])

def itemsToJson : List Value → List Json
  | [] => []
  | item :: rest => toJson item :: itemsToJson rest

def fieldsToJson : List (String × Value) → List (String × Json)
  | [] => []
  | (name, value) :: rest => (name, toJson value) :: fieldsToJson rest

end

mutual

def ofJson : Json → Value
  | .null => .null
  | .bool flag => .bool flag
  | .number n => .number n
  | .string text => .string text
  | .array items => .array (itemsOfJson items)
  | .object members => .object (fieldsOfJson members)

def itemsOfJson : List Json → List Value
  | [] => []
  | item :: rest => ofJson item :: itemsOfJson rest

def fieldsOfJson : List (String × Json) → List (String × Value)
  | [] => []
  | (name, value) :: rest => (name, ofJson value) :: fieldsOfJson rest

end

/-! ## Straight from a spelling -/

open Json in
mutual

/-- The value that a spelling denotes, read without a document in between, its depth left aside. -/
def denoted? : Spelling → Option Value
  | .null => some .null
  | .bool flag => some (.bool flag)
  | .number literal => (Number.ofLiteral? literal).bind ofNumber?
  | .string units => (TextUnit.text? units).map .string
  | .array items => (denotedItems? items).map .array
  | .object members => (denotedFields? [] members).map .object

def denotedItems? : List Spelling → Option (List Value)
  | [] => some []
  | item :: rest => (denoted? item).bind fun v => (denotedItems? rest).map (v :: ·)

/-- Puts the members one after another into fields that are already there. -/
def denotedFields? (fields : Fields Value) : List (List TextUnit × Spelling) → Option (Fields Value)
  | [] => some fields
  | (name, value) :: rest =>
    (TextUnit.text? name).bind fun key =>
      (denoted? value).bind fun v => denotedFields? (Fields.put fields key v) rest

end

/-- The value that a spelling denotes. -/
def ofSpelling? (spelling : Json.Spelling) : Option Value :=
  if spelling.depth ≤ Json.Spelling.maxDepth then denoted? spelling else none

/-! ## Text -/

/-- The value as text: what exports to a string as that string, everything else as compact JSON. -/
def display (v : Value) : String :=
  match v.toJson with
  | .string text => text
  | document => document.compact

end Playbook.Value
