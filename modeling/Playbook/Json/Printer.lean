import Playbook.Json.Basic

/-!
# Written JSON

Two layouts of a document: compact, without any blanks, and indented, by two spaces a level, with an
empty container closed at once. In both, the quote, the backslash and the controls below the space
are escaped and every other character stands for itself.
-/

namespace Playbook.Json

/-- One character as it stands in a JSON string. -/
def escaped (c : Char) : List Char :=
  match c with
  | '"' => ['\\', '"']
  | '\\' => ['\\', '\\']
  | '\x08' => ['\\', 'b']
  | '\t' => ['\\', 't']
  | '\n' => ['\\', 'n']
  | '\x0c' => ['\\', 'f']
  | '\r' => ['\\', 'r']
  | c => if c.toNat < 0x20 then '\\' :: 'u' :: Text.hexDigits 4 c.toNat else [c]

def quote (text : String) : String :=
  String.ofList ('"' :: text.toList.flatMap escaped ++ ['"'])

def commas : List String → String :=
  String.intercalate ","

mutual

def compact : Json → String
  | .null => "null"
  | .bool flag => if flag then "true" else "false"
  | .number n => n.render .json
  | .string text => quote text
  | .array items => "[" ++ commas (compactItems items) ++ "]"
  | .object members => "\x7b" ++ commas (compactMembers members) ++ "\x7d"

def compactItems : List Json → List String
  | [] => []
  | item :: rest => compact item :: compactItems rest

def compactMembers : List (String × Json) → List String
  | [] => []
  | (name, value) :: rest => (quote name ++ ":" ++ compact value) :: compactMembers rest

end

def newline (level : Nat) : String :=
  "\n" ++ String.ofList (List.replicate (2 * level) ' ')

/-- The lines of a container between its brackets, which stand at a level. -/
def block (level : Nat) (opening closing : String) : List String → String
  | [] => opening ++ closing
  | lines =>
    let inner := newline (level + 1)
    opening ++ inner ++ String.intercalate ("," ++ inner) lines ++ newline level ++ closing

mutual

/-- The indented text of a document that begins at a level. -/
def indentedAt (level : Nat) : Json → String
  | .array items => block level "[" "]" (indentedItems (level + 1) items)
  | .object members => block level "\x7b" "\x7d" (indentedMembers (level + 1) members)
  | .null => "null"
  | .bool flag => if flag then "true" else "false"
  | .number n => n.render .json
  | .string text => quote text

def indentedItems (level : Nat) : List Json → List String
  | [] => []
  | item :: rest => indentedAt level item :: indentedItems level rest

def indentedMembers (level : Nat) : List (String × Json) → List String
  | [] => []
  | (name, value) :: rest =>
    (quote name ++ ": " ++ indentedAt level value) :: indentedMembers level rest

end

def indented (document : Json) : String :=
  indentedAt 0 document

end Playbook.Json
