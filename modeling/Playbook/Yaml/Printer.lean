import Playbook.Json.Basic
import Playbook.Yaml.Style

/-!
# Written YAML

The block layout of a document: an entry or an item a line, containers below their key indented by
two spaces, except that the dashes of a sequence stand below the key itself. Empty containers are
written in brackets. A key that holds breaks or is long is announced by a question mark.
-/

namespace Playbook.Yaml

/-- The bytes that a key may have without being announced. -/
def maxKey : Nat := 128

/-- Whether a key is written without being announced. -/
def isSimpleKey (key : String) : Bool :=
  !key.toList.any isBreak && key.utf8ByteSize ≤ maxKey

/-- What is written in one line, a literal block apart: a scalar, or the brackets of a container
that is empty. -/
def writeLeaf (width : Nat) : Json → List Char
  | .null => "null\n".toList
  | .bool flag => (if flag then "true\n" else "false\n").toList
  | .number n => (n.render .yaml).toList ++ ['\n']
  | .string text => closeLine (writeText width text)
  | .array _ => "[]\n".toList
  | .object _ => "\x7b\x7d\n".toList

mutual

/-- A document that begins at a column, in a line that is indented up to there. -/
def writeAt (column : Nat) : Json → List Char
  | .array (item :: rest) => (writeItems column (item :: rest)).drop column
  | .object (member :: rest) => (writeMembers column (member :: rest)).drop column
  | leaf => writeLeaf column leaf

/-- The value of a key that stands at a column, after the colon. -/
def writeValue (column : Nat) : Json → List Char
  | .array (item :: rest) => '\n' :: writeItems column (item :: rest)
  | .object (member :: rest) => '\n' :: writeMembers (column + 2) (member :: rest)
  | leaf => ' ' :: writeLeaf (column + 2) leaf

/-- The lines of items whose dashes stand at a column. -/
def writeItems (column : Nat) : List Json → List Char
  | [] => []
  | item :: rest =>
    indentation column ++ '-' :: ' ' :: writeAt (column + 2) item ++ writeItems column rest

/-- The lines of members whose keys stand at a column. -/
def writeMembers (column : Nat) : List (String × Json) → List Char
  | [] => []
  | (key, v) :: rest =>
    let written :=
      if isSimpleKey key then writeText (column + 2) key ++ ':' :: writeValue column v
      else
        '?' :: ' ' :: closeLine (writeText (column + 2) key) ++ indentation column ++
          ':' :: ' ' :: writeAt (column + 2) v
    indentation column ++ written ++ writeMembers column rest

end

/-- The text of a document. A scalar that stands alone is indented like one in a container. -/
def write (document : Json) : String :=
  match document with
  | .array _ | .object _ => String.ofList (writeAt 0 document)
  | scalar => String.ofList (writeAt 2 scalar)

example : write (.object [("a", .array [.string "x", .object [("y", .string "1")], .array []])]) =
    "a:\n- x\n- y: '1'\n- []\n" := by decide +kernel
example : write (.object [("a", .object [("b", .string "p\nq\n"), ("c d", .bool true)])]) =
    "a:\n  b: |\n    p\n    q\n  c d: true\n" := by decide +kernel
example : write (.array [.array [.null], .string "", .string "a: b", .string "\x00"]) =
    "- - null\n- ''\n- 'a: b'\n- \"\\0\"\n" := by decide +kernel

end Playbook.Yaml
