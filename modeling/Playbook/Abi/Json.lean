import Playbook.Abi.Basic
import Playbook.Json.Printer
import Playbook.Json.Spelling

/-!
# Artifacts in JSON

An artifact is written as an object and read from an object or from the list of its fields in order.
Members that are not declared are passed over without valuing them; a declared one that is repeated,
is null where a value is required, or has another shape is refused. What may be left out has a
default.
-/

namespace Playbook

open Json

namespace Abi

/-! ## Writing -/

def parameterToJson (p : Parameter) : Json :=
  .object [("name", .string p.name), ("type", .string p.type)]

/-- An interface entry as JSON; an absent name is left out. -/
def signatureToJson (s : Signature) : Json :=
  .object (("type", .string s.kind.name) ::
    (match s.name with
      | none => []
      | some name => [("name", .string name)]) ++
    [("inputs", .array (s.inputs.map parameterToJson)),
      ("outputs", .array (s.outputs.map parameterToJson))])

def artifactToJson (a : Artifact) : Json :=
  .object [("contractName", .string a.contract), ("abi", .array (a.entries.map signatureToJson))]

/-! ## Reading -/

/-- Members with the texts of their names; `none` when a name is no text. -/
def named? : List (List TextUnit × Spelling) → Option (List (String × Spelling))
  | [] => some []
  | (units, value) :: rest =>
    (TextUnit.text? units).bind fun name => (named? rest).map ((name, value) :: ·)

/-- The one member of a name among members, `none` inside when it is absent; `none` outside when it
is repeated. -/
def member? (members : List (String × Spelling)) (name : String) : Option (Option Spelling) :=
  match members.filter (·.1 == name) with
  | [] => some none
  | [(_, value)] => some (some value)
  | _ => none

/-- The values of the declared fields, in order. A list gives them by place and may be cut short. -/
def record? (names : List String) : Spelling → Option (List (Option Spelling))
  | .object members => (named? members).bind fun members => names.mapM (member? members)
  | .array items =>
    if items.length ≤ names.length then
      some (items.map some ++ List.replicate (names.length - items.length) none)
    else none
  | _ => none

def text? : Spelling → Option String
  | .string units => TextUnit.text? units
  | _ => none

def nullableText? : Spelling → Option (Option String)
  | .null => some none
  | value => (text? value).map some

def list? {α : Type} (item? : Spelling → Option α) : Spelling → Option (List α)
  | .array items => items.mapM item?
  | _ => none

/-- A kind: its word, or an object with its word over null. -/
def kind? : Spelling → Option EntryKind
  | .string units => (TextUnit.text? units).bind EntryKind.ofName?
  | .object [(units, .null)] => (TextUnit.text? units).bind EntryKind.ofName?
  | _ => none

/-- A field that has a default when it is left out. -/
def defaulted {α : Type} (default : α) (read? : Spelling → Option α) : Option Spelling → Option α
  | none => some default
  | some value => read? value

/-- A parameter; its type is required. -/
def parameter? (value : Spelling) : Option Parameter := do
  match ← record? ["name", "type"] value with
  | [name, some type] => return ⟨← defaulted "" text? name, ← text? type⟩
  | _ => none

/-- An interface entry; it is a function unless it says otherwise. -/
def signature? (value : Spelling) : Option Signature := do
  match ← record? ["type", "name", "inputs", "outputs"] value with
  | [kind, name, inputs, outputs] =>
    return ⟨← defaulted .function kind? kind, ← defaulted none nullableText? name,
      ← defaulted [] (list? parameter?) inputs, ← defaulted [] (list? parameter?) outputs⟩
  | _ => none

/-- An artifact; its contract is required. -/
def artifact? (value : Spelling) : Option Artifact := do
  match ← record? ["contractName", "abi"] value with
  | [some contract, entries] =>
    return ⟨← text? contract, ← defaulted [] (list? signature?) entries⟩
  | _ => none

/-- The artifact that a text holds. -/
def readArtifact? (text : String) : Option Artifact :=
  (Spelling.read? text).bind artifact?

def writeArtifact (a : Artifact) : String :=
  (artifactToJson a).compact

end Abi

end Playbook
