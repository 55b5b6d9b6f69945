import Playbook.Path.Lookup
import Playbook.State.Namespace
import Playbook.Text.Pieces

/-!
# References

A string may refer to a value instead of standing for itself: `$inputs.owner` names a place in the
state, and inside the template of a loop `$item`, `$item.address` and `$item[0]` name the current
item and places inside it. References are followed one hop: what is found is never followed further.
-/

namespace Playbook

/-- A reference to a place in the state: a namespace, and the text of a path in it. -/
structure Reference where
  space : Namespace
  path : String
  deriving DecidableEq

namespace Reference

/-- The reference that a text spells: `$`, the keyword of a namespace, a dot, and a path. -/
def parse? (text : String) : Option Reference :=
  match text.toList with
  | '$' :: rest =>
    (Text.cut? '.' rest).bind fun (keyword, path) =>
      (Namespace.parse? (String.ofList keyword)).map fun space => ⟨space, String.ofList path⟩
  | _ => none

def isReference (text : String) : Bool :=
  (parse? text).isSome

end Reference

namespace Item

/-- The path that an item reference spells; `none` for any other text. -/
def path? (text : String) : Option String :=
  match text.toList with
  | '$' :: 'i' :: 't' :: 'e' :: 'm' :: rest =>
    match rest with
    | [] => some ""
    | '.' :: path => some (String.ofList path)
    | '[' :: _ => some (String.ofList rest)
    | _ => none
  | _ => none

def isReference (v : Value) : Bool :=
  (v.text?.bind path?).isSome

/-- The value that an item reference names in an item; `none` for any other value, and when there is
nothing at the path. -/
def resolve? (v item : Value) : Option Value :=
  (v.text?.bind path?).bind fun path => item.select path

mutual

/-- Puts in the values of the item references in a template. A reference to nothing stays, and what
is put in is not searched for references. -/
def substitute (item : Value) : Value → Value
  | .string text => (resolve? (.string text) item).getD (.string text)
  | .array items => .array (substituteItems item items)
  | .object fields => .object (substituteFields item fields)
  | v => v

def substituteItems (item : Value) : List Value → List Value
  | [] => []
  | v :: rest => substitute item v :: substituteItems item rest

def substituteFields (item : Value) : List (String × Value) → List (String × Value)
  | [] => []
  | (name, v) :: rest => (name, substitute item v) :: substituteFields item rest

end

end Item

end Playbook
