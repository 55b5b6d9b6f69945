import Playbook.Value.Basic
import Playbook.Yaml.Node
import Playbook.Yaml.Scalar

/-!
# Values of YAML documents

The value that a document denotes. Aliases stand for the nodes of their anchors, which may repeat
but neither without bound nor deeper than 128 containers. Keys are the texts of scalars; a repeated
key keeps its first place and its last value. What has a tag of the document's own and numbers that
are not finite have no value.
-/

namespace Playbook.Yaml

/-! ## Anchors -/

mutual

def Node.anchored : Node → List (Nat × Node)
  | .scalar (some number) tag form text => [(number, .scalar (some number) tag form text)]
  | .sequence number tag items =>
    (number.map fun n => (n, .sequence number tag items)).toList ++ anchoredItems items
  | .mapping number tag entries =>
    (number.map fun n => (n, .mapping number tag entries)).toList ++ anchoredEntries entries
  | _ => []

def Node.anchoredItems : List Node → List (Nat × Node)
  | [] => []
  | item :: rest => item.anchored ++ anchoredItems rest

def Node.anchoredEntries : List (Node × Node) → List (Nat × Node)
  | [] => []
  | (key, value) :: rest => key.anchored ++ value.anchored ++ anchoredEntries rest

end

mutual

/-- How many beginnings, ends and single parts a node has. -/
def Node.size : Node → Nat
  | .sequence _ _ items => sizeItems items + 2
  | .mapping _ _ entries => sizeEntries entries + 2
  | _ => 1

def Node.sizeItems : List Node → Nat
  | [] => 0
  | item :: rest => item.size + sizeItems rest

def Node.sizeEntries : List (Node × Node) → Nat
  | [] => 0
  | (key, value) :: rest => key.size + value.size + sizeEntries rest

end

/-- The nodes that aliases stand for, last of the text first, so that a number that was taken twice
stands for the later node. -/
abbrev Anchors : Type :=
  List (Nat × Node)

def Node.anchors (root : Node) : Anchors :=
  root.anchored.reverse

def Anchors.find? (anchors : Anchors) (number : Nat) : Option Node :=
  (List.find? (fun entry : Nat × Node => entry.1 == number) anchors).map Prod.snd

/-! ## Values -/

def maxDepth : Nat := 128

/-- A computation that may fail and follows a limited count of aliases. -/
abbrev Following (α : Type) : Type :=
  StateT Nat Option α

def follow (anchors : Anchors) (number : Nat) : Following Node := do
  match ← get with
  | 0 => failure
  | left + 1 =>
    set left
    match anchors.find? number with
    | some node => return node
    | none => failure

/-- A node itself, or the one that an alias stands for. -/
def Node.target (anchors : Anchors) : Node → Following Node
  | .alias number => follow anchors number
  | node => return node

def Scalar.value? : Scalar → Option Value
  | .null => some .null
  | .bool flag => some (.bool flag)
  | .int width n => some (.ofWidth width n)
  | .float x => some (.number (.float x))
  | .notFinite => none
  | .string text => some (.string text)

/-- The text of a key: that of a scalar, whatever its tag. -/
def Node.keyText (anchors : Anchors) (node : Node) : Following String := do
  match ← node.target anchors with
  | .scalar _ _ _ text => return text
  | _ => failure

/-- The value of a node inside which `depth` containers may nest. -/
def Node.value (anchors : Anchors) : (depth : Nat) → Node → Following Value
  | depth, node => do
    match ← node.target anchors, depth with
    | .scalar _ tag form text, _ =>
      match (Scalar.denote? tag form text).bind Scalar.value? with
      | some v => return v
      | none => failure
    | .sequence _ tag items, depth + 1 =>
      if tag = some .own then failure
      return .array (← items.mapM (Node.value anchors depth))
    | .mapping _ tag entries, depth + 1 =>
      if tag = some .own then failure
      let fields ← entries.mapM fun (key, v) => do
        return (← key.keyText anchors, ← Node.value anchors depth v)
      return .object (Fields.ofEntries fields)
    | _, _ => failure

/-- How many times the parts of a document may be repeated by aliases. -/
def maxRepetition : Nat := 100

/-- The value that a text denotes; an empty one denotes null. -/
def value? (text : String) : Option Value :=
  (Node.ofText? text).bind fun
    | none => some .null
    | some root =>
      ((root.value root.anchors maxDepth).run (root.size * maxRepetition)).map (·.1)

end Playbook.Yaml
