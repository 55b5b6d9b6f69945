import Playbook.Yaml.Value

/-!
# Records in YAML documents

A document that is read as a record: a mapping of known names, where a name may be left out but not
repeated. Where nothing stands there is a record without entries.
-/

namespace Playbook.Yaml

abbrev Record : Type :=
  List (String × Node)

/-- Whether a node is a place where nothing stands. -/
def Node.isVacant : Node → Bool
  | .scalar _ _ .plain text => text.isEmpty
  | _ => false

/-- The node as a record. -/
def Node.record (anchors : Anchors) (node : Node) : Following Record := do
  match ← node.target anchors with
  | .mapping _ _ entries => entries.mapM fun (key, v) => do return (← key.keyText anchors, v)
  | other => if other.isVacant then return [] else failure

/-- The entry under a name, which may not be repeated. -/
def Record.entry (record : Record) (name : String) : Following (Option Node) :=
  match record.filter fun entry => entry.1 == name with
  | [] => return none
  | [(_, node)] => return some node
  | _ => failure

/-- The entry under a name as `read` takes it, or what stands for it when it is left out. -/
def Record.get {α : Type} (record : Record) (name : String) (absent : α)
    (read : Node → Following α) : Following α := do
  match ← record.entry name with
  | some node => read node
  | none => return absent

/-- The text of a scalar node, whatever its tag. -/
def Node.text (anchors : Anchors) (node : Node) : Following String :=
  node.keyText anchors

/-- The items of a sequence node; none where nothing stands. -/
def Node.items (anchors : Anchors) (node : Node) : Following (List Node) := do
  match ← node.target anchors with
  | .sequence _ _ items => return items
  | other => if other.isVacant then return [] else failure

/-- Reads the record that a text holds. -/
def readRecord? {α : Type} (text : String) (read : Anchors → Record → Following α) : Option α := do
  let root := (← Node.ofText? text).getD .empty
  let reading : Following α := do read root.anchors (← root.record root.anchors)
  return (← reading.run (root.size * maxRepetition)).1

end Playbook.Yaml
