import Playbook.Instruction.Basic

/-!
# Loops

A loop runs its templates for every item of a list, which is authored in place or found in the state
when the loop is reached. Its expansion is the instructions of all templates for the first item,
then those for the second, and so on; it fails as a whole at the first pair that makes no
instruction.
-/

namespace Playbook

/-- Where the items of a loop come from. -/
inductive LoopSource where
  | items (list : List Value)
  /-- A state reference, as it is spelled. -/
  | reference (text : String)

/-- A checked loop. -/
structure Loop where
  description : Option String
  source : LoopSource
  templates : List Value

namespace Loop

def fieldNames : List String :=
  ["description", "for", "each"]

/-- The description may be left out or null. -/
def descriptionOf (fields : Fields Value) : Except Violation (Option String) :=
  match Fields.get? fields "description" with
  | none | some .null => .ok none
  | some (.string text) => .ok (some text)
  | some v => .error (.descriptionNotString v.shape)

/-- What a source is called that cannot be one. -/
def describe : Value → String
  | .string text => s!"`{text}`"
  | v => v.shape.name

/-- The source is a list or a state reference. -/
def sourceOf (fields : Fields Value) : Except Violation LoopSource :=
  match Fields.get? fields "for" with
  | some (.array items) => .ok (.items items)
  | some (.string text) =>
    if Reference.isReference text then .ok (.reference text)
    else .error (.loopSource (describe (.string text)))
  | some v => .error (.loopSource (describe v))
  | none => .error (.missingField .loop "for")

/-- The templates are one definition or a list of them. -/
def templatesOf (fields : Fields Value) : Except Violation (List Value) :=
  match Fields.get? fields "each" with
  | some (.object template) => .ok [.object template]
  | some (.array templates) => .ok templates
  | some v => .error (.loopEach v.shape)
  | none => .error (.missingField .loop "each")

/-- Checks templates, which are counted from `index`. -/
def checkTemplates (index : Nat) : List Value → Except Violation Unit
  | [] => .ok ()
  | template :: rest =>
    match Instruction.checkTemplate template with
    | .ok () => checkTemplates (index + 1) rest
    | .error fault => .error (.inTemplate index fault)

/-- The loop that the fields of a definition describe, or their first fault. -/
def ofFields (fields : Fields Value) : Except Violation Loop := do
  match (Fields.names fields).find? (fun name => name ∉ fieldNames) with
  | some name => throw (.unknownField .loop name)
  | none => pure ()
  let description ← descriptionOf fields
  let source ← sourceOf fields
  let templates ← templatesOf fields
  checkTemplates 0 templates
  return ⟨description, source, templates⟩

def build : Value → Except Violation Loop
  | .object fields => ofFields fields
  | v => .error (.notMapping .loop v.shape)

/-- The description when there is one, what it runs over otherwise. -/
def summary (l : Loop) : String :=
  match l.description, l.source with
  | some description, _ => description
  | none, .reference text => s!"loop over {text}"
  | none, .items _ => "loop"

/-- The items that the loop runs over as the state stands. -/
def items (l : Loop) (store : Store) : Except Error (List Value) :=
  match l.source with
  | .items list => .ok list
  | .reference text =>
    match (Value.string text).resolve? store with
    | some (.array list) => .ok list
    | some v => .error (.resolution (.loopSourceNotList text v.shape))
    | none => .error (.resolution (.loopSourceUnset text))

def count (l : Loop) (store : Store) : Except Error Nat :=
  (l.items store).map fun list => list.length * l.templates.length

/-- Every item with every template, in the order of the expansion: the place of the item, and the
definition that the template makes of it. -/
def definitions (templates : List Value) (list : List Value) : List (Nat × Value) :=
  list.zipIdx.flatMap fun (item, index) =>
    templates.map fun template => (index, Item.substitute item template)

/-- The instructions of definitions, or the first fault with the place of its item. -/
def buildAll : List (Nat × Value) → Except Violation (List Instruction)
  | [] => .ok []
  | (index, definition) :: rest =>
    match Instruction.build definition with
    | .error fault => .error (.inItem index fault)
    | .ok i => (buildAll rest).map (i :: ·)

/-- The instructions that the loop expands to as the state stands. -/
def expand (l : Loop) (store : Store) : Except Error (List Instruction) := do
  let list ← l.items store
  (buildAll (definitions l.templates list)).mapError .validation

end Loop

end Playbook
