import Playbook.Error
import Playbook.Reference
import Playbook.Value.Merge

/-!
# The state of a run

Each namespace is absent until it is first used, and an object from then on. A write merges the
value into what the slot holds; a write that fails keeps what it made on its way. The state exports
to one document, and to the part of it that a list of references selects.
-/

namespace Playbook

/-- The state that the instructions of a run share. -/
structure Store where
  inputs : Option Value
  outputs : Option Value
  contracts : Option Value
  deployed : Option Value
  deriving DecidableEq

namespace Store

def empty : Store :=
  ⟨none, none, none, none⟩

def root? (store : Store) : Namespace → Option Value
  | .inputs => store.inputs
  | .outputs => store.outputs
  | .contracts => store.contracts
  | .deployed => store.deployed

def setRoot (store : Store) (space : Namespace) (root : Value) : Store :=
  match space with
  | .inputs => { store with inputs := some root }
  | .outputs => { store with outputs := some root }
  | .contracts => { store with contracts := some root }
  | .deployed => { store with deployed := some root }

/-- The root of a namespace; an absent one counts as an empty object. -/
def root (store : Store) (space : Namespace) : Value :=
  (store.root? space).getD (.object [])

/-- Makes a namespace present. -/
def touch (store : Store) (space : Namespace) : Store :=
  store.setRoot space (store.root space)

@[simp] theorem root?_setRoot_same (store : Store) (space : Namespace) (v : Value) :
    (store.setRoot space v).root? space = some v := by
  cases space <;> rfl

theorem root?_setRoot_of_ne (store : Store) {space other : Namespace} (v : Value)
    (h : other ≠ space) :
    (store.setRoot space v).root? other = store.root? other := by
  cases space <;> cases other <;> first | rfl | exact absurd rfl h

/-! ## Reading and writing -/

/-- The value at a path; the empty path leads to the root itself. -/
def get? (store : Store) (space : Namespace) (path : String) : Option Value :=
  (store.root? space).bind fun root => root.select path

/-- Merges a value into the root of a namespace. -/
def mergeRoot (store : Store) (space : Namespace) (v : Value) : Store :=
  store.setRoot space ((store.root space).merge v)

/-- An operation on the state, which keeps what it did when it fails. -/
abbrev Action (α : Type) : Type :=
  Store → Except Error α × Store

/-- Merges a value into the slot at a path. The root takes objects only. -/
def set (space : Namespace) (path : String) (v : Value) : Action Unit := fun store =>
  let segments := Path.parse path
  if segments = [] ∧ v.isObject = false then
    (.error (.resolution (.wholeNamespace space v.shape)), store)
  else
    match (store.root space).write (·.merge v) segments with
    | (.ok _, root) => (.ok (), store.setRoot space root)
    | (.error fault, root) => (.error (.resolution (.slot path fault)), store.setRoot space root)

/-- Runs an action for each member of a list until one fails. -/
def Action.each {α : Type} (action : α → Action Unit) : List α → Action Unit
  | [] => fun store => (.ok (), store)
  | a :: rest => fun store =>
    match action a store with
    | (.ok (), store) => Action.each action rest store
    | failed => failed

/-! ## Documents -/

def ofInputs (inputs : Fields Value) : Store :=
  { empty with inputs := some (.object inputs) }

/-- Merges the namespaces of a document, one after another, into the state. -/
def addNamespaces (store : Store) : List (String × Value) → Except Error Store
  | [] => .ok store
  | (key, v) :: rest =>
    match Namespace.parse? key with
    | none => .error (.validation (.unknownNamespace key))
    | some space =>
      if v.isObject then (store.mergeRoot space v).addNamespaces rest
      else .error (.validation (.namespaceNotMapping key v.shape))

/-- The state that a document holds, its fields named for namespaces. -/
def ofValue : Value → Except Error Store
  | .object fields => empty.addNamespaces fields
  | v => .error (.validation (.stateNotMapping v.shape))

def toValue (store : Store) : Value :=
  .object (Namespace.all.filterMap fun space =>
    (store.root? space).map fun root => (space.keyword, root))

/-- The namespace and the path of a reference in a selection, where the path may be left out. -/
def selection (reference : String) : Except Error (Namespace × String) :=
  let cs := Text.trimChars reference.toList
  let (keyword, path) := (Text.cut? '.' cs).getD (cs, [])
  match Namespace.parse? (String.ofList keyword) with
  | some space => .ok (space, String.ofList path)
  | none => .error (.validation (.unknownNamespaceIn reference))

/-- Copies what one reference names from a state into a selected one. -/
def selectOne (store : Store) (selected : Store) (reference : String) : Except Error Store := do
  let (space, path) ← selection reference
  match store.get? space path with
  | none => return selected
  | some v =>
    if path = "" then return selected.mergeRoot space v
    match set space path v selected with
    | (.ok (), selected) => return selected
    | (.error e, _) => throw e

/-- Copies what the references name, one after another. -/
def selectAll (store : Store) (selected : Store) : List String → Except Error Store
  | [] => .ok selected
  | reference :: rest =>
    match store.selectOne selected reference with
    | .ok selected => store.selectAll selected rest
    | .error e => .error e

/-- The document of what the references name; places that hold nothing are left out. -/
def select (store : Store) (references : List String) : Except Error Value :=
  (store.selectAll empty references).map toValue

end Store

/-! ## Following references -/

/-- The value itself, or, for a reference, what the state holds at its place. -/
def Value.resolve? (v : Value) (store : Store) : Option Value :=
  match v with
  | .string text =>
    match Reference.parse? text with
    | some reference => store.get? reference.space reference.path
    | none => some (.string text)
  | v => some v

end Playbook
