import Playbook.Output.Write

/-!
# Instructions

An instruction names a contract, the method to run on it, the inputs of the call and where its
result goes. Three methods work on the contract itself; every other one is called on a deployed
instance and needs a locator, which is an address or a reference to one. An authored definition is
checked field by field, and the first fault is reported. The template of a loop is checked in the
same way, but a field that is an item reference is left for later.
-/

namespace Playbook

/-- What a call is made on: the contract itself, or a deployed instance of it. -/
inductive CallKind where
  | static | onInstance
  deriving DecidableEq

/-- The methods that work on the contract itself. -/
def staticMethods : List String :=
  ["at", "link", "new"]

def CallKind.ofMethod (run : String) : CallKind :=
  if run ∈ staticMethods then .static else .onInstance

/-- A literal address: forty hexadecimal digits after `0x`. -/
def isAddress (text : String) : Bool :=
  match text.toList with
  | '0' :: 'x' :: digits => digits.length == 40 && digits.all fun c => (Text.digit? 16 c).isSome
  | _ => false

/-- A checked contract call. -/
structure Instruction where
  description : Option String
  contract : String
  /-- The locator of the instance, as it was authored. -/
  locator : Option String
  run : String
  inputs : List Value
  outputs : OutputSpec
  kind : CallKind

namespace Instruction

def fieldNames : List String :=
  ["description", "contract", "at", "run", "inputs", "outputs"]

/-- When a definition is checked: ready to run, or as the template of a loop, in which an item
reference stands for a value that is not known yet. -/
inductive Stage where
  | concrete | template
  deriving DecidableEq

/-- Whether a field is left for later. -/
def Stage.defers (stage : Stage) (v : Value) : Bool :=
  stage == .template && Item.isReference v

/-! ## Fields -/

/-- The text of a field that must be there and must not be blank. -/
def requiredText (fields : Fields Value) (name : String) : Except Violation String :=
  match Fields.get? fields name with
  | some (.string text) => if Text.isBlankText text then .error (.emptyField name) else .ok text
  | some v => .error (.fieldNotString name v.shape)
  | none => .error (.missingField .instruction name)

/-- The text of a field that may be left out or null. -/
def optionalText (fields : Fields Value) (name : String) : Except Violation (Option String) :=
  match Fields.get? fields name with
  | none | some .null => .ok none
  | some _ => (requiredText fields name).map some

/-- No field other than those of an instruction, and no include. -/
def checkNames (fields : Fields Value) : Except Violation Unit :=
  if Fields.has fields "playbook" then .error .includeOutsideFile
  else
    match (Fields.names fields).find? (fun name => name ∉ fieldNames) with
    | some name => .error (.unknownField .instruction name)
    | none => .ok ()

/-- A locator is an address or a state reference. -/
def checkLocator (stage : Stage) (contract run : String) : Option String → Except Violation Unit
  | none => .ok ()
  | some locator =>
    if isAddress locator || Reference.isReference locator || stage.defers (.string locator) then
      .ok ()
    else .error (.badLocator contract run locator)

/-- The inputs are a list, or left out. -/
def inputsOf (stage : Stage) (contract run : String) (fields : Fields Value) :
    Except Violation (List Value) :=
  match Fields.get? fields "inputs" with
  | none | some .null => .ok []
  | some (.array items) => .ok items
  | some v => if stage.defers v then .ok [] else .error (.inputsNotList contract run v.shape)

/-- Every destination names a namespace, or none and so the outputs. -/
def checkDestinations (stage : Stage) : List String → Except Violation Unit
  | [] => .ok ()
  | target :: rest =>
    if stage.defers (.string target) then checkDestinations stage rest
    else (destination target).bind fun _ => checkDestinations stage rest

/-- The outputs are a specification with known destinations, or left out. -/
def outputsOf (stage : Stage) (contract run : String) (fields : Fields Value) :
    Except Violation OutputSpec :=
  match Fields.get? fields "outputs" with
  | none | some .null => .ok .empty
  | some v =>
    if stage.defers v then .ok .empty
    else
      match OutputSpec.ofValue v with
      | .error fault => .error (.instructionOutputs contract run fault)
      | .ok spec => (checkDestinations stage spec.destinations).map fun _ => spec

/-- A call on an instance has a locator. -/
def checkInstance (stage : Stage) (contract run : String) (locator : Option String) :
    Except Violation Unit :=
  if CallKind.ofMethod run = .onInstance ∧ locator = none ∧ stage.defers (.string run) = false then
    .error (.missingLocator contract run)
  else .ok ()

/-! ## Whole definitions -/

/-- The instruction that the fields of a definition describe, or their first fault. -/
def ofFields (stage : Stage) (fields : Fields Value) : Except Violation Instruction := do
  checkNames fields
  let description ← optionalText fields "description"
  let contract ← requiredText fields "contract"
  let run ← requiredText fields "run"
  let locator ← optionalText fields "at"
  checkLocator stage contract run locator
  let inputs ← inputsOf stage contract run fields
  let outputs ← outputsOf stage contract run fields
  checkInstance stage contract run locator
  return ⟨description, contract, locator, run, inputs, outputs, .ofMethod run⟩

/-- The instruction that a definition describes at a stage. -/
def buildAt (stage : Stage) : Value → Except Violation Instruction
  | .object fields => ofFields stage fields
  | v => .error (.notMapping .instruction v.shape)

def build (definition : Value) : Except Violation Instruction :=
  buildAt .concrete definition

/-- Checks the template of a loop. -/
def checkTemplate (definition : Value) : Except Violation Unit :=
  (buildAt .template definition).map fun _ => ()

/-- The description when there is one, the contract and the method otherwise. -/
def summary (i : Instruction) : String :=
  match i.description with
  | some description => description
  | none => i.contract ++ "." ++ i.run

/-! ## Against the state -/

/-- The fields of a keyed input with their references followed; a reference to nothing drops its
field. -/
def resolvedFields (store : Store) (fields : Fields Value) : Fields Value :=
  fields.filterMap fun (name, v) => (v.resolve? store).map fun found => (name, found)

/-- An input with its references followed one hop. A reference to nothing is null. -/
def resolvedInput (store : Store) : Value → Value
  | .object fields => .object (resolvedFields store fields)
  | v => (v.resolve? store).getD .null

/-- The inputs with their references followed. -/
def resolvedInputs (i : Instruction) (store : Store) : List Value :=
  i.inputs.map (resolvedInput store)

/-- The address that a value found by a locator stands for: a string is one, a record has one in its
`address` field, and a bound handle has one. -/
def addressOf? : Value → Option String
  | .string address => some address
  | .object record => (Fields.get? record "address").bind Value.text?
  | .handle h => h.address
  | _ => none

/-- The address that the locator leads to; without a locator there is none. -/
def address (i : Instruction) (store : Store) : Except Error (Option String) :=
  match i.locator with
  | none => .ok none
  | some locator =>
    if isAddress locator then .ok (some locator)
    else
      match ((Value.string locator).resolve? store).bind addressOf? with
      | some found => .ok (some found)
      | none => .error (.resolution (.locator locator i.summary))

end Instruction

end Playbook
