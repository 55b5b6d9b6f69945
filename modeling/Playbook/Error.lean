import Playbook.Output.Spec
import Playbook.Path.Slot
import Playbook.State.Namespace

/-!
# Errors

What can go wrong, as causes. A violation is a fault of the playbook as it is authored; something
unresolved is a place, a locator or a method that is not there when it is needed. Every cause has
one message. A failure inside a step is tagged with the summary of the step, once.
-/

namespace Playbook

/-! ## Violations -/

/-- The two kinds of authored definitions. -/
inductive Definition where
  | instruction | loop
  deriving DecidableEq

def Definition.noun : Definition → String
  | .instruction => "instruction"
  | .loop => "loop"

/-- A fault in what is authored. -/
inductive Violation where
  /-- A fault told in words. -/
  | stated (text : String)
  | stateNotMapping (found : Shape)
  | unknownNamespace (key : String)
  | namespaceNotMapping (key : String) (found : Shape)
  | unknownNamespaceIn (reference : String)
  | foreignDestination (target : String)
  | malformedOutputs (fault : OutputSpec.Malformed)
  | notMapping (kind : Definition) (found : Shape)
  | unknownField (kind : Definition) (name : String)
  | missingField (kind : Definition) (name : String)
  | emptyField (name : String)
  | fieldNotString (name : String) (found : Shape)
  | includeOutsideFile
  | includeNotPath
  | badLocator (contract run locator : String)
  | missingLocator (contract run : String)
  | inputsNotList (contract run : String) (found : Shape)
  | instructionOutputs (contract run : String) (fault : OutputSpec.Malformed)
  | descriptionNotString (found : Shape)
  | loopSource (found : String)
  | loopEach (found : Shape)
  | inTemplate (index : Nat) (fault : Violation)
  | inItem (index : Nat) (fault : Violation)
  | atLocation (location : String) (fault : Violation)
  deriving DecidableEq

def Violation.message : Violation → String
  | .stated text => text
  | .stateNotMapping found =>
    s!"state document must be a mapping of namespaces, found {found.name}"
  | .unknownNamespace key => s!"unknown state namespace `{key}`"
  | .namespaceNotMapping key found =>
    s!"state namespace `{key}` must be a mapping, found {found.name}"
  | .unknownNamespaceIn reference => s!"unknown state namespace in `{reference}`"
  | .foreignDestination target =>
    s!"output destination `{target}` does not name a state namespace"
  | .malformedOutputs fault => fault.message
  | .notMapping kind found => s!"{kind.noun} must be a mapping, found {found.name}"
  | .unknownField kind name => s!"unknown {kind.noun} field `{name}`"
  | .missingField kind name => s!"{kind.noun} is missing required field `{name}`"
  | .emptyField name => s!"instruction field `{name}` must not be empty"
  | .fieldNotString name found =>
    s!"instruction field `{name}` must be a string, found {found.name}"
  | .includeOutsideFile =>
    "playbook includes are only supported when loading playbooks from files"
  | .includeNotPath => "`playbook` include must name a file path"
  | .badLocator contract run locator =>
    s!"`at` for {contract}.{run} must be a 0x-prefixed 40 digit hex address or a state " ++
      s!"reference, found `{locator}`"
  | .missingLocator contract run => s!"instance method {contract}.{run} needs an `at` locator"
  | .inputsNotList contract run found =>
    s!"`inputs` for {contract}.{run} must be a list, found {found.name}"
  | .instructionOutputs contract run fault => s!"{contract}.{run}: {fault.message}"
  | .descriptionNotString found => s!"loop description must be a string, found {found.name}"
  | .loopSource found => s!"loop `for` must be a list or a state reference, found {found}"
  | .loopEach found =>
    s!"loop `each` must be an instruction or a list of instructions, found {found.name}"
  | .inTemplate index fault => s!"loop template {index}: {fault.message}"
  | .inItem index fault => s!"loop item {index}: {fault.message}"
  | .atLocation location fault => s!"{location}: {fault.message}"

/-! ## What is not there -/

/-- A place, a locator or a method that is not there when it is needed. -/
inductive Unresolved where
  /-- A fault told in words. -/
  | stated (text : String)
  | slot (path : String) (fault : SlotError)
  | wholeNamespace (space : Namespace) (found : Shape)
  | locator (text summary : String)
  | loopSourceUnset (source : String)
  | loopSourceNotList (source : String) (found : Shape)
  | noMethod (contract run : String)
  deriving DecidableEq

def Unresolved.message : Unresolved → String
  | .stated text => text
  | .slot path fault => fault.message path
  | .wholeNamespace space found =>
    s!"cannot replace namespace {space.display} with a {found.name}"
  | .locator text summary => s!"locator `{text}` for {summary} did not resolve to an address"
  | .loopSourceUnset source => s!"loop source {source} is not set"
  | .loopSourceNotList source found => s!"loop source {source} is a {found.name}, not a list"
  | .noMethod contract run => s!"contract {contract} has no method `{run}`"

/-! ## Files -/

/-- What the file system answers when a file cannot be used. -/
inductive FileFault where
  | missing | isDirectory | notDirectory | nameTooLong | nameWithNull
  /-- Any other answer, in its own words. -/
  | other (text : String)
  deriving DecidableEq

/-- The message of a file fault, with its number if it has one. -/
def FileFault.message : FileFault → String
  | .missing => "No such file or directory (os error 2)"
  | .isDirectory => "Is a directory (os error 21)"
  | .notDirectory => "Not a directory (os error 20)"
  | .nameTooLong => "File name too long (os error 36)"
  | .nameWithNull => "file name contained an unexpected NUL byte"
  | .other text => text

def maxIncludeDepth : Nat := 16

/-- Why a document cannot be loaded. -/
inductive DocumentFault where
  /-- A fault told in words. -/
  | stated (text : String)
  | file (fault : FileFault)
  /-- The text is no document of its format. -/
  | malformed
  | inputsNotMapping (found : Shape)
  | includesTooDeep
  deriving DecidableEq

def DocumentFault.message : DocumentFault → String
  | .stated text => text
  | .file fault => fault.message
  | .malformed => "the text is not a single well-formed document"
  | .inputsNotMapping found => s!"inputs must be a mapping, found {found.name}"
  | .includesTooDeep => s!"playbook includes nest deeper than {maxIncludeDepth} levels"

/-! ## Errors -/

inductive Error where
  | validation (fault : Violation)
  | resolution (fault : Unresolved)
  /-- A keyed object provides no declared parameter under any of the names tried. -/
  | missingArgument (method parameter : String) (attempted : List String)
  | artifact (contract source : String)
  | unsupportedType (declared : String)
  | coercion (declared message : String)
  | invocation (contract method source : String)
  | document (path : String) (fault : DocumentFault)
  /-- A failure inside the step of a summary. -/
  | step (summary : String) (cause : Error)
  deriving DecidableEq

/-- The broad kinds of errors. -/
inductive ErrorKind where
  | validation | resolution | coercion | invocation | document
  deriving DecidableEq

namespace Error

def message : Error → String
  | .validation fault => s!"invalid playbook: {fault.message}"
  | .resolution fault => fault.message
  | .missingArgument method parameter attempted =>
    s!"missing argument `{parameter}` for `{method}` (tried " ++ String.intercalate ", " attempted
      ++ ")"
  | .artifact contract source => s!"no artifact for contract `{contract}`: {source}"
  | .unsupportedType declared => s!"unknown/unsupported type: {declared}"
  | .coercion declared message => s!"cannot coerce value to `{declared}`: {message}"
  | .invocation contract method source => s!"{contract}.{method} failed: {source}"
  | .document path fault => s!"failed to load {path}: {fault.message}"
  | .step summary cause => s!"step `{summary}` failed: {cause.message}"

/-- The kind of an error; a step has the kind of its cause. -/
def kind : Error → ErrorKind
  | .validation _ => .validation
  | .resolution _ | .missingArgument .. | .artifact .. => .resolution
  | .unsupportedType _ | .coercion .. => .coercion
  | .invocation .. => .invocation
  | .document .. => .document
  | .step _ cause => cause.kind

/-- Tags an error with the summary of its step, unless it is tagged already. -/
def withinStep (summary : String) : Error → Error
  | .step inner cause => .step inner cause
  | e => .step summary e

def stepSummary? : Error → Option String
  | .step summary _ => some summary
  | _ => none

def root : Error → Error
  | .step _ cause => cause.root
  | e => e

/-- The messages of the causes below an error, outermost first. -/
def causes : Error → List String
  | .step _ cause => cause.message :: cause.causes
  | .artifact _ source | .invocation _ _ source => [source]
  | _ => []

@[simp] theorem withinStep_withinStep (inner outer : String) (e : Error) :
    (e.withinStep inner).withinStep outer = e.withinStep inner := by
  cases e <;> rfl

@[simp] theorem root_withinStep (summary : String) (e : Error) :
    (e.withinStep summary).root = e.root := by
  cases e <;> rfl

@[simp] theorem kind_withinStep (summary : String) (e : Error) :
    (e.withinStep summary).kind = e.kind := by
  cases e <;> rfl

end Error

end Playbook
