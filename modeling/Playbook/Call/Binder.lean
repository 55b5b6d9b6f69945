import Playbook.Abi.Basic
import Playbook.Convert.Coercer

/-!
# Binding arguments

Inputs may be given by place, by name in a keyed object, or mixed. A keyed object is replaced by its
values in the order of the declared parameters, each converted to its declared type. A last object
that holds transaction options only is passed through, once the parameters are covered.
-/

namespace Playbook

namespace Binder

def optionKeys : List String :=
  ["to", "from", "gas", "gasPrice", "nonce", "value", "data"]

/-- Whether the input at `index` is the trailing transaction options: it is the last one, the
arguments produced so far and the inputs before it cover the parameters, and it is an object with no
other keys. -/
def isCallOptions (input : Value) (index inputCount produced parameterCount : Nat) : Bool :=
  if index + 1 ≠ inputCount ∨ produced + index < parameterCount then false
  else
    match input with
    | .object fields => (Fields.names fields).all fun name => name ∈ optionKeys
    | _ => false

/-- The names under which a parameter is looked for: its own, and its own without leading
underscores when that is another one. -/
def candidates (name : String) : List String :=
  let stripped := String.ofList (name.toList.dropWhile (· == '_'))
  if stripped ≠ "" ∧ stripped ≠ name then [name, stripped] else [name]

/-- The first field among names. -/
def firstOf? (fields : Fields Value) (names : List String) : Option Value :=
  names.findSome? (Fields.get? fields)

/-- The converted value of a parameter in a keyed object. -/
def bindParameter (coercer : Coercer) (signature : Signature) (fields : Fields Value)
    (parameter : Parameter) : Except Error Value :=
  match firstOf? fields (candidates parameter.name) with
  | some v => coercer.coerce parameter.type v
  | none =>
    .error (.missingArgument signature.display parameter.name (candidates parameter.name))

/-- The converted values of parameters in their order, or the first failure. -/
def bindParameters (coercer : Coercer) (signature : Signature) (fields : Fields Value) :
    List Parameter → Except Error (List Value)
  | [] => .ok []
  | parameter :: rest =>
    (bindParameter coercer signature fields parameter).bind fun v =>
      (bindParameters coercer signature fields rest).map (v :: ·)

/-- The arguments that one input contributes. -/
def piece (coercer : Coercer) (signature : Option Signature) (isOptions : Bool) (input : Value) :
    Except Error (List Value) :=
  match input, signature with
  | .object fields, some signature =>
    if isOptions then .ok [input]
    else bindParameters coercer signature fields signature.inputs
  | _, _ => .ok [input]

/-- The arguments of the inputs from `index` on, when `produced` arguments stand before them. -/
def sortFrom (coercer : Coercer) (signature : Option Signature) (parameterCount inputCount : Nat)
    (index produced : Nat) : List Value → Except Error (List Value)
  | [] => .ok []
  | input :: rest =>
    let isOptions := isCallOptions input index inputCount produced parameterCount
    (piece coercer signature isOptions input).bind fun arguments =>
      (sortFrom coercer signature parameterCount inputCount (index + 1)
        (produced + arguments.length) rest).map (arguments ++ ·)

/-- The arguments of a call in the order of the declared parameters. -/
def sort (coercer : Coercer) (signature : Option Signature) (inputs : List Value) :
    Except Error (List Value) :=
  let parameterCount := match signature with
    | some signature => signature.inputs.length
    | none => 0
  sortFrom coercer signature parameterCount inputs.length 0 0 inputs

end Binder

end Playbook
