import Playbook.CommandLine.Flag
import Playbook.Text.Numeral
import Playbook.Text.Pieces

/-!
# Command line arguments

What the program is asked to do. Flags and playbooks may be mixed; after two dashes everything is a
playbook. A value follows its flag as the next argument, which then does not begin with a dash, or
in the same argument, after an equals sign or at once after a letter. Arguments are taken from left
to right, and the first one that decides the matter does so.
-/

namespace Playbook

structure Arguments where
  playbooks : List String
  inputs : Option String
  state : Option String
  artifacts : Option String
  delay : Option Nat
  dumpState : Option String
  dumpPaths : List String
  config : Option String
  countOnly : Bool
  deriving DecidableEq

inductive UsageFault where
  | unknown (argument : String)
  | missingValue (flag : Flag)
  | unexpectedValue (flag : Flag)
  | repeated (flag : Flag)
  | emptyValue (flag : Flag)
  | notNumber (flag : Flag) (text : String)
  | emptyPlaybook
  | noPlaybook
  deriving DecidableEq

def UsageFault.message : UsageFault → String
  | .unknown argument => s!"unexpected argument '{argument}' found"
  | .missingValue flag => s!"a value is required for '{flag.usage}' but none was supplied"
  | .unexpectedValue flag => s!"'{flag.usage}' takes no value"
  | .repeated flag => s!"the argument '{flag.usage}' cannot be used multiple times"
  | .emptyValue flag => s!"the value for '{flag.usage}' is empty"
  | .notNumber flag text => s!"invalid value '{text}' for '{flag.usage}': not a number of 64 bits"
  | .emptyPlaybook => "the name of a playbook is empty"
  | .noPlaybook => "no playbook was named"

/-- Why arguments do not ask for a run. -/
inductive Arguments.Stop where
  | help
  | version
  | fault (f : UsageFault)
  deriving DecidableEq

namespace Arguments

/-- Nothing asked for yet. -/
def initial : Arguments :=
  ⟨[], none, none, none, none, none, [], none, false⟩

/-- A value that is given once and is not empty. -/
def once (f : Flag) (old : Option String) (text : String) : Except Stop (Option String) :=
  if old.isSome then .error (.fault (.repeated f))
  else if text = "" then .error (.fault (.emptyValue f))
  else .ok (some text)

/-- The arguments with the value of a flag. -/
def withValue (a : Arguments) (f : Flag) (text : String) : Except Stop Arguments := do
  match f with
  | .inputs => return { a with inputs := ← once f a.inputs text }
  | .state => return { a with state := ← once f a.state text }
  | .artifacts => return { a with artifacts := ← once f a.artifacts text }
  | .dumpState => return { a with dumpState := ← once f a.dumpState text }
  | .config => return { a with config := ← once f a.config text }
  | .dumpPath => return { a with dumpPaths := a.dumpPaths ++ [text] }
  | .delay =>
    if a.delay.isSome then throw (.fault (.repeated f))
    match Text.word? text.toList with
    | some n => return { a with delay := some n }
    | none => throw (.fault (.notNumber f text))
  | .countOnly | .help | .version => throw (.fault (.unexpectedValue f))

/-- The arguments with a flag that takes no value. -/
def withSwitch (a : Arguments) : Flag → Except Stop Arguments
  | .help => .error .help
  | .version => .error .version
  | f =>
    if f.takesValue then .error (.fault (.missingValue f))
    else if a.countOnly then .error (.fault (.repeated f))
    else .ok { a with countOnly := true }

/-- The arguments with one more playbook. -/
def withPlaybook (a : Arguments) (name : String) : Except Stop Arguments :=
  if name = "" then .error (.fault .emptyPlaybook)
  else .ok { a with playbooks := a.playbooks ++ [name] }

/-! ## Reading from left to right -/

/-- What is known while arguments are read. -/
structure Reader where
  arguments : Arguments
  /-- The flag whose value has to come next. -/
  pending : Option Flag
  /-- Two dashes have been passed. -/
  playbooksOnly : Bool

namespace Reader

/-- Fails if a value should have come. -/
def settled (r : Reader) : Except Stop Unit :=
  match r.pending with
  | some f => .error (.fault (.missingValue f))
  | none => .ok ()

/-- Reads a flag, with the value that is attached to it. -/
def flag (r : Reader) (f : Flag) (attached : Option String) : Except Stop Reader := do
  r.settled
  match f.takesValue, attached with
  | true, some text => return { r with arguments := ← r.arguments.withValue f text }
  | true, none => return { r with pending := some f }
  | false, some _ => throw (.fault (.unexpectedValue f))
  | false, none => return { r with arguments := ← r.arguments.withSwitch f }

/-- Reads what follows two dashes. -/
def long (r : Reader) (cs : List Char) : Except Stop Reader :=
  let (word, attached) := match Text.cut? '=' cs with
    | some (word, text) => (word, some (String.ofList text))
    | none => (cs, none)
  match Flag.ofLong? (String.ofList word) with
  | some f => r.flag f attached
  | none => .error (.fault (.unknown (String.ofList ('-' :: '-' :: cs))))

/-- The value that the rest of an argument holds after a letter; an equals sign before it is no part
of it. -/
def attachedTo : List Char → Option String
  | [] => none
  | '=' :: text => some (String.ofList text)
  | text => some (String.ofList text)

/-- Reads what follows one dash: letters, of which one that takes a value takes all the rest. -/
def letters (r : Reader) : List Char → Except Stop Reader
  | [] => .ok r
  | c :: rest =>
    match Flag.ofShort? c with
    | none => .error (.fault (.unknown (String.ofList ['-', c])))
    | some f =>
      if f.takesValue then r.flag f (attachedTo rest)
      else (r.flag f none).bind fun r => r.letters rest

/-- Reads a value that was waited for, or a playbook. -/
def plain (r : Reader) (text : String) : Except Stop Reader := do
  match r.pending with
  | some f => return { r with arguments := ← r.arguments.withValue f text, pending := none }
  | none => return { r with arguments := ← r.arguments.withPlaybook text }

def step (r : Reader) (text : String) : Except Stop Reader := do
  if r.playbooksOnly then
    r.settled
    return { r with arguments := ← r.arguments.withPlaybook text }
  match text.toList with
  | ['-', '-'] => return { r with playbooksOnly := true }
  | '-' :: '-' :: cs => r.long cs
  | '-' :: c :: cs => r.letters (c :: cs)
  | _ => r.plain text

end Reader

/-- What arguments ask for. The configuration file may be named by the environment instead. -/
def parse (configSetting : Option String) (texts : List String) : Except Stop Arguments := do
  let r ← texts.foldlM Reader.step ⟨initial, none, false⟩
  r.settled
  let a := r.arguments
  let a ← match a.config, configSetting with
    | none, some name => a.withValue .config name
    | _, _ => pure a
  if a.playbooks = [] then throw (.fault .noPlaybook)
  return a

end Arguments

end Playbook
