/-!
# Command line flags

The flags of the program: how each is spelled, whether it takes a value, and what the help says.
-/

namespace Playbook

inductive Flag where
  | inputs | state | artifacts | delay | dumpState | dumpPath | config | countOnly | help | version
  deriving DecidableEq

namespace Flag

def all : List Flag :=
  [.inputs, .state, .artifacts, .delay, .dumpState, .dumpPath, .config, .countOnly, .help, .version]

def long : Flag → String
  | .inputs => "inputs"
  | .state => "state"
  | .artifacts => "artifacts"
  | .delay => "delay-ms"
  | .dumpState => "dump-state"
  | .dumpPath => "dump-path"
  | .config => "config"
  | .countOnly => "count-only"
  | .help => "help"
  | .version => "version"

def short? : Flag → Option Char
  | .inputs => some 'i'
  | .help => some 'h'
  | .version => some 'V'
  | _ => none

/-- The name of the value that a flag takes; `none` when it takes none. -/
def value? : Flag → Option String
  | .inputs => some "INPUTS"
  | .state => some "STATE"
  | .artifacts => some "ARTIFACTS"
  | .delay => some "DELAY_MS"
  | .dumpState => some "DUMP_STATE"
  | .dumpPath => some "DUMP_PATHS"
  | .config => some "CONFIG"
  | .countOnly | .help | .version => none

def takesValue (f : Flag) : Bool :=
  f.value?.isSome

def purpose : Flag → String
  | .inputs => "YAML or JSON mapping loaded into `$inputs`"
  | .state => "State dump from an earlier run to resume from"
  | .artifacts => "Directory of compiled contract artifacts"
  | .delay => "Pause between instructions, in milliseconds"
  | .dumpState =>
    "Write selected state here after the run (YAML for .yml/.yaml, JSON otherwise)"
  | .dumpPath => "State reference to include in the dump; repeatable"
  | .config => "Configuration file"
  | .countOnly => "Print the number of instructions the playbooks would run and exit"
  | .help => "Print help"
  | .version => "Print version"

def ofLong? (word : String) : Option Flag :=
  all.find? fun f => f.long == word

def ofShort? (letter : Char) : Option Flag :=
  all.find? fun f => f.short? == some letter

/-- A flag with its dashes and the name of its value. -/
def usage (f : Flag) : String :=
  let value := match f.value? with
    | some name => " <" ++ name ++ ">"
    | none => ""
  "--" ++ f.long ++ value

theorem ofLong?_long (f : Flag) : ofLong? f.long = some f := by
  cases f <;> decide

end Flag

end Playbook
