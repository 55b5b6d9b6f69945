/-!
# Contract artifacts

What a compiled contract declares: its name, and the entries of its interface with their parameters.
-/

namespace Playbook

/-- A declared input or output. -/
structure Parameter where
  /-- The declared name, empty for an unnamed one. -/
  name : String
  /-- The declared type, as it is spelled. -/
  type : String
  deriving DecidableEq

inductive EntryKind where
  | function | constructor | event | fallback | receive | error
  deriving DecidableEq

def EntryKind.name : EntryKind → String
  | .function => "function"
  | .constructor => "constructor"
  | .event => "event"
  | .fallback => "fallback"
  | .receive => "receive"
  | .error => "error"

def EntryKind.all : List EntryKind :=
  [.function, .constructor, .event, .fallback, .receive, .error]

def EntryKind.ofName? (name : String) : Option EntryKind :=
  all.find? (·.name == name)

/-- An interface entry. -/
structure Signature where
  kind : EntryKind
  name : Option String
  inputs : List Parameter
  outputs : List Parameter
  deriving DecidableEq

namespace Signature

def ofConstructor (inputs : List Parameter) : Signature :=
  ⟨.constructor, none, inputs, []⟩

/-- The name of an entry in messages. -/
def display (s : Signature) : String :=
  match s.kind, s.name with
  | .constructor, _ => "constructor"
  | _, some name => name
  | _, none => "<anonymous>"

end Signature

/-- A compiled contract. -/
structure Artifact where
  contract : String
  entries : List Signature
  deriving DecidableEq

namespace Artifact

/-- The first function of a name. -/
def method? (a : Artifact) (name : String) : Option Signature :=
  a.entries.find? fun s => s.kind == .function && s.name == some name

/-- The first constructor. -/
def constructor? (a : Artifact) : Option Signature :=
  a.entries.find? fun s => s.kind == .constructor

/-- What the arguments of a method are bound to: the constructor for `new`, an empty one if none is
declared; nothing for `link`, `at` and unknown methods. -/
def signature? (a : Artifact) (run : String) : Option Signature :=
  if run = "new" then some (a.constructor?.getD (.ofConstructor []))
  else if run = "link" ∨ run = "at" then none
  else a.method? run

end Artifact

end Playbook
