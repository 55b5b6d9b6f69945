import Playbook.Document
import Playbook.Files.Disk
import Playbook.Files.Name

/-!
# Documents in files

Values, states, inputs and playbooks that are read from files. A playbook includes the playbooks of
other files: an entry that is a mapping of the one key `playbook` stands for the document of the
file it names, which is looked for in the directory of the file with the entry. Includes nest up to
a limit, so that loading ends even where files include one another.
-/

namespace Playbook

/-- Loading from a disk whose answers are given in `m`. -/
abbrev Loading (m : Type → Type) (α : Type) : Type :=
  ExceptT Error m α

namespace Document

variable {m : Type → Type} [Monad m]

def load (disk : Disk m) (name : String) : Loading m Value := do
  match ← disk.read name with
  | .ok text => parse name text
  | .error fault => throw (.document name (.file fault))

def loadStore (disk : Disk m) (name : String) : Loading m Store := do
  Store.ofValue (← load disk name)

/-- The inputs that a file holds: a mapping, or nothing at all. -/
def loadInputs (disk : Disk m) (name : String) : Loading m (Fields Value) := do
  match ← load disk name with
  | .object inputs => return inputs
  | .null => return []
  | other => throw (.document name (.inputsNotMapping other.shape))

/-! ## Includes -/

def includeKey : String :=
  "playbook"

/-- What an entry includes, if it is an include. -/
def included? : Value → Option Value
  | .object [(key, target)] => if key = includeKey then some target else none
  | _ => none

mutual

/-- A document with its includes replaced, where `expandFile` gives the document of an included file
and names are relative to a directory. Includes stand where entries do: they are the document itself
or members of its nested lists. -/
def expand (expandFile : String → Loading m Value) (directory : String) : Value → Loading m Value
  | .array entries => .array <$> expandEntries expandFile directory entries
  | entry =>
    match included? entry with
    | some (.string name) => expandFile (FileName.join directory name)
    | some _ => throw (.validation .includeNotPath)
    | none => return entry

def expandEntries (expandFile : String → Loading m Value) (directory : String) :
    List Value → Loading m (List Value)
  | [] => return []
  | entry :: rest => do
    let expanded ← expand expandFile directory entry
    return expanded :: (← expandEntries expandFile directory rest)

end

/-- The document of a file with its includes replaced, where `source` gives the document that a file
holds and includes nest less than `levels` deep. -/
def expandFile (source : String → Loading m Value) : (levels : Nat) → String → Loading m Value
  | 0, name => throw (.document name .includesTooDeep)
  | levels + 1, name => do
    expand (expandFile source levels) (FileName.directory name) (← source name)

def loadPlaybook (disk : Disk m) (name : String) : Loading m (List Entry) := do
  entries (← expandFile (load disk) (maxIncludeDepth + 1) name)

end Document

end Playbook
