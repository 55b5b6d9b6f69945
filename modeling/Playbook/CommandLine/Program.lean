import Playbook.Abi.Directory
import Playbook.Call.DryRun
import Playbook.CommandLine.Arguments
import Playbook.Document.Include
import Playbook.Run
import Playbook.Settings.Config
import Playbook.Yaml.Printer

/-!
# The command line program

Runs playbook files as a dry run. The configuration is loaded first, then the state to resume from,
the inputs and the playbooks; so nothing runs before everything is known to be well formed. The
state is dumped even when the run fails, so that what was deployed is not lost.
-/

namespace Playbook

/-- What the program finds in its environment. -/
structure Environment where
  /-- The configuration file that is named there. -/
  configFile : Option String
  /-- The setting of the pause. -/
  stepDelay : Option String
  /-- The directory of user configurations. -/
  configDirectory : String

/-- How the program ends. -/
structure Outcome where
  exitCode : Nat
  /-- What it writes to its output. -/
  output : String
  /-- What it writes beside its output. -/
  complaint : String
  deriving DecidableEq

/-- A failure of the program, with the causes below it, outermost first. -/
structure Failure where
  message : String
  causes : List String
  deriving DecidableEq

namespace Failure

/-- An error as a failure. -/
def ofError (e : Error) : Failure :=
  ⟨e.message, e.causes⟩

/-- The lines of a cause: the first one after a label, the others as far to the right. -/
def indented (label : String) (cause : String) : String :=
  let gap := String.ofList (List.replicate label.length ' ')
  label ++ String.intercalate ("\n" ++ gap) ((Text.pieces '\n' cause.toList).map String.ofList)

/-- The label of a numbered cause; numbers end in one column. -/
def numberLabel (n : Nat) : String :=
  let digits := toString n
  String.ofList (List.replicate (5 - digits.length) ' ') ++ digits ++ ": "

def numbered (next : Nat) : List String → List String
  | [] => []
  | cause :: rest => indented (numberLabel next) cause :: numbered (next + 1) rest

/-- The lines of the causes; a single one has no number. -/
def causeLines : List String → List String
  | [] => []
  | [cause] => ["", "Caused by:", indented "    " cause]
  | causes => "" :: "Caused by:" :: numbered 0 causes

def report (f : Failure) : String :=
  String.intercalate "\n" (("Error: " ++ f.message) :: causeLines f.causes) ++ "\n"

end Failure

/-! ## State dumps -/

inductive DumpFormat where
  | json | yaml
  deriving DecidableEq

namespace DumpFormat

/-- The format that the extension of a file tells, in either case. -/
def ofFile (name : String) : DumpFormat :=
  match (FileName.extension? name).map String.toLower with
  | some "yml" | some "yaml" => .yaml
  | _ => .json

def write : DumpFormat → Json → String
  | .json => Json.indented
  | .yaml => Yaml.write

end DumpFormat

namespace Program

variable {m : Type → Type} [Monad m]

/-- A part of the program, which may fail. -/
abbrev Part (m : Type → Type) (α : Type) : Type :=
  ExceptT Failure m α

/-- Takes errors as failures. -/
def orFail {α : Type} (loading : Loading m α) : Part m α :=
  loading.adapt Failure.ofError

/-- Writes what the references name to a file. -/
def dump (disk : Disk m) (store : Store) (references : List String) (name : String) :
    Part m Unit := do
  let selected ← orFail (liftM (store.select references))
  match ← disk.write name ((DumpFormat.ofFile name).write selected.toJson) with
  | .ok () => return ()
  | .error fault => throw ⟨s!"failed to write state dump {name}", [fault.message]⟩

def defaultArtifacts : String :=
  "build/contracts"

def artifactsIn (disk : Disk m) (directory : String) : Part m ArtifactSet :=
  (ArtifactSet.load disk directory).adapt fun fault => ⟨fault.message, [fault.cause.message]⟩

/-- The artifacts of the named directory, or else those of the usual one, which may be absent. -/
def artifacts (disk : Disk m) : Option String → Part m ArtifactSet
  | some directory => artifactsIn disk directory
  | none => do
    if ← disk.isDirectory defaultArtifacts then artifactsIn disk defaultArtifacts
    else return .empty

/-- The settings in effect: flags over the configuration. -/
def settings (disk : Disk m) (env : Environment) (a : Arguments) : Part m Config := do
  let config ← (Config.load disk a.config env.configDirectory env.stepDelay).adapt
    fun fault => ⟨"failed to load configuration", fault.message :: fault.causes⟩
  return config.withFlags a.delay a.artifacts a.dumpPaths

/-- The state that a run starts from. -/
def startingStore (disk : Disk m) (a : Arguments) : Loading m Store := do
  let store ← match a.state with
    | some name => Document.loadStore disk name
    | none => pure Store.empty
  match a.inputs with
  | some name => return store.mergeRoot .inputs (.object (← Document.loadInputs disk name))
  | none => return store

/-- The playbooks, each as one entry. -/
def playbooks (disk : Disk m) (a : Arguments) : Loading m (List Entry) :=
  a.playbooks.mapM fun name => do return .nested (← Document.loadPlaybook disk name)

/-- What the program writes to its output when all goes well. -/
def perform (disk : Disk m) (env : Environment) (a : Arguments) : Part m String := do
  let settings ← settings disk env a
  let store ← orFail (startingStore disk a)
  let entries ← orFail (playbooks disk a)
  if a.countOnly then
    let count ← orFail (liftM (Entry.countAll store entries))
    return s!"{count}\n"
  let set ← artifacts disk settings.artifacts
  let runner : Runner Nat := ⟨DryRun.invoker, set.source, .default⟩
  let (outcome, world) := runner.run entries ⟨store, 0, []⟩
  if let some name := a.dumpState then
    dump disk world.store settings.dumpPaths name
  let results ← orFail (liftM outcome)
  return results.toJson.indented ++ "\n"

/-! ## Answers without a run -/

def versionLine : String :=
  "deckhand 0.1.0\n"

def usageLine : String :=
  "Usage: deckhand [OPTIONS] <PLAYBOOKS>...\n"

def flagColumn (f : Flag) : String :=
  let letter := match f.short? with
    | some c => String.ofList ['-', c, ',', ' ']
    | none => "    "
  letter ++ f.usage

/-- The line of a flag in the help. -/
def flagLine (env : Environment) (f : Flag) : String :=
  let column := flagColumn f
  let width := (Flag.all.map fun f => (flagColumn f).length).foldl Nat.max 0
  let gap := String.ofList (List.replicate (width - column.length + 2) ' ')
  let setting := match f with
    | .config => " [env: " ++ Config.fileVariable ++ "=" ++ env.configFile.getD "" ++ "]"
    | _ => ""
  "  " ++ column ++ gap ++ f.purpose ++ setting ++ "\n"

def help (env : Environment) : String :=
  "Run declarative smart-contract playbooks against a dry-run chain\n\n" ++ usageLine ++
    "\nArguments:\n  <PLAYBOOKS>...  Playbook files, run in the order given\n\nOptions:\n" ++
    String.join (Flag.all.map (flagLine env))

def run (disk : Disk m) (env : Environment) (texts : List String) : m Outcome := do
  match Arguments.parse env.configFile texts with
  | .error .help => return ⟨0, help env, ""⟩
  | .error .version => return ⟨0, versionLine, ""⟩
  | .error (.fault fault) => return ⟨2, "", s!"error: {fault.message}\n\n" ++ usageLine⟩
  | .ok a =>
    match ← perform disk env a with
    | .ok output => return ⟨0, output, ""⟩
    | .error failure => return ⟨1, "", failure.report⟩

end Program

end Playbook
