import Playbook.Files.Disk
import Playbook.Files.Name
import Playbook.Settings.Options

/-!
# Configuration

A configuration file sets the pause between instructions, the directory of artifacts and what a
state dump holds. Each setting can be given as a flag as well, which wins over the file. A file that
is not named is read from the directory of user configurations, where it may be absent.
-/

namespace Playbook

/-- What a configuration file says. -/
structure Config where
  options : Options
  /-- The directory of artifacts. -/
  artifacts : Option String
  /-- The references of what a state dump holds. -/
  dumpPaths : List String
  deriving DecidableEq

/-- Why a configuration cannot be loaded. -/
inductive ConfigFault where
  | file (name : String) (fault : FileFault)
  /-- The text is no configuration. -/
  | malformed (name : String)
  deriving DecidableEq

def ConfigFault.message : ConfigFault → String
  | .file name fault => s!"config I/O error for {name}: {fault.message}"
  | .malformed name =>
    s!"config parse error in {name}: the text is not a single well-formed configuration"

def ConfigFault.causes : ConfigFault → List String
  | .file _ fault => [fault.message]
  | .malformed _ => []

namespace Config

def default : Config := ⟨.default, none, []⟩

def artifactsKey : String := "artifacts"

def dumpPathsKey : String := "dump_paths"

/-! ## Reading -/

/-- A text that may be left out: a plain scalar that is empty or a word for nothing, unless a tag
says otherwise, is none. Under the tag for nothing a plain scalar has to be such a word. -/
def readOptional (anchors : Yaml.Anchors) (node : Yaml.Node) : Yaml.Following (Option String) := do
  match ← node.target anchors with
  | .scalar _ tag .plain text =>
    match tag with
    | none => return if text.isEmpty || Yaml.Scalar.isNull text then none else some text
    | some (.core .null) => if Yaml.Scalar.isNull text then return none else failure
    | some _ => return some text
  | .scalar _ _ _ text => return some text
  | _ => failure

def readTexts (anchors : Yaml.Anchors) (node : Yaml.Node) : Yaml.Following (List String) := do
  (← node.items anchors).mapM fun item => item.text anchors

/-- What a scalar denotes outside the known names, where integers have 64 bits. -/
def scalarContent? (tag : Option Yaml.Tag) (form : Yaml.ScalarForm) (text : String) :
    Option Yaml.Scalar :=
  (Yaml.Scalar.denote? tag form text).filter fun
    | .int _ n => decide (Number.Fits n)
    | _ => true

/-- Checks that a node outside the known names is sound: scalars denote something, and not more than
`depth` containers nest. -/
def checkContent (anchors : Yaml.Anchors) : (depth : Nat) → Yaml.Node → Yaml.Following Unit
  | depth, node => do
    match ← node.target anchors, depth with
    | .scalar _ tag form text, _ =>
      if (scalarContent? tag form text).isNone then failure
    | .sequence _ tag items, depth + 1 =>
      if tag = some .own then failure
      items.forM (checkContent anchors depth)
    | .mapping _ tag entries, depth + 1 =>
      if tag = some .own then failure
      entries.forM fun (key, v) => do
        checkContent anchors depth key
        checkContent anchors depth v
    | _, _ => failure

/-- A scalar that denotes an unsigned number of 64 bits. -/
def readDelay (anchors : Yaml.Anchors) (node : Yaml.Node) : Yaml.Following Nat := do
  match ← node.target anchors with
  | .scalar _ tag form text =>
    match scalarContent? tag form text with
    | some (.int _ n) => if 0 ≤ n then return n.toNat else failure
    | _ => failure
  | _ => failure

/-- The configuration that a record gives. Names that are not known are passed over, but what stands
under them has to be sound. -/
def ofRecord (anchors : Yaml.Anchors) (record : Yaml.Record) : Yaml.Following Config := do
  let artifacts ← record.get artifactsKey none (readOptional anchors)
  let dumpPaths ← record.get dumpPathsKey [] (readTexts anchors)
  record.forM fun (name, node) => do
    if name != artifactsKey && name != dumpPathsKey then
      checkContent anchors (Yaml.maxDepth - 1) node
  let delay ← record.get Options.stepDelayKey 0 (readDelay anchors)
  return ⟨⟨delay⟩, artifacts, dumpPaths⟩

/-- The configuration that a text gives. A blank one sets nothing. -/
def ofText? (text : String) : Option Config :=
  if Text.isBlankText text then some default else Yaml.readRecord? text ofRecord

/-! ## Loading -/

def fileVariable : String := "DECKHAND_CONFIG"

def defaultFile (directory : String) : String :=
  FileName.join (FileName.join directory "deckhand") "config.yaml"

variable {m : Type → Type} [Monad m]

/-- Loads a configuration file. Only one that has to be there is missed. -/
def loadFile (disk : Disk m) (name : String) (required : Bool) : ExceptT ConfigFault m Config := do
  match ← disk.read name with
  | .ok text =>
    match ofText? text with
    | some config => return config
    | none => throw (.malformed name)
  | .error fault =>
    if fault = .missing ∧ required = false then return default else throw (.file name fault)

/-- Loads the named configuration file, or else the one in the directory of user configurations, and
lets the variable of the pause win over it. -/
def load (disk : Disk m) (named : Option String) (directory : String) (delay : Option String) :
    ExceptT ConfigFault m Config := do
  let config ← match named with
    | some name => loadFile disk name true
    | none => loadFile disk (defaultFile directory) false
  return { config with options := config.options.withVariable delay }

/-! ## Flags -/

def defaultDumpPath : String := "$deployed"

def firstNonempty : List (List String) → List String
  | [] => []
  | [] :: rest => firstNonempty rest
  | texts :: _ => texts

/-- The settings in effect when flags are layered over a configuration. -/
def withFlags (config : Config) (delay : Option Nat) (artifacts : Option String)
    (dumpPaths : List String) : Config where
  options := ⟨delay.getD config.options.stepDelay⟩
  artifacts := artifacts.or config.artifacts
  dumpPaths := firstNonempty [dumpPaths, config.dumpPaths, [defaultDumpPath]]

end Config

end Playbook
