import Playbook.Fields
import Playbook.Files.Disk
import Playbook.Files.Name

/-!
# File trees

A finite tree of directories and files that serves as a disk. Its root is the current directory, and
nothing is known outside it: what lies above is an empty directory in which nothing can be found.
-/

namespace Playbook

/-- A file, or a directory of named trees. -/
inductive FileTree where
  | file (text : String)
  | directory (entries : List (String × FileTree))

namespace FileTree

def empty : FileTree :=
  .directory []

/-- What lies at parts that name an entry each. -/
def find? : FileTree → List String → Option FileTree
  | tree, [] => some tree
  | .file _, _ :: _ => none
  | .directory entries, part :: rest => (Fields.get? entries part).bind fun tree => tree.find? rest

/-- Puts a file at parts that name an entry each, making the directories on the way. -/
def insert (text : String) : List String → FileTree → FileTree
  | [], _ => .file text
  | part :: rest, tree =>
    let entries := match tree with
      | .directory entries => entries
      | .file _ => []
    .directory (Fields.put entries part (insert text rest ((Fields.get? entries part).getD empty)))

def ofFiles (files : List (String × String)) : FileTree :=
  files.foldl (fun tree (name, text) => tree.insert text (FileName.parts name)) empty

/-! ## Following names -/

def maxPart : Nat := 255

def maxName : Nat := 4095

/-- A place that a name leads to: the parts from the root, or somewhere outside the tree. -/
abbrev Place : Type :=
  Option (List String)

/-- The directory at a place. -/
def directoryAt (tree : FileTree) : Place → Except FileFault (List (String × FileTree))
  | none => .ok []
  | some parts =>
    match tree.find? parts with
    | some (.directory entries) => .ok entries
    | some (.file _) => .error .notDirectory
    | none => .error .missing

/-- The place that a part leads to from another one, which has to be a directory. -/
def step (tree : FileTree) (place : Place) (part : String) : Except FileFault Place := do
  let entries ← tree.directoryAt place
  if FileName.isHere part then return place
  if part = FileName.up then
    match place with
    | none | some [] => return none
    | some parts => return some parts.dropLast
  if maxPart < part.utf8ByteSize then throw .nameTooLong
  if Fields.has entries part then return place.map (· ++ [part])
  throw .missing

/-- The place where a name begins. -/
def start (name : String) : Except FileFault Place :=
  if name = "" then .error .missing
  else if '\x00' ∈ name.toList then .error .nameWithNull
  else if maxName < name.utf8ByteSize then .error .nameTooLong
  else if FileName.isAbsolute name then .ok none
  else .ok (some [])

/-- The place that a name leads to. -/
def follow (tree : FileTree) (name : String) : Except FileFault Place := do
  (FileName.parts name).foldlM tree.step (← start name)

/-! ## The tree as a disk -/

def read (tree : FileTree) (name : String) : Except FileFault String := do
  match (← tree.follow name).bind tree.find? with
  | some (.file text) => return text
  | _ => throw .isDirectory

def isDirectory (tree : FileTree) (name : String) : Bool :=
  ((tree.follow name).bind tree.directoryAt).isOk

def list (tree : FileTree) (name : String) : Except FileFault (List String) := do
  return Fields.names (← tree.directoryAt (← tree.follow name))

/-- The tree with a text written to a file. A name that ends with a slash can only be that of a
directory, whatever is there. -/
def write (tree : FileTree) (name text : String) : Except FileFault FileTree := do
  let (parts, slashed) := FileName.cutSlashes name
  let place ← parts.dropLast.foldlM tree.step (← start name)
  let entries ← tree.directoryAt place
  let last := parts.getLastD ""
  if slashed || FileName.isHere last || last == FileName.up then throw .isDirectory
  if maxPart < last.utf8ByteSize then throw .nameTooLong
  match place, Fields.get? entries last with
  | _, some (.directory _) => throw .isDirectory
  | some parts, _ => return tree.insert text (parts ++ [last])
  | none, _ => throw .missing

/-- A tree as a disk that keeps what is written. -/
def disk : Disk (StateM FileTree) where
  read name := do return (← get).read name
  isDirectory name := do return (← get).isDirectory name
  list name := do return (← get).list name
  write name text := do
    match (← get).write name text with
    | .ok tree => set tree; return .ok ()
    | .error fault => return .error fault

end FileTree

end Playbook
