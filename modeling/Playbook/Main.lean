import Playbook.CommandLine.Program

/-!
# The executable

The program on the disk, the environment and the streams of its process.
-/

namespace Playbook

/-- The number of the answer that a directory is no file; it is negated by some operations. -/
def isDirectoryNumber (n : UInt32) : Bool :=
  n == 21 || n == 0 - 21

/-- What the file system answered. -/
def faultOf : IO.Error → FileFault
  | .noFileOrDirectory .. => .missing
  | .inappropriateType _ n _ => if isDirectoryNumber n then .isDirectory else .notDirectory
  | e => .other (toString e)

/-- An answer, or the fault that took its place. -/
def answered {α : Type} (action : IO α) : IO (Except FileFault α) := do
  try
    return .ok (← action)
  catch e =>
    return .error (faultOf e)

/-- A name as a place of the file system. -/
def placeOf (name : String) : IO.FS.DirEntry :=
  ⟨name, ""⟩

def localDisk : Disk IO where
  read name := answered (IO.FS.readFile name)
  isDirectory name := (placeOf name).root.isDir
  list name := answered do
    return (← (placeOf name).root.readDir).toList.map fun entry => entry.fileName
  write name text := answered (IO.FS.writeFile name text)

/-- The directory of user configurations: the one that is set, if it leads from the root, or the
usual one of the user. -/
def configDirectory : IO String := do
  match (← IO.getEnv "XDG_CONFIG_HOME").filter FileName.isAbsolute with
  | some directory => return directory
  | none =>
    match ← IO.getEnv "HOME" with
    | some home => return FileName.join home ".config"
    | none => return "."

end Playbook

open Playbook in
def main (args : List String) : IO UInt32 := do
  let env : Environment :=
    ⟨← IO.getEnv Config.fileVariable, ← IO.getEnv Options.stepDelayVariable, ← configDirectory⟩
  let outcome ← Program.run localDisk env args
  IO.print outcome.output
  IO.eprint outcome.complaint
  return outcome.exitCode.toUInt32
