import Playbook.Error

/-!
# Disks

What is asked of a file system: the text of a file, whether there is a directory and the names in
it, and writing a file. Answers may depend on what was asked before, so they are given in a monad.
-/

namespace Playbook

/-- A file system whose answers are given in `m`. -/
structure Disk (m : Type → Type) where
  /-- The text of a file. -/
  read : String → m (Except FileFault String)
  /-- Whether a name leads to a directory. -/
  isDirectory : String → m Bool
  /-- The names in a directory, in no particular order. -/
  list : String → m (Except FileFault (List String))
  /-- Writes a text to a file, which need not be there before. -/
  write : String → String → m (Except FileFault Unit)

end Playbook
