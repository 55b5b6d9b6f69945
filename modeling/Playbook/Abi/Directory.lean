import Playbook.Abi.Cache
import Playbook.Abi.Json
import Playbook.Files.Disk
import Playbook.Files.Name

/-!
# Artifact directories

The artifacts of a directory are in its files that end in `.json`. One that holds no artifact is
passed over; one that cannot be read is an error.
-/

namespace Playbook

inductive DirectoryFault where
  /-- The directory cannot be listed. -/
  | unlisted (directory : String) (fault : FileFault)
  /-- A file in it cannot be read. -/
  | unread (file : String) (fault : FileFault)
  deriving DecidableEq

namespace DirectoryFault

def message : DirectoryFault → String
  | .unlisted directory _ => s!"failed to read artifact directory {directory}"
  | .unread file _ => s!"failed to read {file}"

def cause : DirectoryFault → FileFault
  | .unlisted _ fault | .unread _ fault => fault

end DirectoryFault

namespace ArtifactSet

variable {m : Type → Type} [Monad m]

/-- Whether a file may hold an artifact. -/
def isCandidate (name : String) : Bool :=
  FileName.extension? name == some "json"

/-- Adds the artifact of a file, if it holds one. -/
def addFile (disk : Disk m) (set : ArtifactSet) (name : String) :
    ExceptT DirectoryFault m ArtifactSet := do
  match ← disk.read name with
  | .ok text => return ((Abi.readArtifact? text).map set.insert).getD set
  | .error fault => throw (.unread name fault)

def load (disk : Disk m) (directory : String) : ExceptT DirectoryFault m ArtifactSet := do
  match ← disk.list directory with
  | .ok names =>
    (names.filter isCandidate).foldlM
      (fun set name => set.addFile disk (FileName.join directory name)) empty
  | .error fault => throw (.unlisted directory fault)

end ArtifactSet

end Playbook
