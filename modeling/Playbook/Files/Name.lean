import Playbook.Text.Pieces

/-!
# File names

A name leads through directories, from the current one or, with a leading slash, from the root.
Names are cut and joined as texts, without looking at any file: an empty part or a single dot stands
for the directory it is in, and two dots are kept.
-/

namespace Playbook.FileName

def up : String := ".."

def parts (name : String) : List String :=
  (Text.pieces '/' name.toList).map String.ofList

/-- The parts of a name without the slashes at its end, and whether there are any. -/
def cutSlashes (name : String) : List String × Bool :=
  let cut := ((parts name).reverse.dropWhile (· == "")).reverse
  (cut, cut.length < (parts name).length)

/-- A part that stands for the directory it is in. -/
def isHere (part : String) : Bool :=
  part == "" || part == "."

/-- Whether a name leads from the root. -/
def isAbsolute (name : String) : Bool :=
  name.toList.head? == some '/'

/-- Parts without those at the end that lead nowhere. -/
def trimParts (parts : List String) : List String :=
  (parts.reverse.dropWhile isHere).reverse

def ofParts : List String → String :=
  String.intercalate "/"

/-- The name of the directory that a name lies in, which is empty for a single part; `none` for the
empty name and for the root. -/
def parent? (name : String) : Option String :=
  match parts name with
  | [] => none
  | first :: rest =>
    match trimParts rest with
    | [] => if first = "" then none else some ""
    | below =>
      let above := trimParts below.dropLast
      if first = "" ∧ above = [] then some "/" else some (ofParts (first :: above))

/-- The directory that names in a file are relative to. -/
def directory (name : String) : String :=
  (parent? name).getD "."

/-- A name taken relative to a directory. -/
def join (directory name : String) : String :=
  if isAbsolute name then name
  else if directory = "" ∨ directory.toList.getLast? = some '/' then directory ++ name
  else directory ++ "/" ++ name

/-- The last part that leads somewhere, unless it leads up. -/
def last? (name : String) : Option String :=
  ((trimParts (parts name)).getLast?).filter (· != up)

/-- What follows the last dot of the last part, if something comes before that dot. -/
def extension? (name : String) : Option String :=
  (last? name).bind fun part =>
    match (Text.pieces '.' part.toList).reverse with
    | ending :: stem =>
      if stem = [] ∨ stem = [[]] then none else some (String.ofList ending)
    | [] => none

example : parent? "a.yml" = some "" ∧ parent? "d/a.yml" = some "d" ∧ parent? "./b" = some "." := by
  decide +kernel
example : parent? "/x" = some "/" ∧ parent? "" = none ∧ parent? "a//b/" = some "a" := by
  decide +kernel
example : join "" "b" = "b" ∧ join "d" "../b" = "d/../b" ∧ join "d" "/b" = "/b" := by decide +kernel
example : extension? "a/x.tar.gz" = some "gz" ∧ extension? ".json" = none := by decide +kernel

end Playbook.FileName
