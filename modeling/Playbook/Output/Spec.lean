import Playbook.Text.Quoted
import Playbook.Value.Export

/-!
# Output specifications

Where the result of a call is stored: all of it at one destination, fields of it at one destination
or several, or a list of such specifications applied in order. A specification is read from the JSON
export of an authored value, so that shapes which export to strings count as destinations.
-/

namespace Playbook

/-- One destination or several. -/
inductive Targets where
  | one (destination : String)
  | many (destinations : List String)
  deriving DecidableEq

def Targets.paths : Targets → List String
  | .one destination => [destination]
  | .many destinations => destinations

/-- Where the result of a call is stored. -/
inductive OutputSpec where
  /-- The whole result at one destination. -/
  | path (destination : String)
  /-- The values at source paths of the result at their targets. -/
  | mapping (sources : List (String × Targets))
  /-- Every specification in order. -/
  | list (specs : List OutputSpec)

/-- Why a value is no output specification. -/
inductive OutputSpec.Malformed where
  | shape (found : Shape)
  | emptyDestination (destination : String)
  deriving DecidableEq

def OutputSpec.Malformed.message : Malformed → String
  | .shape found =>
    "outputs must be a destination path, a mapping of result fields to destinations, " ++
      s!"or a list of those (found {found.name})"
  | .emptyDestination destination =>
    s!"outputs contain an empty destination path {Text.quoted destination}"

/-- The strings of a list that holds nothing else. -/
def Targets.strings? : List Json → Option (List String)
  | [] => some []
  | .string text :: rest => (strings? rest).map (text :: ·)
  | _ :: _ => none

/-- The targets that a document spells. -/
def Targets.ofJson? : Json → Option Targets
  | .string destination => some (.one destination)
  | .array items => (strings? items).map .many
  | _ => none

/-- The sources and targets that members spell. -/
def Targets.ofMembers? : List (String × Json) → Option (List (String × Targets))
  | [] => some []
  | (source, document) :: rest =>
    (ofJson? document).bind fun targets => (ofMembers? rest).map ((source, targets) :: ·)

namespace OutputSpec

def empty : OutputSpec :=
  .mapping []

mutual

/-- The specification that a document spells, empty destinations included. -/
def ofJson? : Json → Option OutputSpec
  | .string destination => some (.path destination)
  | .object members => (Targets.ofMembers? members).map .mapping
  | .array items => (ofItems? items).map .list
  | _ => none

def ofItems? : List Json → Option (List OutputSpec)
  | [] => some []
  | item :: rest => (ofJson? item).bind fun spec => (ofItems? rest).map (spec :: ·)

end

mutual

/-- Every destination in authoring order. -/
def destinations : OutputSpec → List String
  | .path destination => [destination]
  | .mapping sources => sources.flatMap fun entry => entry.2.paths
  | .list specs => destinationsOf specs

def destinationsOf : List OutputSpec → List String
  | [] => []
  | spec :: rest => spec.destinations ++ destinationsOf rest

end

mutual

/-- Whether nothing is stored, whatever the result. -/
def isEmpty : OutputSpec → Bool
  | .path _ => false
  | .mapping sources => sources.isEmpty
  | .list specs => allEmpty specs

def allEmpty : List OutputSpec → Bool
  | [] => true
  | spec :: rest => spec.isEmpty && allEmpty rest

end

/-- The specification that an authored value spells. -/
def ofValue (v : Value) : Except Malformed OutputSpec :=
  match ofJson? v.toJson with
  | none => .error (.shape v.shape)
  | some spec =>
    match spec.destinations.find? Text.isBlankText with
    | some destination => .error (.emptyDestination destination)
    | none => .ok spec

end OutputSpec

end Playbook
