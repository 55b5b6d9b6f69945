import Playbook.Instruction.Loop

/-!
# Playbook entries

A playbook is a list of entries: instructions, loops, and nested lists of entries. A fault is
reported with the location of the entry it is in, `playbook[2][0]` for the first entry of the list
that is the third entry.
-/

namespace Playbook

/-- An entry of a playbook. -/
inductive Entry where
  | instruction (i : Instruction)
  | loop (l : Loop)
  | nested (entries : List Entry)

namespace Entry

/-- An entry that is no list: a mapping with a `for` field is a loop, all else an instruction. -/
def buildLeaf (definition : Value) : Except Violation Entry :=
  match definition with
  | .object fields =>
    if Fields.has fields "for" then (Loop.build definition).map .loop
    else (Instruction.build definition).map .instruction
  | _ => (Instruction.build definition).map .instruction

/-- The location of the entry at a place of a list. -/
def within (location : String) (index : Nat) : String :=
  s!"{location}[{index}]"

mutual

/-- The entry that a definition at a location describes. -/
def buildAt (location : String) : Value → Except Violation Entry
  | .array definitions => (buildList location 0 definitions).map .nested
  | definition => (buildLeaf definition).mapError (.atLocation location)

/-- The entries of a list, counted from `index`. -/
def buildList (location : String) (index : Nat) : List Value → Except Violation (List Entry)
  | [] => .ok []
  | definition :: rest =>
    (buildAt (within location index) definition).bind fun entry =>
      (buildList location (index + 1) rest).map (entry :: ·)

end

def build (definition : Value) : Except Violation Entry :=
  buildAt "playbook" definition

/-- The entries of a playbook, which is a list of entries or a single one. -/
def buildPlaybook (document : Value) : Except Violation (List Entry) :=
  (build document).map fun
    | .nested entries => entries
    | entry => [entry]

mutual

/-- How many instructions an entry runs as the state stands. -/
def count (store : Store) : Entry → Except Error Nat
  | .instruction _ => .ok 1
  | .loop l => l.count store
  | .nested entries => countAll store entries

def countAll (store : Store) : List Entry → Except Error Nat
  | [] => .ok 0
  | entry :: rest =>
    (count store entry).bind fun n => (countAll store rest).map (n + ·)

end

end Entry

end Playbook
