import Playbook.Text.Blank
import Playbook.Text.Numeral
import Playbook.Text.Pieces

/-!
# Paths

A path such as `token.holders[0].address` names a place inside a value by keys and indices. Reading
a path never fails: blanks around it and empty parts are skipped, and so are brackets that hold no
index. What follows a bracket and is no further bracket is dropped up to the next dot.
-/

namespace Playbook

/-- One hop of a path. -/
inductive Segment where
  | key (name : String)
  | index (n : Nat)
  deriving DecidableEq

/-- The hops from a value to a place inside it. -/
abbrev Path := List Segment

namespace Path

/-- The index that the characters between two brackets spell, if they do. -/
def bracketed (inside : List Char) : List Segment :=
  match Text.word? (Text.trimChars inside) with
  | some n => [.index n]
  | none => []

/-- The indices of the brackets at the start. `inside` holds what was read of an open bracket, last
character first; a bracket that never closes counts for nothing. -/
def indices : (inside : Option (List Char)) → List Char → List Segment
  | none, '[' :: rest => indices (some []) rest
  | none, _ => []
  | some inside, ']' :: rest => bracketed inside.reverse ++ indices none rest
  | some inside, c :: rest => indices (some (c :: inside)) rest
  | some _, [] => []

/-- The hops that a part between two dots spells: a key up to the first bracket, then indices. -/
def ofPart (part : List Char) : List Segment :=
  let key := part.takeWhile (· != '[')
  let keys := if key = [] then [] else [.key (String.ofList key)]
  keys ++ indices none (part.dropWhile (· != '['))

/-- The hops that characters without blanks around them spell. -/
def ofChars (cs : List Char) : Path :=
  (Text.pieces '.' cs).flatMap ofPart

/-- The path that a text spells. -/
def parse (text : String) : Path :=
  ofChars (Text.trimChars text.toList)

/-- A hop as it is written after others: keys follow a dot, indices stand in brackets. -/
def renderNext : Segment → List Char
  | .key name => '.' :: name.toList
  | .index n => '[' :: Nat.toDigits 10 n ++ [']']

def renderChars : Path → List Char
  | [] => []
  | .key name :: rest => name.toList ++ rest.flatMap renderNext
  | .index n :: rest => renderNext (.index n) ++ rest.flatMap renderNext

def render (path : Path) : String :=
  String.ofList (renderChars path)

@[simp] theorem ofPart_nil : ofPart [] = [] := rfl

theorem ofChars_append_dot (p q : List Char) :
    ofChars (p ++ '.' :: q) = ofChars p ++ ofChars q := by
  simp [ofChars, Text.pieces_append_cons]

example : parse "holders[0].address" = [.key "holders", .index 0, .key "address"] := by
  decide +kernel
example : parse " a..b[x][ 7 ]c.[1" = [.key "a", .key "b", .index 7] := by decide +kernel

end Path

end Playbook
