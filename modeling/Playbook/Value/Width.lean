import Playbook.Value.Basic

/-!
# Integers of documents

A document hands over an integer at one of four widths, which is the narrowest one that holds it. A
wide integer becomes a number when it fits the narrow width of its own kind, and stays a big integer
otherwise.
-/

namespace Playbook

/-- A width of integers: 64 or 128 bits, without a sign or with one. -/
inductive Width where
  | unsigned64 | signed64 | unsigned128 | signed128
  deriving DecidableEq

namespace Width

def all : List Width :=
  [.unsigned64, .signed64, .unsigned128, .signed128]

/-- The first integer beyond a width; with a sign, minus it is the least one. -/
def bound : Width → Nat
  | .unsigned64 => 0x10000000000000000
  | .signed64 => 0x8000000000000000
  | .unsigned128 => 0x100000000000000000000000000000000
  | .signed128 => 0x80000000000000000000000000000000

/-- The integers of a width. -/
def Holds (width : Width) (n : Int) : Prop :=
  match width with
  | .unsigned64 | .unsigned128 => 0 ≤ n ∧ n < width.bound
  | .signed64 | .signed128 => -(width.bound : Int) ≤ n ∧ n < width.bound

instance : (width : Width) → (n : Int) → Decidable (width.Holds n)
  | .unsigned64, _ | .signed64, _ | .unsigned128, _ | .signed128, _ =>
    inferInstanceAs (Decidable (_ ∧ _))

def narrowest? (n : Int) : Option Width :=
  all.find? fun width => width.Holds n

end Width

/-- The value of an integer that is handed over at a width. -/
def Value.ofWidth : Width → Int → Value
  | .unsigned64, n | .signed64, n => .int n
  | .unsigned128, n => if Width.Holds .unsigned64 n then .int n else .bigInt n
  | .signed128, n => if Width.Holds .signed64 n then .int n else .bigInt n

/-- The value of a number that a document hands over, an integer at its narrowest width. -/
def Value.ofNumber? : Number → Option Value
  | .int n => (Width.narrowest? n).map fun width => ofWidth width n
  | .float x => some (.number (.float x))

end Playbook
