import Playbook.Text.Blank
import Playbook.Yaml.Record

/-!
# Run options

How a run is paced. The pause between instructions is given in milliseconds by a document, and an
environment variable that holds a number wins over it.
-/

namespace Playbook

/-- The options of a run. -/
structure Options where
  /-- The pause between two instructions, in milliseconds; zero is none. -/
  stepDelay : Nat
  deriving DecidableEq

namespace Options

def default : Options := ⟨0⟩

def stepDelayKey : String := "step_delay_ms"

def stepDelayVariable : String := "DECKHAND_STEP_DELAY_MS"

def delays (o : Options) : Bool :=
  0 < o.stepDelay

/-- An unsigned number of 64 bits: a plain scalar, whatever its tag, or a literal block under the
tag of integers. -/
def readDelay (anchors : Yaml.Anchors) (node : Yaml.Node) : Yaml.Following Nat := do
  match ← node.target anchors with
  | .scalar _ tag form text =>
    if form = .plain ∨ (form = .literal ∧ tag = some (.core .int)) then
      match Yaml.Scalar.unsigned? Text.wordBound text.toList with
      | some n => return n.toNat
      | none => failure
    else failure
  | _ => failure

/-- The options that a document gives. Names that are not known are passed over. -/
def ofText? (text : String) : Option Options :=
  Yaml.readRecord? text fun anchors record => do
    return ⟨← record.get stepDelayKey 0 (readDelay anchors)⟩

/-- The options with what an environment variable, if it is set, says about the pause. Blanks around
the number do not count; anything but a number of 64 bits is ignored. -/
def withVariable (o : Options) (setting : Option String) : Options :=
  match setting.bind fun text => Text.word? (Text.trimChars text.toList) with
  | some delay => { o with stepDelay := delay }
  | none => o

end Options

end Playbook
