import Playbook.Yaml.Tag

/-!
# YAML tokens

The tokens of a YAML stream. Blocks are opened and closed by tokens of their own, which stand for
indentation, and a key is announced even where no indicator marks it.
-/

namespace Playbook.Yaml

/-- The forms in which a scalar may be written. -/
inductive ScalarForm where
  | plain | quoted | literal | folded
  deriving DecidableEq

/-- A token of a stream. -/
inductive Token where
  | version (major minor : Nat)
  /-- Declares what a tag handle stands for. -/
  | handle (name : String) (expansion : Octets)
  | documentStart
  | documentEnd
  | blockSequence
  | blockMapping
  | blockEnd
  | flowSequence
  | flowSequenceEnd
  | flowMapping
  | flowMappingEnd
  | blockEntry
  | flowEntry
  | key
  | value
  | alias (name : String)
  | anchor (name : String)
  /-- A tag under a handle; a verbatim tag has none. -/
  | tag (handle : String) (suffix : Octets)
  | scalar (form : ScalarForm) (text : String)
  deriving DecidableEq

end Playbook.Yaml
