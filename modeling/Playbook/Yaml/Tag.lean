/-!
# YAML tags

What a tag says about its node. A tag is spelled in octets, since its escapes may stand for any of
them, and it ends before the first octet that is zero. The core tags name kinds of scalars. A tag
that begins with an exclamation mark is the document's own; when its octets are no text it says
nothing.
-/

namespace Playbook.Yaml

abbrev Octets : Type :=
  List UInt8

namespace Octets

def ofAscii (cs : List Char) : Octets :=
  cs.map fun c => c.toNat.toUInt8

/-- The octets before the first zero. -/
def beforeZero (octets : Octets) : Octets :=
  octets.takeWhile (· != 0)

/-- Whether octets spell a text. -/
def isText (octets : Octets) : Bool :=
  (String.fromUTF8? ⟨octets.toArray⟩).isSome

end Octets

/-- The kinds of scalars that have a core tag. -/
inductive CoreKind where
  | null | bool | int | float
  deriving DecidableEq

namespace CoreKind

/-- The last word of a core tag. -/
def word : CoreKind → String
  | .null => "null"
  | .bool => "bool"
  | .int => "int"
  | .float => "float"

/-- What the core tags begin with. -/
def stem : String := "tag:yaml.org,2002:"

def octets (kind : CoreKind) : Octets :=
  Octets.ofAscii (stem ++ kind.word).toList

def ofOctets? (octets : Octets) : Option CoreKind :=
  [null, bool, int, float].find? fun kind => kind.octets = octets

end CoreKind

/-- What a tag says about its node. -/
inductive Tag where
  /-- A scalar is of this kind, which its text has to fit. -/
  | core (kind : CoreKind)
  /-- A tag of the document's own. -/
  | own
  /-- Octets after an exclamation mark that are no text. -/
  | garbled
  /-- Any other tag; a scalar is a text. -/
  | other
  deriving DecidableEq

namespace Tag

def ofOctets (octets : Octets) : Tag :=
  let octets := octets.beforeZero
  if octets.head? = some 0x21 then if octets.isText then .own else .garbled
  else ((CoreKind.ofOctets? octets).map core).getD .other

/-- The tag of a suffix after what its handle stands for. -/
def ofParts (expansion suffix : Octets) : Tag :=
  ofOctets (expansion.beforeZero ++ suffix.beforeZero)

end Tag

example : CoreKind.ofOctets? CoreKind.int.octets = some .int := by decide +kernel
example : Tag.ofOctets [0x21] = .own ∧ Tag.ofOctets [0x21, 0xED, 0xA0, 0x80] = .garbled := by
  decide +kernel
example : Tag.ofParts (Octets.ofAscii CoreKind.stem.toList) [0x69, 0x6E, 0x74, 0x00, 0x7A] =
    .core .int := by decide +kernel

end Playbook.Yaml
