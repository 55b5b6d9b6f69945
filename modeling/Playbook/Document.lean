import Playbook.Error
import Playbook.Instruction.Entry
import Playbook.Yaml.Value

/-!
# Documents

Texts that are YAML, or JSON as a part of it. A fault names the origin of the text: its file, or
that it stands inline.
-/

namespace Playbook

namespace Document

/-- The value of a text from an origin. -/
def parse (origin text : String) : Except Error Value :=
  match Yaml.value? text with
  | some v => .ok v
  | none => .error (.document origin .malformed)

def inlineOrigin : String :=
  "<inline playbook>"

def entries (document : Value) : Except Error (List Entry) :=
  (Entry.buildPlaybook document).mapError .validation

/-- The entries of a playbook that is given as text. It cannot include others. -/
def parsePlaybook (text : String) : Except Error (List Entry) :=
  (parse inlineOrigin text).bind entries

end Document

end Playbook
