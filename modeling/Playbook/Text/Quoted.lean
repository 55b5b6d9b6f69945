import Playbook.Text.Blank

/-!
# Quoted text

A text between double quotes in which every character can be seen: tabs and line ends have their
short escapes, and other characters that show nothing are written by their code point.
-/

namespace Playbook.Text

/-- A character that leaves no mark: a control, or a blank other than the space. -/
def isInvisible (c : Char) : Bool :=
  c.toNat < 0x20 || (0x7F ≤ c.toNat && c.toNat < 0xA0) || (isBlank c && c != ' ')

def quotedChar (c : Char) : List Char :=
  match c with
  | '"' => ['\\', '"']
  | '\\' => ['\\', '\\']
  | '\t' => ['\\', 't']
  | '\n' => ['\\', 'n']
  | '\r' => ['\\', 'r']
  | '\x00' => ['\\', '0']
  | c =>
    if isInvisible c then ['\\', 'u', '\x7b'] ++ Nat.toDigits 16 c.toNat ++ ['\x7d'] else [c]

/-- The text between double quotes, every character made visible. -/
def quoted (text : String) : String :=
  String.ofList ('"' :: text.toList.flatMap quotedChar ++ ['"'])

example : quoted " \t\n\u00a0" = "\" \\t\\n\\u\x7ba0\x7d\"" := by decide +kernel

end Playbook.Text
