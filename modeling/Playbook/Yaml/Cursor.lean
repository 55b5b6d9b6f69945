import Playbook.Text.Numeral

/-!
# Reading positions in YAML text

A cursor is a place in a text: what follows, the line and column there, and the count of bytes
before it. The end of the text reads as the character zero, which no text may hold.
-/

namespace Playbook.Yaml

/-- The characters that a YAML text may hold. -/
def isAllowed (c : Char) : Bool :=
  let n := c.toNat
  n == 0x09 || n == 0x0A || n == 0x0D || (0x20 ≤ n && n ≤ 0x7E) || n == 0x85 ||
  (0xA0 ≤ n && n ≤ 0xFFFD) || 0x10000 ≤ n

def isBreak (c : Char) : Bool :=
  c == '\n' || c == '\r' || c.toNat == 0x85 || c.toNat == 0x2028 || c.toNat == 0x2029

def isGap (c : Char) : Bool :=
  c == ' ' || c == '\t'

def isEnd (c : Char) : Bool :=
  c.toNat == 0

def isBreakOrEnd (c : Char) : Bool :=
  isBreak c || isEnd c

def isGapOrEnd (c : Char) : Bool :=
  isGap c || isBreakOrEnd c

/-- The characters of anchors and handles. -/
def isWord (c : Char) : Bool :=
  let n := c.toNat
  (48 ≤ n && n ≤ 57) || (65 ≤ n && n ≤ 90) || (97 ≤ n && n ≤ 122) || c == '_' || c == '-'

def byteCount (cs : List Char) : Nat :=
  cs.foldr (fun c count => c.utf8Size + count) 0

/-- A place in a text. -/
structure Cursor where
  rest : List Char
  /-- The bytes before it. -/
  offset : Nat
  line : Nat
  column : Nat

namespace Cursor

def start (cs : List Char) : Cursor :=
  ⟨cs, 0, 0, 0⟩

def peek (c : Cursor) (n : Nat) : Char :=
  c.rest[n]?.getD '\x00'

def here (c : Cursor) : Char :=
  match c.rest with
  | [] => '\x00'
  | first :: _ => first

def advance (c : Cursor) (n : Nat) : Cursor :=
  ⟨c.rest.drop n, c.offset + byteCount (c.rest.take n), c.line, c.column + n⟩

def takeWhile (c : Cursor) (test : Char → Bool) : List Char × Cursor :=
  let taken := c.rest.takeWhile test
  (taken, c.advance taken.length)

def skipWhile (c : Cursor) (test : Char → Bool) : Cursor :=
  (c.takeWhile test).2

def nextLine (c : Cursor) : Cursor :=
  match c.rest with
  | '\r' :: '\n' :: rest => ⟨rest, c.offset + 2, c.line + 1, 0⟩
  | ch :: rest => ⟨rest, c.offset + ch.utf8Size, c.line + 1, 0⟩
  | [] => c

/-- What the line break here reads as: the separators of lines and paragraphs stay, every other
break is a line feed. -/
def breakText (c : Cursor) : List Char :=
  let ch := c.here
  if ch.toNat == 0x2028 || ch.toNat == 0x2029 then [ch]
  else if isBreak ch then ['\n']
  else []

/-- Whether a mark of three dashes, or of three dots, starts the line here. -/
def atDocumentMark (c : Cursor) : Bool :=
  c.column == 0 &&
  match c.rest with
  | '-' :: '-' :: '-' :: _ | '.' :: '.' :: '.' :: _ => isGapOrEnd (c.peek 3)
  | _ => false

/-- Whether a mark of the byte order starts the line here. -/
def atOrderMark (c : Cursor) : Bool :=
  c.column == 0 && c.here == '\ufeff'

/-- A bound on the steps that a reading from here takes. -/
def fuel (c : Cursor) : Nat :=
  c.rest.length + 1

end Cursor

end Playbook.Yaml
