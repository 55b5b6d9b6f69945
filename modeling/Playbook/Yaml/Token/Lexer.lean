import Playbook.Yaml.Token.Scalar
import Playbook.Yaml.Token.Tag

/-!
# Tokens of YAML text

Cutting a text into tokens. Indentation opens and closes blocks. A key without an indicator is known
only when its colon is met, so each place where one may begin is remembered, one for every level of
brackets, and the tokens of the key are put in there afterwards. Such a key stays on one line and
has at most 1024 bytes.
-/

namespace Playbook.Yaml

/-- A place where a key without an indicator may have begun. -/
structure PossibleKey where
  /-- Whether nothing else than a key may stand there. -/
  required : Bool
  /-- How many tokens stand before it. -/
  number : Nat
  offset : Nat
  line : Nat
  column : Nat

/-- What is known while a text is cut into tokens. -/
structure Lexer where
  cursor : Cursor
  /-- The number of open brackets and braces. -/
  flow : Nat
  /-- The column of the innermost block, minus one outside of all blocks. -/
  indent : Int
  /-- The columns of the blocks around it, innermost first. -/
  outer : List Int
  /-- Whether a key without an indicator may begin here. -/
  keyAllowed : Bool
  /-- The possible key of each level, innermost first. -/
  keys : List (Option PossibleKey)
  /-- The tokens so far, last first. -/
  reversed : List Token

namespace Lexer

def start (cs : List Char) : Lexer :=
  ⟨.start cs, 0, -1, [], true, [none], []⟩

def emit (s : Lexer) (t : Token) : Lexer :=
  { s with reversed := t :: s.reversed }

/-- Puts tokens, last first, in after the first `number` tokens. -/
def insertAt (s : Lexer) (number : Nat) (ts : List Token) : Lexer :=
  let later := s.reversed.length - number
  { s with reversed := s.reversed.take later ++ ts ++ s.reversed.drop later }

/-! ## Possible keys -/

/-- The bytes that a key without an indicator may have. -/
def maxKeyLength : Nat := 1024

/-- Gives up the possible keys that are on an earlier line or too long by now; a required one may
not be given up. -/
def expireKeys (s : Lexer) : Option Lexer :=
  let expire (key : Option PossibleKey) : Option (Option PossibleKey) :=
    match key with
    | none => some none
    | some k =>
      if k.line < s.cursor.line ∨ k.offset + maxKeyLength < s.cursor.offset then
        if k.required then none else some none
      else some (some k)
  (s.keys.mapM expire).map fun keys => { s with keys }

/-- Gives up the possible key of the innermost level; a required one may not be given up. -/
def dropKey (s : Lexer) : Option Lexer :=
  match s.keys with
  | some k :: rest => if k.required then none else some { s with keys := none :: rest }
  | _ => some s

/-- Remembers that a key may begin here. -/
def saveKey (s : Lexer) : Option Lexer :=
  if s.keyAllowed then
    (dropKey s).map fun s =>
      let c := s.cursor
      let key : PossibleKey :=
        ⟨s.flow = 0 ∧ s.indent = c.column, s.reversed.length, c.offset, c.line, c.column⟩
      { s with keys := some key :: s.keys.drop 1 }
  else some s

/-! ## Indentation -/

/-- Opens a block at a column when it lies deeper than the present one. -/
def openBlock (s : Lexer) (column : Nat) : Option Lexer :=
  if s.flow = 0 ∧ s.indent < column then
    some { s with indent := column, outer := s.indent :: s.outer }
  else none

def openBlockHere (s : Lexer) (t : Token) : Lexer :=
  match s.openBlock s.cursor.column with
  | some s => s.emit t
  | none => s

/-- Closes the blocks that lie deeper than a column. -/
def closeBlocks (column : Int) : List Int → Lexer → Lexer
  | [], s => s
  | indent :: outer, s =>
    if s.flow = 0 ∧ column < s.indent then
      closeBlocks column outer { s.emit .blockEnd with indent, outer }
    else s

/-- Closes the blocks that lie deeper than a column. -/
def unroll (s : Lexer) (column : Int) : Lexer :=
  closeBlocks column s.outer s

/-! ## Indicators -/

/-- Passes over gaps, comments and line breaks. A tab is a gap except where a key may begin, and a
mark of the byte order is one at the start of a line. -/
def skipGaps : Nat → Lexer → Lexer
  | 0, s => s
  | fuel + 1, s =>
    let tabs := s.flow != 0 || !s.keyAllowed
    let c := if s.cursor.atOrderMark then s.cursor.advance 1 else s.cursor
    let c := c.skipWhile fun ch => ch == ' ' || (tabs && ch == '\t')
    let c := if c.here == '#' then c.skipWhile (!isBreak ·) else c
    if isBreak c.here then
      skipGaps fuel { s with cursor := c.nextLine, keyAllowed := s.keyAllowed || s.flow == 0 }
    else { s with cursor := c }

/-- Passes an indicator of a length and adds its token. -/
def indicator (s : Lexer) (length : Nat) (t : Token) : Lexer :=
  { s with cursor := s.cursor.advance length }.emit t

def documentMark (s : Lexer) (t : Token) : Option Lexer :=
  (s.unroll (-1)).dropKey.map fun s => { s with keyAllowed := false }.indicator 3 t

def openFlow (s : Lexer) (t : Token) : Option Lexer :=
  s.saveKey.map fun s =>
    { s with keys := none :: s.keys, flow := s.flow + 1, keyAllowed := true }.indicator 1 t

def closeFlow (s : Lexer) (t : Token) : Option Lexer :=
  s.dropKey.map fun s =>
    let keys := if s.flow = 0 then s.keys else s.keys.drop 1
    { s with keys, flow := s.flow - 1, keyAllowed := false }.indicator 1 t

def flowEntry (s : Lexer) : Option Lexer :=
  s.dropKey.map fun s => { s with keyAllowed := true }.indicator 1 .flowEntry

def blockEntry (s : Lexer) : Option Lexer :=
  if s.flow = 0 ∧ !s.keyAllowed then none
  else
    let s := if s.flow = 0 then s.openBlockHere .blockSequence else s
    s.dropKey.map fun s => { s with keyAllowed := true }.indicator 1 .blockEntry

def explicitKey (s : Lexer) : Option Lexer :=
  if s.flow = 0 ∧ !s.keyAllowed then none
  else
    let s := if s.flow = 0 then s.openBlockHere .blockMapping else s
    s.dropKey.map fun s => { s with keyAllowed := s.flow == 0 }.indicator 1 .key

/-- A colon before a value. The possible key is one now: its token is put in before it, and that of
a mapping which it opens. -/
def value (s : Lexer) : Option Lexer :=
  match s.keys with
  | some key :: rest =>
    let opened := s.openBlock key.column
    let tokens := if opened.isSome then [.key, .blockMapping] else [.key]
    let s := opened.getD s
    let s := { s.insertAt key.number tokens with keys := none :: rest, keyAllowed := false }
    some (s.indicator 1 .value)
  | _ =>
    if s.flow = 0 ∧ !s.keyAllowed then none
    else
      let s := if s.flow = 0 then s.openBlockHere .blockMapping else s
      some ({ s with keyAllowed := s.flow == 0 }.indicator 1 .value)

/-! ## Anchors and tags -/

/-- The characters that may follow the name of an anchor. -/
def endsAnchor (c : Char) : Bool :=
  isGapOrEnd c || c == '?' || c == ':' || c == ',' || c == ']' || c == '}' || c == '%' ||
    c == '@' || c.toNat == 0x60

def anchor (s : Lexer) (token : String → Token) : Option Lexer :=
  s.saveKey.bind fun s =>
    let (name, c) := (s.cursor.advance 1).takeWhile isWord
    if name = [] ∨ !endsAnchor c.here then none
    else some ({ s with cursor := c, keyAllowed := false }.emit (token (String.ofList name)))

def tag (s : Lexer) : Option Lexer :=
  s.saveKey.bind fun s =>
    (tagToken s.cursor).bind fun (t, c) =>
      if isGapOrEnd c.here || (s.flow != 0 && c.here == ',') then
        some ({ s with cursor := c, keyAllowed := false }.emit t)
      else none

/-! ## Directives -/

/-- A number of a version, of nine digits at most. -/
def versionNumber (c : Cursor) : Option (Nat × Cursor) :=
  let (digits, c) := c.takeWhile Text.isDigit
  if digits = [] ∨ 9 < digits.length then none else some (Text.decimalValue digits, c)

/-- The value of a version directive. -/
def versionToken (c : Cursor) : Option (Token × Cursor) :=
  (versionNumber (c.skipWhile isGap)).bind fun (major, c) =>
    if c.here != '.' then none
    else (versionNumber (c.advance 1)).map fun (minor, c) => (.version major minor, c)

def directive (s : Lexer) : Option Lexer :=
  (s.unroll (-1)).dropKey.bind fun s =>
    let (name, c) := (s.cursor.advance 1).takeWhile isWord
    if name = [] ∨ !isGapOrEnd c.here then none
    else
      let read :=
        if name = "YAML".toList then versionToken c
        else if name = "TAG".toList then handleToken c
        else none
      read.bind fun (t, c) =>
        let c := c.skipWhile isGap
        let c := if c.here == '#' then c.skipWhile (!isBreak ·) else c
        if !isBreakOrEnd c.here then none
        else
          let c := if isBreak c.here then c.nextLine else c
          some ({ s with cursor := c, keyAllowed := false }.emit t)

/-! ## Scalars -/

/-- A plain scalar. After it a key may begin when line breaks follow. -/
def plain (s : Lexer) : Option Lexer :=
  s.saveKey.bind fun s =>
    let c := s.cursor
    (plainWords (s.flow != 0) (s.indent + 1).toNat c.fuel c .empty []).map fun read =>
      { s with cursor := read.cursor, keyAllowed := read.broken }.emit
        (.scalar .plain (String.ofList read.reversed.reverse))

def quoted (s : Lexer) (single : Bool) : Option Lexer :=
  s.saveKey.bind fun s =>
    let c := s.cursor.advance 1
    (quotedWords single c.fuel c []).map fun (c, text) =>
      { s with cursor := c, keyAllowed := false }.emit (.scalar .quoted (String.ofList text))

def block (s : Lexer) (literal : Bool) : Option Lexer :=
  s.dropKey.bind fun s =>
    (blockScalar literal s.indent (s.cursor.advance 1)).map fun (c, text) =>
      { s with cursor := c, keyAllowed := true }.emit
        (.scalar (if literal then .literal else .folded) (String.ofList text))

def isIndicator (c : Char) : Bool :=
  "-?:,[]\x7b\x7d#&*!|>'\"%@".toList.contains c || c.toNat == 0x60

def beginsPlain (s : Lexer) : Bool :=
  let ch := s.cursor.here
  let next := s.cursor.peek 1
  !(isGapOrEnd ch || isIndicator ch) || (ch == '-' && !isGap next) ||
  (s.flow == 0 && (ch == '?' || ch == ':') && !isGapOrEnd next)

/-! ## The whole text -/

/-- Cuts off the token here, which is not the end. -/
def token (s : Lexer) : Option Lexer :=
  let c := s.cursor
  let ch := c.here
  let gapNext := isGapOrEnd (c.peek 1)
  if c.column == 0 && ch == '%' then s.directive
  else if c.atDocumentMark then s.documentMark (if ch == '-' then .documentStart else .documentEnd)
  else if ch == '[' then s.openFlow .flowSequence
  else if ch == '\x7b' then s.openFlow .flowMapping
  else if ch == ']' then s.closeFlow .flowSequenceEnd
  else if ch == '\x7d' then s.closeFlow .flowMappingEnd
  else if ch == ',' then s.flowEntry
  else if ch == '-' && gapNext then s.blockEntry
  else if ch == '?' && (s.flow != 0 || gapNext) then s.explicitKey
  else if ch == ':' && (s.flow != 0 || gapNext) then s.value
  else if ch == '*' then s.anchor .alias
  else if ch == '&' then s.anchor .anchor
  else if ch == '!' then s.tag
  else if ch == '|' && s.flow == 0 then s.block true
  else if ch == '>' && s.flow == 0 then s.block false
  else if ch == '\'' then s.quoted true
  else if ch == '"' then s.quoted false
  else if s.beginsPlain then s.plain
  else none

/-- Cuts off the tokens from here to the end. -/
def tokens : Nat → Lexer → Option (List Token)
  | 0, _ => none
  | fuel + 1, s =>
    (skipGaps s.cursor.fuel s).expireKeys.bind fun s =>
      let s := s.unroll s.cursor.column
      if isEnd s.cursor.here then (s.unroll (-1)).dropKey.map fun s => s.reversed.reverse
      else s.token.bind (tokens fuel)

end Lexer

def Token.ofText? (text : String) : Option (List Token) :=
  let cs := text.toList
  if cs.all isAllowed then (Lexer.start cs).tokens (cs.length + 1) else none

end Playbook.Yaml
