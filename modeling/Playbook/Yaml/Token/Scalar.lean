import Playbook.Yaml.Cursor

/-!
# Reading YAML scalars

The text of plain, quoted and block scalars, with line breaks folded: one break between two words is
a space, and of several the first is dropped. Block scalars in the literal form keep their breaks.
-/

namespace Playbook.Yaml

/-! ## Gaps between words -/

/-- What stands between two words of a scalar: spaces, or line breaks, the first one apart. -/
structure Gap where
  spaces : List Char
  broken : Bool
  first : List Char
  more : List Char

namespace Gap

def empty : Gap :=
  ⟨[], false, [], []⟩

def escaped : Gap :=
  ⟨[], true, [], []⟩

/-- The text that a gap folds to. -/
def folded (gap : Gap) : List Char :=
  if gap.broken then
    if gap.first = ['\n'] then
      if gap.more = [] then [' '] else gap.more
    else gap.first ++ gap.more
  else gap.spaces

/-- Reads a gap. In a plain scalar a tab may not stand for the indentation `indent` of a line. -/
def read (indent : Nat) : Nat → Cursor → Gap → Option (Cursor × Gap)
  | 0, _, _ => none
  | fuel + 1, c, gap =>
    let ch := c.here
    if isGap ch then
      if gap.broken then
        if ch == '\t' && c.column < indent then none else read indent fuel (c.advance 1) gap
      else read indent fuel (c.advance 1) { gap with spaces := gap.spaces ++ [ch] }
    else if isBreak ch then
      let gap :=
        if gap.broken then { gap with more := gap.more ++ c.breakText }
        else { gap with spaces := [], broken := true, first := c.breakText }
      read indent fuel c.nextLine gap
    else some (c, gap)

end Gap

/-! ## Plain scalars -/

/-- The indicators that end a plain scalar inside brackets or braces. -/
def isFlowIndicator (c : Char) : Bool :=
  c == ',' || c == '[' || c == ']' || c == '{' || c == '}'

/-- One word of a plain scalar, last character first. -/
def plainWord (flow : Bool) : Nat → Cursor → List Char → Option (Cursor × List Char)
  | 0, _, _ => none
  | fuel + 1, c, word =>
    let ch := c.here
    if isGapOrEnd ch then some (c, word)
    else if flow && ch == ':' && (isFlowIndicator (c.peek 1) || c.peek 1 == '?') then none
    else if (ch == ':' && isGapOrEnd (c.peek 1)) || (flow && isFlowIndicator ch) then some (c, word)
    else plainWord flow fuel (c.advance 1) (ch :: word)

/-- A scalar that was read: the cursor after it, its characters last first, and whether line breaks
follow it that belong to no scalar. -/
structure PlainScalar where
  cursor : Cursor
  reversed : List Char
  broken : Bool

/-- The words of a plain scalar of lines indented to `indent`, and the gap before the next. -/
def plainWords (flow : Bool) (indent : Nat) : Nat → Cursor → Gap → List Char → Option PlainScalar
  | 0, _, _, _ => none
  | fuel + 1, c, gap, reversed =>
    if c.atDocumentMark || c.here == '#' then some ⟨c, reversed, gap.broken⟩
    else
      (plainWord flow c.fuel c []).bind fun (c, word) =>
        let (reversed, gap) :=
          if word = [] then (reversed, gap) else (word ++ gap.folded.reverse ++ reversed, Gap.empty)
        if !(isGap c.here || isBreak c.here) then some ⟨c, reversed, gap.broken⟩
        else
          (Gap.read indent c.fuel c gap).bind fun (c, gap) =>
            if !flow && c.column < indent then some ⟨c, reversed, gap.broken⟩
            else plainWords flow indent fuel c gap reversed

/-! ## Quoted scalars -/

/-- The character that a one-letter escape stands for. -/
def escape? (c : Char) : Option Char :=
  match c with
  | '0' => some '\x00'
  | 'a' => some '\x07'
  | 'b' => some '\x08'
  | 't' => some '\t'
  | '\t' => some '\t'
  | 'n' => some '\n'
  | 'v' => some '\x0b'
  | 'f' => some '\x0c'
  | 'r' => some '\r'
  | 'e' => some '\x1b'
  | ' ' => some ' '
  | '"' => some '"'
  | '/' => some '/'
  | '\\' => some '\\'
  | 'N' => some '\u0085'
  | '_' => some '\u00a0'
  | 'L' => some '\u2028'
  | 'P' => some '\u2029'
  | _ => none

/-- How many hexadecimal digits follow the letter of an escape. -/
def escapeLength? (c : Char) : Option Nat :=
  match c with
  | 'x' => some 2
  | 'u' => some 4
  | 'U' => some 8
  | _ => none

/-- The character of a code point; a surrogate has none. -/
def scalarChar? (n : Nat) : Option Char :=
  if (0xD800 ≤ n ∧ n ≤ 0xDFFF) ∨ 0x10FFFF < n then none else some (Char.ofNat n)

/-- The escape after a backslash: its character, and how many characters it takes. -/
def readEscape (c : Cursor) : Option (Char × Nat) :=
  match escapeLength? (c.peek 1) with
  | some length =>
    let digits := (c.rest.drop 2).take length
    if digits.length = length then
      ((Text.digits? 16 digits).bind scalarChar?).map fun ch => (ch, length + 2)
    else none
  | none => (escape? (c.peek 1)).map fun ch => (ch, 2)

/-- One word of a quoted scalar, last character first, up to a gap, the closing quote or an escaped
line break; the flag tells of the last. -/
def quotedWord (single : Bool) : Nat → Cursor → List Char → Option (Cursor × List Char × Bool)
  | 0, _, _ => none
  | fuel + 1, c, word =>
    let ch := c.here
    if isGapOrEnd ch then some (c, word, false)
    else if single then
      if ch == '\'' then
        if c.peek 1 == '\'' then quotedWord single fuel (c.advance 2) ('\'' :: word)
        else some (c, word, false)
      else quotedWord single fuel (c.advance 1) (ch :: word)
    else if ch == '"' then some (c, word, false)
    else if ch == '\\' then
      if isBreak (c.peek 1) then some ((c.advance 1).nextLine, word, true)
      else
        (readEscape c).bind fun (escaped, length) =>
          quotedWord single fuel (c.advance length) (escaped :: word)
    else quotedWord single fuel (c.advance 1) (ch :: word)

/-- The rest of a quoted scalar up to its closing quote: the cursor after it, and the characters. -/
def quotedWords (single : Bool) : Nat → Cursor → List Char → Option (Cursor × List Char)
  | 0, _, _ => none
  | fuel + 1, c, reversed =>
    if c.atDocumentMark || isEnd c.here then none
    else
      (quotedWord single c.fuel c []).bind fun (c, word, escapedBreak) =>
        let reversed := word ++ reversed
        if c.here == (if single then '\'' else '"') then some (c.advance 1, reversed.reverse)
        else
          let gap := if escapedBreak then Gap.escaped else Gap.empty
          (Gap.read 0 c.fuel c gap).bind fun (c, gap) =>
            quotedWords single fuel c (gap.folded.reverse ++ reversed)

/-! ## Block scalars -/

inductive Chomping where
  | strip | clip | keep
  deriving DecidableEq

def Chomping.ofChar? (c : Char) : Option Chomping :=
  if c == '+' then some .keep else if c == '-' then some .strip else none

/-- An indentation indicator, a digit other than zero; `none` inside when there is none, `none`
outside when it is zero. -/
def readIncrement (c : Cursor) : Option (Option Nat × Cursor) :=
  if Text.isDigit c.here then
    if c.here == '0' then none else some (some (c.here.toNat - 48), c.advance 1)
  else some (none, c)

/-- The indicators after the mark of a block scalar, in either order. -/
def readIndicators (c : Cursor) : Option (Chomping × Option Nat × Cursor) :=
  match Chomping.ofChar? c.here with
  | some chomping =>
    (readIncrement (c.advance 1)).map fun (increment, c) => (chomping, increment, c)
  | none =>
    (readIncrement c).map fun (increment, c) =>
      match increment, Chomping.ofChar? c.here with
      | some _, some chomping => (chomping, increment, c.advance 1)
      | _, _ => (.clip, increment, c)

/-- The empty lines ahead: their breaks, and the deepest column of spaces that was met. Without an
indentation all spaces are passed. A tab in the indentation is refused. -/
def blockBreaks (indent : Option Nat) : Nat → Cursor → List Char → Nat →
    Option (Cursor × List Char × Nat)
  | 0, _, _, _ => none
  | fuel + 1, c, breaks, deepest =>
    let inside (c : Cursor) : Bool := match indent with
      | none => true
      | some n => c.column < n
    let spaces := (c.rest.takeWhile (· == ' ')).length
    let wanted := match indent with
      | none => spaces
      | some n => min spaces (n - c.column)
    let c := c.advance wanted
    let deepest := max deepest c.column
    if inside c && c.here == '\t' then none
    else if isBreak c.here then blockBreaks indent fuel c.nextLine (breaks ++ c.breakText) deepest
    else some (c, breaks, deepest)

/-- The lines of a block scalar from `c` on, where `text` was read, `line` is the break after it and
`breaks` are those of the empty lines that follow. -/
def blockLines (literal : Bool) (indent : Nat) : Nat → Cursor → (blank : Bool) →
    (text line breaks : List Char) → Option (Cursor × List Char × List Char × List Char)
  | 0, _, _, _, _, _ => none
  | fuel + 1, c, blank, text, line, breaks =>
    if c.column = indent ∧ !isEnd c.here then
      let nextBlank := isGap c.here
      let text :=
        if !literal && line == ['\n'] && !blank && !nextBlank then
          if breaks = [] then text ++ [' '] else text ++ breaks
        else text ++ line ++ breaks
      let (content, c) := c.takeWhile (!isBreak ·)
      let line := c.breakText
      (blockBreaks (some indent) c.fuel c.nextLine [] 0).bind fun (c, breaks, _) =>
        blockLines literal indent fuel c nextBlank (text ++ content) line breaks
    else some (c, text, line, breaks)

/-- A block scalar after its mark, in a block at `parent`: the cursor after it, its characters. -/
def blockScalar (literal : Bool) (parent : Int) (c : Cursor) : Option (Cursor × List Char) :=
  (readIndicators c).bind fun (chomping, increment, c) =>
    let c := c.skipWhile isGap
    let c := if c.here == '#' then c.skipWhile (!isBreak ·) else c
    if !isBreakOrEnd c.here then none
    else
      let c := if isBreak c.here then c.nextLine else c
      let given := increment.map fun (n : Nat) => if 0 ≤ parent then (parent + n).toNat else n
      (blockBreaks given c.fuel c [] 0).bind fun (c, breaks, deepest) =>
        let indent := given.getD (max (max deepest (parent + 1).toNat) 1)
        (blockLines literal indent c.fuel c false [] [] breaks).map fun (c, text, line, breaks) =>
          let text := if chomping = .strip then text else text ++ line
          let text := if chomping = .keep then text ++ breaks else text
          (c, text)

end Playbook.Yaml
