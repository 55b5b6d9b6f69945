import Playbook.Yaml.Cursor
import Playbook.Yaml.Scalar

/-!
# Scalar styles

How a text is written so that it reads back as the same text. A plain text is written as it stands.
It is put in single quotes when it would read as something else, or when it holds an indicator. A
text of several lines is written as a literal block. What neither can hold is put in double quotes,
where every character has an escape.
-/

namespace Playbook.Yaml

/-! ## What a text holds -/

def isShown (c : Char) : Bool :=
  let n := c.toNat
  n == 0x0A || (0x20 ≤ n && n ≤ 0x7E) ||
  (0xA0 ≤ n && n != 0xFEFF && n != 0xFFFE && n != 0xFFFF)

def isSpace (c : Char) : Bool :=
  c == ' '

def isSpaceOrBreak (c : Char) : Bool :=
  isSpace c || isBreak c

def endsWord (cs : List Char) : Bool :=
  (cs.head?.map isGapOrEnd).getD true

def isLeadIndicator (c : Char) : Bool :=
  c ∈ "#,[]\x7b\x7d&*!|>'\"%@`".toList

def hasLeadIndicator : List Char → Bool
  | '-' :: '-' :: '-' :: _ | '.' :: '.' :: '.' :: _ => true
  | c :: rest => isLeadIndicator c || ((c == '?' || c == ':' || c == '-') && endsWord rest)
  | [] => false

/-- Whether an indicator comes after the character `before`: a colon at the end of a word, or a
number sign at its start. -/
def hasInnerIndicator (before : Char) : List Char → Bool
  | [] => false
  | c :: rest =>
    (c == ':' && endsWord rest) || (c == '#' && isGapOrEnd before) || hasInnerIndicator c rest

/-- Whether characters hold an indicator. -/
def hasIndicator (cs : List Char) : Bool :=
  hasLeadIndicator cs ||
  match cs with
  | [] => false
  | first :: rest => hasInnerIndicator first rest

/-- Whether a character of one kind is followed at once by a character of another kind. -/
def hasPair (first second : Char → Bool) : List Char → Bool
  | c :: d :: rest => (first c && second d) || hasPair first second (d :: rest)
  | _ => false

/-- Whether the first or the last character is of a kind. -/
def hasAtEnds (test : Char → Bool) (cs : List Char) : Bool :=
  (cs.head?.map test).getD false || (cs.getLast?.map test).getD false

/-- What only double quotes can hold: characters that are not shown, and spaces at the end of a line
with a break. -/
def needsEscapes (cs : List Char) : Bool :=
  cs.any (fun c => !isShown c) || hasPair isSpace isBreak cs

def fitsSingle (cs : List Char) : Bool :=
  !needsEscapes cs && !hasPair isBreak isSpace cs

def fitsPlain (cs : List Char) : Bool :=
  !needsEscapes cs && !cs.any isBreak && !hasAtEnds isSpace cs && !hasIndicator cs

def fitsLiteral (cs : List Char) : Bool :=
  !needsEscapes cs && !((cs.getLast?.map isSpace).getD false)

def isAmbiguous (text : String) : Bool :=
  Scalar.isPaddedDigits text.toList ||
  match Scalar.ofPlain text with
  | .string _ => false
  | _ => true

/-! ## Styles -/

inductive Style where
  | plain | single | double | literal
  deriving DecidableEq

def Style.of (text : String) : Style :=
  let cs := text.toList
  if '\n' ∈ cs then if fitsLiteral cs then .literal else .double
  else if !isAmbiguous text && fitsPlain cs then .plain
  else if fitsSingle cs then .single
  else .double

/-- Characters of one width in uppercase hexadecimal. -/
def hexEscape (mark : Char) (width n : Nat) : List Char :=
  '\\' :: mark :: (Text.hexDigits width n).map Char.toUpper

/-- The letter that stands for a character in double quotes. -/
def escapeLetter? (n : Nat) : Option Char :=
  match n with
  | 0x00 => some '0'
  | 0x07 => some 'a'
  | 0x08 => some 'b'
  | 0x09 => some 't'
  | 0x0A => some 'n'
  | 0x0B => some 'v'
  | 0x0C => some 'f'
  | 0x0D => some 'r'
  | 0x1B => some 'e'
  | 0x22 => some '"'
  | 0x5C => some '\\'
  | 0x85 => some 'N'
  | 0xA0 => some '_'
  | 0x2028 => some 'L'
  | 0x2029 => some 'P'
  | _ => none

def escaped (c : Char) : List Char :=
  if isShown c && !isBreak c && c != '"' && c != '\\' then [c]
  else
    let n := c.toNat
    match escapeLetter? n with
    | some letter => ['\\', letter]
    | none =>
      if n ≤ 0xFF then hexEscape 'x' 2 n
      else if n ≤ 0xFFFF then hexEscape 'u' 4 n
      else hexEscape 'U' 8 n

def indentation (width : Nat) : List Char :=
  List.replicate width ' '

/-- Characters with each line that is not empty indented; `fresh` tells whether a line begins. -/
def indentLines (width : Nat) : (fresh : Bool) → List Char → List Char
  | _, [] => []
  | fresh, c :: rest =>
    if isBreak c then c :: indentLines width true rest
    else (if fresh then indentation width else []) ++ c :: indentLines width false rest

/-- Characters in single quotes: a quote is written twice, and a line after a break is indented. -/
def single (width : Nat) (cs : List Char) : List Char :=
  '\'' :: indentLines width false (cs.flatMap (fun c => if c = '\'' then [c, c] else [c]) ++ ['\''])

/-- What follows the mark of a literal block: the width of its indentation where the text begins
with a space or a break, and what becomes of the break at its end. -/
def literalHints (cs : List Char) : List Char :=
  (if (cs.head?.map isSpaceOrBreak).getD false then ['2'] else []) ++
  match cs.reverse with
  | [] => ['-']
  | last :: before =>
    if !isBreak last then ['-']
    else if (before.head?.map isBreak).getD true then ['+']
    else []

def literal (width : Nat) (cs : List Char) : List Char :=
  '|' :: literalHints cs ++ '\n' :: indentLines width true cs

/-- A line of characters with its break, unless they end with one. -/
def closeLine (cs : List Char) : List Char :=
  if (cs.getLast?.map isBreak).getD false then cs else cs ++ ['\n']

/-- A text as a scalar, its further lines indented. -/
def writeText (width : Nat) (text : String) : List Char :=
  match Style.of text with
  | .plain => text.toList
  | .single => single width text.toList
  | .double => '"' :: text.toList.flatMap escaped ++ ['"']
  | .literal => literal width text.toList

end Playbook.Yaml
