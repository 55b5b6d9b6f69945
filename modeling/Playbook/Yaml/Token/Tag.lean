import Playbook.Yaml.Cursor
import Playbook.Yaml.Token

/-!
# Reading YAML tags

A tag is verbatim, between angle brackets, or a suffix after a handle, where a single exclamation
mark is a handle too. The value of a tag directive says what a handle stands for. A percent sign and
two hexadecimal digits stand for an octet; escaped octets come in the number that the first of them
tells.
-/

namespace Playbook.Yaml

/-! ## Octets -/

/-- The characters of tags; verbatim ones may hold more of them. -/
def isTagChar (verbatim : Bool) (c : Char) : Bool :=
  isWord c || ";/?:@&=+$.%!~*'()".toList.contains c || (verbatim && ",[]".toList.contains c)

/-- The octet that two hexadecimal digits after a percent sign spell. -/
def octet? : List Char → Option (UInt8 × List Char)
  | '%' :: a :: b :: rest => (Text.digits? 16 [a, b]).map fun n => (n.toUInt8, rest)
  | _ => none

/-- How many octets have to follow a leading octet; `none` when it cannot lead. -/
def followers? (octet : UInt8) : Option Nat :=
  if octet < 0x80 then some 0
  else if octet < 0xC0 then none
  else if octet < 0xE0 then some 1
  else if octet < 0xF0 then some 2
  else if octet < 0xF8 then some 3
  else none

/-- A number of escaped octets that may not lead. -/
def following? : Nat → List Char → Option (Octets × List Char)
  | 0, cs => some ([], cs)
  | count + 1, cs =>
    (octet? cs).bind fun (octet, rest) =>
      if 0x80 ≤ octet ∧ octet < 0xC0 then
        (following? count rest).map fun (octets, rest) => (octet :: octets, rest)
      else none

/-- The escaped octets at the start, as many as the first one tells. -/
def escapedOctets? (cs : List Char) : Option (Octets × List Char) :=
  (octet? cs).bind fun (octet, rest) =>
    (followers? octet).bind fun count =>
      (following? count rest).map fun (octets, rest) => (octet :: octets, rest)

/-- The octets that a run of tag characters spells, its escapes resolved. -/
def unescaped? : Nat → List Char → Option Octets
  | 0, _ => none
  | _ + 1, [] => some []
  | fuel + 1, c :: cs =>
    if c == '%' then
      (escapedOctets? (c :: cs)).bind fun (octets, rest) =>
        (unescaped? fuel rest).map (octets ++ ·)
    else (unescaped? fuel cs).map (Octets.ofAscii [c] ++ ·)

/-- A run of tag characters. -/
def tagOctets (verbatim : Bool) (c : Cursor) : Option (Octets × Cursor) :=
  let (raw, c) := c.takeWhile (isTagChar verbatim)
  (unescaped? (raw.length + 1) raw).map fun octets => (octets, c)

/-! ## Tags and handles -/

/-- The word after an exclamation mark, and the mark that may close it. -/
def tagHandle (c : Cursor) : List Char × Cursor :=
  let (word, c) := (c.advance 1).takeWhile isWord
  if c.here == '!' then ('!' :: word ++ ['!'], c.advance 1) else ('!' :: word, c)

/-- A tag in one of its forms: verbatim, a suffix under a handle, or one of the document's own. The
mark that stands alone is a verbatim tag. -/
def tagToken (c : Cursor) : Option (Token × Cursor) :=
  if c.peek 1 == '<' then
    (tagOctets true (c.advance 2)).bind fun (octets, c) =>
      if octets = [] ∨ c.here != '>' then none else some (.tag "" octets, c.advance 1)
  else
    let (handle, c) := tagHandle c
    (tagOctets false c).bind fun (octets, c) =>
      if 1 < handle.length ∧ handle.getLast? = some '!' then
        if octets = [] then none else some (.tag (String.ofList handle) octets, c)
      else
        let suffix := Octets.ofAscii (handle.drop 1) ++ octets
        if suffix.beforeZero = [] then some (.tag "" (Octets.ofAscii ['!']), c)
        else some (.tag "!" suffix, c)

/-- The value of a tag directive: a handle and what it stands for. -/
def handleToken (c : Cursor) : Option (Token × Cursor) :=
  let c := c.skipWhile isGap
  if c.here != '!' then none
  else
    let (handle, c) := tagHandle c
    if handle ≠ ['!'] ∧ handle.getLast? ≠ some '!' then none
    else if !isGap c.here then none
    else
      (tagOctets true (c.skipWhile isGap)).bind fun (octets, c) =>
        if octets = [] ∨ !isGapOrEnd c.here then none
        else some (.handle (String.ofList handle) octets, c)

end Playbook.Yaml
