import Playbook.Fields
import Playbook.Yaml.Token.Lexer

/-!
# YAML documents

The nodes that the tokens of a stream describe: scalars, sequences and mappings with their tags, and
aliases of nodes that were anchored before. Anchors are numbered in the order of the text by the
count of names known so far, so that a name which is anchored again takes a number that the next new
name takes too. A stream holds one document, or nothing.
-/

namespace Playbook.Yaml

/-- A node of a document. -/
inductive Node where
  | scalar (anchor : Option Nat) (tag : Option Tag) (form : ScalarForm) (text : String)
  | sequence (anchor : Option Nat) (tag : Option Tag) (items : List Node)
  | mapping (anchor : Option Nat) (tag : Option Tag) (entries : List (Node × Node))
  | alias (anchor : Nat)

def Node.empty : Node :=
  .scalar none none .plain ""

/-! ## Reading tokens -/

/-- What is known while tokens are read. -/
structure NodeReader where
  tokens : List Token
  /-- The numbers of the anchored names. -/
  names : Fields Nat
  /-- What the handles of tags stand for. -/
  handles : Fields Octets

/-- A step of reading, which may fail. -/
abbrev Reading (α : Type) : Type :=
  StateT NodeReader Option α

namespace Reading

def peek : Reading (Option Token) := do
  return (← get).tokens.head?

def pass : Reading Unit :=
  modify fun s => { s with tokens := s.tokens.drop 1 }

/-- The node that an alias names; its name must be known. -/
def aliasOf (name : String) : Reading Node := do
  match Fields.get? (← get).names name with
  | some number => return .alias number
  | none => failure

/-- Numbers the anchor of a node. -/
def numberAnchor : Option String → Reading (Option Nat)
  | none => return none
  | some name => do
    let s ← get
    let number := s.names.length
    set { s with names := Fields.put s.names name number }
    return some number

/-- The tag of a handle and a suffix; the handle must be known. -/
def tagOf (handle : String) (suffix : Octets) : Reading Tag := do
  if handle = "" then return .ofOctets suffix
  match Fields.get? (← get).handles handle with
  | some expansion => return .ofParts expansion suffix
  | none => failure

/-- The anchor and the tag before a node, in either order. -/
def properties : Reading (Option String × Option (String × Octets)) := do
  match ← peek with
  | some (.anchor name) =>
    pass
    match ← peek with
    | some (.tag handle suffix) => pass; return (some name, some (handle, suffix))
    | _ => return (some name, none)
  | some (.tag handle suffix) =>
    pass
    match ← peek with
    | some (.anchor name) => pass; return (some name, some (handle, suffix))
    | _ => return (none, some (handle, suffix))
  | _ => return (none, none)

/-- Whether one of some tokens is here. -/
def isAt (ts : List Token) : Reading Bool := do
  match ← peek with
  | some t => return t ∈ ts
  | none => return false

mutual

/-- A node. In a block it may be a block; as the value of a mapping it may be a sequence whose
dashes are not indented. -/
def node : Nat → (block compact : Bool) → Reading Node
  | 0, _, _ => failure
  | fuel + 1, block, compact => do
    match ← peek with
    | some (.alias name) => pass; aliasOf name
    | _ =>
      let (anchor, tag) ← properties
      let tag ← tag.mapM fun (handle, suffix) => tagOf handle suffix
      let number ← numberAnchor anchor
      match ← peek with
      | some .blockEntry =>
        if compact then return .sequence number tag (← compactItems fuel)
        else if anchor.isSome || tag.isSome then return .scalar number tag .plain ""
        else failure
      | some (.scalar form text) => pass; return .scalar number tag form text
      | some .flowSequence => pass; return .sequence number tag (← flowItems fuel true)
      | some .flowMapping => pass; return .mapping number tag (← flowEntries fuel true)
      | some .blockSequence =>
        if block then pass; return .sequence number tag (← blockItems fuel)
        else if anchor.isSome || tag.isSome then return .scalar number tag .plain ""
        else failure
      | some .blockMapping =>
        if block then pass; return .mapping number tag (← blockEntries fuel)
        else if anchor.isSome || tag.isSome then return .scalar number tag .plain ""
        else failure
      | _ => if anchor.isSome || tag.isSome then return .scalar number tag .plain "" else failure

/-- A node, or the empty one before a token that cannot begin a node there. -/
def nodeUnless : Nat → (block compact : Bool) → List Token → Reading Node
  | 0, _, _, _ => failure
  | fuel + 1, block, compact, ends => do
    if ← isAt ends then return .empty
    node fuel block compact

/-- The items of an indented sequence, to the end of its block. -/
def blockItems : Nat → Reading (List Node)
  | 0 => failure
  | fuel + 1 => do
    match ← peek with
    | some .blockEntry =>
      pass
      let item ← nodeUnless fuel true false [.blockEntry, .blockEnd]
      return item :: (← blockItems fuel)
    | some .blockEnd => pass; return []
    | _ => failure

/-- The items of a sequence that is not indented. -/
def compactItems : Nat → Reading (List Node)
  | 0 => failure
  | fuel + 1 => do
    match ← peek with
    | some .blockEntry =>
      pass
      let item ← nodeUnless fuel true false [.blockEntry, .key, .value, .blockEnd]
      return item :: (← compactItems fuel)
    | _ => return []

/-- The entries of an indented mapping, to the end of its block. -/
def blockEntries : Nat → Reading (List (Node × Node))
  | 0 => failure
  | fuel + 1 => do
    match ← peek with
    | some .key =>
      pass
      let key ← nodeUnless fuel true true [.key, .value, .blockEnd]
      let value ← blockValue fuel
      return (key, value) :: (← blockEntries fuel)
    | some .blockEnd => pass; return []
    | _ => failure

/-- The value of an entry of an indented mapping, which may be left out. -/
def blockValue : Nat → Reading Node
  | 0 => failure
  | fuel + 1 => do
    if ← isAt [.value] then
      pass
      nodeUnless fuel true true [.key, .value, .blockEnd]
    else return .empty

/-- The items of a sequence in brackets. After the first one a comma comes before each. -/
def flowItems : Nat → (first : Bool) → Reading (List Node)
  | 0, _ => failure
  | fuel + 1, first => do
    if ← isAt [.flowSequenceEnd] then
      pass
      return []
    if !first then
      if ← isAt [.flowEntry] then pass else failure
    match ← peek with
    | some .flowSequenceEnd => pass; return []
    | some .key =>
      pass
      let entry ← flowPair fuel
      return .mapping none none [entry] :: (← flowItems fuel false)
    | _ =>
      let item ← node fuel false false
      return item :: (← flowItems fuel false)

/-- An entry that stands alone in brackets. Where its key is left out, the token there is passed. -/
def flowPair : Nat → Reading (Node × Node)
  | 0 => failure
  | fuel + 1 => do
    let key ←
      if ← isAt [.value, .flowEntry, .flowSequenceEnd] then
        pass
        pure Node.empty
      else node fuel false false
    if ← isAt [.value] then
      pass
      return (key, ← nodeUnless fuel false false [.flowEntry, .flowSequenceEnd])
    else return (key, .empty)

/-- The entries of a mapping in braces. After the first one a comma comes before each. -/
def flowEntries : Nat → (first : Bool) → Reading (List (Node × Node))
  | 0, _ => failure
  | fuel + 1, first => do
    if ← isAt [.flowMappingEnd] then
      pass
      return []
    if !first then
      if ← isAt [.flowEntry] then pass else failure
    match ← peek with
    | some .flowMappingEnd => pass; return []
    | some .key =>
      pass
      let key ← nodeUnless fuel false false [.value, .flowEntry, .flowMappingEnd]
      let value ← flowValue fuel
      return (key, value) :: (← flowEntries fuel false)
    | _ =>
      let key ← node fuel false false
      return (key, .empty) :: (← flowEntries fuel false)

/-- The value of an entry in braces, which may be left out. -/
def flowValue : Nat → Reading Node
  | 0 => failure
  | fuel + 1 => do
    if ← isAt [.value] then
      pass
      nodeUnless fuel false false [.flowEntry, .flowMappingEnd]
    else return .empty

end

/-! ## Documents -/

/-- The handles that need no declaration. -/
def defaultHandles : Fields Octets :=
  [("!", Octets.ofAscii ['!']), ("!!", Octets.ofAscii CoreKind.stem.toList)]

/-- The directives before a document, each at most once, and what the declared handles stand for. -/
def directives : Nat → (version : Bool) → Fields Octets → Reading (Fields Octets)
  | 0, _, _ => failure
  | fuel + 1, version, handles => do
    match ← peek with
    | some (.version major minor) =>
      if version || major != 1 || (minor != 1 && minor != 2) then failure
      pass
      directives fuel true handles
    | some (.handle name expansion) =>
      if Fields.has handles name then failure
      pass
      directives fuel version (handles ++ [(name, expansion)])
    | _ => return handles

/-- Whether the tokens hold nothing more than ends of documents. -/
def atStreamEnd : Reading Bool := do
  return (← get).tokens.all (· == .documentEnd)

def isDirective : Option Token → Bool
  | some (.version ..) | some (.handle ..) => true
  | _ => false

/-- The tokens before which an announced document is empty. -/
def endsDocument : Option Token → Bool
  | none | some .documentStart | some .documentEnd => true
  | t => isDirective t

/-- The one document of a stream; `none` inside for an empty stream. A document is announced by
three dashes, which may be left out when no directive comes before it. -/
def stream : Reading (Option Node) := do
  let tokens := (← get).tokens
  if tokens.isEmpty then return none
  let fuel := 3 * tokens.length + 8
  let handles ← directives fuel false []
  modify fun s => { s with handles := handles ++ defaultHandles }
  let root ←
    if ← isAt [.documentStart] then
      pass
      if endsDocument (← peek) then pure Node.empty else node fuel true false
    else if isDirective tokens.head? then failure
    else node fuel true false
  if ← atStreamEnd then return some root else failure

end Reading

/-- The document of a stream: `none` outside when the text is malformed or holds several documents,
`none` inside when it holds nothing. -/
def Node.ofText? (text : String) : Option (Option Node) :=
  (Token.ofText? text).bind fun tokens => (Reading.stream.run ⟨tokens, [], []⟩).map (·.1)

end Playbook.Yaml
