import Playbook.Proofs.Convert.Overrides
import Playbook.Proofs.Text.Numeral

/-!
# Spellings of declared types

The texts that are read as a type are given by a grammar of characters, from which lists, tuples,
byte strings of any length and fixed-point numbers stay out. A type that is read has a width or
length of its family, and types with such a width are told apart by their printed forms. The main
statement: the reader takes the grammar and nothing else, conversions that are kept under printed
types serve each type as its own do, and all spellings of a type are converted alike.
-/

namespace Playbook

namespace SolidityType

open Text

/-- A decimal numeral, alone or after a plus sign. -/
def Counts (cs : List Char) (n : Nat) : Prop :=
  Numeral 10 cs n ∨ ∃ digits, cs = '+' :: digits ∧ Numeral 10 digits n

/-- The widths of integers are the multiples of eight up to 256. -/
def IsWidth (bits : Nat) : Prop :=
  bits % 8 = 0 ∧ 8 ≤ bits ∧ bits ≤ 256

/-- Byte strings have one to 32 bytes. -/
def IsLength (length : Nat) : Prop :=
  1 ≤ length ∧ length ≤ 32

/-- The spellings of a type: a word, or a word and a width or length. -/
inductive Spells : List Char → SolidityType → Prop where
  | address : Spells "address".toList .address
  | bool : Spells "bool".toList .bool
  | string : Spells "string".toList .string
  | uint : Spells "uint".toList (.uint 256)
  | uintOf {cs : List Char} {bits : Nat} (h : Counts cs bits) (hw : IsWidth bits) :
      Spells ("uint".toList ++ cs) (.uint bits)
  | int : Spells "int".toList (.int 256)
  | intOf {cs : List Char} {bits : Nat} (h : Counts cs bits) (hw : IsWidth bits) :
      Spells ("int".toList ++ cs) (.int bits)
  | fixedBytes {cs : List Char} {length : Nat} (h : Counts cs length) (hl : IsLength length) :
      Spells ("bytes".toList ++ cs) (.fixedBytes length)

/-- The spellings of other types: lists, tuples, byte strings of any length, fixed-point numbers. -/
inductive Foreign : List Char → Prop where
  | list (element length : List Char) : Foreign (element ++ '[' :: length ++ [']'])
  | tuple (rest : List Char) : Foreign ("tuple".toList ++ rest)
  | components (rest : List Char) : Foreign ('(' :: rest)
  | bytes : Foreign "bytes".toList
  | fixed (rest : List Char) : Foreign ("fixed".toList ++ rest)
  | ufixed (rest : List Char) : Foreign ("ufixed".toList ++ rest)

/-- The width or length is one that the family has. -/
def Supported : SolidityType → Prop
  | .uint bits | .int bits => IsWidth bits
  | .fixedBytes length => IsLength length
  | .address | .bool | .string => True

/-! ## Reading -/

theorem not_counts_nil (n : Nat) : ¬ Counts [] n := by
  rintro (h | ⟨digits, h, -⟩)
  · exact h.1 rfl
  · cases h

theorem width?_eq_some_iff {cs : List Char} {bits : Nat} :
    width? cs = some bits ↔ cs = [] ∧ bits = 256 ∨ Counts cs bits ∧ IsWidth bits := by
  unfold width?
  split
  · rename_i hnil
    subst hnil
    simp [not_counts_nil, eq_comm]
  · rename_i hcs
    rw [Option.filter_eq_some_iff, unsigned?_eq_some_iff, decide_eq_true_eq]
    unfold IsWidth
    constructor
    · rintro ⟨⟨h, -⟩, hw⟩
      exact .inr ⟨h, hw⟩
    · rintro (⟨hnil, -⟩ | ⟨h, hw⟩)
      · exact absurd hnil hcs
      -- A width that there is stays below the bound of the reader.
      · exact ⟨⟨h, by omega⟩, hw⟩

theorem length?_eq_some_iff {cs : List Char} {length : Nat} :
    length? cs = some length ↔ Counts cs length ∧ IsLength length := by
  unfold length? IsLength
  rw [Option.filter_eq_some_iff, unsigned?_eq_some_iff, decide_eq_true_eq]
  constructor
  · rintro ⟨⟨h, -⟩, hl⟩
    exact ⟨h, hl⟩
  · rintro ⟨h, hl⟩
    exact ⟨⟨h, by omega⟩, hl⟩

/-- Exactly the spellings of a type are read as it. -/
theorem ofChars?_eq_some_iff {cs : List Char} {type : SolidityType} :
    ofChars? cs = some type ↔ Spells cs type := by
  constructor
  · intro h
    unfold ofChars? at h
    split at h
    · rename_i hcs
      cases h
      exact hcs ▸ .address
    split at h
    · rename_i hcs
      cases h
      exact hcs ▸ .bool
    split at h
    · rename_i hcs
      cases h
      exact hcs ▸ .string
    split at h
    · obtain ⟨bits, hwidth, rfl⟩ := Option.map_eq_some_iff.1 h
      rcases width?_eq_some_iff.1 hwidth with ⟨rfl, rfl⟩ | ⟨hbits, hw⟩
      · exact .uint
      · exact .uintOf hbits hw
    · obtain ⟨bits, hwidth, rfl⟩ := Option.map_eq_some_iff.1 h
      rcases width?_eq_some_iff.1 hwidth with ⟨rfl, rfl⟩ | ⟨hbits, hw⟩
      · exact .int
      · exact .intOf hbits hw
    · obtain ⟨length, hlength, rfl⟩ := Option.map_eq_some_iff.1 h
      obtain ⟨hlength, hl⟩ := length?_eq_some_iff.1 hlength
      exact .fixedBytes hlength hl
    · cases h
  · intro h
    cases h with
    | address | bool | string | uint | int => rfl
    | @uintOf cs bits hbits hw =>
      have hread : ofChars? ("uint".toList ++ cs) = (width? cs).map .uint := rfl
      rw [hread, width?_eq_some_iff.2 (.inr ⟨hbits, hw⟩), Option.map_some]
    | @intOf cs bits hbits hw =>
      have hread : ofChars? ("int".toList ++ cs) = (width? cs).map .int := rfl
      rw [hread, width?_eq_some_iff.2 (.inr ⟨hbits, hw⟩), Option.map_some]
    | @fixedBytes cs length hlength hl =>
      have hread : ofChars? ("bytes".toList ++ cs) = (length? cs).map .fixedBytes := rfl
      rw [hread, length?_eq_some_iff.2 ⟨hlength, hl⟩, Option.map_some]

/-! ## Other types -/

theorem Counts.char {cs : List Char} {n : Nat} {c : Char} (h : Counts cs n) (hc : c ∈ cs) :
    c = '+' ∨ (digit? 10 c).isSome = true := by
  rcases h with h | ⟨digits, rfl, h⟩
  · exact .inr (h.isSome_digit? hc)
  · rcases List.mem_cons.1 hc with rfl | hc
    · exact .inl rfl
    · exact .inr (h.isSome_digit? hc)

/-- A spelling has no blank and no closing bracket in it. -/
theorem Spells.clean {cs : List Char} {type : SolidityType} (h : Spells cs type) :
    ∀ c ∈ cs, isBlank c = false ∧ c ≠ ']' := by
  -- The words are checked one by one, and a count has digits and a plus sign only.
  have hword {word : List Char} (hall : word.all fun c => !isBlank c && c != ']') :
      ∀ c ∈ word, isBlank c = false ∧ c ≠ ']' := by
    simpa using hall
  have hcounts {rest : List Char} {n : Nat} (hrest : Counts rest n) :
      ∀ c ∈ rest, isBlank c = false ∧ c ≠ ']' := by
    intro c hc
    rcases hrest.char hc with rfl | hdigit
    · decide
    · refine ⟨not_isBlank_of_digit? hdigit, ?_⟩
      rintro rfl
      cases hdigit
  cases h with
  | address | bool | string | uint | int => exact hword (by decide)
  | uintOf h _ | intOf h _ | fixedBytes h _ =>
    exact List.forall_mem_append.2 ⟨hword (by decide), hcounts h⟩

theorem Spells.not_foreign {cs : List Char} {type : SolidityType} (h : Spells cs type) :
    ¬ Foreign cs := by
  intro hforeign
  have hread := ofChars?_eq_some_iff.2 h
  cases hforeign with
  | list element length => exact (h.clean ']' (by simp)).2 rfl
  -- The other words are refused whatever stands after them.
  | tuple rest | components rest | bytes | fixed rest | ufixed rest => cases hread

/-! ## Printing -/

theorem Spells.supported {cs : List Char} {type : SolidityType} (h : Spells cs type) :
    type.Supported := by
  cases h with
  | address | bool | string => trivial
  | uint | int => exact ⟨by decide, by decide, by decide⟩
  | uintOf _ hw | intOf _ hw => exact hw
  | fixedBytes _ hl => exact hl

/-- A supported type is spelled as it is printed. -/
theorem Supported.spells {type : SolidityType} (h : type.Supported) :
    Spells type.display.toList type := by
  have hdisplay (word : String) (n : Nat) :
      (word ++ n.repr).toList = word.toList ++ Nat.toDigits 10 n := by
    rw [String.toList_append, Nat.toList_repr]
  cases type with
  | address => exact .address
  | bool => exact .bool
  | string => exact .string
  | uint bits => exact (hdisplay "uint" bits).symm ▸ .uintOf (.inl (numeral_toDigits bits)) h
  | int bits => exact (hdisplay "int" bits).symm ▸ .intOf (.inl (numeral_toDigits bits)) h
  | fixedBytes length =>
    exact (hdisplay "bytes" length).symm ▸ .fixedBytes (.inl (numeral_toDigits length)) h

theorem parse?_eq_some_iff {text : String} {type : SolidityType} :
    parse? text = some type ↔ Spells (trimChars text.toList) type :=
  ofChars?_eq_some_iff

theorem Supported.parse?_display {type : SolidityType} (h : type.Supported) :
    parse? type.display = some type := by
  have htrim : trimChars type.display.toList = type.display.toList :=
    trimChars_of_not_blank fun c hc => (h.spells.clean c hc).1
  rw [parse?_eq_some_iff, htrim]
  exact h.spells

/-- Supported types are told apart by their printed forms. -/
theorem Supported.display_inj {type other : SolidityType} (h : type.Supported)
    (ho : other.Supported) : type.display = other.display ↔ type = other := by
  refine ⟨fun hdisplay => ?_, fun htype => htype ▸ rfl⟩
  -- Each type is read back from its printed form.
  have hread := h.parse?_display
  rw [hdisplay, ho.parse?_display] at hread
  exact (Option.some.inj hread).symm

end SolidityType

/-! ## Tables under printed types -/

/-- The name of the declared type in an error. -/
def Error.declaredAs (declared : String) : Error → Error
  | .coercion _ message => .coercion declared message
  | e => e

namespace Coercer

open SolidityType (parse?)

/-- The conversions in force, where those of single types are kept under the printed type. -/
structure ByName where
  families : Family → ConversionTable
  exact : Fields ConversionTable
  aliased : Family → Bool

namespace ByName

def default : ByName :=
  ⟨Family.defaults, [], fun _ => false⟩

def addTable (coercer : ByName) (key : String) (table : ConversionTable) : ByName :=
  match Overrides.target? key with
  | none => coercer
  | some (.family family) =>
    { coercer with
      families := fun f =>
        if f = family then (coercer.families f).overriddenBy table else coercer.families f
      aliased := fun f => f = family || coercer.aliased f }
  | some (.type type) =>
    { coercer with
      exact := Fields.put coercer.exact type.display
        ((coercer.families type.family).overriddenBy table) }

def ofOverrides (overrides : Overrides) : ByName :=
  overrides.tables.foldl (fun coercer entry => coercer.addTable entry.1 entry.2) default

def tableFor (coercer : ByName) (type : SolidityType) : ConversionTable :=
  if coercer.aliased type.family then coercer.families type.family
  else (Fields.get? coercer.exact type.display).getD (coercer.families type.family)

def coerce (coercer : ByName) (declared : String) (v : Value) : Except Error Value :=
  match parse? declared with
  | none => .error (.unsupportedType declared)
  | some type => Overrides.converted declared v (coercer.tableFor type v.shape)

end ByName

/-- The same conversions are in force, as far as types are supported. -/
structure Keeps (named : ByName) (coercer : Coercer) : Prop where
  families : named.families = coercer.families
  aliased : named.aliased = coercer.aliased
  exact (type : SolidityType) (h : type.Supported) :
    Fields.get? named.exact type.display = coercer.exact type

theorem supported_of_target? {key : String} {type : SolidityType}
    (h : Overrides.target? key = some (.type type)) : type.Supported := by
  simp only [Overrides.target?] at h
  split at h
  · cases h
  · obtain ⟨_, hread, htype⟩ := Option.map_eq_some_iff.1 h
    cases htype
    exact (SolidityType.parse?_eq_some_iff.1 hread).supported

theorem keeps_default : Keeps ByName.default default where
  families := rfl
  aliased := rfl
  exact _ _ := rfl

/-- A table that is put under a printed type counts for that type alone. -/
theorem Keeps.addTable {named : ByName} {coercer : Coercer} (h : Keeps named coercer)
    (key : String) (table : ConversionTable) :
    Keeps (named.addTable key table) (coercer.addTable key table) := by
  obtain ⟨hfamilies, haliased, hexact⟩ := h
  rw [Overrides.addTable_eq, ByName.addTable]
  match htarget : Overrides.target? key with
  | none => exact ⟨hfamilies, haliased, hexact⟩
  | some (.family family) =>
    refine ⟨?_, ?_, hexact⟩
    · simp only [hfamilies]
    · simp only [haliased]
  | some (.type type) =>
    refine ⟨hfamilies, haliased, fun other ho => ?_⟩
    -- Another supported type has another printed form, so that its table stays.
    have hdisplay := ho.display_inj (supported_of_target? htarget)
    by_cases hother : other = type
    · subst hother
      simp [hfamilies]
    · rw [Fields.get?_put_of_ne _ _ (mt hdisplay.1 hother), hexact other ho]
      exact (if_neg hother).symm

theorem keeps_ofOverrides (overrides : Overrides) :
    Keeps (ByName.ofOverrides overrides) (ofOverrides overrides) := by
  have hfold (tables : Fields ConversionTable) {named : ByName} {coercer : Coercer}
      (h : Keeps named coercer) :
      Keeps (tables.foldl (fun coercer entry => coercer.addTable entry.1 entry.2) named)
        (tables.foldl (fun coercer entry => coercer.addTable entry.1 entry.2) coercer) := by
    induction tables generalizing named coercer with
    | nil => exact h
    | cons entry rest ih => exact ih (h.addTable entry.1 entry.2)
  exact hfold overrides.tables keeps_default

theorem coerce_of_parse? (coercer : Coercer) {declared : String} {type : SolidityType}
    (h : parse? declared = some type) (v : Value) :
    coercer.coerce declared v =
      Overrides.converted declared v (coercer.tableFor type v.shape) := by
  simp only [coerce, h]
  cases coercer.tableFor type v.shape <;> rfl

theorem Keeps.coerce_eq {named : ByName} {coercer : Coercer} (h : Keeps named coercer)
    (declared : String) (v : Value) : named.coerce declared v = coercer.coerce declared v := by
  cases htype : parse? declared with
  | none => simp only [ByName.coerce, coerce, htype]
  | some type =>
    have hexact := h.exact type (SolidityType.parse?_eq_some_iff.1 htype).supported
    have htable : named.tableFor type = coercer.tableFor type := by
      rw [ByName.tableFor, Coercer.tableFor, h.families, h.aliased, hexact]
    rw [coerce_of_parse? coercer htype, ← htable]
    simp only [ByName.coerce, htype]

/-! ## Spellings of one type -/

/-- What a value is converted to depends on the type that a text spells; only a refusal names the
text. -/
theorem coerce_declaredAs (coercer : Coercer) {declared other : String} {type : SolidityType}
    (hd : parse? declared = some type) (ho : parse? other = some type) (v : Value) :
    coercer.coerce other v = (coercer.coerce declared v).mapError (Error.declaredAs other) := by
  rw [coerce_of_parse? coercer hd, coerce_of_parse? coercer ho]
  cases coercer.tableFor type v.shape with
  | none => rfl
  | some conversion =>
    simp only [Overrides.converted]
    cases conversion v <;> rfl

/-- A text is read as a type exactly if it spells the type, blanks around it left aside; no list,
tuple, byte string of any length or fixed-point number is read. A type is read again from its
printed form, so that tables that are kept under printed types convert as those that are kept under
types do. Under any overrides all spellings of a type convert a value alike, up to the spelling in a
refusal. -/
theorem declared_types_recognised :
    (∀ text type, parse? text = some type ↔ SolidityType.Spells (Text.trimChars text.toList) type) ∧
    (∀ text, SolidityType.Foreign (Text.trimChars text.toList) → parse? text = none) ∧
    (∀ text type, parse? text = some type → parse? type.display = some type) ∧
    (∀ overrides declared v, (ByName.ofOverrides overrides).coerce declared v =
      (ofOverrides overrides).coerce declared v) ∧
    ∀ overrides declared other type,
      parse? declared = some type → parse? other = some type → ∀ v,
      (ofOverrides overrides).coerce other v =
        ((ofOverrides overrides).coerce declared v).mapError (Error.declaredAs other) := by
  refine ⟨fun _ _ => SolidityType.parse?_eq_some_iff, fun text hforeign => ?_,
    fun text type h => ?_, fun overrides => (keeps_ofOverrides overrides).coerce_eq,
    fun overrides _ _ _ hd ho v => ?_⟩
  · refine Option.eq_none_iff_forall_ne_some.2 fun type h => ?_
    exact (SolidityType.parse?_eq_some_iff.1 h).not_foreign hforeign
  · exact (SolidityType.parse?_eq_some_iff.1 h).supported.parse?_display
  · exact coerce_declaredAs _ hd ho v

/-- A width of 256 may be left out, or stand after a sign and a zero, and blanks may stand around
the type. An override refuses these spellings alike, up to their names. -/
theorem declared_types_recognised_width :
    let overrides := Overrides.ofRegistrations [⟨"uint+256", .string, fun _ => .error "refused"⟩]
    parse? " uint+0256 " = some (.uint 256) ∧ parse? "uint" = some (.uint 256) ∧
      parse? "uint256" = some (.uint 256) ∧ parse? "uint256[3]" = none ∧
      (ofOverrides overrides).coerce "uint" (.string "1") = .error (.coercion "uint" "refused") ∧
      (ByName.ofOverrides overrides).coerce " uint+0256 " (.string "1") =
        .error (.coercion " uint+0256 " "refused") := by
  intro overrides
  obtain ⟨hspelled, hforeign, hprinted, hnamed, halike⟩ := declared_types_recognised
  -- A count may have a plus sign and leading zeros.
  have hnumeral : SolidityType.Counts "+0256".toList 256 :=
    .inr ⟨"0256".toList, rfl, Text.digits?_eq_some_iff.1 (by decide +kernel)⟩
  have hwide : parse? " uint+0256 " = some (.uint 256) := by
    have htrim : Text.trimChars " uint+0256 ".toList = "uint".toList ++ "+0256".toList := by
      decide +kernel
    rw [hspelled, htrim]
    exact .uintOf hnumeral ⟨by decide, by decide, by decide⟩
  have hbare : parse? "uint" = some (.uint 256) := by
    have htrim : Text.trimChars "uint".toList = "uint".toList := by decide +kernel
    rw [hspelled, htrim]
    exact .uint
  have hlist : Text.trimChars "uint256[3]".toList = "uint256".toList ++ '[' :: ['3'] ++ [']'] := by
    decide +kernel
  have hrefused : (ofOverrides overrides).coerce "uint" (.string "1") =
      .error (.coercion "uint" "refused") := by
    rfl
  refine ⟨hwide, hbare, hprinted _ _ hwide, hforeign _ (hlist ▸ .list _ _), hrefused, ?_⟩
  rw [hnamed, halike overrides _ _ _ hbare hwide, hrefused]
  rfl

end Coercer

end Playbook
