import Playbook.Convert.Integer
import Playbook.Convert.SolidityType
import Playbook.Error

/-!
# Conversions

An argument is converted by its declared type and its shape; a shape without a conversion passes
unchanged. Callers may override conversions, for one type, or by an alias for a whole family, which
wins over those for its types. Shapes that an override leaves out keep the conversions of the
family.
-/

namespace Playbook

/-- A conversion; a refusal is told in words. -/
abbrev Conversion : Type :=
  Value → Except String Value

/-- The conversions by shape. -/
abbrev ConversionTable : Type :=
  Shape → Option Conversion

namespace ConversionTable

def none : ConversionTable := fun _ => .none

/-- The second table over the first one. -/
def overriddenBy (table changes : ConversionTable) : ConversionTable := fun shape =>
  (changes shape).or (table shape)

def set (table : ConversionTable) (shape : Shape) (conversion : Conversion) : ConversionTable :=
  fun s => if s = shape then some conversion else table s

end ConversionTable

namespace Conversion

/-- Letters of the basic alphabet in lower case. -/
def lower (c : Char) : Char :=
  if 65 ≤ c.toNat ∧ c.toNat ≤ 90 then Char.ofNat (c.toNat + 32) else c

/-- The truth of a text: `true` and `false` in any case, and else whether there is any text. -/
def truth (text : String) : Bool :=
  let word := (Text.trimChars text.toList).map lower
  if word = "true".toList then true
  else if word = "false".toList then false
  else !text.isEmpty

def boolOfString : Conversion
  | .string text => .ok (.bool (truth text))
  | v => .ok v

def integerOfBigInt : Conversion
  | .bigInt n => .ok (.string (toString n))
  | v => .ok v

def integerOfDate : Conversion
  | .date t => .ok (.int t.roundedSeconds)
  | v => .ok v

def integerOfString : Conversion
  | .string text =>
    match IntegerText.parse? text with
    | some n => .ok (.bigInt n)
    | none => .error (IntegerText.refusal text)
  | v => .ok v

def bytesOfString : Conversion
  | .string text => .ok (.bytes text.toUTF8.toList)
  | v => .ok v

end Conversion

/-- The conversions that a family has by default. -/
def Family.defaults : Family → ConversionTable
  | .address | .string => .none
  | .bool => ConversionTable.none.set .string Conversion.boolOfString
  | .uint | .int =>
    ((ConversionTable.none.set .bigInt Conversion.integerOfBigInt).set .date
      Conversion.integerOfDate).set .string Conversion.integerOfString
  | .bytes => ConversionTable.none.set .string Conversion.bytesOfString

/-- Overrides by the spelling of a type or an alias, in the order they were first registered. -/
structure Overrides where
  tables : Fields ConversionTable

namespace Overrides

def empty : Overrides := ⟨[]⟩

/-- Registers a conversion; a later one for the same type and shape replaces it. -/
def register (overrides : Overrides) (declared : String) (shape : Shape) (conversion : Conversion) :
    Overrides :=
  let table := (Fields.get? overrides.tables declared).getD .none
  ⟨Fields.put overrides.tables declared (table.set shape conversion)⟩

end Overrides

/-- The conversions in force. -/
structure Coercer where
  /-- The conversions of each family, those of its alias included. -/
  families : Family → ConversionTable
  /-- The conversions of single types. -/
  exact : SolidityType → Option ConversionTable
  /-- The families whose alias was overridden; conversions of their single types do not count. -/
  aliased : Family → Bool

namespace Coercer

def default : Coercer :=
  ⟨Family.defaults, fun _ => none, fun _ => false⟩

/-- The conversions with one more table; a key that names no supported type is passed over. -/
def addTable (coercer : Coercer) (key : String) (table : ConversionTable) : Coercer :=
  let name := Text.trim key
  match Family.ofAlias? name with
  | some family =>
    { coercer with
      families := fun f =>
        if f = family then (coercer.families f).overriddenBy table else coercer.families f
      aliased := fun f => f = family || coercer.aliased f }
  | none =>
    match SolidityType.parse? name with
    | none => coercer
    | some type =>
      { coercer with
        exact := fun t =>
          if t = type then some ((coercer.families type.family).overriddenBy table)
          else coercer.exact t }

/-- The conversions with all tables of overrides. -/
def ofOverrides (overrides : Overrides) : Coercer :=
  overrides.tables.foldl (fun coercer entry => coercer.addTable entry.1 entry.2) default

def tableFor (coercer : Coercer) (type : SolidityType) : ConversionTable :=
  if coercer.aliased type.family then coercer.families type.family
  else (coercer.exact type).getD (coercer.families type.family)

def coerce (coercer : Coercer) (declared : String) (v : Value) : Except Error Value :=
  match SolidityType.parse? declared with
  | none => .error (.unsupportedType declared)
  | some type =>
    match coercer.tableFor type v.shape with
    | none => .ok v
    | some conversion => (conversion v).mapError (.coercion declared)

end Coercer

end Playbook
