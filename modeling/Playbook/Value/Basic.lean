import Playbook.Fields
import Playbook.Number
import Playbook.Calendar

/-!
# Values

The values that a playbook is written in, that its state holds and that calls take and return: plain
data, and four shapes that plain data cannot carry, namely integers of any size, instants, bytes and
contract handles. A value is converted by its shape.
-/

namespace Playbook

/-- A contract, bound to a deployed address or not yet. -/
structure ContractHandle where
  contract : String
  address : Option String
  deriving DecidableEq

/-- A playbook value. The names of an object are distinct and keep their order. -/
inductive Value where
  | null
  | bool (flag : Bool)
  | number (n : Number)
  | bigInt (n : Int)
  | date (t : Instant)
  | string (text : String)
  | bytes (octets : List UInt8)
  | array (items : List Value)
  | object (fields : List (String × Value))
  | handle (h : ContractHandle)

/-- What kind of value a value is. -/
inductive Shape where
  | null | bool | number | bigInt | date | string | bytes | array | object | handle
  deriving DecidableEq

def Shape.name : Shape → String
  | .null => "null"
  | .bool => "bool"
  | .number => "number"
  | .bigInt => "bigint"
  | .date => "date"
  | .string => "string"
  | .bytes => "bytes"
  | .array => "array"
  | .object => "object"
  | .handle => "handle"

def Shape.all : List Shape :=
  [.null, .bool, .number, .bigInt, .date, .string, .bytes, .array, .object, .handle]

def Shape.ofName? (name : String) : Option Shape :=
  Shape.all.find? (·.name == name)

namespace Value

def shape : Value → Shape
  | .null => .null
  | .bool _ => .bool
  | .number _ => .number
  | .bigInt _ => .bigInt
  | .date _ => .date
  | .string _ => .string
  | .bytes _ => .bytes
  | .array _ => .array
  | .object _ => .object
  | .handle _ => .handle

/-- The value of an integer of 64 bits. -/
def int (n : Int) : Value :=
  .number (.int n)

/-- The value of an integer of any size: a number when it fits, a big integer otherwise. -/
def ofInt (n : Int) : Value :=
  if Number.Fits n then .int n else .bigInt n

def isObject : Value → Bool
  | .object _ => true
  | _ => false

def text? : Value → Option String
  | .string text => some text
  | _ => none

end Value

/-- A handle as the fields of an object: its contract, then its address when it is bound. -/
def ContractHandle.fields (h : ContractHandle) : Fields Value :=
  ("contract", .string h.contract) ::
    match h.address with
    | none => []
    | some address => [("address", .string address)]

namespace ContractHandle

theorem get?_fields_contract (h : ContractHandle) :
    Fields.get? h.fields "contract" = some (.string h.contract) := rfl

theorem get?_fields_address (h : ContractHandle) :
    Fields.get? h.fields "address" = h.address.map .string := by
  obtain ⟨contract, address⟩ := h
  cases address <;> rfl

end ContractHandle

namespace Value

/-- A handle as the object of its fields; every other value as it is. -/
def opened : Value → Value
  | .handle h => .object h.fields
  | v => v

@[simp] theorem opened_handle (h : ContractHandle) : (handle h).opened = .object h.fields := rfl
@[simp] theorem opened_object (fields : Fields Value) :
    (object fields).opened = .object fields := rfl

@[simp] theorem opened_opened (v : Value) : v.opened.opened = v.opened := by
  cases v <;> rfl

/-! ## Equality -/

mutual

/-- Whether two values are the same one. -/
def same : Value → Value → Bool
  | .null, .null => true
  | .bool a, .bool b => a == b
  | .number a, .number b => a == b
  | .bigInt a, .bigInt b => a == b
  | .date a, .date b => a == b
  | .string a, .string b => a == b
  | .bytes a, .bytes b => a == b
  | .array a, .array b => sameItems a b
  | .object a, .object b => sameFields a b
  | .handle a, .handle b => a == b
  | _, _ => false

def sameItems : List Value → List Value → Bool
  | [], [] => true
  | a :: as, b :: bs => same a b && sameItems as bs
  | _, _ => false

def sameFields : List (String × Value) → List (String × Value) → Bool
  | [], [] => true
  | (k, a) :: as, (l, b) :: bs => k == l && same a b && sameFields as bs
  | _, _ => false

end

mutual

theorem eq_of_same : ∀ {a b : Value}, same a b = true → a = b
  | .null, b, h => by cases b <;> simp_all [same]
  | .bool a, b, h => by cases b <;> simp_all [same]
  | .number a, b, h => by cases b <;> simp_all [same]
  | .bigInt a, b, h => by cases b <;> simp_all [same]
  | .date a, b, h => by cases b <;> simp_all [same]
  | .string a, b, h => by cases b <;> simp_all [same]
  | .bytes a, b, h => by cases b <;> simp_all [same]
  | .handle a, b, h => by cases b <;> simp_all [same]
  | .array a, b, h => by
    cases b with
    | array b => rw [eq_of_sameItems (a := a) (b := b) (by simpa [same] using h)]
    | _ => simp [same] at h
  | .object a, b, h => by
    cases b with
    | object b => rw [eq_of_sameFields (a := a) (b := b) (by simpa [same] using h)]
    | _ => simp [same] at h

theorem eq_of_sameItems : ∀ {a b : List Value}, sameItems a b = true → a = b
  | [], b, h => by cases b <;> simp_all [sameItems]
  | x :: xs, b, h => by
    cases b with
    | nil => simp [sameItems] at h
    | cons y ys =>
      simp only [sameItems, Bool.and_eq_true] at h
      rw [eq_of_same h.1, eq_of_sameItems h.2]

theorem eq_of_sameFields : ∀ {a b : List (String × Value)}, sameFields a b = true → a = b
  | [], b, h => by cases b <;> simp_all [sameFields]
  | (k, x) :: xs, b, h => by
    cases b with
    | nil => simp [sameFields] at h
    | cons e ys =>
      obtain ⟨l, y⟩ := e
      simp only [sameFields, Bool.and_eq_true, beq_iff_eq] at h
      rw [h.1.1, eq_of_same h.1.2, eq_of_sameFields h.2]

end

mutual

theorem same_self : ∀ a : Value, same a a = true
  | .null | .bool _ | .number _ | .bigInt _ | .date _ | .string _ | .bytes _ | .handle _ => by
    simp [same]
  | .array a => by simp [same, sameItems_self a]
  | .object a => by simp [same, sameFields_self a]

theorem sameItems_self : ∀ a : List Value, sameItems a a = true
  | [] => rfl
  | x :: xs => by simp [sameItems, same_self x, sameItems_self xs]

theorem sameFields_self : ∀ a : List (String × Value), sameFields a a = true
  | [] => rfl
  | (_, x) :: xs => by simp [sameFields, same_self x, sameFields_self xs]

end

theorem same_iff {a b : Value} : same a b = true ↔ a = b :=
  ⟨eq_of_same, fun h => h ▸ same_self a⟩

instance : DecidableEq Value := fun _ _ => decidable_of_iff _ same_iff

end Value

end Playbook
