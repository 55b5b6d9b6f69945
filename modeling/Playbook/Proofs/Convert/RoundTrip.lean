import Playbook.Convert.Coercer
import Playbook.Proofs.Convert.Integer

/-!
# Integers there and back

A big integer is converted to a text for an integer type, and a text to a big integer. The text is
the canonical one: decimal digits without leading zeros, after a minus sign when the integer is
negative. The main statement: one conversion after the other gives the integer back, and every text
that is accepted leads to the canonical text of its integer and back to the integer.
-/

namespace Playbook

namespace IntegerText

open Text

/-- The decimal digits of an integer without leading zeros, after a minus sign when it is negative.
-/
inductive Canonical : List Char → Int → Prop where
  | zero : Canonical ['0'] 0
  | positive {cs : List Char} {n : Nat} (h : Numeral 10 cs n) (hz : cs.head? ≠ some '0') :
      Canonical cs n
  | negative {cs : List Char} {n : Nat} (h : Numeral 10 cs n) (hz : cs.head? ≠ some '0') :
      Canonical ('-' :: cs) (-n)

theorem documented_of_canonical {cs : List Char} {n : Int} (h : Canonical cs n) :
    Documented cs n := by
  cases h with
  | zero => exact .plain (.decimal (numeral_toDigits 0))
  | positive h _ => exact .plain (.decimal h)
  | negative h _ => exact .negated (.decimal h)

theorem toList_toString (n : Int) :
    (toString n).toList =
      if 0 ≤ n then Nat.toDigits 10 n.toNat else '-' :: Nat.toDigits 10 (-n).toNat := by
  have hrepr : toString n = n.repr := rfl
  rw [hrepr, Int.repr_eq_if]
  split <;> simp [Nat.repr_eq_ofList_toDigits]

/-- Printing gives the canonical text. -/
theorem canonical_toString (n : Int) : Canonical (toString n).toList n := by
  rw [toList_toString]
  -- Printing puts a sign before the digits of a negative number only.
  rcases Int.lt_trichotomy n 0 with hneg | rfl | hpos
  · have hdigits := numeral_toDigits (-n).toNat
    have hcanonical := Canonical.negative hdigits (head?_toDigits_ne (by omega))
    have hvalue : (-((-n).toNat : Int)) = n := by omega
    rw [if_neg (by omega)]
    rwa [hvalue] at hcanonical
  · exact .zero
  · have hdigits := numeral_toDigits n.toNat
    have hcanonical := Canonical.positive hdigits (head?_toDigits_ne (by omega))
    have hvalue : (n.toNat : Int) = n := by omega
    rw [if_pos (by omega)]
    rwa [hvalue] at hcanonical

/-- An integer has only one canonical text. -/
theorem canonical_unique {cs ds : List Char} {n m : Int} (h : Canonical cs n)
    (h' : Canonical ds m) (he : n = m) : cs = ds := by
  cases h with
  | zero =>
    cases h' with
    | zero => rfl
    | positive h' hz' => have := pos_of_numeral h' hz'; omega
    | negative h' hz' => have := pos_of_numeral h' hz'; omega
  | positive h hz =>
    -- Without a leading zero the digits are those of the number, which is not zero.
    have hpos := pos_of_numeral h hz
    cases h' with
    | zero => omega
    | positive h' hz' =>
      obtain rfl := Int.ofNat.inj he
      rw [eq_digits_of_numeral h hz, eq_digits_of_numeral h' hz']
    | negative h' hz' => omega
  | negative h hz =>
    have hpos := pos_of_numeral h hz
    cases h' with
    | zero => omega
    | positive h' hz' => omega
    | negative h' hz' =>
      obtain rfl := Int.ofNat.inj (Int.neg_inj.1 he)
      rw [eq_digits_of_numeral h hz, eq_digits_of_numeral h' hz']

/-- Exactly the printed text is canonical. -/
theorem canonical_iff {cs : List Char} {n : Int} : Canonical cs n ↔ cs = (toString n).toList := by
  constructor
  · intro h
    exact canonical_unique h (canonical_toString n) rfl
  · rintro rfl
    exact canonical_toString n

theorem trimChars_of_canonical {cs : List Char} {n : Int} (h : Canonical cs n) :
    trimChars cs = cs := by
  refine trimChars_of_not_blank fun c hc => ?_
  cases h with
  | zero => exact (numeral_toDigits 0).not_isBlank hc
  | positive h _ => exact h.not_isBlank hc
  | negative h _ =>
    rcases List.mem_cons.1 hc with rfl | hc
    · rfl
    · exact h.not_isBlank hc

/-- The canonical text of an integer is read as the integer. -/
theorem parse?_toString (n : Int) : parse? (toString n) = some n := by
  have hcanonical := canonical_toString n
  rw [parse?, trimChars_of_canonical hcanonical]
  exact ofChars?_eq_some_iff.2 (spells_of_documented (documented_of_canonical hcanonical))

end IntegerText

namespace Coercer

variable {declared : String} {type : SolidityType}

/-- The type is one of the integer types. -/
def IsInteger (type : SolidityType) : Prop :=
  (∃ bits, type = .uint bits) ∨ ∃ bits, type = .int bits

theorem coerce_default_bigInt (hp : SolidityType.parse? declared = some type) (hi : IsInteger type)
    (n : Int) : default.coerce declared (.bigInt n) = .ok (.string (toString n)) := by
  rw [coerce, hp]
  obtain ⟨bits, rfl⟩ | ⟨bits, rfl⟩ := hi <;> rfl

theorem coerce_default_string (hp : SolidityType.parse? declared = some type) (hi : IsInteger type)
    (text : String) :
    default.coerce declared (.string text) =
      match IntegerText.parse? text with
      | some n => .ok (.bigInt n)
      | none => .error (.coercion declared (IntegerText.refusal text)) := by
  have htable : default.tableFor type .string = some Conversion.integerOfString := by
    obtain ⟨bits, rfl⟩ | ⟨bits, rfl⟩ := hi <;> rfl
  simp only [coerce, hp, Value.shape, htable, Conversion.integerOfString]
  cases IntegerText.parse? text <;> rfl

/-- A text that is converted for an integer type is read as an integer. -/
theorem coerce_default_string_eq_ok (hp : SolidityType.parse? declared = some type)
    (hi : IsInteger type) {text : String} {v : Value}
    (h : default.coerce declared (.string text) = .ok v) :
    ∃ n, IntegerText.parse? text = some n ∧ v = .bigInt n := by
  rw [coerce_default_string hp hi] at h
  cases hn : IntegerText.parse? text with
  | none => simp [hn] at h
  | some n =>
    rw [hn] at h
    exact ⟨n, rfl, (Except.ok.inj h).symm⟩

theorem coerce_default_toString (hp : SolidityType.parse? declared = some type)
    (hi : IsInteger type) (n : Int) :
    default.coerce declared (.string (toString n)) = .ok (.bigInt n) := by
  rw [coerce_default_string hp hi, IntegerText.parse?_toString]

/-- A big integer is converted to its canonical text and back. A text that is converted leads to the
only canonical text of the integer that it spells, and that one to the same integer. -/
theorem integer_round_trip (hp : SolidityType.parse? declared = some type) (hi : IsInteger type) :
    (∀ n, ∃ text, default.coerce declared (.bigInt n) = .ok (.string text) ∧
      IntegerText.Canonical text.toList n ∧
      default.coerce declared (.string text) = .ok (.bigInt n)) ∧
    ∀ text first, default.coerce declared (.string text) = .ok first →
      ∃ n canonical, IntegerText.parse? text = some n ∧ first = .bigInt n ∧
        default.coerce declared first = .ok (.string canonical) ∧
        (∀ cs, IntegerText.Canonical cs n ↔ cs = canonical.toList) ∧
        default.coerce declared (.string canonical) = .ok first := by
  constructor
  · intro n
    exact ⟨toString n, coerce_default_bigInt hp hi n, IntegerText.canonical_toString n,
      coerce_default_toString hp hi n⟩
  · intro text first h
    obtain ⟨n, hn, rfl⟩ := coerce_default_string_eq_ok hp hi h
    exact ⟨n, toString n, hn, rfl, coerce_default_bigInt hp hi n,
      fun _ => IntegerText.canonical_iff, coerce_default_toString hp hi n⟩

/-- The text `-0x0A` leads to `-10`, there and back. -/
theorem integer_round_trip_hexadecimal :
    default.coerce "uint256" (.string "-0x0A") = .ok (.bigInt (-10)) ∧
      default.coerce "uint256" (.bigInt (-10)) = .ok (.string "-10") ∧
      default.coerce "uint256" (.string "-10") = .ok (.bigInt (-10)) := by
  have hp : SolidityType.parse? "uint256" = some (.uint 256) := by decide +kernel
  have hi : IsInteger (.uint 256) := .inl ⟨256, rfl⟩
  have hread : IntegerText.parse? "-0x0A" = some (-10) := by decide +kernel
  have hfirst : default.coerce "uint256" (.string "-0x0A") = .ok (.bigInt (-10)) := by
    rw [coerce_default_string hp hi, hread]
  obtain ⟨n, canonical, hn, -, hsecond, hcanonical, hthird⟩ :=
    (integer_round_trip hp hi).2 _ _ hfirst
  obtain rfl := Option.some.inj (hread.symm.trans hn)
  have hnumeral : Text.Numeral 10 ['1', '0'] 10 := Text.digits?_eq_some_iff.1 (by decide +kernel)
  -- The canonical text is the one that a sign and these digits make.
  have hten : canonical = "-10" :=
    String.toList_inj.1 ((hcanonical _).1 (.negative hnumeral (by decide))).symm
  rw [hten] at hsecond hthird
  exact ⟨hfirst, hsecond, hthird⟩

end Coercer

end Playbook
