import Mathlib.Data.Nat.Digits.Lemmas
import Playbook.Text.Blank
import Playbook.Text.Numeral

/-!
# What numerals denote

A numeral is a run of digits, and denotes the sum of its digits, each weighed by a power of the
base. The main statements: reading accepts exactly the numerals and gives the number that they
denote, the decimal numeral without leading zeros of a number is the one that printing gives, and
numbers that fit a fixed count of hexadecimal digits have different ones.
-/

namespace Playbook.Text

/-- The characters are digits of the base, one at least, and denote the number. -/
def Numeral (base : Nat) (cs : List Char) (n : Nat) : Prop :=
  cs ≠ [] ∧ ∃ digits, List.Forall₂ (fun c d => digit? base c = some d) cs digits ∧
    n = Nat.ofDigits base digits.reverse

/-! ## Reading -/

theorem digitsFrom_eq_some_iff {base start n : Nat} {cs : List Char} :
    digitsFrom base start cs = some n ↔
      ∃ digits, List.Forall₂ (fun c d => digit? base c = some d) cs digits ∧
        n = Nat.ofDigits base (digits.reverse ++ [start]) := by
  induction cs generalizing start with
  | nil => simp [digitsFrom, eq_comm]
  | cons c cs ih =>
    -- The number read so far and the next digit have the weight of one digit together.
    have hstep (digits : List Nat) (d : Nat) :
        Nat.ofDigits base (digits.reverse ++ [start * base + d]) =
          Nat.ofDigits base ((d :: digits).reverse ++ [start]) := by
      simp only [List.reverse_cons, List.append_assoc, List.cons_append, List.nil_append,
        Nat.ofDigits_append, Nat.ofDigits_cons, Nat.ofDigits_nil]
      ring
    simp only [digitsFrom, Option.bind_eq_some_iff, ih]
    constructor
    · rintro ⟨d, hd, digits, hdigits, rfl⟩
      exact ⟨d :: digits, .cons hd hdigits, hstep digits d⟩
    · rintro ⟨_, _ | ⟨hd, hdigits⟩, rfl⟩
      exact ⟨_, hd, _, hdigits, (hstep _ _).symm⟩

/-- Exactly the numerals are read, as what they denote. -/
theorem digits?_eq_some_iff {base n : Nat} {cs : List Char} :
    digits? base cs = some n ↔ Numeral base cs n := by
  cases cs with
  | nil => simp [digits?, Numeral]
  | cons c cs => simp [digits?, digitsFrom_eq_some_iff, Numeral, Nat.ofDigits_append_zero]

theorem Numeral.isSome_digit? {base n : Nat} {cs : List Char} {c : Char} (h : Numeral base cs n)
    (hc : c ∈ cs) : (digit? base c).isSome = true := by
  obtain ⟨digits, hdigits, -⟩ := h.2
  clear h
  induction hdigits with
  | nil => cases hc
  | @cons first d rest digits hd _ ih =>
    rcases List.mem_cons.1 hc with rfl | hmem
    · rw [hd]
      rfl
    · exact ih hmem

theorem not_isBlank_of_digit? {base : Nat} {c : Char} (h : (digit? base c).isSome = true) :
    isBlank c = false := by
  obtain ⟨d, hd⟩ := Option.isSome_iff_exists.1 h
  obtain ⟨hvalue, -⟩ := Option.filter_eq_some_iff.1 hd
  have hcode : 48 ≤ c.toNat ∧ c.toNat ≤ 57 ∨ 65 ≤ c.toNat ∧ c.toNat ≤ 70 ∨
      97 ≤ c.toNat ∧ c.toNat ≤ 102 := by
    grind
  simp only [isBlank, Bool.or_eq_false_iff, Bool.and_eq_false_imp, decide_eq_true_eq,
    decide_eq_false_iff_not, beq_eq_false_iff_ne]
  omega

theorem Numeral.not_isBlank {base n : Nat} {cs : List Char} {c : Char} (h : Numeral base cs n)
    (hc : c ∈ cs) : isBlank c = false :=
  not_isBlank_of_digit? (h.isSome_digit? hc)

/-! ## Decimal numerals -/

theorem digit?_ten_eq_some_iff {c : Char} {d : Nat} :
    digit? 10 c = some d ↔ d < 10 ∧ c = Nat.digitChar d := by
  constructor
  · intro h
    obtain ⟨hvalue, hlt⟩ := Option.filter_eq_some_iff.1 h
    have hlt : d < 10 := of_decide_eq_true hlt
    -- Letters count from ten, so the character is one of the ten digits.
    have hcode : c.toNat = 48 + d := by
      split at hvalue <;> grind
    exact ⟨hlt, Char.toNat_inj.1 (hcode.trans (Nat.toNat_digitChar_of_lt_ten hlt).symm)⟩
  · rintro ⟨hlt, rfl⟩
    have hcode := Nat.toNat_digitChar_of_lt_ten hlt
    have hle : 48 + d ≤ 57 := by omega
    simp [digit?, hcode, hle, hlt]

/-- A bounded number is spelled by a decimal numeral, which may stand after a plus sign. -/
theorem unsigned?_eq_some_iff {bound n : Nat} {cs : List Char} :
    unsigned? bound cs = some n ↔
      (Numeral 10 cs n ∨ ∃ digits, cs = '+' :: digits ∧ Numeral 10 digits n) ∧ n < bound := by
  rw [unsigned?.eq_def, Option.filter_eq_some_iff, decide_eq_true_eq]
  refine and_congr_left fun _ => ?_
  split
  · rename_i digits
    rw [digits?_eq_some_iff]
    refine ⟨fun h => .inr ⟨digits, rfl, h⟩, ?_⟩
    rintro (h | ⟨_, heq, h⟩)
    · -- A plus sign is no digit.
      cases h.isSome_digit? List.mem_cons_self
    · obtain ⟨-, rfl⟩ := List.cons.inj heq
      exact h
  · rename_i hplus
    rw [digits?_eq_some_iff]
    refine ⟨.inl, ?_⟩
    rintro (h | ⟨digits, rfl, -⟩)
    · exact h
    · exact absurd rfl (hplus digits)

theorem Numeral.snoc {base n d : Nat} {cs : List Char} {c : Char} (h : Numeral base cs n)
    (hd : digit? base c = some d) : Numeral base (cs ++ [c]) (base * n + d) := by
  obtain ⟨_, digits, hdigits, rfl⟩ := h
  refine ⟨by simp, digits ++ [d], List.rel_append hdigits (.cons hd .nil), ?_⟩
  simp [Nat.ofDigits_cons, Nat.add_comm]

theorem numeral_toDigits (n : Nat) : Numeral 10 (Nat.toDigits 10 n) n := by
  induction n using Nat.strongRecOn with
  | ind n ih =>
    have hd : digit? 10 (Nat.digitChar (n % 10)) = some (n % 10) :=
      digit?_ten_eq_some_iff.2 ⟨Nat.mod_lt n (by decide), rfl⟩
    -- The last digit is the remainder, after those of the quotient.
    rw [Nat.toDigits_eq_if (by decide)]
    split
    · rename_i hlt
      rw [Nat.mod_eq_of_lt hlt] at hd
      exact ⟨by simp, [n], .cons hd .nil, by simp⟩
    · have hsnoc := (ih (n / 10) (by omega)).snoc hd
      rwa [Nat.div_add_mod] at hsnoc

theorem not_mem_toDigits {n : Nat} {c : Char} (h : digit? 10 c = none) :
    c ∉ Nat.toDigits 10 n := by
  intro hc
  have hsome := (numeral_toDigits n).isSome_digit? hc
  rw [h] at hsome
  cases hsome

/-- The first digit of a number is zero only if the number is. -/
theorem head?_toDigits_ne {n : Nat} (h : 0 < n) : (Nat.toDigits 10 n).head? ≠ some '0' := by
  induction n using Nat.strongRecOn with
  | ind n ih =>
    rw [Nat.toDigits_eq_if (by decide)]
    split
    · simpa [Nat.digitChar_eq_zero] using Nat.ne_of_gt h
    · have hrest := ih (n / 10) (by omega) (by omega)
      rwa [List.head?_append_of_ne_nil _ Nat.toDigits_ne_nil]

theorem forall₂_digit?_ten_iff {cs : List Char} {digits : List Nat} :
    List.Forall₂ (fun c d => digit? 10 c = some d) cs digits ↔
      (∀ d ∈ digits, d < 10) ∧ cs = digits.map Nat.digitChar := by
  induction digits generalizing cs with
  | nil => simp
  | cons d digits ih =>
    rw [List.forall₂_cons_right_iff, List.forall_mem_cons, List.map_cons]
    constructor
    · rintro ⟨c, rest, hd, hrest, rfl⟩
      obtain ⟨hlt, rfl⟩ := digit?_ten_eq_some_iff.1 hd
      obtain ⟨hdigits, rfl⟩ := ih.1 hrest
      exact ⟨⟨hlt, hdigits⟩, rfl⟩
    · rintro ⟨⟨hlt, hdigits⟩, rfl⟩
      exact ⟨_, _, digit?_ten_eq_some_iff.2 ⟨hlt, rfl⟩, ih.2 ⟨hdigits, rfl⟩, rfl⟩

/-- A decimal numeral without leading zeros has the digits of its number. -/
theorem eq_digits_of_numeral {cs : List Char} {n : Nat} (h : Numeral 10 cs n)
    (hz : cs.head? ≠ some '0') : cs = (Nat.digits 10 n).reverse.map Nat.digitChar := by
  obtain ⟨hne, digits, hdigits, rfl⟩ := h
  obtain ⟨hlt, rfl⟩ := forall₂_digit?_ten_iff.1 hdigits
  -- The first character is the digit of the greatest weight.
  have hlast (hne : digits.reverse ≠ []) : digits.reverse.getLast hne ≠ 0 := by
    rw [List.getLast_reverse]
    rintro hzero
    apply hz
    rw [List.head?_map, List.head?_eq_some_head (by simpa using hne), hzero]
    rfl
  rw [Nat.digits_ofDigits 10 (by decide) _ (by simpa using hlt) hlast, List.reverse_reverse]

theorem pos_of_numeral {cs : List Char} {n : Nat} (h : Numeral 10 cs n)
    (hz : cs.head? ≠ some '0') : 0 < n := by
  refine Nat.pos_of_ne_zero fun hn => h.1 ?_
  rw [eq_digits_of_numeral h hz, hn]
  rfl

/-! ## Digits of a fixed count -/

theorem digit?_hexDigit {d : Nat} (h : d < 16) : digit? 16 (hexDigit d) = some d := by
  have hall : ∀ d : Fin 16, digit? 16 (hexDigit d) = some d.val := by decide
  exact hall ⟨d, h⟩

/-- The last digits of a number denote what is left of it by their weight. -/
theorem numeral_hexDigits (width n : Nat) :
    Numeral 16 (hexDigits (width + 1) n) (n % 16 ^ (width + 1)) := by
  have hlast (n : Nat) : digit? 16 (hexDigit (n % 16)) = some (n % 16) :=
    digit?_hexDigit (Nat.mod_lt n (by decide))
  induction width generalizing n with
  | zero => exact ⟨by simp [hexDigits], [n % 16], .cons (hlast n) .nil, by simp⟩
  | succ width ih =>
    rw [hexDigits, Nat.pow_succ', Nat.mod_mul, Nat.add_comm (n % 16)]
    exact (ih (n / 16)).snoc (hlast n)

theorem digits?_hexDigits {width n : Nat} (hwidth : 0 < width) (h : n < 16 ^ width) :
    digits? 16 (hexDigits width n) = some n := by
  obtain ⟨width, rfl⟩ := Nat.exists_eq_succ_of_ne_zero (Nat.ne_of_gt hwidth)
  have hnumeral := numeral_hexDigits width n
  rw [Nat.mod_eq_of_lt h] at hnumeral
  exact digits?_eq_some_iff.2 hnumeral

/-- Numbers that the digits can hold are told apart by them. -/
theorem hexPadded_inj {width n m : Nat} (hwidth : 0 < width) (hn : n < 16 ^ width)
    (hm : m < 16 ^ width) : hexPadded width n = hexPadded width m ↔ n = m := by
  refine ⟨fun h => ?_, fun h => h ▸ rfl⟩
  have hdigits := congrArg String.toList h
  simp only [hexPadded, String.toList_ofList, List.cons.injEq, true_and] at hdigits
  have hread := digits?_hexDigits hwidth hn
  rw [hdigits, digits?_hexDigits hwidth hm] at hread
  exact (Option.some.inj hread).symm

end Playbook.Text
