import Playbook.Proofs.Convert.RoundTrip
import Playbook.Yaml.Value

/-!
# Integers from a document to a call

A document hands over an integer at a width, and the value that becomes of it is converted for an
integer type. A width decides between a number and a big integer only for itself, so that a signed
wide integer may stay big although a number holds it; at the narrowest width this does not happen.
The main statement: there the value tells the integer exactly, and so does what it is converted to.
-/

namespace Playbook

/-! ## Values of widths -/

/-- At a width that holds it, an integer has the value that it has at any size. The wide width with
a sign is the exception, for it keeps big what only the narrow one without a sign holds. -/
theorem Value.ofWidth_eq_ofInt {width : Width} {n : Int} (h : width.Holds n)
    (hs : width = .signed128 → n < 2 ^ 63) : ofWidth width n = ofInt n := by
  cases width with
  | unsigned64 | signed64 =>
    have hfits : Number.Fits n := by
      simp only [Width.Holds, Width.bound] at h
      constructor <;> omega
    simp [ofWidth, ofInt, hfits]
  | unsigned128 =>
    have hfits : Width.Holds .unsigned64 n ↔ Number.Fits n := by
      simp only [Width.Holds, Width.bound, Number.Fits] at h ⊢
      omega
    simp [ofWidth, ofInt, hfits]
  | signed128 =>
    have hfits : Width.Holds .signed64 n ↔ Number.Fits n := by
      -- What only the narrow width without a sign holds is left out here.
      have hn := hs rfl
      simp only [Width.Holds, Width.bound, Number.Fits] at h ⊢
      omega
    simp [ofWidth, ofInt, hfits]

namespace Width

/-- The narrowest width holds the integer, and is the widest one only for a negative one. -/
theorem holds_of_narrowest? {n : Int} {width : Width} (h : narrowest? n = some width) :
    width.Holds n ∧ (width = .signed128 → n < 0) := by
  have hholds : width.Holds n := by simpa using List.find?_some h
  refine ⟨hholds, ?_⟩
  rintro rfl
  -- The wide width without a sign was tried before and does not hold it.
  have hunsigned : ¬ Holds .unsigned128 n := by
    intro hn
    rw [narrowest?, all] at h
    by_cases h1 : Holds .unsigned64 n <;> by_cases h2 : Holds .signed64 n <;>
      simp [h1, h2, hn] at h
  simp only [Holds, bound] at hholds hunsigned
  omega

/-- Every integer of at most 128 bits has a narrowest width. -/
theorem exists_narrowest? {n : Int} (hlo : -2 ^ 127 ≤ n) (hhi : n < 2 ^ 128) :
    ∃ width, narrowest? n = some width := by
  have hwide : Holds .unsigned128 n ∨ Holds .signed128 n := by
    simp only [Holds, bound]
    omega
  refine Option.isSome_iff_exists.1 (List.find?_isSome.2 ?_)
  rcases hwide with hn | hn
  · exact ⟨.unsigned128, by decide, decide_eq_true hn⟩
  · exact ⟨.signed128, by decide, decide_eq_true hn⟩

end Width

theorem Value.ofWidth_of_narrowest? {n : Int} {width : Width}
    (h : Width.narrowest? n = some width) : ofWidth width n = ofInt n := by
  obtain ⟨hholds, hnegative⟩ := Width.holds_of_narrowest? h
  exact ofWidth_eq_ofInt hholds fun hw => by have := hnegative hw; omega

/-! ## Plain scalars -/

namespace Yaml.Scalar

theorem bounds_of_unsigned? {bound : Nat} {cs : List Char} {n : Int}
    (h : unsigned? bound cs = some n) : 0 ≤ n ∧ n < bound := by
  rw [unsigned?] at h
  split at h
  · rename_i m hm
    have hlt := (Option.filter_eq_some_iff.1 hm).2
    obtain rfl := Option.some.inj h
    simp at hlt
    omega
  · split at h
    · cases h
    · obtain ⟨m, hm, hn⟩ := Option.bind_eq_some_iff.1 (by simpa using h)
      have hlt := (Option.filter_eq_some_iff.1 hm).2
      simp at hlt hn
      omega

theorem bounds_of_signed? {bound : Nat} {cs : List Char} {n : Int}
    (h : signed? bound cs = some n) : -bound ≤ n ∧ n ≤ 0 := by
  rw [signed?.eq_def] at h
  split at h
  · split at h
    · rename_i m hm
      have hle := (Option.filter_eq_some_iff.1 hm).2
      obtain rfl := Option.some.inj h
      simp at hle
      omega
    · split at h
      · cases h
      · obtain ⟨m, hm, hn⟩ := Option.bind_eq_some_iff.1 (by simpa using h)
        have hle := (Option.filter_eq_some_iff.1 hm).2
        simp at hle hn
        omega
  · cases h

/-- The integer of a plain scalar has the value that it has at any size. -/
theorem value?_of_int? {cs : List Char} {width : Width} {n : Int}
    (h : int? cs = some (width, n)) : (Scalar.int width n).value? = some (.ofInt n) := by
  obtain ⟨first, _, hread⟩ := List.exists_of_findSome?_eq_some h
  obtain ⟨hn, rfl⟩ : ofWidth? cs first = some n ∧ first = width := by simpa using hread
  refine congrArg some (Value.ofWidth_eq_ofInt ?_ ?_)
  · cases first with
    | unsigned64 | unsigned128 =>
      exact bounds_of_unsigned? hn
    | signed64 | signed128 =>
      have hbounds := bounds_of_signed? hn
      simp only [Width.Holds, Width.bound] at hbounds ⊢
      omega
  -- A width with a sign is read for what has a minus, which is not positive.
  · rintro rfl
    have hbounds := bounds_of_signed? hn
    omega

end Yaml.Scalar

/-! ## Integer arguments -/

namespace Coercer

variable {declared : String} {type : SolidityType}

/-- A number is passed on as it is for an integer type. -/
theorem coerce_default_number (hp : SolidityType.parse? declared = some type) (hi : IsInteger type)
    (x : Number) : default.coerce declared (.number x) = .ok (.number x) := by
  rw [coerce, hp]
  obtain ⟨bits, rfl⟩ | ⟨bits, rfl⟩ := hi <;> rfl

/-- An integer of at most 128 bits that is handed over at its narrowest width becomes the number
when it lies between `-2 ^ 63` and `2 ^ 64 - 1`, and the big integer otherwise. For an integer type
the number is passed on, and the big integer is converted to the decimal text that is read as it. -/
theorem integer_literal_exact {n : Int} (hlo : -2 ^ 127 ≤ n) (hhi : n < 2 ^ 128) :
    ∃ width, Width.narrowest? n = some width ∧
      (Value.ofWidth width n = .number (.int n) ↔ -2 ^ 63 ≤ n ∧ n < 2 ^ 64) ∧
      (Value.ofWidth width n = .bigInt n ↔ ¬ (-2 ^ 63 ≤ n ∧ n < 2 ^ 64)) ∧
      ∀ declared type, SolidityType.parse? declared = some type → IsInteger type →
        (-2 ^ 63 ≤ n ∧ n < 2 ^ 64 →
          default.coerce declared (.ofWidth width n) = .ok (.number (.int n))) ∧
        (¬ (-2 ^ 63 ≤ n ∧ n < 2 ^ 64) →
          ∃ text, default.coerce declared (.ofWidth width n) = .ok (.string text) ∧
            IntegerText.Canonical text.toList n ∧ IntegerText.parse? text = some n) := by
  obtain ⟨width, hwidth⟩ := Width.exists_narrowest? hlo hhi
  have hvalue := Value.ofWidth_of_narrowest? hwidth
  refine ⟨width, hwidth, ?_⟩
  by_cases hn : -2 ^ 63 ≤ n ∧ n < 2 ^ 64
  · have hnumber : Value.ofWidth width n = .number (.int n) := hvalue.trans (if_pos hn)
    refine ⟨iff_of_true hnumber hn, iff_of_false (by simp [hnumber]) (not_not_intro hn), ?_⟩
    intro declared type hp hi
    refine ⟨fun _ => ?_, fun hbig => absurd hn hbig⟩
    rw [hnumber, coerce_default_number hp hi]
  · have hbig : Value.ofWidth width n = .bigInt n := hvalue.trans (if_neg hn)
    refine ⟨iff_of_false (by simp [hbig]) hn, iff_of_true hbig hn, ?_⟩
    intro declared type hp hi
    refine ⟨fun hnumber => absurd hnumber hn, fun _ => ⟨toString n, ?_, ?_, ?_⟩⟩
    · rw [hbig, coerce_default_bigInt hp hi]
    · exact IntegerText.canonical_toString n
    · exact IntegerText.parse?_toString n

/-- A wide amount reaches the call as the text of its digits. -/
theorem integer_literal_exact_amount :
    let n : Int := 1000000000000000000001
    Value.ofWidth .unsigned128 n = .bigInt n ∧
      default.coerce "uint256" (.ofWidth .unsigned128 n) =
        .ok (.string "1000000000000000000001") := by
  intro n
  obtain ⟨width, hwidth, _, hbig, hcoerce⟩ :=
    integer_literal_exact (n := n) (by decide) (by decide)
  obtain rfl : width = .unsigned128 := Option.some.inj (hwidth.symm.trans (by decide))
  have hp : SolidityType.parse? "uint256" = some (.uint 256) := by decide +kernel
  obtain ⟨text, htext, hcanonical, _⟩ :=
    (hcoerce "uint256" (.uint 256) hp (.inl ⟨256, rfl⟩)).2 (by decide)
  have hdigits : text = "1000000000000000000001" :=
    String.toList_inj.1 (IntegerText.canonical_iff.1 hcanonical)
  exact ⟨hbig.2 (by decide), hdigits ▸ htext⟩

end Coercer

end Playbook
