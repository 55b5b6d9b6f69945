import Playbook.Convert.Integer
import Playbook.Proofs.Text.Numeral

/-!
# Which texts spell integers

An integer is documented to be spelled by decimal digits, or by hexadecimal ones after `0x`, with a
minus sign before them when it is negative. Behind that sign and the mark of the base the numeral
may have one more sign, and underscores. The main statement: every documented text is read as its
integer, and a text that is read is a documented one exactly if it has no plus, no underscore, and
no minus but at its start.
-/

namespace Playbook.IntegerText

open Text

/-! ## The spellings -/

/-- A numeral without a sign: decimal digits, or hexadecimal digits after their mark. -/
inductive Unsigned : List Char → Nat → Prop where
  | decimal {cs : List Char} {n : Nat} (h : Numeral 10 cs n) : Unsigned cs n
  | hexadecimal {mark : Char} {cs : List Char} {n : Nat} (hm : mark = 'x' ∨ mark = 'X')
      (h : Numeral 16 cs n) : Unsigned ('0' :: mark :: cs) n

/-- The documented texts of an integer: a numeral, or a minus sign before one. -/
inductive Documented : List Char → Int → Prop where
  | plain {cs : List Char} {n : Nat} (h : Unsigned cs n) : Documented cs n
  | negated {cs : List Char} {n : Nat} (h : Unsigned cs n) : Documented ('-' :: cs) (-n)

/-- Digits with underscores among them, but not at the start. -/
def Grouped (base : Nat) (cs : List Char) (n : Nat) : Prop :=
  cs.head? ≠ some '_' ∧ Numeral base (cs.filter (· != '_')) n

/-- Grouped digits that may have a sign of their own. -/
inductive Signed (base : Nat) : List Char → Int → Prop where
  | plain {cs : List Char} {n : Nat} (h : Grouped base cs n) : Signed base cs n
  | plus {cs : List Char} {n : Nat} (h : Grouped base cs n) : Signed base ('+' :: cs) n
  | minus {cs : List Char} {n : Nat} (h : Grouped base cs n) : Signed base ('-' :: cs) (-n)

/-- A numeral with its own sign, which stands behind the mark of its base. -/
inductive Based : List Char → Int → Prop where
  | decimal {cs : List Char} {n : Int} (h : Signed 10 cs n) : Based cs n
  | hexadecimal {mark : Char} {cs : List Char} {n : Int} (hm : mark = 'x' ∨ mark = 'X')
      (h : Signed 16 cs n) : Based ('0' :: mark :: cs) n

/-- All texts of an integer: a numeral with its own sign, or a minus sign before one. -/
inductive Spells : List Char → Int → Prop where
  | plain {cs : List Char} {n : Int} (h : Based cs n) : Spells cs n
  | negated {cs : List Char} {n : Int} (h : Based cs n) : Spells ('-' :: cs) (-n)

/-- The text has no sign but a minus at its start, and no underscore. -/
def Plain (cs : List Char) : Prop :=
  '+' ∉ cs ∧ '_' ∉ cs ∧ '-' ∉ cs.tail

/-! ## Reading -/

theorem magnitude?_eq_some_iff {base n : Nat} {cs : List Char} :
    magnitude? base cs = some n ↔ Grouped base cs n := by
  cases cs with
  | nil => simp [magnitude?, Grouped, Numeral]
  | cons c cs =>
    by_cases hc : c = '_'
    · simp [magnitude?, Grouped, hc]
    -- Behind the first character underscores are passed over, so that they may as well be left out.
    · have hread : magnitude? base (c :: cs) = digits? base ((c :: cs).filter (· != '_')) := by
        rw [magnitude?.eq_def]
        simp [digits?, hc]
      rw [hread, digits?_eq_some_iff, Grouped]
      simp [hc]

/-- A grouped numeral holds digits and underscores only. -/
theorem Grouped.eq_or_isSome_digit? {base n : Nat} {cs : List Char} {c : Char}
    (h : Grouped base cs n) (hc : c ∈ cs) : c = '_' ∨ (digit? base c).isSome = true := by
  by_cases hu : c = '_'
  · exact .inl hu
  · exact .inr (h.2.isSome_digit? (List.mem_filter.2 ⟨hc, by simpa using hu⟩))

theorem not_grouped_sign {base n : Nat} {sign : Char} {cs : List Char}
    (hs : sign = '+' ∨ sign = '-') : ¬ Grouped base (sign :: cs) n := by
  have hdigit : digit? base sign = none := by
    obtain rfl | rfl := hs <;> simp [digit?]
  intro h
  rcases h.eq_or_isSome_digit? List.mem_cons_self with rfl | hsome
  · simp at hs
  · simp [hdigit] at hsome

theorem magnitude?_sign {base : Nat} {sign : Char} (cs : List Char) (hs : sign = '+' ∨ sign = '-') :
    magnitude? base (sign :: cs) = none :=
  Option.eq_none_iff_forall_ne_some.2 fun _ hn =>
    not_grouped_sign hs (magnitude?_eq_some_iff.1 hn)

/-- The numbers of an unsigned reading, as integers that a sign is given to. -/
theorem map_magnitude?_eq_some_iff {base : Nat} {cs : List Char} {n : Int} (sign : Int → Int) :
    ((magnitude? base cs).bind fun m => some (m : Int)).map sign = some n ↔
      ∃ m, Grouped base cs m ∧ sign m = n := by
  simp [← magnitude?_eq_some_iff, Option.bind_eq_some_iff]

theorem signed?_minus_eq_some_iff {base : Nat} {cs : List Char} {n : Int} :
    signed? base ('-' :: cs) = some n ↔ ∃ m : Nat, Grouped base cs m ∧ -(m : Int) = n := by
  rw [← map_magnitude?_eq_some_iff, signed?.eq_def]
  split
  · rename_i rest heq
    obtain ⟨_, rfl⟩ := List.cons.inj heq
    rw [magnitude?_sign rest (.inl rfl)]
    exact Iff.rfl
  · rename_i rest _ heq
    obtain ⟨_, rfl⟩ := List.cons.inj heq
    exact Iff.rfl
  · rename_i h
    exact absurd rfl (h cs)

theorem signed?_plus_eq_some_iff {base : Nat} {cs : List Char} {n : Int} :
    signed? base ('+' :: cs) = some n ↔ ∃ m : Nat, Grouped base cs m ∧ (m : Int) = n := by
  -- The plus stays before another one, and then neither text has a number.
  have hread : magnitude? base (withoutPlus ('+' :: cs)) = magnitude? base cs := by
    rw [withoutPlus.eq_def]
    split
    · rename_i rest heq
      obtain ⟨_, rfl⟩ := List.cons.inj heq
      rw [magnitude?_sign _ (.inl rfl), magnitude?_sign _ (.inl rfl)]
    · rename_i rest _ heq
      obtain ⟨_, rfl⟩ := List.cons.inj heq
      rfl
    · rename_i h
      exact absurd rfl (h cs)
  rw [← map_magnitude?_eq_some_iff fun m => m, ← hread, signed?.eq_def]
  exact Iff.rfl

theorem signed?_eq_some_iff_of_no_sign {base : Nat} {cs : List Char} {n : Int}
    (hp : cs.head? ≠ some '+') (hm : cs.head? ≠ some '-') :
    signed? base cs = some n ↔ ∃ m : Nat, Grouped base cs m ∧ (m : Int) = n := by
  have hread : withoutPlus cs = cs := by
    rw [withoutPlus.eq_def]
    split
    · rfl
    · exact absurd rfl hp
    · rfl
  rw [← map_magnitude?_eq_some_iff fun m => m, signed?.eq_def]
  split
  · exact absurd rfl hm
  · exact absurd rfl hm
  · rw [hread]
    exact Iff.rfl

theorem signed?_eq_some_iff {base : Nat} {cs : List Char} {n : Int} :
    signed? base cs = some n ↔ Signed base cs n := by
  -- The reader looks at the first character, and so do the cases: a minus, a plus or neither.
  by_cases hm : cs.head? = some '-'
  · obtain ⟨rest, rfl⟩ := List.head?_eq_some_iff.1 hm
    rw [signed?_minus_eq_some_iff]
    constructor
    · rintro ⟨m, h, rfl⟩
      exact .minus h
    · rintro (h | h | h)
      · exact absurd h (not_grouped_sign (.inr rfl))
      · exact ⟨_, h, rfl⟩
  by_cases hp : cs.head? = some '+'
  · obtain ⟨rest, rfl⟩ := List.head?_eq_some_iff.1 hp
    rw [signed?_plus_eq_some_iff]
    constructor
    · rintro ⟨m, h, rfl⟩
      exact .plus h
    · rintro (h | h | h)
      · exact absurd h (not_grouped_sign (.inl rfl))
      · exact ⟨_, h, rfl⟩
  · rw [signed?_eq_some_iff_of_no_sign hp hm]
    constructor
    · rintro ⟨m, h, rfl⟩
      exact .plain h
    · rintro (h | h | h)
      · exact ⟨_, h, rfl⟩
      · exact absurd rfl hp
      · exact absurd rfl hm

/-- A signed numeral has a digit or a sign at its start, and then digits and underscores. -/
theorem Signed.mem_tail {base : Nat} {cs : List Char} {n : Int} {c : Char} (h : Signed base cs n)
    (hc : c ∈ cs.tail) : c = '_' ∨ (digit? base c).isSome = true := by
  cases h with
  | plain h => exact h.eq_or_isSome_digit? (List.mem_of_mem_tail hc)
  | plus h => exact h.eq_or_isSome_digit? hc
  | minus h => exact h.eq_or_isSome_digit? hc

theorem based?_eq_some_iff {cs : List Char} {n : Int} : based? cs = some n ↔ Based cs n := by
  rw [based?.eq_def]
  constructor
  · intro h
    split at h
    · exact .hexadecimal (.inl rfl) (signed?_eq_some_iff.1 h)
    · exact .hexadecimal (.inr rfl) (signed?_eq_some_iff.1 h)
    · exact .decimal (signed?_eq_some_iff.1 h)
  · intro h
    -- The mark of a base is no decimal digit.
    have hmark (mark : Char) (rest : List Char) (hm : mark = 'x' ∨ mark = 'X') :
        ¬ Signed 10 ('0' :: mark :: rest) n := by
      intro h
      rcases h.mem_tail List.mem_cons_self with rfl | hsome
      · simp at hm
      · obtain rfl | rfl := hm <;> cases hsome
    cases h with
    | decimal h =>
      split
      · exact absurd h (hmark _ _ (.inl rfl))
      · exact absurd h (hmark _ _ (.inr rfl))
      · exact signed?_eq_some_iff.2 h
    | hexadecimal hm h =>
      obtain rfl | rfl := hm <;> exact signed?_eq_some_iff.2 h

theorem ofChars?_eq_some_iff {cs : List Char} {n : Int} : ofChars? cs = some n ↔ Spells cs n := by
  rw [ofChars?.eq_def]
  constructor
  · intro h
    split at h
    · obtain ⟨m, hm, rfl⟩ := Option.map_eq_some_iff.1 h
      exact .negated (based?_eq_some_iff.1 hm)
    · exact .plain (based?_eq_some_iff.1 h)
  · intro h
    cases h with
    | plain h =>
      split
      · -- A minus sign that is the numeral's own counts like one before the numeral.
        cases h with
        | decimal h =>
          cases h with
          | plain h => exact absurd h (not_grouped_sign (.inr rfl))
          | minus h => simp [based?_eq_some_iff.2 (.decimal (.plain h))]
      · exact based?_eq_some_iff.2 h
    | negated h => simp [based?_eq_some_iff.2 h]

/-! ## Documented spellings -/

theorem filter_underscore {cs : List Char} (h : '_' ∉ cs) : cs.filter (· != '_') = cs := by
  refine List.filter_eq_self.2 fun c hc => bne_iff_ne.2 ?_
  rintro rfl
  exact h hc

theorem grouped_of_numeral {base n : Nat} {cs : List Char} (h : Numeral base cs n) :
    Grouped base cs n := by
  have hclean : '_' ∉ cs := by
    intro hmem
    have hsome := h.isSome_digit? hmem
    simp [digit?] at hsome
  refine ⟨fun hhead => hclean (List.mem_of_head? hhead), ?_⟩
  rwa [filter_underscore hclean]

theorem numeral_of_grouped {base n : Nat} {cs : List Char} (h : Grouped base cs n)
    (hclean : '_' ∉ cs) : Numeral base cs n := by
  rw [← filter_underscore hclean]
  exact h.2

theorem based_of_unsigned {cs : List Char} {n : Nat} (h : Unsigned cs n) : Based cs n := by
  cases h with
  | decimal h => exact .decimal (.plain (grouped_of_numeral h))
  | hexadecimal hm h => exact .hexadecimal hm (.plain (grouped_of_numeral h))

theorem spells_of_documented {cs : List Char} {n : Int} (h : Documented cs n) : Spells cs n := by
  cases h with
  | plain h => exact .plain (based_of_unsigned h)
  | negated h => exact .negated (based_of_unsigned h)

theorem not_mem_of_unsigned {cs : List Char} {n : Nat} {c : Char} (h : Unsigned cs n)
    (hc : c = '+' ∨ c = '_' ∨ c = '-') : c ∉ cs := by
  have hdigit (base : Nat) : digit? base c = none := by
    obtain rfl | rfl | rfl := hc <;> simp [digit?]
  intro hmem
  cases h with
  | decimal h =>
    have hsome := h.isSome_digit? hmem
    simp [hdigit] at hsome
  | @hexadecimal mark _ _ hm h =>
    rcases List.mem_cons.1 hmem with rfl | hmem
    · simp at hc
    rcases List.mem_cons.1 hmem with rfl | hmem
    · obtain rfl | rfl := hm <;> simp at hc
    · have hsome := h.isSome_digit? hmem
      simp [hdigit] at hsome

theorem plain_of_documented {cs : List Char} {n : Int} (h : Documented cs n) : Plain cs := by
  cases h with
  | plain h =>
    exact ⟨not_mem_of_unsigned h (.inl rfl), not_mem_of_unsigned h (.inr (.inl rfl)),
      fun hmem => not_mem_of_unsigned h (.inr (.inr rfl)) (List.mem_of_mem_tail hmem)⟩
  | negated h =>
    refine ⟨?_, ?_, not_mem_of_unsigned h (.inr (.inr rfl))⟩
    · simpa using not_mem_of_unsigned h (.inl rfl)
    · simpa using not_mem_of_unsigned h (.inr (.inl rfl))

/-- A numeral without a plus, an underscore or a minus is unsigned. -/
theorem unsigned_of_based {cs : List Char} {n : Int} (h : Based cs n) (hp : '+' ∉ cs)
    (hu : '_' ∉ cs) (hm : '-' ∉ cs) : ∃ m : Nat, Unsigned cs m ∧ n = m := by
  cases h with
  | decimal h =>
    cases h with
    | plain h => exact ⟨_, .decimal (numeral_of_grouped h hu), rfl⟩
    | plus h => exact absurd List.mem_cons_self hp
    | minus h => exact absurd List.mem_cons_self hm
  | hexadecimal hmark h =>
    cases h with
    | plain h =>
      -- Behind the mark the digits have no underscore either.
      have hu' : '_' ∉ _ := fun hmem => hu (List.mem_cons_of_mem _ (List.mem_cons_of_mem _ hmem))
      exact ⟨_, .hexadecimal hmark (numeral_of_grouped h hu'), rfl⟩
    | plus h => simp at hp
    | minus h => simp at hm

theorem spells_minus_iff {cs : List Char} {n : Int} :
    Spells ('-' :: cs) n ↔ ∃ m, Based cs m ∧ -m = n := by
  have hread : ofChars? ('-' :: cs) = (based? cs).map fun m => -m := rfl
  simp [← ofChars?_eq_some_iff, hread, based?_eq_some_iff]

theorem documented_of_spells {cs : List Char} {n : Int} (h : Spells cs n) (hp : Plain cs) :
    Documented cs n := by
  obtain ⟨hplus, hunder, hminus⟩ := hp
  by_cases hhead : cs.head? = some '-'
  · obtain ⟨rest, rfl⟩ := List.head?_eq_some_iff.1 hhead
    obtain ⟨_, hbased, rfl⟩ := spells_minus_iff.1 h
    obtain ⟨m, hm, rfl⟩ :=
      unsigned_of_based hbased (by simpa using hplus) (by simpa using hunder) hminus
    exact .negated hm
  -- Without a minus at the start there is none at all.
  · have hnone : '-' ∉ cs := by
      cases cs with
      | nil => exact List.not_mem_nil
      | cons c cs => simpa [eq_comm] using And.intro hhead hminus
    cases h with
    | plain h =>
      obtain ⟨m, hm, rfl⟩ := unsigned_of_based h hplus hunder hnone
      exact .plain hm
    | negated h => exact absurd rfl hhead

/-- A documented text is read as its integer. What is read is told by its spelling, and the texts
that are read are the documented ones exactly as far as they have no plus, no underscore, and no
minus but at the start. -/
theorem parse_documented_iff (text : String) :
    let cs := trimChars text.toList
    (∀ n, Documented cs n → parse? text = some n) ∧
    (∀ n, parse? text = some n ↔ Spells cs n) ∧
    ((∀ n, parse? text = some n ↔ Documented cs n) ↔ ∀ n, parse? text = some n → Plain cs) := by
  intro cs
  have hspells (n : Int) : parse? text = some n ↔ Spells cs n := ofChars?_eq_some_iff
  refine ⟨fun n h => (hspells n).2 (spells_of_documented h), hspells, ?_, ?_⟩
  · intro h n hn
    exact plain_of_documented ((h n).1 hn)
  · intro h n
    constructor
    · intro hn
      exact documented_of_spells ((hspells n).1 hn) (h n hn)
    · intro hn
      exact (hspells n).2 (spells_of_documented hn)

/-- A second minus sign undoes the first one, and no documented text of any integer has two. -/
theorem parse_double_minus :
    parse? "--5" = some 5 ∧ (∀ n, ¬ Documented (trimChars "--5".toList) n) ∧
      ¬ ∀ n, parse? "--5" = some n ↔ Documented (trimChars "--5".toList) n := by
  have hread : parse? "--5" = some 5 := by decide +kernel
  have hchars : trimChars "--5".toList = ['-', '-', '5'] := by decide +kernel
  have hnot (n : Int) : ¬ Documented (trimChars "--5".toList) n := by
    rw [hchars]
    intro h
    exact (plain_of_documented h).2.2 List.mem_cons_self
  exact ⟨hread, hnot, fun h => hnot 5 ((h 5).1 hread)⟩

end Playbook.IntegerText
