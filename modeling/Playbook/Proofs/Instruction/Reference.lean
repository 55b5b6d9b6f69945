import Playbook.Proofs.Instruction.Build
import Playbook.State.Store

/-!
# References among all texts

A reference is a dollar sign, the keyword of a namespace, a dot and a path. Inputs, destinations and
locators are texts that are first asked whether they are references, and each has its own rule for
those that are none. The main statement: every text is taken by its spelling, but for references
with one more dollar sign before them, which are taken for the references without it.
-/

namespace Playbook

/-! ## Keywords -/

namespace Namespace

variable {space : Namespace}

theorem ofKeyword?_eq_some_iff {keyword : String} :
    ofKeyword? keyword = some space ↔ keyword = space.keyword := by
  constructor
  · intro h
    have hfound := List.find?_some h
    exact (beq_iff_eq.1 hfound).symm
  · rintro rfl
    exact ofKeyword?_keyword space

theorem dot_not_mem_keyword (space : Namespace) : '.' ∉ space.keyword.toList := by
  cases space <;> decide

theorem head?_keyword (space : Namespace) : space.keyword.toList.head? ≠ some '$' := by
  cases space <;> decide

/-- A keyword is known with or without a dollar sign. -/
theorem parse?_eq_some_iff {text : String} :
    parse? text = some space ↔ text = space.keyword ∨ text = space.display := by
  have hdisplay : space.display.toList = '$' :: space.keyword.toList := by simp [display]
  rw [parse?.eq_def]
  split
  · rename_i rest htext
    have hplain : text ≠ space.keyword := by
      rintro rfl
      exact head?_keyword space (by rw [htext]; rfl)
    rw [ofKeyword?_eq_some_iff, or_iff_right hplain]
    simp [← String.toList_inj, htext, hdisplay]
  · rename_i hsign
    rw [ofKeyword?_eq_some_iff, or_iff_left]
    rintro rfl
    exact hsign _ hdisplay

end Namespace

/-! ## Spellings -/

namespace Reference

def spelled (r : Reference) : String :=
  r.space.display ++ "." ++ r.path

theorem toList_spelled (r : Reference) :
    r.spelled.toList = '$' :: (r.space.keyword.toList ++ '.' :: r.path.toList) := by
  simp [spelled, Namespace.display]

/-- A text with a dollar sign, a keyword, a dot and a path is read by its keyword. -/
theorem parse?_eq_some {text : String} {r : Reference} {keyword : List Char}
    (ht : text.toList = '$' :: (keyword ++ '.' :: r.path.toList)) (hdot : '.' ∉ keyword)
    (hk : Namespace.parse? (String.ofList keyword) = some r.space) : parse? text = some r := by
  have hcut : Text.cut? '.' (keyword ++ '.' :: r.path.toList) = some (keyword, r.path.toList) :=
    Text.cut?_eq_some_iff.2 ⟨rfl, hdot⟩
  simp [parse?, ht, hcut, hk]

/-- A text is read as a reference when it is spelled like it, or with one more dollar sign. -/
theorem parse?_eq_some_iff {text : String} {r : Reference} :
    parse? text = some r ↔ text = r.spelled ∨ text = "$" ++ r.spelled := by
  constructor
  · intro h
    rw [parse?.eq_def] at h
    split at h
    · rename_i rest htext
      obtain ⟨⟨keyword, path⟩, hcut, hmap⟩ := Option.bind_eq_some_iff.1 h
      obtain ⟨space, hspace, rfl⟩ := Option.map_eq_some_iff.1 hmap
      obtain ⟨rfl, -⟩ := Text.cut?_eq_some_iff.1 hcut
      refine (Namespace.parse?_eq_some_iff.1 hspace).imp ?_ ?_
      all_goals
        intro hkeyword
        have hchars := congrArg String.toList hkeyword
        simp_all [← String.toList_inj, toList_spelled, Namespace.display]
    · cases h
  · have hdot := r.space.dot_not_mem_keyword
    rintro (rfl | rfl)
    · exact parse?_eq_some r.toList_spelled hdot (by simp [Namespace.parse?_eq_some_iff])
    · have hchars : ("$" ++ r.spelled).toList =
          '$' :: (r.space.display.toList ++ '.' :: r.path.toList) := by
        simp [toList_spelled, Namespace.display]
      exact parse?_eq_some hchars (by simpa [Namespace.display] using hdot)
        (by simp [Namespace.parse?_eq_some_iff])

/-- What is read as a reference is no item reference. -/
theorem path?_of_parse? {text : String} {r : Reference} (h : parse? text = some r) :
    Item.path? text = none := by
  rcases parse?_eq_some_iff.1 h with rfl | rfl
  · cases hspace : r.space <;> simp [Item.path?, toList_spelled, hspace, Namespace.keyword]
  · simp [Item.path?, toList_spelled]

theorem parse?_eq_none {text : String} (hs : ∀ r : Reference, text ≠ r.spelled)
    (hd : ∀ r : Reference, text ≠ "$" ++ r.spelled) : parse? text = none := by
  cases hread : parse? text with
  | none => rfl
  | some r =>
    rcases parse?_eq_some_iff.1 hread with hr | hr
    · exact absurd hr (hs r)
    · exact absurd hr (hd r)

theorem spelled_ne_doubled (r s : Reference) : "$" ++ r.spelled ≠ s.spelled := by
  intro h
  -- The second character is a dollar sign on one side, and begins a keyword on the other.
  have hchars := congrArg String.toList h
  cases hspace : s.space <;> simp [toList_spelled, hspace, Namespace.keyword] at hchars

/-! ## Those who take texts -/

/-- A text that is no reference stands for itself. -/
theorem resolve?_of_parse?_eq_none {text : String} (h : parse? text = none) (store : Store) :
    (Value.string text).resolve? store = some (.string text) := by
  simp [Value.resolve?, h]

/-- A locator that is no reference and no address is refused. -/
theorem exists_build_eq_error {text : String} {fields : Fields Value} (h : parse? text = none)
    (ha : isAddress text = false) (hf : Fields.get? fields "at" = some (.string text)) :
    ∃ fault, Instruction.build (.object fields) = .error fault := by
  cases hb : Instruction.build (.object fields) with
  | error fault => exact ⟨fault, rfl⟩
  | ok i =>
    have hd := Instruction.describes_of_ofFields hb
    -- An instruction that were built would have the text as its locator, which is checked.
    have hlocator : i.locator = some text := by
      cases hl : i.locator with
      | none =>
        have hnone := hl ▸ hd.locator
        simp only [Instruction.optionalText, hf] at hnone
        obtain ⟨_, -, hsome⟩ := Outcome.map_eq_ok.1 hnone
        cases hsome
      | some locator =>
        have hget := Instruction.get?_of_optionalText (hl ▸ hd.locator)
        simpa using hget.symm.trans hf
    have haddress := hd.address
    simp [hlocator, Instruction.checkLocator, isReference, h, ha, Instruction.Stage.defers]
      at haddress

/-- Whether a text is taken by its spelling: as a reference if it is spelled like one, and else as
what it is to the one who takes it. -/
structure FollowsGrammar (text : String) : Prop where
  read : ∀ r, parse? text = some r ↔ text = r.spelled
  literal : (∀ r : Reference, text ≠ r.spelled) →
    ∀ store, (Value.string text).resolve? store = some (.string text)
  refused : (∀ r : Reference, text ≠ r.spelled) → text.toList.head? = some '$' →
    destination text = .error (.foreignDestination text)
  outputs : text.toList.head? ≠ some '$' → destination text = .ok (.outputs, text)
  locator : (∀ r : Reference, text ≠ r.spelled) → isAddress text = false →
    ∀ fields, Fields.get? fields "at" = some (.string text) →
      ∃ fault, Instruction.build (.object fields) = .error fault
  apart : ¬ ((parse? text).isSome ∧ (Item.path? text).isSome)

/-- Every text is taken by its spelling, unless it is a reference with one more dollar sign before
it, which is read as the reference without it. -/
theorem follows_grammar_iff (text : String) :
    (∀ r, parse? text = some r ↔ text = r.spelled ∨ text = "$" ++ r.spelled) ∧
      (FollowsGrammar text ↔ ∀ r : Reference, text ≠ "$" ++ r.spelled) := by
  refine ⟨fun _ => parse?_eq_some_iff, ?_, ?_⟩
  · intro h r hr
    -- A doubled dollar sign is read, but is no spelling.
    have hread := parse?_eq_some_iff.2 (.inr hr)
    exact spelled_ne_doubled r r (hr.symm.trans ((h.read r).1 hread))
  · intro h
    have hnone : (∀ r : Reference, text ≠ r.spelled) → parse? text = none :=
      fun hs => parse?_eq_none hs h
    constructor
    case read =>
      intro r
      rw [parse?_eq_some_iff, or_iff_left (h r)]
    case literal =>
      intro hs
      exact resolve?_of_parse?_eq_none (hnone hs)
    case refused =>
      intro hs hsign
      simp [destination, hnone hs, hsign]
    case outputs =>
      intro hsign
      have hs : ∀ r : Reference, text ≠ r.spelled := by
        rintro r rfl
        simp [toList_spelled] at hsign
      simp [destination, hnone hs, hsign]
    case locator =>
      intro hs ha fields hf
      exact exists_build_eq_error (hnone hs) ha hf
    case apart =>
      rintro ⟨hread, hitem⟩
      obtain ⟨r, hr⟩ := Option.isSome_iff_exists.1 hread
      simp [path?_of_parse? hr] at hitem

/-- The text `$$inputs.owner` is spelled like no reference, and is read as `$inputs.owner`: it does
not stand for itself, and is taken for a destination and for a locator. -/
theorem doubled_sign_read :
    let text := "$$inputs.owner"
    let fields : Fields Value :=
      [("contract", .string "Vault"), ("run", .string "ping"), ("at", .string text)]
    (∀ r : Reference, text ≠ r.spelled) ∧ ¬ FollowsGrammar text ∧
      parse? text = some ⟨.inputs, "owner"⟩ ∧
      (Value.string text).resolve? (.ofInputs [("owner", .string "0xff")]) = some (.string "0xff") ∧
      destination text = .ok (.inputs, "owner") ∧
      (Instruction.build (.object fields)).toOption.isSome = true := by
  intro text fields
  have hdoubled : text = "$" ++ (⟨.inputs, "owner"⟩ : Reference).spelled := by decide +kernel
  have hspelled : ∀ r : Reference, text ≠ r.spelled := fun r hr =>
    spelled_ne_doubled _ r (hdoubled.symm.trans hr)
  have hread : parse? text = some ⟨.inputs, "owner"⟩ := parse?_eq_some_iff.2 (.inr hdoubled)
  refine ⟨hspelled, ?_, hread, by decide +kernel, ?_, by decide +kernel⟩
  · intro h
    exact hspelled _ ((h.read _).1 hread)
  · simp [destination, hread]

end Reference

end Playbook
