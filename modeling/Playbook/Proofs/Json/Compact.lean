import Mathlib.Data.List.Forall2
import Playbook.Json.Printer
import Playbook.Json.Spelling
import Playbook.Proofs.Text.Numeral

/-!
# Compact texts are read back

What the compact printer writes, the reader of spellings takes as one value, whatever stands after
it, with as much fuel as there are characters. A written character is read as one unit, items and
members are read up to the bracket that closes them, and so a whole document up to its end. Numbers
and the three words are left aside: artifacts hold none.
-/

namespace Playbook.Json

/-! ## Strings -/

/-- The units that a written character is read as: the character, or the code of a control. -/
inductive TextUnit.Spells : TextUnit → Char → Prop where
  | char (c : Char) : Spells (.char c) c
  | code {c : Char} (h : c.toNat < 0x20) : Spells (.code c.toNat) c

theorem TextUnit.chars?_code_cons {n : Nat} (h : n < 0x20) (units : List TextUnit) :
    chars? (.code n :: units) = (chars? units).map (Char.ofNat n :: ·) := by
  have hleading : isLeading n = false := by
    simp only [isLeading, Bool.and_eq_false_imp, decide_eq_true_eq]
    omega
  have htrailing : isTrailing n = false := by
    simp only [isTrailing, Bool.and_eq_false_imp, decide_eq_true_eq]
    omega
  cases units with
  | nil => simp [chars?, hleading, htrailing]
  | cons unit units => cases unit <;> simp [chars?, hleading, htrailing]

theorem TextUnit.chars?_of_spells {units : List TextUnit} {cs : List Char}
    (h : List.Forall₂ Spells units cs) : chars? units = some cs := by
  induction h with
  | nil => rfl
  | cons hunit _ ih =>
    cases hunit with
    | char c => rw [chars?, ih, Option.map_some]
    | code hc => rw [chars?_code_cons hc, ih, Option.map_some, Char.ofNat_toNat]

/-- The code of a control is read from its escape. -/
theorem string?_code {n : Nat} (h : n < 0x20) (cs : List Char) :
    Spelling.string? ('\\' :: 'u' :: Text.hexDigits 4 n ++ cs) =
      (Spelling.string? cs).map fun (units, rest) => (.code n :: units, rest) := by
  have hdigits : Text.digits? 16 (Text.hexDigits 4 n) = some n :=
    Text.digits?_hexDigits (by decide) (by omega)
  simp only [Text.hexDigits, List.nil_append, List.cons_append] at hdigits ⊢
  rw [Spelling.string?, hdigits, Option.bind_some]

/-- A written character is read as one unit that stands for it. -/
theorem exists_unit_of_escaped (c : Char) : ∃ unit, TextUnit.Spells unit c ∧ ∀ cs,
    Spelling.string? (escaped c ++ cs) =
      (Spelling.string? cs).map fun (units, rest) => (unit :: units, rest) := by
  unfold escaped
  split
  case h_8 hquote hslash _ _ _ _ _ =>
    split
    · rename_i hlow
      exact ⟨_, .code hlow, string?_code hlow⟩
    · refine ⟨_, .char c, fun cs => ?_⟩
      rw [List.singleton_append, Spelling.string?.eq_def]
      split <;> simp_all
  -- The escapes of one letter.
  all_goals exact ⟨_, .char _, fun _ => rfl⟩

/-- A written string is read up to its closing quote. -/
theorem exists_units_of_escaped (chars : List Char) :
    ∃ units, List.Forall₂ TextUnit.Spells units chars ∧ ∀ rest,
      Spelling.string? (chars.flatMap escaped ++ '"' :: rest) = some (units, rest) := by
  induction chars with
  | nil => exact ⟨[], .nil, fun _ => rfl⟩
  | cons c chars ih =>
    obtain ⟨unit, hunit, hfirst⟩ := exists_unit_of_escaped c
    obtain ⟨units, hunits, hread⟩ := ih
    refine ⟨unit :: units, .cons hunit hunits, fun rest => ?_⟩
    rw [List.flatMap_cons, List.append_assoc, hfirst, hread, Option.map_some]

theorem exists_units (text : String) : ∃ units, TextUnit.text? units = some text ∧ ∀ rest,
    Spelling.string? (text.toList.flatMap escaped ++ '"' :: rest) = some (units, rest) := by
  obtain ⟨units, hunits, hread⟩ := exists_units_of_escaped text.toList
  refine ⟨units, ?_, hread⟩
  rw [TextUnit.text?, TextUnit.chars?_of_spells hunits, Option.map_some, String.ofList_toList]

/-! ## Values -/

theorem skipSpace_cons {c : Char} (h : Spelling.isSpace c = false) (cs : List Char) :
    Spelling.skipSpace (c :: cs) = c :: cs := by
  rw [Spelling.skipSpace, List.dropWhile_cons_of_neg (by simp [h])]

/-- The characters begin with one that neither is passed over nor closes an array. -/
def Begins (cs : List Char) : Prop :=
  ∃ c rest, cs = c :: rest ∧ Spelling.isSpace c = false ∧ c ≠ ']'

/-- The characters are read as one value, whatever follows them. -/
structure Reads (cs : List Char) (spelling : Spelling) : Prop where
  begins : Begins cs
  value : ∀ fuel rest, cs.length ≤ fuel →
    Spelling.value? fuel (cs ++ rest) = some (spelling, rest)

/-- The characters are a quoted name, a colon and a value. -/
structure ReadsMember (cs : List Char) (member : List TextUnit × Spelling) : Prop where
  parts : ∃ name value, cs = '"' :: name ++ '"' :: ':' :: value ∧
    (∀ rest, Spelling.string? (name ++ '"' :: rest) = some (member.1, rest)) ∧
    Reads value member.2

theorem ReadsMember.begins {text : List Char} {member : List TextUnit × Spelling}
    (h : ReadsMember text member) (texts : List (List Char)) :
    ∃ more, [','].intercalate (text :: texts) = '"' :: more := by
  obtain ⟨name, value, rfl, -, -⟩ := h.parts
  cases texts with
  | nil => exact ⟨_, List.intercalate_singleton⟩
  | cons next texts => exact ⟨_, List.intercalate_cons_cons⟩

theorem Begins.append {cs : List Char} (h : Begins cs) (more : List Char) :
    Begins (cs ++ more) := by
  obtain ⟨c, rest, rfl, hspace, hclose⟩ := h
  exact ⟨c, rest ++ more, rfl, hspace, hclose⟩

theorem Begins.intercalate {text : List Char} (h : Begins text) (texts : List (List Char)) :
    Begins ([','].intercalate (text :: texts)) := by
  cases texts with
  | nil =>
    rw [List.intercalate_singleton]
    exact h
  | cons next texts =>
    rw [List.intercalate_cons_cons, List.append_assoc]
    exact h.append _

/-! ## Arrays -/

theorem items?_last {cs : List Char} {item : Spelling} (h : Reads cs item) (rest : List Char)
    {fuel : Nat} (hfuel : cs.length ≤ fuel) :
    Spelling.items? (fuel + 1) (cs ++ ']' :: rest) = some ([item], rest) := by
  rw [Spelling.items?, h.value fuel _ hfuel]
  rfl

theorem items?_more {cs : List Char} {item : Spelling} (h : Reads cs item) (rest : List Char)
    {fuel : Nat} (hfuel : cs.length ≤ fuel) :
    Spelling.items? (fuel + 1) (cs ++ ',' :: rest) =
      (Spelling.items? fuel rest).map fun (items, rest) => (item :: items, rest) := by
  rw [Spelling.items?, h.value fuel _ hfuel]
  rfl

/-- Items with commas between them are read up to the closing bracket. -/
theorem items?_of_reads {texts : List (List Char)} {items : List Spelling}
    (h : List.Forall₂ Reads texts items) (hne : texts ≠ []) (rest : List Char) {fuel : Nat}
    (hfuel : ([','].intercalate texts).length < fuel) :
    Spelling.items? fuel ([','].intercalate texts ++ ']' :: rest) = some (items, rest) := by
  induction h generalizing fuel with
  | nil => exact absurd rfl hne
  | @cons text item texts items hitem hitems ih =>
    -- Every item takes one unit of fuel, and the comma after it pays for that.
    obtain _ | fuel := fuel
    · cases hfuel
    cases hitems with
    | nil =>
      rw [List.intercalate_singleton] at hfuel ⊢
      exact items?_last hitem rest (Nat.le_of_lt_succ hfuel)
    | cons hnext hitems =>
      rw [List.intercalate_cons_cons] at hfuel ⊢
      simp only [List.length_append, List.length_singleton] at hfuel
      rw [List.append_assoc, List.append_assoc, List.singleton_append,
        items?_more hitem _ (by omega), ih (List.cons_ne_nil _ _) (by omega), Option.map_some]

/-- An array that does not end at once is read item by item. -/
theorem value?_array {cs : List Char} (h : Begins cs) (fuel : Nat) :
    Spelling.value? (fuel + 1) ('[' :: cs) =
      (Spelling.items? fuel cs).map fun (items, rest) => (.array items, rest) := by
  obtain ⟨c, rest, rfl, hspace, hclose⟩ := h
  simp only [Spelling.value?, skipSpace_cons (c := '[') rfl, skipSpace_cons hspace]
  split
  · rename_i heq
    exact absurd (List.cons.inj heq).1 hclose
  · rfl

/-- An array is read with its items. -/
theorem reads_array {texts : List (List Char)} {items : List Spelling}
    (h : List.Forall₂ Reads texts items) :
    Reads ('[' :: ([','].intercalate texts ++ [']'])) (.array items) := by
  refine ⟨⟨'[', _, rfl, rfl, by decide⟩, fun fuel rest hfuel => ?_⟩
  obtain _ | fuel := fuel
  · cases hfuel
  -- An empty array ends before there is an item to read.
  cases h with
  | nil => rfl
  | @cons text item texts items hitem hitems =>
    have hbegins := hitem.begins.intercalate texts
    simp only [List.length_cons, List.length_append] at hfuel
    rw [List.cons_append, List.append_assoc, List.singleton_append,
      value?_array (hbegins.append _),
      items?_of_reads (.cons hitem hitems) (List.cons_ne_nil _ _) rest (by omega),
      Option.map_some]

/-! ## Objects -/

theorem members?_last {cs : List Char} {member : List TextUnit × Spelling}
    (h : ReadsMember cs member) (rest : List Char) {fuel : Nat} (hfuel : cs.length ≤ fuel) :
    Spelling.members? (fuel + 1) (cs ++ '\x7d' :: rest) = some ([member], rest) := by
  obtain ⟨name, value, rfl, hname, hvalue⟩ := h.parts
  simp only [List.length_cons, List.length_append] at hfuel
  have hread := hvalue.value fuel ('\x7d' :: rest) (by omega)
  simp only [List.append_assoc, List.cons_append, Spelling.members?, skipSpace_cons (c := '"') rfl,
    hname, Option.bind_some, skipSpace_cons (c := ':') rfl, hread,
    skipSpace_cons (c := '\x7d') rfl]

theorem members?_more {cs : List Char} {member : List TextUnit × Spelling}
    (h : ReadsMember cs member) (rest : List Char) {fuel : Nat} (hfuel : cs.length ≤ fuel) :
    Spelling.members? (fuel + 1) (cs ++ ',' :: rest) =
      (Spelling.members? fuel rest).map fun (members, rest) => (member :: members, rest) := by
  obtain ⟨name, value, rfl, hname, hvalue⟩ := h.parts
  simp only [List.length_cons, List.length_append] at hfuel
  have hread := hvalue.value fuel (',' :: rest) (by omega)
  simp only [List.append_assoc, List.cons_append, Spelling.members?, skipSpace_cons (c := '"') rfl,
    hname, Option.bind_some, skipSpace_cons (c := ':') rfl, hread, skipSpace_cons (c := ',') rfl]

/-- Members with commas between them are read up to the closing brace. -/
theorem members?_of_reads {texts : List (List Char)} {members : List (List TextUnit × Spelling)}
    (h : List.Forall₂ ReadsMember texts members) (hne : texts ≠ []) (rest : List Char) {fuel : Nat}
    (hfuel : ([','].intercalate texts).length < fuel) :
    Spelling.members? fuel ([','].intercalate texts ++ '\x7d' :: rest) = some (members, rest) := by
  induction h generalizing fuel with
  | nil => exact absurd rfl hne
  | @cons text member texts members hmember hmembers ih =>
    obtain _ | fuel := fuel
    · cases hfuel
    cases hmembers with
    | nil =>
      rw [List.intercalate_singleton] at hfuel ⊢
      exact members?_last hmember rest (Nat.le_of_lt_succ hfuel)
    | cons hnext hmembers =>
      rw [List.intercalate_cons_cons] at hfuel ⊢
      simp only [List.length_append, List.length_singleton] at hfuel
      rw [List.append_assoc, List.append_assoc, List.singleton_append,
        members?_more hmember _ (by omega), ih (List.cons_ne_nil _ _) (by omega), Option.map_some]

/-- An object is read with its members. -/
theorem reads_object {texts : List (List Char)} {members : List (List TextUnit × Spelling)}
    (h : List.Forall₂ ReadsMember texts members) :
    Reads ('\x7b' :: ([','].intercalate texts ++ ['\x7d'])) (.object members) := by
  refine ⟨⟨'\x7b', _, rfl, rfl, by decide⟩, fun fuel rest hfuel => ?_⟩
  obtain _ | fuel := fuel
  · cases hfuel
  cases h with
  | nil => rfl
  | @cons text member texts members hmember hmembers =>
    obtain ⟨more, hmore⟩ := hmember.begins texts
    simp only [List.length_cons, List.length_append] at hfuel
    -- The quote of the first name keeps the object from ending at once.
    have hvalue (cs : List Char) :
        Spelling.value? (fuel + 1) ('\x7b' :: ([','].intercalate (text :: texts) ++ cs)) =
          (Spelling.members? fuel ([','].intercalate (text :: texts) ++ cs)).map
            fun (members, rest) => (.object members, rest) := by
      rw [hmore]
      rfl
    rw [List.cons_append, List.append_assoc, List.singleton_append, hvalue,
      members?_of_reads (.cons hmember hmembers) (List.cons_ne_nil _ _) rest (by omega),
      Option.map_some]

/-! ## Documents -/

/-- The compact text of the document is read as the spelling. -/
def ReadsBack (document : Json) (spelling : Spelling) : Prop :=
  Reads document.compact.toList spelling

/-- A member has the name of the entry, and its value is read as the value of the entry. -/
def EntryReadsBack (member : String × Json) (entry : String × Spelling) : Prop :=
  member.1 = entry.1 ∧ ReadsBack member.2 entry.2

/-- A spelled member has the name and the value. -/
def Named (member : List TextUnit × Spelling) (entry : String × Spelling) : Prop :=
  TextUnit.text? member.1 = some entry.1 ∧ member.2 = entry.2

/-- A string is read as units that denote its text. -/
theorem exists_readsBack_string (text : String) :
    ∃ units, TextUnit.text? units = some text ∧ ReadsBack (string text) (.string units) := by
  obtain ⟨units, htext, hread⟩ := exists_units text
  have hquote : (string text).compact.toList = '"' :: (text.toList.flatMap escaped ++ ['"']) := by
    rw [compact, quote, String.toList_ofList, List.cons_append]
  refine ⟨units, htext, ?_⟩
  rw [ReadsBack, hquote]
  refine ⟨⟨'"', _, rfl, rfl, by decide⟩, fun fuel rest hfuel => ?_⟩
  obtain _ | fuel := fuel
  · cases hfuel
  · have hvalue (cs : List Char) : Spelling.value? (fuel + 1) ('"' :: cs) =
        (Spelling.string? cs).map fun (units, rest) => (.string units, rest) := rfl
    rw [List.cons_append, List.append_assoc, List.singleton_append, hvalue, hread, Option.map_some]

theorem compactItems_eq (items : List Json) : compactItems items = items.map compact := by
  induction items with
  | nil => rfl
  | cons item rest ih => rw [compactItems, ih, List.map_cons]

theorem compactMembers_eq (members : List (String × Json)) :
    compactMembers members =
      members.map fun (name, value) => quote name ++ ":" ++ value.compact := by
  induction members with
  | nil => rfl
  | cons member rest ih => rw [compactMembers, ih, List.map_cons]

theorem readsBack_array {items : List Json} {spellings : List Spelling}
    (h : List.Forall₂ ReadsBack items spellings) :
    ReadsBack (array items) (.array spellings) := by
  have htext : (array items).compact.toList =
      '[' :: ([','].intercalate (items.map fun item => item.compact.toList) ++ [']']) := by
    rw [compact, compactItems_eq, commas, String.toList_append, String.toList_append,
      String.toList_intercalate, List.map_map]
    rfl
  rw [ReadsBack, htext]
  exact reads_array (List.forall₂_map_left_iff.2 h)

theorem exists_readsMember (name : String) {value : Json} {spelling : Spelling}
    (h : ReadsBack value spelling) : ∃ units, TextUnit.text? units = some name ∧
      ReadsMember (quote name ++ ":" ++ value.compact).toList (units, spelling) := by
  obtain ⟨units, hname, hread⟩ := exists_units name
  refine ⟨units, hname, ⟨_, _, ?_, hread, h⟩⟩
  simp [quote]

theorem exists_readsBack_object {members : List (String × Json)}
    {entries : List (String × Spelling)} (h : List.Forall₂ EntryReadsBack members entries) :
    ∃ spelled, List.Forall₂ Named spelled entries ∧
      ReadsBack (object members) (.object spelled) := by
  have hmembers : ∃ spelled, List.Forall₂ Named spelled entries ∧
      List.Forall₂ ReadsMember
        (members.map fun (name, value) => (quote name ++ ":" ++ value.compact).toList) spelled := by
    induction h with
    | nil => exact ⟨[], .nil, .nil⟩
    | @cons member entry members entries hmember _ ih =>
      obtain ⟨spelled, hnamed, hreads⟩ := ih
      obtain ⟨units, hname, hread⟩ := exists_readsMember member.1 hmember.2
      exact ⟨(units, entry.2) :: spelled, .cons ⟨hmember.1 ▸ hname, rfl⟩ hnamed,
        .cons hread hreads⟩
  obtain ⟨spelled, hnamed, hreads⟩ := hmembers
  have htext : (object members).compact.toList = '\x7b' :: ([','].intercalate
      (members.map fun (name, value) => (quote name ++ ":" ++ value.compact).toList) ++
        ['\x7d']) := by
    rw [compact, compactMembers_eq, commas, String.toList_append, String.toList_append,
      String.toList_intercalate, List.map_map]
    rfl
  refine ⟨spelled, hnamed, ?_⟩
  rw [ReadsBack, htext]
  exact reads_object hreads

/-- The whole compact text is read. -/
theorem ReadsBack.read? {document : Json} {spelling : Spelling} (h : ReadsBack document spelling) :
    Spelling.read? document.compact = some spelling := by
  have hvalue := h.value (2 * document.compact.toList.length + 2) [] (by omega)
  rw [List.append_nil] at hvalue
  simp only [Spelling.read?, hvalue, Option.bind_some]
  rfl

end Playbook.Json
