import Playbook.Instruction.Entry
import Playbook.Proofs.Outcome

/-!
# The leaves of a playbook

A playbook document is a tree of lists whose leaves are instructions and loops. What is said here of
all its leaves, of the first one with a fault, and of the entries that mirror it, is said of a list
through its members.
-/

namespace Playbook.Entry

variable {document leaf : Value} {place : List Nat} {fault : Violation} {definitions : List Value}

/-! ## Leaves -/

/-- A mapping with a `for` field. -/
def HasFor (definition : Value) : Prop :=
  ∃ fields, definition = .object fields ∧ Fields.has fields "for" = true

/-- What a leaf is built to on its own: a loop if it has a `for` field, and else an instruction. -/
inductive Builds (leaf : Value) : Entry → Prop where
  | loop {l : Loop} (hfor : HasFor leaf) (h : Loop.build leaf = .ok l) : Builds leaf (.loop l)
  | instruction {i : Instruction} (hfor : ¬ HasFor leaf) (h : Instruction.build leaf = .ok i) :
      Builds leaf (.instruction i)

/-- The fault that a leaf has on its own. -/
inductive Fails (leaf : Value) (fault : Violation) : Prop where
  | loop (hfor : HasFor leaf) (h : Loop.build leaf = .error fault)
  | instruction (hfor : ¬ HasFor leaf) (h : Instruction.build leaf = .error fault)

/-- The indices of the place lead through nested lists to an entry that is no list. -/
structure LeafAt (document : Value) (place : List Nat) (leaf : Value) : Prop where
  found : document.lookup (place.map .index) = some leaf
  leaf : leaf.shape ≠ .array

/-- Every leaf is built on its own. -/
def AllBuild (document : Value) : Prop :=
  ∀ place leaf, LeafAt document place leaf → ∃ entry, Builds leaf entry

/-- The leaf at the place has the fault, and every leaf before it is built. -/
structure FirstFault (document : Value) (place : List Nat) (fault : Violation) : Prop where
  fails : ∃ leaf, LeafAt document place leaf ∧ Fails leaf fault
  first : ∀ other leaf, LeafAt document other leaf → other < place → ∃ entry, Builds leaf entry

theorem buildLeaf_of_hasFor (h : HasFor leaf) : buildLeaf leaf = (Loop.build leaf).map .loop := by
  obtain ⟨fields, rfl, hfor⟩ := h
  exact if_pos hfor

theorem buildLeaf_of_not_hasFor (h : ¬ HasFor leaf) :
    buildLeaf leaf = (Instruction.build leaf).map .instruction := by
  cases leaf with
  | object fields => exact if_neg fun hfor => h ⟨fields, rfl, hfor⟩
  | _ => rfl

theorem buildLeaf_eq_ok {entry : Entry} : buildLeaf leaf = .ok entry ↔ Builds leaf entry := by
  by_cases hfor : HasFor leaf
  · rw [buildLeaf_of_hasFor hfor, Outcome.map_eq_ok]
    constructor
    · rintro ⟨l, hl, rfl⟩
      exact .loop hfor hl
    · rintro (⟨_, hl⟩ | ⟨hnot, _⟩)
      · exact ⟨_, hl, rfl⟩
      · exact absurd hfor hnot
  · rw [buildLeaf_of_not_hasFor hfor, Outcome.map_eq_ok]
    constructor
    · rintro ⟨i, hi, rfl⟩
      exact .instruction hfor hi
    · rintro (⟨hyes, _⟩ | ⟨_, hi⟩)
      · exact absurd hyes hfor
      · exact ⟨_, hi, rfl⟩

theorem buildLeaf_eq_error : buildLeaf leaf = .error fault ↔ Fails leaf fault := by
  by_cases hfor : HasFor leaf
  · rw [buildLeaf_of_hasFor hfor, Outcome.map_eq_error]
    refine ⟨.loop hfor, ?_⟩
    rintro (⟨_, h⟩ | ⟨hnot, _⟩)
    · exact h
    · exact absurd hfor hnot
  · rw [buildLeaf_of_not_hasFor hfor, Outcome.map_eq_error]
    refine ⟨.instruction hfor, ?_⟩
    rintro (⟨hyes, _⟩ | ⟨_, h⟩)
    · exact absurd hyes hfor
    · exact h

/-! ## Leaves of lists -/

theorem leafAt_of_not_array (hd : document.shape ≠ .array) :
    LeafAt document place leaf ↔ place = [] ∧ document = leaf := by
  constructor
  · rintro ⟨hfound, -⟩
    cases place with
    | nil => exact ⟨rfl, Option.some.inj hfound⟩
    | cons index rest =>
      cases document with
      | array definitions => exact absurd rfl hd
      | _ => cases hfound
  · rintro ⟨rfl, rfl⟩
    exact ⟨rfl, hd⟩

theorem lookup_array_cons (definitions : List Value) (index : Nat) (rest : List Nat) :
    (Value.array definitions).lookup ((index :: rest).map .index) =
      definitions[index]?.bind fun definition => definition.lookup (rest.map .index) := rfl

theorem not_leafAt_array_nil : ¬ LeafAt (.array definitions) [] leaf := by
  rintro ⟨hfound, hleaf⟩
  obtain rfl := Option.some.inj hfound
  exact hleaf rfl

theorem leafAt_array_cons {index : Nat} {rest : List Nat} :
    LeafAt (.array definitions) (index :: rest) leaf ↔
      ∃ definition, definitions[index]? = some definition ∧ LeafAt definition rest leaf := by
  constructor
  · rintro ⟨hfound, hleaf⟩
    rw [lookup_array_cons] at hfound
    obtain ⟨definition, hd, hrest⟩ := Option.bind_eq_some_iff.1 hfound
    exact ⟨definition, hd, hrest, hleaf⟩
  · rintro ⟨definition, hd, hrest, hleaf⟩
    exact ⟨by rw [lookup_array_cons, hd]; exact hrest, hleaf⟩

theorem allBuild_of_not_array (hd : document.shape ≠ .array) :
    AllBuild document ↔ ∃ entry, Builds document entry := by
  constructor
  · intro h
    exact h [] document ((leafAt_of_not_array hd).2 ⟨rfl, rfl⟩)
  · rintro h place leaf hleaf
    obtain ⟨-, rfl⟩ := (leafAt_of_not_array hd).1 hleaf
    exact h

theorem allBuild_array :
    AllBuild (.array definitions) ↔
      ∀ (index : Nat) definition, definitions[index]? = some definition → AllBuild definition := by
  constructor
  · intro h index definition hd place leaf hleaf
    exact h (index :: place) leaf (leafAt_array_cons.2 ⟨definition, hd, hleaf⟩)
  · intro h place leaf hleaf
    cases place with
    | nil => exact absurd hleaf not_leafAt_array_nil
    | cons index rest =>
      obtain ⟨definition, hd, hrest⟩ := leafAt_array_cons.1 hleaf
      exact h index definition hd rest leaf hrest

theorem firstFault_of_not_array (hd : document.shape ≠ .array) :
    FirstFault document place fault ↔ place = [] ∧ Fails document fault := by
  constructor
  · rintro ⟨⟨leaf, hleaf, hfails⟩, -⟩
    obtain ⟨rfl, rfl⟩ := (leafAt_of_not_array hd).1 hleaf
    exact ⟨rfl, hfails⟩
  · rintro ⟨rfl, hfails⟩
    refine ⟨⟨document, (leafAt_of_not_array hd).2 ⟨rfl, rfl⟩, hfails⟩, fun other leaf _ hlt => ?_⟩
    exact absurd hlt (List.not_lt_nil other)

/-- The first fault of a list is that of a member before which all leaves are built. -/
theorem firstFault_array :
    FirstFault (.array definitions) place fault ↔
      ∃ index rest definition, place = index :: rest ∧ definitions[index]? = some definition ∧
        FirstFault definition rest fault ∧
        ∀ earlier < index, ∀ other, definitions[earlier]? = some other → AllBuild other := by
  constructor
  · rintro ⟨⟨leaf, hleaf, hfails⟩, hfirst⟩
    cases place with
    | nil => exact absurd hleaf not_leafAt_array_nil
    | cons index rest =>
      obtain ⟨definition, hd, hrest⟩ := leafAt_array_cons.1 hleaf
      -- Earlier leaves are in the same member before the rest of the place, or in an earlier
      -- member.
      refine ⟨index, rest, definition, rfl, hd, ⟨⟨leaf, hrest, hfails⟩, ?_⟩, ?_⟩
      · intro other leaf' hleaf' hlt
        exact hfirst (index :: other) leaf' (leafAt_array_cons.2 ⟨definition, hd, hleaf'⟩)
          (List.cons_lt_cons_iff.2 (.inr ⟨rfl, hlt⟩))
      · intro earlier hlt sibling hs other leaf' hleaf'
        exact hfirst (earlier :: other) leaf' (leafAt_array_cons.2 ⟨sibling, hs, hleaf'⟩)
          (List.cons_lt_cons_iff.2 (.inl hlt))
  · rintro ⟨index, rest, definition, rfl, hd, ⟨⟨leaf, hleaf, hfails⟩, hfirst⟩, hearlier⟩
    refine ⟨⟨leaf, leafAt_array_cons.2 ⟨definition, hd, hleaf⟩, hfails⟩, ?_⟩
    intro other leaf' hleaf' hlt
    cases other with
    | nil => exact absurd hleaf' not_leafAt_array_nil
    | cons index' rest' =>
      obtain ⟨sibling, hs, hrest⟩ := leafAt_array_cons.1 hleaf'
      -- The other place is earlier in the list of members, or in the same member.
      rcases List.cons_lt_cons_iff.1 hlt with hindex | ⟨rfl, hbefore⟩
      · exact hearlier index' hindex sibling hs rest' leaf' hrest
      · obtain rfl := Option.some.inj (hd.symm.trans hs)
        exact hfirst rest' leaf' hrest hbefore

/-! ## Entries of the same shape -/

/-- The entries right inside an entry. -/
def members : Entry → List Entry
  | .nested entries => entries
  | _ => []

/-- The entry that the indices of a place lead to. -/
def inside? (entry : Entry) : List Nat → Option Entry
  | [] => some entry
  | index :: rest => entry.members[index]?.bind fun member => member.inside? rest

/-- Where the document has a list there are as many entries, and where it has a leaf there is what
that leaf is built to. -/
structure Mirrors (document : Value) (entry : Entry) : Prop where
  lists : ∀ place definitions, document.lookup (place.map .index) = some (.array definitions) →
    ∃ entries, entry.inside? place = some (.nested entries) ∧ entries.length = definitions.length
  leaves : ∀ place leaf, LeafAt document place leaf →
    ∃ built, entry.inside? place = some built ∧ Builds leaf built

theorem mirrors_of_not_array {entry : Entry} (hd : document.shape ≠ .array) :
    Mirrors document entry ↔ Builds document entry := by
  constructor
  · intro h
    obtain ⟨built, hbuilt, hleaf⟩ := h.leaves [] document ((leafAt_of_not_array hd).2 ⟨rfl, rfl⟩)
    obtain rfl := Option.some.inj hbuilt
    exact hleaf
  · intro h
    refine ⟨fun place definitions hlist => ?_, fun place leaf hleaf => ?_⟩
    · cases place with
      | nil =>
        obtain rfl := Option.some.inj hlist
        exact absurd rfl hd
      | cons index rest =>
        cases document with
        | array definitions => exact absurd rfl hd
        | _ => cases hlist
    · obtain ⟨rfl, rfl⟩ := (leafAt_of_not_array hd).1 hleaf
      exact ⟨entry, rfl, h⟩

theorem inside?_nested_cons (entries : List Entry) (index : Nat) (rest : List Nat) :
    (nested entries).inside? (index :: rest) =
      entries[index]?.bind fun member => member.inside? rest := rfl

/-- A list is mirrored by as many entries, each of which mirrors a member. -/
theorem mirrors_array {entry : Entry} :
    Mirrors (.array definitions) entry ↔
      ∃ entries, entry = .nested entries ∧ entries.length = definitions.length ∧
        ∀ (index : Nat) definition, definitions[index]? = some definition →
          ∃ member, entries[index]? = some member ∧ Mirrors definition member := by
  constructor
  · intro h
    obtain ⟨entries, hentries, hlength⟩ := h.lists [] definitions rfl
    obtain rfl := Option.some.inj hentries
    refine ⟨entries, rfl, hlength, fun index definition hd => ?_⟩
    have hindex : index < entries.length := by
      rw [hlength]
      exact (List.getElem?_eq_some_iff.1 hd).1
    have hmember : entries[index]? = some entries[index] := List.getElem?_eq_getElem hindex
    -- A place in the list is a place in one of its members.
    have hinwards (rest : List Nat) :
        (nested entries).inside? (index :: rest) = entries[index].inside? rest := by
      rw [inside?_nested_cons, hmember]
      rfl
    refine ⟨entries[index], hmember, fun rest inner hinner => ?_, fun rest leaf hleaf => ?_⟩
    · rw [← hinwards]
      exact h.lists (index :: rest) inner (by rw [lookup_array_cons, hd]; exact hinner)
    · rw [← hinwards]
      exact h.leaves (index :: rest) leaf (leafAt_array_cons.2 ⟨definition, hd, hleaf⟩)
  · rintro ⟨entries, rfl, hlength, hmembers⟩
    refine ⟨fun place inner hinner => ?_, fun place leaf hleaf => ?_⟩
    · cases place with
      | nil =>
        obtain rfl := Value.array.inj (Option.some.inj hinner)
        exact ⟨entries, rfl, hlength⟩
      | cons index rest =>
        rw [lookup_array_cons] at hinner
        obtain ⟨definition, hd, hrest⟩ := Option.bind_eq_some_iff.1 hinner
        obtain ⟨member, hmember, hmirrors⟩ := hmembers index definition hd
        rw [inside?_nested_cons, hmember]
        exact hmirrors.lists rest inner hrest
    · cases place with
      | nil => exact absurd hleaf not_leafAt_array_nil
      | cons index rest =>
        obtain ⟨definition, hd, hrest⟩ := leafAt_array_cons.1 hleaf
        obtain ⟨member, hmember, hmirrors⟩ := hmembers index definition hd
        rw [inside?_nested_cons, hmember]
        exact hmirrors.leaves rest leaf hrest

end Playbook.Entry
