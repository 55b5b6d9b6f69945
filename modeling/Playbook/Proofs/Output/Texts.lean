import Playbook.Output.Spec
import Playbook.Proofs.Outcome

/-!
# Destinations as texts

A specification is read from the export of a value. Its destinations are the strings of that
document, the names of its members aside, each of them once and in their order.
-/

namespace Playbook

namespace Json

mutual

/-- The strings in the document from left to right, the names of members aside. -/
def texts : Json → List String
  | .string text => [text]
  | .array items => textsOfItems items
  | .object members => textsOfMembers members
  | _ => []

def textsOfItems : List Json → List String
  | [] => []
  | item :: rest => item.texts ++ textsOfItems rest

def textsOfMembers : List (String × Json) → List String
  | [] => []
  | (_, document) :: rest => document.texts ++ textsOfMembers rest

end

end Json

namespace Targets

theorem isSome_strings?_cons {item : Json} {rest : List Json} :
    (strings? (item :: rest)).isSome ↔
      (∃ text, item = .string text) ∧ (strings? rest).isSome := by
  cases item <;> simp [strings?]

theorem isSome_ofMembers?_cons {source : String} {document : Json} {rest : List (String × Json)} :
    (ofMembers? ((source, document) :: rest)).isSome ↔
      (ofJson? document).isSome ∧ (ofMembers? rest).isSome := by
  cases hd : ofJson? document <;> simp [ofMembers?, hd]

theorem strings?_eq {items : List Json} {targets : List String} (h : strings? items = some targets) :
    targets = Json.textsOfItems items := by
  induction items generalizing targets with
  | nil =>
    obtain rfl := Option.some.inj h
    rfl
  | cons item rest ih =>
    cases item with
    | string text =>
      obtain ⟨others, hothers, rfl⟩ := Option.map_eq_some_iff.1 h
      rw [ih hothers]
      rfl
    | _ => cases h

theorem paths_ofJson? {document : Json} {targets : Targets} (h : ofJson? document = some targets) :
    targets.paths = document.texts := by
  cases document with
  | string text =>
    obtain rfl := Option.some.inj h
    rfl
  | array items =>
    obtain ⟨texts, htexts, rfl⟩ := Option.map_eq_some_iff.1 h
    exact strings?_eq htexts
  | _ => cases h

theorem paths_ofMembers? {members : List (String × Json)} {sources : List (String × Targets)}
    (h : ofMembers? members = some sources) :
    (sources.flatMap fun entry => entry.2.paths) = Json.textsOfMembers members := by
  induction members generalizing sources with
  | nil =>
    obtain rfl := Option.some.inj h
    rfl
  | cons member rest ih =>
    obtain ⟨source, document⟩ := member
    obtain ⟨targets, htargets, h⟩ := Option.bind_eq_some_iff.1 h
    obtain ⟨others, hothers, rfl⟩ := Option.map_eq_some_iff.1 h
    rw [List.flatMap_cons, ih hothers, paths_ofJson? htargets]
    rfl

end Targets

namespace OutputSpec

theorem isSome_ofItems?_cons {item : Json} {rest : List Json} :
    (ofItems? (item :: rest)).isSome ↔ (ofJson? item).isSome ∧ (ofItems? rest).isSome := by
  cases hi : ofJson? item <;> simp [ofItems?, hi]

mutual

/-- The destinations of a specification are the strings of its document. -/
theorem destinations_ofJson? : ∀ {document : Json} {spec : OutputSpec},
    ofJson? document = some spec → spec.destinations = document.texts
  | .string text, spec, h => by
    obtain rfl := Option.some.inj h
    rfl
  | .object members, spec, h => by
    obtain ⟨sources, hsources, rfl⟩ := Option.map_eq_some_iff.1 h
    exact Targets.paths_ofMembers? hsources
  | .array items, spec, h => by
    obtain ⟨specs, hspecs, rfl⟩ := Option.map_eq_some_iff.1 h
    exact destinations_ofItems? hspecs
  | .null, _, h | .bool _, _, h | .number _, _, h => by cases h

theorem destinations_ofItems? : ∀ {items : List Json} {specs : List OutputSpec},
    ofItems? items = some specs → destinationsOf specs = Json.textsOfItems items
  | [], specs, h => by
    obtain rfl := Option.some.inj h
    rfl
  | item :: rest, specs, h => by
    obtain ⟨spec, hspec, h⟩ := Option.bind_eq_some_iff.1 h
    obtain ⟨others, hothers, rfl⟩ := Option.map_eq_some_iff.1 h
    rw [destinationsOf, destinations_ofJson? hspec, destinations_ofItems? hothers]
    rfl

end

/-- A value spells a specification when its export is the document of one and no string in it is
blank. -/
theorem ofValue_eq_ok {v : Value} {spec : OutputSpec} :
    ofValue v = .ok spec ↔
      ofJson? v.toJson = some spec ∧ ∀ text ∈ v.toJson.texts, Text.isBlankText text = false := by
  rw [ofValue.eq_def]
  cases hspec : ofJson? v.toJson with
  | none => simp
  | some read =>
    -- The destinations that are checked are the strings of the document.
    rw [← destinations_ofJson? hspec]
    dsimp only
    split
    · rename_i blank hblank
      have hfound := List.find?_some hblank
      have hmem := List.mem_of_find?_eq_some hblank
      refine iff_of_false (by simp) fun h => ?_
      simp [h.2 blank hmem] at hfound
    · rename_i hnone
      have hall : ∀ text ∈ read.destinations, Text.isBlankText text = false := by
        simpa using List.find?_eq_none.1 hnone
      simp only [Except.ok.injEq, Option.some.injEq]
      exact (and_iff_left hall).symm

end OutputSpec

end Playbook
