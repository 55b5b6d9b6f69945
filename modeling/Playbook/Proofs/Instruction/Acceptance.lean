import Playbook.Document
import Playbook.Proofs.Instruction.Leaves
import Playbook.Proofs.Value.Places

/-!
# Playbooks that are accepted

A playbook document is read leaf by leaf. The main statement: it is accepted exactly when each of
its leaves is on its own, and its entries then mirror it; otherwise what is reported is the fault of
the first leaf that has one, with the location of that leaf.
-/

namespace Playbook

namespace Entry

variable {document : Value} {fault : Violation} {definitions : List Value}

/-! ## Building lists -/

theorem buildAt_of_not_array (hd : document.shape ≠ .array) (location : String) :
    buildAt location document = (buildLeaf document).mapError (.atLocation location) := by
  cases document with
  | array definitions => exact absurd rfl hd
  | _ =>
    rw [buildAt]
    simp

section Lists

variable {location : String} {start : Nat}

theorem buildList_eq_ok {entries : List Entry} :
    buildList location start definitions = .ok entries ↔
      entries.length = definitions.length ∧
        ∀ (index : Nat) definition, definitions[index]? = some definition →
          ∃ entry, entries[index]? = some entry ∧
            buildAt (within location (start + index)) definition = .ok entry := by
  induction definitions generalizing start entries with
  | nil =>
    rw [buildList]
    simp [eq_comm]
  | cons definition rest ih =>
    -- The rest of the list is numbered from the next index on.
    have hnext (index : Nat) : start + 1 + index = start + (index + 1) := by omega
    rw [buildList, Outcome.bind_eq_ok]
    constructor
    · rintro ⟨entry, hentry, hrest⟩
      obtain ⟨others, hothers, rfl⟩ := Outcome.map_eq_ok.1 hrest
      obtain ⟨hlength, hall⟩ := ih.1 hothers
      refine ⟨by rw [List.length_cons, List.length_cons, hlength], fun index other hother => ?_⟩
      cases index with
      | zero =>
        obtain rfl := Option.some.inj hother
        exact ⟨entry, rfl, hentry⟩
      | succ index =>
        obtain ⟨built, hbuilt, hb⟩ := hall index other hother
        exact ⟨built, hbuilt, hnext index ▸ hb⟩
    · rintro ⟨hlength, hall⟩
      obtain ⟨entry, hentry, hb⟩ := hall 0 definition rfl
      cases entries with
      | nil => cases hentry
      | cons first others =>
        obtain rfl := Option.some.inj hentry
        refine ⟨first, hb, Outcome.map_eq_ok.2 ⟨others, ih.2 ⟨Nat.succ.inj hlength, ?_⟩, rfl⟩⟩
        intro index other hother
        rw [hnext]
        exact hall (index + 1) other hother

/-- What fails a list is the fault of a member before which all are built. -/
theorem buildList_eq_error :
    buildList location start definitions = .error fault ↔
      ∃ (index : Nat) (definition : Value), definitions[index]? = some definition ∧
        buildAt (within location (start + index)) definition = .error fault ∧
        ∀ earlier < index, ∀ other, definitions[earlier]? = some other →
          ∃ entry, buildAt (within location (start + earlier)) other = .ok entry := by
  induction definitions generalizing start with
  | nil =>
    rw [buildList]
    simp
  | cons definition rest ih =>
    have hnext (index : Nat) : start + 1 + index = start + (index + 1) := by omega
    rw [buildList, Outcome.bind_eq_error]
    constructor
    · rintro (hfault | ⟨entry, hentry, hrest⟩)
      · exact ⟨0, definition, rfl, hfault, fun earlier hlt => absurd hlt (Nat.not_lt_zero earlier)⟩
      · obtain ⟨index, failing, hfailing, hfault, hbefore⟩ := ih.1 (Outcome.map_eq_error.1 hrest)
        refine ⟨index + 1, failing, hfailing, hnext index ▸ hfault, fun earlier hlt other hother => ?_⟩
        cases earlier with
        | zero =>
          obtain rfl := Option.some.inj hother
          exact ⟨entry, hentry⟩
        | succ earlier =>
          rw [← hnext]
          exact hbefore earlier (Nat.lt_of_succ_lt_succ hlt) other hother
    · rintro ⟨index, failing, hfailing, hfault, hbefore⟩
      cases index with
      | zero =>
        obtain rfl := Option.some.inj hfailing
        exact .inl hfault
      | succ index =>
        obtain ⟨entry, hentry⟩ := hbefore 0 (Nat.succ_pos index) definition rfl
        refine .inr ⟨entry, hentry, Outcome.map_eq_error.2 (ih.2 ⟨index, failing, hfailing, ?_, ?_⟩)⟩
        · rw [hnext]
          exact hfault
        · intro earlier hlt other hother
          rw [hnext]
          exact hbefore (earlier + 1) (Nat.succ_lt_succ hlt) other hother

end Lists

/-! ## Building documents -/

theorem array_or (document : Value) :
    (∃ definitions, document = .array definitions) ∨ document.shape ≠ .array := by
  cases document with
  | array definitions => exact .inl ⟨definitions, rfl⟩
  | _ =>
    refine .inr fun h => ?_
    cases h

/-- An entry is built of a document exactly when it mirrors it. -/
theorem buildAt_eq_ok (document : Value) : ∀ location entry,
    buildAt location document = .ok entry ↔ Mirrors document entry := by
  induction document using Value.parts_induction with
  | step document ih =>
    intro location entry
    rcases array_or document with ⟨definitions, rfl⟩ | hd
    · rw [buildAt, Outcome.map_eq_ok, mirrors_array]
      refine exists_congr fun entries => ?_
      -- Both sides ask for entries of the same number, and compare them member by member.
      rw [buildList_eq_ok, and_comm, eq_comm]
      refine and_congr_right fun _ => and_congr_right fun _ => ?_
      refine forall_congr' fun index => forall_congr' fun definition => forall_congr' fun hd => ?_
      have hmem : definition ∈ definitions := List.mem_of_getElem? hd
      exact exists_congr fun member => and_congr_right fun _ => ih definition hmem _ member
    · rw [buildAt_of_not_array hd, Outcome.mapError_eq_ok, buildLeaf_eq_ok, mirrors_of_not_array hd]

/-- A document is built exactly when all its leaves are. -/
theorem exists_buildAt_iff (document : Value) : ∀ location,
    (∃ entry, buildAt location document = .ok entry) ↔ AllBuild document := by
  induction document using Value.parts_induction with
  | step document ih =>
    intro location
    rcases array_or document with ⟨definitions, rfl⟩ | hd
    · rw [allBuild_array]
      constructor
      · rintro ⟨entry, h⟩ index definition hd
        rw [buildAt, Outcome.map_eq_ok] at h
        obtain ⟨entries, hentries, -⟩ := h
        obtain ⟨built, -, hbuilt⟩ := (buildList_eq_ok.1 hentries).2 index definition hd
        exact (ih definition (List.mem_of_getElem? hd) _).1 ⟨built, hbuilt⟩
      · intro h
        rw [buildAt]
        cases hlist : buildList location 0 definitions with
        | ok entries => exact ⟨.nested entries, rfl⟩
        | error fault =>
          -- The member with the fault would be built by the induction hypothesis.
          obtain ⟨index, definition, hd, hfault, -⟩ := buildList_eq_error.1 hlist
          have hmem : definition ∈ definitions := List.mem_of_getElem? hd
          obtain ⟨built, hbuilt⟩ := (ih definition hmem _).2 (h index definition hd)
          rw [hfault] at hbuilt
          cases hbuilt
    · rw [allBuild_of_not_array hd, buildAt_of_not_array hd]
      simp only [Outcome.mapError_eq_ok, buildLeaf_eq_ok]

/-- What fails a document is the fault of its first leaf that has one, with its location. -/
theorem buildAt_eq_error (document : Value) : ∀ location violation,
    buildAt location document = .error violation ↔
      ∃ place fault, FirstFault document place fault ∧
        violation = .atLocation (place.foldl within location) fault := by
  induction document using Value.parts_induction with
  | step document ih =>
    intro location violation
    rcases array_or document with ⟨definitions, rfl⟩ | hd
    · rw [buildAt, Outcome.map_eq_error, buildList_eq_error]
      -- The members before the fault are built, which says the same of all leaves in them.
      simp only [exists_buildAt_iff, Nat.zero_add]
      constructor
      · rintro ⟨index, definition, hd, hfault, hbefore⟩
        obtain ⟨rest, fault, hfirst, rfl⟩ := (ih definition (List.mem_of_getElem? hd) _ _).1 hfault
        exact ⟨index :: rest, fault,
          firstFault_array.2 ⟨index, rest, definition, rfl, hd, hfirst, hbefore⟩, rfl⟩
      · rintro ⟨place, fault, hfirst, rfl⟩
        obtain ⟨index, rest, definition, rfl, hd, hfirst, hbefore⟩ := firstFault_array.1 hfirst
        refine ⟨index, definition, hd, ?_, hbefore⟩
        exact (ih definition (List.mem_of_getElem? hd) _ _).2 ⟨rest, fault, hfirst, rfl⟩
    · rw [buildAt_of_not_array hd, Outcome.mapError_eq_error]
      constructor
      · rintro ⟨fault, hfault, rfl⟩
        exact ⟨[], fault, (firstFault_of_not_array hd).2 ⟨rfl, buildLeaf_eq_error.1 hfault⟩, rfl⟩
      · rintro ⟨place, fault, hfirst, rfl⟩
        obtain ⟨rfl, hfails⟩ := (firstFault_of_not_array hd).1 hfirst
        exact ⟨fault, buildLeaf_eq_error.2 hfails, rfl⟩

/-! ## Playbooks -/

/-- The location of a place: `playbook[2][0]`. -/
def locationOf (place : List Nat) : String :=
  "playbook" ++ String.join (place.map fun index => s!"[{index}]")

/-- The entries of a document: those that mirror a list, and one for anything else. -/
inductive EntriesOf (document : Value) : List Entry → Prop where
  | list {entries : List Entry} (hd : document.shape = .array)
      (mirrors : Mirrors document (.nested entries)) : EntriesOf document entries
  | single {entry : Entry} (hd : document.shape ≠ .array) (builds : Builds document entry) :
      EntriesOf document [entry]

theorem foldl_within (place : List Nat) (location : String) :
    place.foldl within location =
      location ++ String.join (place.map fun index => s!"[{index}]") := by
  induction place generalizing location with
  | nil => simp
  | cons index rest ih =>
    -- The location grows at its end by one index in brackets.
    rw [List.foldl_cons, ih, List.map_cons, String.join_cons, within]
    simp only [String.append_assoc]
    rfl

theorem buildPlaybook_eq_ok {entries : List Entry} :
    buildPlaybook document = .ok entries ↔ EntriesOf document entries := by
  rw [buildPlaybook, build, Outcome.map_eq_ok]
  constructor
  · rintro ⟨entry, hentry, rfl⟩
    have hmirrors := (buildAt_eq_ok document _ _).1 hentry
    rcases array_or document with ⟨definitions, rfl⟩ | hd
    · obtain ⟨entries, rfl, -⟩ := mirrors_array.1 hmirrors
      exact .list rfl hmirrors
    · have hbuilds := (mirrors_of_not_array hd).1 hmirrors
      cases hbuilds with
      | loop hfor h => exact .single hd (.loop hfor h)
      | instruction hfor h => exact .single hd (.instruction hfor h)
  · rintro (⟨_, hmirrors⟩ | ⟨hd, hbuilds⟩)
    · exact ⟨_, (buildAt_eq_ok document _ _).2 hmirrors, rfl⟩
    · refine ⟨_, (buildAt_eq_ok document _ _).2 ((mirrors_of_not_array hd).2 hbuilds), ?_⟩
      cases hbuilds <;> rfl

theorem exists_buildPlaybook_iff :
    (∃ entries, buildPlaybook document = .ok entries) ↔ AllBuild document := by
  rw [← exists_buildAt_iff document "playbook", buildPlaybook, build]
  constructor
  · rintro ⟨entries, h⟩
    obtain ⟨entry, hentry, -⟩ := Outcome.map_eq_ok.1 h
    exact ⟨entry, hentry⟩
  · rintro ⟨entry, hentry⟩
    exact ⟨_, Outcome.map_eq_ok.2 ⟨entry, hentry, rfl⟩⟩

theorem buildPlaybook_eq_error {violation : Violation} :
    buildPlaybook document = .error violation ↔
      ∃ place fault, FirstFault document place fault ∧
        violation = .atLocation (locationOf place) fault := by
  rw [buildPlaybook, build, Outcome.map_eq_error, buildAt_eq_error]
  simp only [foldl_within, locationOf]

/-- A violation at a location is told after the location. -/
theorem message_atLocation (location : String) :
    (Violation.atLocation location fault).message = location ++ ": " ++ fault.message := rfl

end Entry

namespace Document

open Entry

/-- A playbook is accepted exactly when every leaf of its document is on its own, and its entries
mirror the document. Otherwise the error is the fault that the first failing leaf, in the order of
the document, has on its own, after the location of that leaf. -/
theorem entries_leaf_by_leaf (document : Value) :
    (∀ built, entries document = .ok built ↔ EntriesOf document built) ∧
      ((∃ built, entries document = .ok built) ↔
        ∀ place leaf, LeafAt document place leaf → ∃ entry, Builds leaf entry) ∧
      ∀ e, entries document = .error e ↔
        ∃ place fault, FirstFault document place fault ∧
          e = .validation (.atLocation (locationOf place) fault) ∧
          (Violation.atLocation (locationOf place) fault).message =
            locationOf place ++ ": " ++ fault.message := by
  have hok (built : List Entry) : entries document = .ok built ↔ EntriesOf document built := by
    rw [entries, Outcome.mapError_eq_ok, buildPlaybook_eq_ok]
  refine ⟨hok, ?_, fun e => ?_⟩
  · simp only [hok, ← buildPlaybook_eq_ok]
    exact exists_buildPlaybook_iff
  · rw [entries, Outcome.mapError_eq_error]
    constructor
    · rintro ⟨violation, h, rfl⟩
      obtain ⟨place, fault, hfirst, rfl⟩ := buildPlaybook_eq_error.1 h
      exact ⟨place, fault, hfirst, rfl, message_atLocation _⟩
    · rintro ⟨place, fault, hfirst, rfl, -⟩
      exact ⟨_, buildPlaybook_eq_error.2 ⟨place, fault, hfirst, rfl⟩, rfl⟩

/-- Of three leaves the first one is built, and the faults of the other two are told apart by their
places. -/
theorem entries_leaf_by_leaf_nested :
    let deploy : Value := .object [("contract", .string "Token"), ("run", .string "new")]
    let mint : Value := .object [("contract", .string "Token"), ("run", .string "mint")]
    let document : Value := .array [deploy, .array [mint], .string "Token.new"]
    FirstFault document [1, 0] (.missingLocator "Token" "mint") ∧
      entries document =
        .error (.validation (.atLocation "playbook[1][0]" (.missingLocator "Token" "mint"))) ∧
      ¬ ∃ built, EntriesOf document built := by
  intro deploy mint document
  have hdeploy : AllBuild deploy := by
    have hsome : (buildLeaf deploy).toOption.isSome = true := by decide +kernel
    obtain ⟨entry, hentry⟩ := Option.isSome_iff_exists.1 hsome
    have hbuilds := buildLeaf_eq_ok.1 (Outcome.toOption_eq_some.1 hentry)
    exact (allBuild_of_not_array (by decide)).2 ⟨entry, hbuilds⟩
  have hmint : Fails mint (.missingLocator "Token" "mint") :=
    buildLeaf_eq_error.1 (Outcome.error?_eq_some.1 (by decide +kernel))
  have hinner : FirstFault (.array [mint]) [0] (.missingLocator "Token" "mint") := by
    refine firstFault_array.2 ⟨0, [], mint, rfl, rfl, ?_, fun earlier hlt => ?_⟩
    · exact (firstFault_of_not_array (by decide)).2 ⟨rfl, hmint⟩
    · exact absurd hlt (Nat.not_lt_zero earlier)
  have hfirst : FirstFault document [1, 0] (.missingLocator "Token" "mint") := by
    refine firstFault_array.2 ⟨1, [0], .array [mint], rfl, rfl, hinner, fun earlier hlt other hother => ?_⟩
    obtain rfl := Nat.lt_one_iff.1 hlt
    obtain rfl := Option.some.inj hother
    exact hdeploy
  have hlocation : locationOf [1, 0] = "playbook[1][0]" := by decide +kernel
  have herror := ((entries_leaf_by_leaf document).2.2 _).2
    ⟨[1, 0], _, hfirst, rfl, message_atLocation _⟩
  rw [hlocation] at herror
  refine ⟨hfirst, herror, ?_⟩
  rintro ⟨built, hbuilt⟩
  have hok := ((entries_leaf_by_leaf document).1 built).2 hbuilt
  rw [herror] at hok
  cases hok

end Document

end Playbook
