import Playbook.Document.Include
import Playbook.Path.Lookup
import Playbook.Proofs.Files.Directory
import Playbook.Proofs.Outcome

/-!
# Inlined includes

What a playbook file becomes when its includes are replaced, whatever the limit on their depth: each
include stands for the document of the file it names, and everything else is kept. The main
statements say that there is one such document, that no include is left in it, and that a file can
be loaded within a limit exactly if the files it includes can be within the limit that is less by
one.
-/

namespace Playbook.Document

/-! ## Entries and includes -/

/-- The include of a target. -/
def includeOf (target : Value) : Value :=
  .object [(includeKey, target)]

/-- An entry stands in a document: it is the document itself or a member of its nested lists, where
indices alone lead to it. -/
def HasEntry (document entry : Value) : Prop :=
  ∃ place : List Nat, document.lookup (place.map .index) = some entry

theorem included?_includeOf (target : Value) : included? (includeOf target) = some target := by
  simp [included?, includeOf]

theorem eq_includeOf_of_included? {entry target : Value} (h : included? entry = some target) :
    entry = includeOf target := by
  unfold included? at h
  split at h
  · split at h
    · rename_i hkey
      obtain rfl := Option.some.inj h
      rw [hkey]
      rfl
    · cases h
  · cases h

theorem lookup_index_cons {document : Value} (hd : document.shape ≠ .array) (index : Nat)
    (place : Path) : document.lookup (.index index :: place) = none := by
  cases document with
  | array entries => exact absurd rfl hd
  | _ => rfl

theorem hasEntry_iff_eq {document entry : Value} (hd : document.shape ≠ .array) :
    HasEntry document entry ↔ document = entry := by
  constructor
  · rintro ⟨place, hplace⟩
    cases place with
    | nil => exact Option.some.inj hplace
    | cons index place =>
      rw [List.map_cons, lookup_index_cons hd] at hplace
      cases hplace
  · rintro rfl
    exact ⟨[], rfl⟩

/-- The includes in a list are those in its members. -/
theorem hasEntry_array {entries : List Value} {target : Value} :
    HasEntry (.array entries) (includeOf target) ↔
      ∃ entry ∈ entries, HasEntry entry (includeOf target) := by
  constructor
  · rintro ⟨place, hplace⟩
    cases place with
    | nil => cases hplace
    | cons index place =>
      obtain ⟨entry, hentry, hrest⟩ := Option.bind_eq_some_iff.1 hplace
      exact ⟨entry, List.mem_of_getElem? hentry, place, hrest⟩
  · rintro ⟨entry, hentry, place, hplace⟩
    obtain ⟨index, hindex⟩ := List.mem_iff_getElem?.1 hentry
    exact ⟨index :: place, Option.bind_eq_some_iff.2 ⟨entry, hindex, hplace⟩⟩

/-! ## Files that include one another -/

/-- The document of a file, if the file is there and holds one. -/
def document? (files : Fields String) (name : String) : Option Value :=
  (Fields.get? files name).bind Yaml.value?

/-- A chain of so many includes leads from a file to another. A name in a file is taken relative to
the directory that the file lies in. -/
inductive Leads (files : Fields String) : Nat → String → String → Prop where
  | here {file : String} : Leads files 0 file file
  | onward {n : Nat} {file directory name last : String} {document : Value}
      (holds : document? files file = some document) (lies : FileName.LiesIn file directory)
      (includes : HasEntry document (includeOf (.string name)))
      (leads : Leads files n (FileName.join directory name) last) :
      Leads files (n + 1) file last

/-- A file can be loaded: every file that includes lead to is there and holds a document, every
include in it names a file, and no chain of includes is longer than the limit. -/
structure Loadable (files : Fields String) (limit : Nat) (root : String) : Prop where
  held : ∀ n file, Leads files n root file → ∃ document, document? files file = some document
  named : ∀ n file document target, Leads files n root file →
    document? files file = some document → HasEntry document (includeOf target) →
      ∃ name, target = .string name
  bounded : ∀ n file, Leads files n root file → n ≤ limit

/-- A file can be loaded exactly when it holds a document, and each of its includes names a file
that can be loaded with a chain that is shorter by one. -/
theorem loadable_iff {files : Fields String} {limit : Nat} {root directory : String}
    (hdirectory : FileName.LiesIn root directory) :
    Loadable files limit root ↔
      ∃ document, document? files root = some document ∧
        ∀ target, HasEntry document (includeOf target) →
          ∃ name, target = .string name ∧
            ∃ less, limit = less + 1 ∧ Loadable files less (FileName.join directory name) := by
  constructor
  · intro h
    obtain ⟨document, hdocument⟩ := h.held 0 root .here
    refine ⟨document, hdocument, ?_⟩
    intro target htarget
    obtain ⟨name, rfl⟩ := h.named 0 root document target .here hdocument htarget
    -- The include is the first hop of every chain that starts at the file it names.
    have honward {n : Nat} {last : String}
        (hleads : Leads files n (FileName.join directory name) last) :
        Leads files (n + 1) root last := .onward hdocument hdirectory htarget hleads
    have hone : 1 ≤ limit := h.bounded 1 _ (honward .here)
    refine ⟨name, rfl, limit - 1, by omega, ?_, ?_, ?_⟩
    · intro n file hleads
      exact h.held (n + 1) file (honward hleads)
    · intro n file document' target' hleads
      exact h.named (n + 1) file document' target' (honward hleads)
    · intro n file hleads
      have := h.bounded (n + 1) file (honward hleads)
      omega
  · rintro ⟨document, hdocument, hincludes⟩
    -- A chain that goes on from the root goes on from a file that the root includes.
    have honward : ∀ {document' : Value} {directory' name : String},
        document? files root = some document' → FileName.LiesIn root directory' →
        HasEntry document' (includeOf (.string name)) →
        ∃ less, limit = less + 1 ∧ Loadable files less (FileName.join directory' name) := by
      intro document' directory' name hholds hlies hentry
      obtain rfl := Option.some.inj (hdocument.symm.trans hholds)
      obtain rfl := hdirectory.unique hlies
      obtain ⟨name', hname, hless⟩ := hincludes _ hentry
      obtain rfl := Value.string.inj hname
      exact hless
    refine ⟨?_, ?_, ?_⟩
    · intro n file hleads
      cases hleads with
      | here => exact ⟨document, hdocument⟩
      | onward hholds hlies hentry hrest =>
        obtain ⟨less, _, hless⟩ := honward hholds hlies hentry
        exact hless.held _ file hrest
    · intro n file document' target hleads hholds' htarget
      cases hleads with
      | here =>
        obtain rfl := Option.some.inj (hdocument.symm.trans hholds')
        obtain ⟨name, hname, _⟩ := hincludes target htarget
        exact ⟨name, hname⟩
      | onward hholds hlies hentry hrest =>
        obtain ⟨less, _, hless⟩ := honward hholds hlies hentry
        exact hless.named _ file document' target hrest hholds' htarget
    · intro n file hleads
      cases hleads with
      | here => exact Nat.zero_le limit
      | onward hholds hlies hentry hrest =>
        obtain ⟨less, rfl, hless⟩ := honward hholds hlies hentry
        exact Nat.succ_le_succ (hless.bounded _ file hrest)

/-! ## Documents with their includes replaced -/

mutual

/-- The document of a file becomes another one when its includes are replaced. -/
inductive InlinedFile (files : Fields String) : String → Value → Prop where
  | file {name directory : String} {document result : Value}
      (holds : document? files name = some document) (lies : FileName.LiesIn name directory)
      (inlined : Inlined files directory document result) : InlinedFile files name result

/-- An entry becomes another one: an include the document of the file that it names, relative to the
directory; a list the list of what its members become; and everything else stays as it is. -/
inductive Inlined (files : Fields String) : String → Value → Value → Prop where
  | included {directory name : String} {result : Value}
      (file : InlinedFile files (FileName.join directory name) result) :
      Inlined files directory (includeOf (.string name)) result
  | list {directory : String} {entries results : List Value}
      (members : InlinedAll files directory entries results) :
      Inlined files directory (.array entries) (.array results)
  | other {directory : String} {entry : Value} (noList : entry.shape ≠ .array)
      (noInclude : included? entry = none) :
      Inlined files directory entry entry

/-- The entries of a list become others, one by one. -/
inductive InlinedAll (files : Fields String) : String → List Value → List Value → Prop where
  | nil {directory : String} : InlinedAll files directory [] []
  | cons {directory : String} {entry result : Value} {entries results : List Value}
      (first : Inlined files directory entry result)
      (rest : InlinedAll files directory entries results) :
      InlinedAll files directory (entry :: entries) (result :: results)

end

variable {files : Fields String} {directory : String}

theorem InlinedAll.getElem? {entries results : List Value}
    (h : InlinedAll files directory entries results) (index : Nat) :
    entries[index]? = none ∧ results[index]? = none ∨
      ∃ entry result, entries[index]? = some entry ∧ results[index]? = some result ∧
        Inlined files directory entry result := by
  induction entries generalizing results index with
  | nil =>
    cases h
    exact .inl ⟨rfl, rfl⟩
  | cons entry entries ih =>
    cases h with
    | cons first rest =>
      cases index with
      | zero => exact .inr ⟨entry, _, rfl, rfl, first⟩
      | succ index => exact ih rest index

/-- What stands in a document and is neither a list nor an include stands in the same place
afterwards. -/
theorem Inlined.keeps {document result entry : Value} {place : List Nat}
    (h : Inlined files directory document result)
    (hentry : document.lookup (place.map .index) = some entry) (hlist : entry.shape ≠ .array)
    (hinclude : included? entry = none) : result.lookup (place.map .index) = some entry := by
  induction place generalizing document result with
  | nil =>
    obtain rfl := Option.some.inj hentry
    cases h with
    -- At the place itself the entry is no include and no list, and stays.
    | included => simp [included?_includeOf] at hinclude
    | list => exact absurd rfl hlist
    | other => rfl
  | cons index place ih =>
    cases h with
    | included =>
      -- An include is an object, which no index leads into.
      rw [List.map_cons, lookup_index_cons (by simp [includeOf, Value.shape])] at hentry
      cases hentry
    | list members =>
      obtain ⟨member, hmember, hrest⟩ := Option.bind_eq_some_iff.1 hentry
      obtain ⟨hnone, _⟩ | ⟨_, member', hsome, hresult, hinlined⟩ := members.getElem? index
      · exact absurd (hnone.symm.trans hmember) (by simp)
      · obtain rfl := Option.some.inj (hsome.symm.trans hmember)
        exact Option.bind_eq_some_iff.2 ⟨member', hresult, ih hinlined hrest⟩
    | other => exact hentry

mutual

theorem InlinedFile.noInclude {name : String} {result : Value} :
    InlinedFile files name result → ∀ target, ¬ HasEntry result (includeOf target)
  | .file _ _ inlined => inlined.noInclude

/-- No include is left in a document whose includes are replaced. -/
theorem Inlined.noInclude {directory : String} {document result : Value} :
    Inlined files directory document result → ∀ target, ¬ HasEntry result (includeOf target)
  | .included file, target => file.noInclude target
  | .list members, target => by
    rw [hasEntry_array]
    exact members.noInclude target
  | .other hlist hinclude, target => by
    rw [hasEntry_iff_eq hlist]
    rintro rfl
    rw [included?_includeOf] at hinclude
    cases hinclude

theorem InlinedAll.noInclude {directory : String} {entries results : List Value} :
    InlinedAll files directory entries results →
      ∀ target, ¬ ∃ result ∈ results, HasEntry result (includeOf target)
  | .nil, _ => by simp
  | .cons first rest, target => by
    simp only [List.mem_cons, exists_eq_or_imp, not_or]
    exact ⟨first.noInclude target, rest.noInclude target⟩

end

mutual

theorem InlinedFile.unique {name : String} {first second : Value} :
    InlinedFile files name first → InlinedFile files name second → first = second
  | .file holds lies inlined, .file holds' lies' inlined' => by
    obtain rfl := Option.some.inj (holds.symm.trans holds')
    obtain rfl := lies.unique lies'
    exact inlined.unique inlined'

/-- There is one way to replace the includes in a document. -/
theorem Inlined.unique {directory : String} {document first second : Value} :
    Inlined files directory document first → Inlined files directory document second →
      first = second
  | .included file, .included file' => file.unique file'
  | .included _, .other _ hinclude => by simp [included?_includeOf] at hinclude
  | .list members, .list members' => congrArg Value.array (members.unique members')
  | .list _, .other hlist _ => absurd rfl hlist
  | .other _ hinclude, .included _ => by simp [included?_includeOf] at hinclude
  | .other hlist _, .list _ => absurd rfl hlist
  | .other _ _, .other _ _ => rfl

theorem InlinedAll.unique {directory : String} {entries first second : List Value} :
    InlinedAll files directory entries first → InlinedAll files directory entries second →
      first = second
  | .nil, .nil => rfl
  | .cons first rest, .cons first' rest' => by
    rw [first.unique first', rest.unique rest']

end

end Playbook.Document
