import Mathlib.Algebra.Ring.GeomSum
import Playbook.Proofs.Document.Inline

/-!
# Loading playbook files

Loading from files that do not change. A file is read once for every include that leads to it, so
that the number of reads is bounded by the includes there are and the limit on their depth, also
where files include one another. The main statement says when loading succeeds, and that its result
is the document of the file with the includes replaced.
-/

namespace Playbook

/-- The disk of files that are given by name and can only be read. It counts its reads. -/
def Disk.ofFiles (files : Fields String) : Disk (StateM Nat) where
  read name := fun count => ((Fields.get? files name).elim (.error .missing) .ok, count + 1)
  isDirectory _ := return false
  list _ := return .error .notDirectory
  write _ _ := return .error (.other "Read-only file system (os error 30)")

namespace Document

variable {files : Fields String} {directory name : String}

/-! ## Outcomes of loading -/

def loaded (files : Fields String) (name : String) : Except Error Value :=
  match Fields.get? files name with
  | some text => parse name text
  | none => .error (.document name (.file .missing))

/-- The outcome of replacing the includes in a document, given those for the files it includes. -/
def replaced (expanded : String → Except Error Value) (directory : String) (document : Value) :
    Except Error Value :=
  expand (m := Id) expanded directory document

def replacedAll (expanded : String → Except Error Value) (directory : String)
    (entries : List Value) : Except Error (List Value) :=
  expandEntries (m := Id) expanded directory entries

def expanded (files : Fields String) (levels : Nat) (name : String) : Except Error Value :=
  expandFile (m := Id) (loaded files) levels name

theorem loaded_eq_ok {document : Value} :
    loaded files name = .ok document ↔ document? files name = some document := by
  rw [loaded, document?]
  cases Fields.get? files name with
  | none => simp
  | some text =>
    cases htext : Yaml.value? text <;> simp [parse, htext]

theorem expand_of_not_array {m : Type → Type} [Monad m] {expanding : String → Loading m Value}
    {document : Value} (h : document.shape ≠ .array) :
    expand expanding directory document =
      match included? document with
      | some (.string name) => expanding (FileName.join directory name)
      | some _ => throw (.validation .includeNotPath)
      | none => return document := by
  cases document with
  | array entries => exact absurd rfl h
  | _ => rfl

section Replaced

variable {g : String → Except Error Value}

theorem replaced_array (entries : List Value) :
    replaced g directory (.array entries) = (replacedAll g directory entries).map .array := by
  rw [replaced, replacedAll, expand]
  generalize expandEntries (m := Id) g directory entries = outcome
  cases outcome <;> rfl

theorem replaced_of_not_array {document : Value} (h : document.shape ≠ .array) :
    replaced g directory document =
      match included? document with
      | some (.string name) => g (FileName.join directory name)
      | some _ => .error (.validation .includeNotPath)
      | none => .ok document := by
  rw [replaced, expand_of_not_array h]
  rfl

theorem replacedAll_nil : replacedAll g directory [] = .ok [] := rfl

theorem replacedAll_cons (entry : Value) (rest : List Value) :
    replacedAll g directory (entry :: rest) =
      (replaced g directory entry).bind fun result =>
        (replacedAll g directory rest).map (result :: ·) := by
  rw [replaced, replacedAll, replacedAll, expandEntries]
  generalize expandEntries (m := Id) g directory rest = later
  generalize expand (m := Id) g directory entry = first
  cases first <;> cases later <;> rfl

/-! ## Successes -/

/-- An include of the target is answered: it names a file, and there is an outcome for that. -/
def Answered (g : String → Except Error Value) (directory : String) (target : Value) : Prop :=
  ∃ name, target = .string name ∧ ∃ result, g (FileName.join directory name) = .ok result

theorem replaced_leaf_succeeds_iff {document : Value} (h : document.shape ≠ .array) :
    (∃ result, replaced g directory document = .ok result) ↔
      ∀ target, HasEntry document (includeOf target) → Answered g directory target := by
  simp only [hasEntry_iff_eq h, replaced_of_not_array h]
  cases hinclude : included? document with
  | none =>
    refine iff_of_true ⟨document, rfl⟩ ?_
    rintro target rfl
    simp [included?_includeOf] at hinclude
  | some target =>
    obtain rfl := eq_includeOf_of_included? hinclude
    -- A leaf that is an include has one entry that is one, itself.
    have htarget (other : Value) : includeOf target = includeOf other ↔ target = other := by
      simp [includeOf]
    simp only [htarget, Answered]
    cases target <;> simp

mutual

/-- The includes in a document can be replaced exactly if each of them is answered. -/
theorem replaced_succeeds_iff : ∀ document : Value,
    (∃ result, replaced g directory document = .ok result) ↔
      ∀ target, HasEntry document (includeOf target) → Answered g directory target
  | .array entries => by
    -- An include in a list is one in a member, so that the members decide.
    have hentries := replacedAll_succeeds_iff entries
    simp only [replaced_array, Outcome.map_eq_ok, hasEntry_array, ← hentries]
    constructor
    · rintro ⟨_, results, hresults, _⟩
      exact ⟨results, hresults⟩
    · rintro ⟨results, hresults⟩
      exact ⟨_, results, hresults, rfl⟩
  | .null | .bool _ | .number _ | .bigInt _ | .date _ | .string _ | .bytes _ | .object _
  | .handle _ => replaced_leaf_succeeds_iff nofun

theorem replacedAll_succeeds_iff : ∀ entries : List Value,
    (∃ results, replacedAll g directory entries = .ok results) ↔
      ∀ target, (∃ entry ∈ entries, HasEntry entry (includeOf target)) →
        Answered g directory target
  | [] => by simp [replacedAll_nil]
  | entry :: rest => by
    have hentry := replaced_succeeds_iff entry
    have hrest := replacedAll_succeeds_iff rest
    simp only [replacedAll_cons, Outcome.bind_eq_ok, Outcome.map_eq_ok, List.mem_cons,
      exists_eq_or_imp, or_imp, forall_and, ← hentry, ← hrest]
    constructor
    · rintro ⟨_, result, hresult, results, hresults, _⟩
      exact ⟨⟨result, hresult⟩, results, hresults⟩
    · rintro ⟨⟨result, hresult⟩, results, hresults⟩
      exact ⟨_, result, hresult, results, hresults, rfl⟩

end

theorem inlined_leaf_of_replaced {document result : Value} (h : document.shape ≠ .array)
    (hg : ∀ name result, g name = .ok result → InlinedFile files name result)
    (hresult : replaced g directory document = .ok result) :
    Inlined files directory document result := by
  rw [replaced_of_not_array h] at hresult
  cases hinclude : included? document with
  | none =>
    rw [hinclude] at hresult
    obtain rfl := Except.ok.inj hresult
    exact .other h hinclude
  | some target =>
    obtain rfl := eq_includeOf_of_included? hinclude
    rw [hinclude] at hresult
    cases target with
    | string name => exact .included (hg _ result hresult)
    | _ => cases hresult

mutual

/-- A document whose includes are replaced is the one with its includes inlined. -/
theorem inlined_of_replaced
    (hg : ∀ name result, g name = .ok result → InlinedFile files name result) :
    ∀ {document result : Value}, replaced g directory document = .ok result →
      Inlined files directory document result
  | .array entries, result, h => by
    rw [replaced_array] at h
    obtain ⟨results, hresults, rfl⟩ := Outcome.map_eq_ok.1 h
    exact .list (inlinedAll_of_replacedAll hg hresults)
  | .null, _, h | .bool _, _, h | .number _, _, h | .bigInt _, _, h | .date _, _, h
  | .string _, _, h | .bytes _, _, h | .object _, _, h | .handle _, _, h =>
    inlined_leaf_of_replaced nofun hg h

theorem inlinedAll_of_replacedAll
    (hg : ∀ name result, g name = .ok result → InlinedFile files name result) :
    ∀ {entries results : List Value}, replacedAll g directory entries = .ok results →
      InlinedAll files directory entries results
  | [], results, h => by
    obtain rfl := Except.ok.inj h
    exact .nil
  | entry :: rest, results, h => by
    rw [replacedAll_cons] at h
    obtain ⟨result, hresult, h⟩ := Outcome.bind_eq_ok.1 h
    obtain ⟨later, hlater, rfl⟩ := Outcome.map_eq_ok.1 h
    exact .cons (inlined_of_replaced hg hresult) (inlinedAll_of_replacedAll hg hlater)

end

end Replaced

theorem expanded_zero : expanded files 0 name = .error (.document name .includesTooDeep) := rfl

theorem expanded_succ (levels : Nat) :
    expanded files (levels + 1) name =
      (loaded files name).bind (replaced (expanded files levels) (FileName.directory name)) := by
  rw [expanded, expandFile]
  cases loaded files name <;> rfl

/-- Loading within so many levels succeeds exactly if the file can be loaded with chains of includes
that have fewer hops. -/
theorem expanded_succeeds_iff {levels : Nat} :
    (∃ result, expanded files levels name = .ok result) ↔
      ∃ limit, levels = limit + 1 ∧ Loadable files limit name := by
  -- For every file, since an include goes on with another one and a level less.
  induction levels generalizing name with
  | zero => simp [expanded_zero]
  | succ levels ih =>
    simp only [expanded_succ, Outcome.bind_eq_ok, loaded_eq_ok, Nat.add_right_cancel_iff,
      exists_eq_left', loadable_iff (FileName.liesIn_directory name), ← ih]
    constructor
    · rintro ⟨result, document, hdocument, hresult⟩
      exact ⟨document, hdocument, (replaced_succeeds_iff document).1 ⟨result, hresult⟩⟩
    · rintro ⟨document, hdocument, hincludes⟩
      obtain ⟨result, hresult⟩ := (replaced_succeeds_iff document).2 hincludes
      exact ⟨result, document, hdocument, hresult⟩

theorem inlined_of_expanded {levels : Nat} {result : Value}
    (h : expanded files levels name = .ok result) : InlinedFile files name result := by
  induction levels generalizing name result with
  | zero => cases h
  | succ levels ih =>
    rw [expanded_succ] at h
    obtain ⟨document, hdocument, hresult⟩ := Outcome.bind_eq_ok.1 h
    exact .file (loaded_eq_ok.1 hdocument) (FileName.liesIn_directory name)
      (inlined_of_replaced (fun _ _ => ih) hresult)

/-! ## Reads -/

/-- Loading ends with an outcome after no more than so many reads, however many there were before.
-/
def Ends {α : Type} (loading : Loading (StateM Nat) α) (outcome : Except Error α) (most : Nat) :
    Prop :=
  ∀ count, ∃ reads ≤ most, loading.run.run count = (outcome, count + reads)

theorem ends_pure {α : Type} (a : α) : Ends (pure a) (.ok a) 0 :=
  fun _ => ⟨0, Nat.le_refl 0, rfl⟩

theorem ends_throw {α : Type} (e : Error) (most : Nat) :
    Ends (throw e : Loading (StateM Nat) α) (.error e) most :=
  fun _ => ⟨0, Nat.zero_le most, rfl⟩

theorem Ends.mono {α : Type} {loading : Loading (StateM Nat) α} {outcome : Except Error α}
    {most more : Nat} (h : Ends loading outcome most) (hle : most ≤ more) :
    Ends loading outcome more := by
  intro count
  obtain ⟨reads, hreads, hrun⟩ := h count
  exact ⟨reads, hreads.trans hle, hrun⟩

theorem Ends.bind {α β : Type} {loading : Loading (StateM Nat) α}
    {next : α → Loading (StateM Nat) β} {outcome : Except Error α} {later : α → Except Error β}
    {most more : Nat} (h : Ends loading outcome most)
    (hnext : ∀ a, outcome = .ok a → Ends (next a) (later a) more) :
    Ends (loading >>= next) (outcome.bind later) (most + more) := by
  intro count
  obtain ⟨reads, hreads, hrun⟩ := h count
  have hbind : (loading >>= next).run.run count =
      StateT.run (ExceptT.bindCont next outcome) (count + reads) := by
    show StateT.run (loading.run >>= ExceptT.bindCont next) count = _
    rw [StateT.run_bind, hrun]
    rfl
  -- A failure stops the reading, and a result goes on where the count stands.
  rw [hbind]
  cases outcome with
  | error e => exact ⟨reads, by omega, rfl⟩
  | ok a =>
    obtain ⟨others, hothers, hrest⟩ := hnext a rfl (count + reads)
    refine ⟨reads + others, by omega, ?_⟩
    rw [← Nat.add_assoc]
    exact hrest

theorem Ends.map {α β : Type} {loading : Loading (StateM Nat) α} {outcome : Except Error α}
    {most : Nat} (f : α → β) (h : Ends loading outcome most) :
    Ends (f <$> loading) (outcome.map f) most := by
  have hmap : Ends (loading >>= fun a => pure (f a)) (outcome.bind fun a => .ok (f a)) most :=
    h.bind fun a _ => ends_pure (f a)
  rw [bind_pure_comp] at hmap
  cases outcome <;> exact hmap

theorem ends_load (files : Fields String) (name : String) :
    Ends (load (Disk.ofFiles files) name) (loaded files name) 1 := by
  intro count
  refine ⟨1, Nat.le_refl 1, ?_⟩
  cases htext : Fields.get? files name with
  | none =>
    simp only [load, loaded, Disk.ofFiles, htext]
    rfl
  | some text =>
    simp only [load, loaded, Disk.ofFiles, htext]
    show (liftM (parse name text) : Loading (StateM Nat) Value).run.run (count + 1) = _
    cases parse name text <;> rfl

mutual

def includeCount : Value → Nat
  | .array entries => includeCountAll entries
  | entry => if (included? entry).isSome then 1 else 0

def includeCountAll : List Value → Nat
  | [] => 0
  | entry :: rest => includeCount entry + includeCountAll rest

end

theorem includeCount_of_not_array {document : Value} (h : document.shape ≠ .array) :
    includeCount document = if (included? document).isSome then 1 else 0 := by
  cases document with
  | array entries => exact absurd rfl h
  | _ => rfl

def includesIn (files : Fields String) : Nat :=
  (files.map fun file => (Yaml.value? file.2).elim 0 includeCount).sum

theorem includeCount_le_includesIn {document : Value} (h : document? files name = some document) :
    includeCount document ≤ includesIn files := by
  obtain ⟨text, htext, hdocument⟩ := Option.bind_eq_some_iff.1 h
  induction files with
  | nil => cases htext
  | cons file rest ih =>
    obtain ⟨key, first⟩ := file
    rw [Fields.get?] at htext
    rw [includesIn, List.map_cons, List.sum_cons]
    -- The first file of the name is the one that is read.
    split at htext
    · obtain rfl := Option.some.inj htext
      simp [hdocument]
    · have hrest : includeCount document ≤ includesIn rest := by
        refine ih ?_ htext
        rw [document?, htext]
        exact hdocument
      exact hrest.trans (Nat.le_add_left _ _)

section Reads

variable {expanding : String → Loading (StateM Nat) Value} {g : String → Except Error Value}
  {most : Nat}

theorem ends_expand_leaf (hg : ∀ name, Ends (expanding name) (g name) most) {document : Value}
    (h : document.shape ≠ .array) :
    Ends (expand expanding directory document) (replaced g directory document)
      (includeCount document * most) := by
  rw [replaced_of_not_array h, expand_of_not_array h, includeCount_of_not_array h]
  cases included? document with
  | none => exact (ends_pure document).mono (Nat.zero_le _)
  | some target =>
    rw [Option.isSome_some, if_pos rfl, Nat.one_mul]
    cases target with
    | string name => exact hg (FileName.join directory name)
    | _ => exact ends_throw _ most

mutual

theorem ends_expand (hg : ∀ name, Ends (expanding name) (g name) most) :
    ∀ document : Value, Ends (expand expanding directory document) (replaced g directory document)
      (includeCount document * most)
  | .array entries => by
    rw [replaced_array, expand, includeCount]
    exact (ends_expandEntries hg entries).map Value.array
  | .null | .bool _ | .number _ | .bigInt _ | .date _ | .string _ | .bytes _ | .object _
  | .handle _ => ends_expand_leaf hg nofun

theorem ends_expandEntries (hg : ∀ name, Ends (expanding name) (g name) most) :
    ∀ entries : List Value, Ends (expandEntries expanding directory entries)
      (replacedAll g directory entries) (includeCountAll entries * most)
  | [] => by
    rw [replacedAll_nil, expandEntries]
    exact (ends_pure []).mono (Nat.zero_le _)
  | entry :: rest => by
    rw [replacedAll_cons, expandEntries, includeCountAll, Nat.add_mul]
    refine (ends_expand hg entry).bind fun result _ => ?_
    have hrest := (ends_expandEntries hg rest).map (result :: ·)
    rw [map_eq_pure_bind] at hrest
    exact hrest

end

end Reads

/-- The file itself is read once, and each of its includes takes the reads of the file it names. -/
theorem ends_expandFile (files : Fields String) (levels : Nat) (name : String) :
    Ends (expandFile (load (Disk.ofFiles files)) levels name) (expanded files levels name)
      (∑ level ∈ Finset.range levels, includesIn files ^ level) := by
  induction levels generalizing name with
  | zero => exact ends_throw _ _
  | succ levels ih =>
    -- One more level is one read, and for each include the reads of the levels below it.
    rw [expanded_succ, expandFile, geom_sum_succ, Nat.add_comm]
    refine (ends_load files name).bind fun document hdocument => ?_
    refine (ends_expand ih document).mono ?_
    exact Nat.mul_le_mul_right _ (includeCount_le_includesIn (loaded_eq_ok.1 hdocument))

/-! ## Playbook files -/

/-- Loading a file ends, whatever files there are, after a number of reads that is bounded by the
includes in them. It succeeds exactly if the file can be loaded with chains of no more than the
greatest depth of includes, and with the one document that the file becomes when its includes are
replaced: no include is left in it, and what is neither a list nor an include stays where it is. -/
theorem load_inlines_includes (files : Fields String) (root : String) :
    ∃ outcome reads,
      (expandFile (load (Disk.ofFiles files)) (maxIncludeDepth + 1) root).run.run 0 =
        (outcome, reads) ∧
      reads ≤ ∑ depth ∈ Finset.range (maxIncludeDepth + 1), includesIn files ^ depth ∧
      ((∃ result, outcome = .ok result) ↔ Loadable files maxIncludeDepth root) ∧
      ∀ result, outcome = .ok result →
        InlinedFile files root result ∧
        (∀ other, InlinedFile files root other → other = result) ∧
        (∀ target, ¬ HasEntry result (includeOf target)) ∧
        ∃ document, document? files root = some document ∧
          ∀ place entry, document.lookup (List.map .index place) = some entry →
            entry.shape ≠ .array → included? entry = none →
            result.lookup (List.map .index place) = some entry := by
  -- The limit is on hops, so that there is one level more than hops: that of the root.
  obtain ⟨reads, hreads, hrun⟩ := ends_expandFile files (maxIncludeDepth + 1) root 0
  rw [Nat.zero_add] at hrun
  refine ⟨expanded files (maxIncludeDepth + 1) root, reads, hrun, hreads, ?_, ?_⟩
  · simp [expanded_succeeds_iff]
  · intro result hresult
    have hinlined : InlinedFile files root result := inlined_of_expanded hresult
    refine ⟨hinlined, fun other hother => hother.unique hinlined, hinlined.noInclude, ?_⟩
    cases hinlined with
    | file holds _ inlined => exact ⟨_, holds, fun place entry => inlined.keeps⟩

/-- Names in a file below a directory are taken from there, and an include that is no entry stays.
-/
theorem load_inlines_includes_below :
    let files : Fields String := [("d/main.yml", "- playbook: parts/a.yml\n- 1"),
      ("d/parts/a.yml", "- playbook: b.yml"), ("d/parts/b.yml", "x: \x7bplaybook: a.yml\x7d")]
    let result : Value := .array
      [.array [.object [("x", includeOf (.string "a.yml"))]], .int 1]
    ∃ reads, (expandFile (load (Disk.ofFiles files)) (maxIncludeDepth + 1) "d/main.yml").run.run 0 =
        (.ok result, reads) ∧
      Loadable files maxIncludeDepth "d/main.yml" ∧ InlinedFile files "d/main.yml" result ∧
      (∀ other, InlinedFile files "d/main.yml" other → other = result) ∧
      ∀ target, ¬ HasEntry result (includeOf target) := by
  intro files result
  obtain ⟨outcome, reads, hrun, -, hloadable, hresult⟩ := load_inlines_includes files "d/main.yml"
  have hsome : ((expandFile (load (Disk.ofFiles files)) (maxIncludeDepth + 1)
      "d/main.yml").run.run 0).1.toOption = some result := by
    decide +kernel
  rw [hrun] at hsome
  have hok : outcome = .ok result := Outcome.toOption_eq_some.1 hsome
  obtain ⟨hinlined, hunique, hnone, -⟩ := hresult result hok
  exact ⟨reads, hok ▸ hrun, hloadable.1 ⟨result, hok⟩, hinlined, hunique, hnone⟩

end Document

end Playbook
