import Playbook.Proofs.Value.Excerpt

/-!
# Merges path by path

What a merge holds at a path of names, read through the fields of objects and of handles. Where the
incoming value holds something, that is merged into what was there; where it is silent, nothing has
changed; and below what it replaces, nothing of the existing value is left. The names of an object
are kept in their order, and new ones follow in theirs.
-/

namespace Playbook.Value

variable {existing incoming v : Value} {fields : Fields Value} {path : List String}

/-! ## Reading through fields -/

def field? : Value → String → Option Value
  | .object fields, name => Fields.get? fields name
  | _, _ => none

/-- The value that is held at a path of names. -/
def held? (v : Value) : List String → Option Value
  | [] => some v
  | name :: rest => (v.field? name).bind fun child => child.held? rest

/-- The value that is read at a path of names when handles on the way are read as objects. -/
def read? (v : Value) : List String → Option Value
  | [] => some v
  | name :: rest => (v.opened.field? name).bind fun child => child.read? rest

theorem read?_append (v : Value) (path rest : List String) :
    v.read? (path ++ rest) = (v.read? path).bind fun w => w.read? rest := by
  induction path generalizing v with
  | nil => rfl
  | cons name path ih =>
    rw [List.cons_append, read?, read?]
    cases v.opened.field? name with
    | none => rfl
    | some child => exact ih child

theorem field?_opened {child : Value} {name : String} (h : v.field? name = some child) :
    v.opened.field? name = some child := by
  cases v with
  | object fields => exact h
  | _ => cases h

theorem read?_of_held? {w : Value} (h : v.held? path = some w) : v.read? path = some w := by
  induction path generalizing v with
  | nil => exact h
  | cons name rest ih =>
    obtain ⟨child, hchild, h⟩ := Option.bind_eq_some_iff.1 h
    rw [read?, field?_opened hchild]
    exact ih h

theorem read?_below_leaf {name : String} {rest : List String} (ho : v.isObject = false)
    (hh : v.shape ≠ .handle) : v.read? (name :: rest) = none := by
  cases v with
  | object fields => cases ho
  | handle h => exact absurd rfl hh
  | _ => rfl

theorem wellFormed_held? {w : Value} (hv : v.WellFormed) (h : v.held? path = some w) :
    w.WellFormed := by
  induction path generalizing v with
  | nil =>
    obtain rfl := Option.some.inj h
    exact hv
  | cons name rest ih =>
    obtain ⟨child, hchild, hrest⟩ := Option.bind_eq_some_iff.1 h
    cases v with
    | object fields => exact ih (hv.2.get? hchild) hrest
    | _ => cases hchild

/-! ## One field of a merge -/

theorem field?_merge (hd : fields.Distinct) (name : String) :
    (existing.merge (.object fields)).opened.field? name =
      match fields.get? name with
      | none => existing.opened.field? name
      | some v => some (match existing.opened.field? name with
        | some old => old.merge v
        | none => v) := by
  rw [merge]
  cases existing.opened with
  | object old => exact get?_mergeFields hd name
  | _ => cases hname : fields.get? name <;> simp [field?, hname]

theorem names_mergeFields {old new : Fields Value} (hd : new.Distinct) :
    (mergeFields old new).names = old.names ++ new.names.filter (· ∉ old.names) := by
  induction new generalizing old with
  | nil => simp [mergeFields, Fields.names]
  | cons entry rest ih =>
    obtain ⟨name, v⟩ := entry
    obtain ⟨hname, hrest⟩ := List.nodup_cons.1 hd
    have hnames : Fields.names ((name, v) :: rest) = name :: Fields.names rest := rfl
    rw [mergeFields, ih hrest, hnames]
    by_cases hold : name ∈ old.names
    · rw [Fields.names_put_of_mem _ hold, List.filter_cons_of_neg (by simpa using hold)]
    · rw [Fields.names_put_of_not_mem _ hold, List.filter_cons_of_pos (by simpa using hold),
        List.append_assoc, List.singleton_append]
      -- The new name is not in what is left, and so filters nothing out of it.
      have hfilter : (Fields.names rest).filter (· ∉ old.names ++ [name]) =
          (Fields.names rest).filter (· ∉ old.names) := by
        refine List.filter_congr fun other hother => ?_
        have hne : other ≠ name := fun heq => hname (heq ▸ hother)
        simp [hne]
      rw [hfilter]

/-! ## A path of a merge -/

/-- What the incoming value holds at a path is merged into what was read there. -/
theorem read?_merge (hi : incoming.WellFormed) (h : incoming.held? path = some v) :
    (existing.merge incoming).read? path =
      some (match existing.read? path with
        | some old => old.merge v
        | none => v) := by
  induction path generalizing existing incoming with
  | nil =>
    obtain rfl := Option.some.inj h
    rfl
  | cons name rest ih =>
    obtain ⟨child, hchild, hrest⟩ := Option.bind_eq_some_iff.1 h
    cases incoming with
    | object fields =>
      have hfield : Fields.get? fields name = some child := hchild
      rw [read?, read?, field?_merge hi.distinct, hfield]
      -- A field without an old value is taken over whole; else the merge goes on in it.
      cases existing.opened.field? name with
      | none => exact read?_of_held? hrest
      | some old => exact ih (hi.2.get? hfield) hrest
    | _ => cases hchild

/-- Where the incoming value holds an object without a field, nothing changes below that field. -/
theorem read?_merge_of_silent {name : String} (hi : incoming.WellFormed)
    (h : incoming.held? path = some v) (ho : v.isObject = true) (hname : v.field? name = none)
    (rest : List String) :
    (existing.merge incoming).read? (path ++ name :: rest) =
      existing.read? (path ++ name :: rest) := by
  have hv : v.WellFormed := wellFormed_held? hi h
  cases v with
  | object fields =>
    have hnone : Fields.get? fields name = none := hname
    rw [read?_append, read?_append, read?_merge hi h]
    cases existing.read? path with
    | none => simp [read?, field?, hnone]
    | some old => simp [read?, field?_merge hv.distinct, hnone]
  | _ => cases ho

/-- Where the incoming value holds no object, only its own fields can be read. -/
theorem read?_merge_of_leaf (hi : incoming.WellFormed) (h : incoming.held? path = some v)
    (ho : v.isObject = false) (rest : List String) :
    (existing.merge incoming).read? (path ++ rest) = v.read? rest := by
  rw [read?_append, read?_merge hi h]
  cases existing.read? path with
  | none => rfl
  | some old => simp only [merge_of_not_isObject old ho, Option.bind_some]

/-- The names of a merged object are those that were there, and then the new ones. -/
theorem keys_merge (hv : v.WellFormed) (ho : v.isObject = true) :
    (existing.merge v).keys =
      existing.opened.keys ++ v.keys.filter (· ∉ existing.opened.keys) := by
  cases v with
  | object fields =>
    rw [merge]
    cases existing.opened with
    | object old => exact names_mergeFields hv.distinct
    | _ => exact (List.filter_eq_self.2 fun _ _ => by simp [keys]).symm
  | _ => cases ho

/-- A merge, at a path of names, reads what the incoming value holds there, and an object where that
holds one, with the names that were there before the new ones; what was read before where it is
silent; and below a value that it holds and that is no object, what is read in that value alone. -/
theorem merge_path_by_path (hi : incoming.WellFormed) (path : List String) :
    (∀ v, incoming.held? path = some v → v.isObject = false →
      (existing.merge incoming).read? path = some v) ∧
    (∀ v, incoming.held? path = some v → v.isObject = true →
      ∃ merged, (existing.merge incoming).read? path = some merged ∧ merged.isObject = true ∧
        ∀ old, existing.read? path = some old →
          merged.keys = old.opened.keys ++ v.keys.filter (· ∉ old.opened.keys)) ∧
    (∀ above name below v, path = above ++ name :: below → incoming.held? above = some v →
      v.isObject = true → v.field? name = none →
      (existing.merge incoming).read? path = existing.read? path) ∧
    ∀ above name below v, path = above ++ name :: below → incoming.held? above = some v →
      v.isObject = false →
      (existing.merge incoming).read? path = v.read? (name :: below) ∧
        (v.shape ≠ .handle → (existing.merge incoming).read? path = none) := by
  refine ⟨?_, ?_, ?_, ?_⟩
  · intro v h ho
    have hleaf : (existing.merge incoming).read? (path ++ []) = v.read? [] :=
      read?_merge_of_leaf hi h ho []
    rwa [List.append_nil] at hleaf
  · intro v h ho
    rw [read?_merge hi h]
    cases existing.read? path with
    | none => exact ⟨v, rfl, ho, fun old hold => nomatch hold⟩
    | some there =>
      refine ⟨there.merge v, rfl, isObject_merge there ho, ?_⟩
      intro old hold
      obtain rfl := Option.some.inj hold
      exact keys_merge (wellFormed_held? hi h) ho
  · rintro above name below v rfl h ho hname
    exact read?_merge_of_silent hi h ho hname below
  · rintro above name below v rfl h ho
    rw [read?_merge_of_leaf hi h ho]
    exact ⟨rfl, read?_below_leaf ho⟩

/-- A deployment is written over a handle: the handle's fields stay and the new one follows them. -/
theorem merge_path_by_path_deployment :
    let existing : Value := .object [("vault", .handle ⟨"Vault", some "0x1"⟩), ("keep", .null)]
    let incoming : Value :=
      .object [("list", .array []), ("vault", .object [("tx", .string "0x2")])]
    let merged := existing.merge incoming
    incoming.WellFormed ∧ merged.read? ["vault", "tx"] = some (.string "0x2") ∧
      merged.read? ["vault", "address"] = some (.string "0x1") ∧
      merged.read? ["list", "length"] = none ∧
      ∃ vault, merged.read? ["vault"] = some vault ∧ vault.keys = ["contract", "address", "tx"] := by
  intro existing incoming merged
  have hi : incoming.WellFormed := by
    refine ⟨by decide, trivial, ⟨by decide, trivial, trivial⟩, trivial⟩
  have hat := @merge_path_by_path existing incoming hi
  refine ⟨hi, (hat ["vault", "tx"]).1 _ rfl rfl, ?_, ?_, ?_⟩
  · exact (hat ["vault", "address"]).2.2.1 ["vault"] "address" [] _ rfl rfl rfl rfl
  · exact ((hat ["list", "length"]).2.2.2 ["list"] "length" [] _ rfl rfl rfl).2 (by decide)
  · obtain ⟨vault, hvault, _, hkeys⟩ := (hat ["vault"]).2.1 _ rfl rfl
    exact ⟨vault, hvault, hkeys (.handle ⟨"Vault", some "0x1"⟩) rfl⟩

end Playbook.Value
