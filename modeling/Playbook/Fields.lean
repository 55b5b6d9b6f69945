/-!
# Fields

Named entries in the order they were first written. Putting a name that is present keeps its place
and replaces its entry; putting a new name appends it. The main statements say what is read after a
put, that a put keeps the names that were there in their order, and that reads do not depend on the
order.
-/

namespace Playbook

/-- Named entries in order. -/
abbrev Fields (α : Type) := List (String × α)

namespace Fields

variable {α β : Type}

/-- The entry under a name. -/
def get? : Fields α → String → Option α
  | [], _ => none
  | (name, entry) :: rest, key => if name = key then some entry else get? rest key

/-- Replaces the entry under a name in its place, or appends a new one. -/
def put : Fields α → String → α → Fields α
  | [], key, new => [(key, new)]
  | (name, entry) :: rest, key, new =>
    if name = key then (name, new) :: rest else (name, entry) :: put rest key new

def names (fields : Fields α) : List String :=
  fields.map Prod.fst

def has (fields : Fields α) (key : String) : Bool :=
  (get? fields key).isSome

/-- The fields that entries make when they are put one after another. -/
def ofEntries (entries : List (String × α)) : Fields α :=
  entries.foldl (fun fields entry => put fields entry.1 entry.2) []

/-- No name occurs twice. -/
def Distinct (fields : Fields α) : Prop :=
  (names fields).Nodup

instance (fields : Fields α) : Decidable (Distinct fields) :=
  inferInstanceAs (Decidable (List.Nodup _))

/-! ## Reading after a put -/

@[simp] theorem get?_nil (key : String) : get? ([] : Fields α) key = none := rfl

@[simp] theorem get?_put_same (fields : Fields α) (key : String) (new : α) :
    get? (put fields key new) key = some new := by
  induction fields with
  | nil => simp [put, get?]
  | cons entry rest ih =>
    obtain ⟨name, old⟩ := entry
    by_cases h : name = key <;> simp [put, get?, h, ih]

theorem get?_put_of_ne (fields : Fields α) {key other : String} (new : α) (h : other ≠ key) :
    get? (put fields key new) other = get? fields other := by
  induction fields with
  | nil => simp [put, get?, Ne.symm h]
  | cons entry rest ih =>
    obtain ⟨name, old⟩ := entry
    by_cases hk : name = key
    · simp [put, get?, hk, Ne.symm h]
    · by_cases ho : name = other
      · simp [put, get?, ho, h]
      · simp [put, get?, hk, ho, ih]

/-- To put the entry that is there changes nothing. -/
theorem put_of_get? {fields : Fields α} {key : String} {entry : α}
    (h : get? fields key = some entry) : put fields key entry = fields := by
  induction fields with
  | nil => cases h
  | cons first rest ih =>
    obtain ⟨name, old⟩ := first
    rw [get?] at h
    rw [put]
    split at h
    · rename_i hname
      rw [if_pos hname, Option.some.inj h]
    · rename_i hname
      rw [if_neg hname, ih h]

theorem put_put_same (fields : Fields α) (key : String) (old new : α) :
    put (put fields key old) key new = put fields key new := by
  induction fields with
  | nil => simp [put]
  | cons first rest ih =>
    obtain ⟨name, entry⟩ := first
    by_cases hname : name = key <;> simp [put, hname, ih]

/-- Two new entries change places with the puts that append them, and nothing else does. -/
theorem put_put_perm (fields : Fields α) {key other : String} (v w : α) (h : key ≠ other) :
    List.Perm (put (put fields key v) other w) (put (put fields other w) key v) := by
  induction fields with
  | nil => simpa [put, h, Ne.symm h] using List.Perm.swap (other, w) (key, v) []
  | cons first rest ih =>
    obtain ⟨name, entry⟩ := first
    by_cases hkey : name = key
    · simp [put, hkey, h]
    by_cases hother : name = other
    · simp [put, hother, Ne.symm h]
    simpa [put, hkey, hother] using ih

/-! ## The names after a put -/

theorem names_put_of_mem {fields : Fields α} {key : String} (new : α) (h : key ∈ names fields) :
    names (put fields key new) = names fields := by
  induction fields with
  | nil => simp [names] at h
  | cons entry rest ih =>
    obtain ⟨name, old⟩ := entry
    by_cases hk : name = key
    · simp [put, names, hk]
    · have hr : key ∈ names rest := by simpa [names, Ne.symm hk] using h
      have := ih hr
      simp only [names] at this
      simp [put, names, hk, this]

theorem put_of_not_mem {fields : Fields α} {key : String} (new : α) (h : key ∉ names fields) :
    put fields key new = fields ++ [(key, new)] := by
  induction fields with
  | nil => rfl
  | cons entry rest ih =>
    obtain ⟨name, old⟩ := entry
    have hk : name ≠ key := fun e => h (by simp [names, e])
    have hr : key ∉ names rest := fun m => h (by simpa [names] using Or.inr m)
    simp [put, hk, ih hr]

theorem names_put_of_not_mem {fields : Fields α} {key : String} (new : α) (h : key ∉ names fields) :
    names (put fields key new) = names fields ++ [key] := by
  simp [put_of_not_mem new h, names]

theorem mem_names_iff_get? {fields : Fields α} {key : String} :
    key ∈ names fields ↔ (get? fields key).isSome := by
  induction fields with
  | nil => simp [names]
  | cons entry rest ih =>
    obtain ⟨name, old⟩ := entry
    by_cases hk : name = key
    · simp [names, get?, hk]
    · simp only [names, List.map_cons, List.mem_cons] at ih ⊢
      simp [get?, hk, Ne.symm hk, ← ih]

theorem names_prefix_names_put (fields : Fields α) (key : String) (new : α) :
    names fields <+: names (put fields key new) := by
  by_cases h : key ∈ names fields
  · exact (names_put_of_mem new h).symm ▸ List.prefix_rfl
  · rw [names_put_of_not_mem new h]
    exact List.prefix_append _ _

theorem distinct_put {fields : Fields α} (key : String) (new : α) (h : Distinct fields) :
    Distinct (put fields key new) := by
  by_cases hk : key ∈ names fields
  · rw [Distinct, names_put_of_mem new hk]
    exact h
  · rw [Distinct, names_put_of_not_mem new hk]
    refine List.nodup_append.2 ⟨h, by simp, ?_⟩
    intro name hname other hother heq
    rw [heq, List.mem_singleton.1 hother] at hname
    exact hk hname

/-! ## Entries that are changed under their names -/

theorem get?_map (f : α → β) (fields : Fields α) (key : String) :
    get? (fields.map fun (name, entry) => (name, f entry)) key = (get? fields key).map f := by
  induction fields with
  | nil => rfl
  | cons first rest ih =>
    obtain ⟨name, old⟩ := first
    rw [List.map_cons, get?, get?, ih]
    split <;> rfl

theorem map_put (f : α → β) (fields : Fields α) (key : String) (new : α) :
    (put fields key new).map (fun (name, entry) => (name, f entry)) =
      put (fields.map fun (name, entry) => (name, f entry)) key (f new) := by
  induction fields with
  | nil => rfl
  | cons first rest ih =>
    obtain ⟨name, old⟩ := first
    rw [put, List.map_cons, put]
    split
    · rfl
    · rw [List.map_cons, ih]

/-! ## The order of fields -/

theorem get?_eq_some_iff {fields : Fields α} (hd : Distinct fields) {key : String} {entry : α} :
    get? fields key = some entry ↔ (key, entry) ∈ fields := by
  induction fields with
  | nil => simp
  | cons first rest ih =>
    obtain ⟨name, old⟩ := first
    obtain ⟨hfirst, hrest⟩ := List.nodup_cons.1 hd
    rw [get?, List.mem_cons, Prod.mk.injEq]
    by_cases hname : name = key
    · subst hname
      have hnone : (name, entry) ∉ rest := fun h => hfirst (List.mem_map.2 ⟨_, h, rfl⟩)
      simp [hnone, eq_comm]
    · simp [hname, Ne.symm hname, ih hrest]

theorem Distinct.perm {fields others : Fields α} (hd : Distinct fields)
    (hp : List.Perm fields others) : Distinct others :=
  (hp.map Prod.fst).nodup_iff.1 hd

/-- What is read under a name does not depend on the order of the fields. -/
theorem get?_perm {fields others : Fields α} (hd : Distinct fields) (hp : List.Perm fields others)
    (key : String) : get? fields key = get? others key := by
  apply Option.ext
  intro entry
  rw [get?_eq_some_iff hd, get?_eq_some_iff (hd.perm hp), hp.mem_iff]

end Fields

end Playbook
