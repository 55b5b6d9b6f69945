import Playbook.Proofs.Outcome
import Playbook.Proofs.Path.Loss
import Playbook.Proofs.Value.WellFormed
import Playbook.State.Store

/-!
# Writes to the state

What a write to the state does, in three statements. One that succeeds is read back as the merge of
the value into what was there. It leaves alone every other namespace, and in its own namespace all
that is read apart from its path. One that fails loses data exactly when its path tramples on some.
-/

namespace Playbook.Store

open Value

def read? (store : Store) (space : Namespace) (path : Path) : Option Value :=
  (store.root? space).bind (·.lookup path)

theorem get?_eq_read? (store : Store) (space : Namespace) (path : String) :
    store.get? space path = store.read? space (Path.parse path) := rfl

theorem lookup_root {store : Store} {space : Namespace} {path : Path} {w : Value}
    (h : store.read? space path = some w) : (store.root space).lookup path = some w := by
  obtain ⟨root, hr, hw⟩ := Option.bind_eq_some_iff.1 h
  rw [Store.root, hr]
  exact hw

/-- Below an absent namespace nothing is read but the empty object that it starts as. -/
theorem lookup_root_of_absent {store : Store} {space : Namespace} {path : Path} {w : Value}
    (hr : store.root? space = none) (h : (store.root space).lookup path = some w) :
    path = [] ∧ w = .object [] := by
  rw [Store.root, hr] at h
  cases path with
  | nil => exact ⟨rfl, (Option.some.inj h).symm⟩
  | cons segment rest => cases segment <;> cases h

theorem setRoot_setRoot (store : Store) (space : Namespace) (first second : Value) :
    (store.setRoot space first).setRoot space second = store.setRoot space second := by
  cases space <;> rfl

theorem root_setRoot_same (store : Store) (space : Namespace) (root : Value) :
    (store.setRoot space root).root space = root := by
  simp [Store.root]

theorem root_setRoot_of_ne (store : Store) {space other : Namespace} (root : Value)
    (h : other ≠ space) : (store.setRoot space root).root other = store.root other := by
  simp [Store.root, root?_setRoot_of_ne store root h]

@[simp] theorem read?_setRoot_same (store : Store) (space : Namespace) (path : Path) (root : Value) :
    (store.setRoot space root).read? space path = root.lookup path := by
  simp [read?]

theorem read?_setRoot_of_ne (store : Store) {space other : Namespace} (path : Path) (root : Value)
    (h : other ≠ space) : (store.setRoot space root).read? other path = store.read? other path := by
  rw [read?, root?_setRoot_of_ne store root h, read?]

/-! ## The steps of a write -/

/-- A write that is refused at once, for it would replace a root. -/
def Refused (path : String) (v : Value) : Prop :=
  Path.parse path = [] ∧ v.isObject = false

theorem set_of_refused {space : Namespace} {path : String} {v : Value} (store : Store)
    (h : Refused path v) :
    set space path v store = (.error (.resolution (.wholeNamespace space v.shape)), store) :=
  if_pos h

theorem set_of_not_refused {space : Namespace} {path : String} {v : Value} {store : Store}
    {outcome : Except SlotError Value} {root : Value} (h : ¬ Refused path v)
    (hw : (store.root space).write (·.merge v) (Path.parse path) = (outcome, root)) :
    set space path v store =
      ((outcome.map fun _ => ()).mapError fun fault => .resolution (.slot path fault),
        store.setRoot space root) := by
  unfold set
  dsimp only
  rw [if_neg (show ¬ (Path.parse path = [] ∧ v.isObject = false) from h), hw]
  cases outcome <;> rfl

theorem set_eq_ok {space : Namespace} {path : String} {v : Value} {store store' : Store}
    (h : set space path v store = (.ok (), store')) :
    ¬ Refused path v ∧ ∃ old root,
      (store.root space).write (·.merge v) (Path.parse path) = (.ok old, root) ∧
      store' = store.setRoot space root := by
  by_cases hr : Refused path v
  · rw [set_of_refused store hr] at h
    cases h
  · rcases hw : (store.root space).write (·.merge v) (Path.parse path) with ⟨fault | old, root⟩
    · rw [set_of_not_refused hr hw] at h
      cases h
    · rw [set_of_not_refused hr hw] at h
      exact ⟨hr, old, root, rfl, (Prod.mk.inj h).2.symm⟩

/-- A write that fails is refused, or stops on its way to the slot. -/
theorem set_eq_error {space : Namespace} {path : String} {v : Value} {store store' : Store}
    {e : Error} (h : set space path v store = (.error e, store')) :
    (Refused path v ∧ store' = store) ∨ ∃ fault root,
      (store.root space).write (·.merge v) (Path.parse path) = (.error fault, root) ∧
      store' = store.setRoot space root := by
  by_cases hr : Refused path v
  · rw [set_of_refused store hr] at h
    exact .inl ⟨hr, (Prod.mk.inj h).2.symm⟩
  · rcases hw : (store.root space).write (·.merge v) (Path.parse path) with ⟨fault | old, root⟩
    · rw [set_of_not_refused hr hw] at h
      exact .inr ⟨fault, root, rfl, (Prod.mk.inj h).2.symm⟩
    · rw [set_of_not_refused hr hw] at h
      cases h

/-- No write to the state fails for another reason than that something is unresolved. -/
theorem unresolved_of_set_error {space : Namespace} {path : String} {v : Value} {store : Store}
    {e : Error} (h : (set space path v store).1 = .error e) : ∃ fault, e = .resolution fault := by
  by_cases hr : Refused path v
  · rw [set_of_refused store hr] at h
    exact ⟨_, (Except.error.inj h).symm⟩
  · rw [set_of_not_refused hr rfl] at h
    obtain ⟨fault, _, he⟩ := Outcome.mapError_eq_error.1 h
    exact ⟨_, he.symm⟩

/-! ## Reading back -/

/-- What the slot of a write to the state merges with, as far as it can be read before. -/
theorem merge_held {space : Namespace} {path : String} {v old root : Value} {store : Store}
    (hv : v.WellFormed) (hr : ¬ Refused path v)
    (hw : (store.root space).write (·.merge v) (Path.parse path) = (.ok old, root)) :
    old.merge v = ((store.get? space path).getD .null).merge v := by
  rcases held_of_write hw with hs | ⟨hn, hbare⟩
  · cases hroot : store.root? space with
    | some r =>
      have hget : store.get? space path = some old := by
        rw [Store.root, hroot] at hs
        rw [get?_eq_read?, read?, hroot]
        exact hs
      rw [hget]
      rfl
    | none =>
      -- The slot is then the root itself, which was made empty for the write.
      have hget : store.get? space path = none := by rw [get?_eq_read?, read?, hroot]; rfl
      obtain ⟨hp, rfl⟩ := lookup_root_of_absent hroot hs
      rw [hget]
      cases v with
      | object fields =>
        rw [merge_object, mergeFields_nil hv.distinct]
        exact (merge_of_bare (.object fields) (.inl rfl)).symm
      | _ => exact absurd ⟨hp, rfl⟩ hr
  -- Nothing was read at the path, and what fills the slot merges as null does.
  · rw [merge_of_bare v hbare]
    have hget : store.get? space path = none := by
      cases hg : store.get? space path with
      | none => rfl
      | some w =>
        have hw := lookup_root (get?_eq_read? store space path ▸ hg)
        rw [hn] at hw
        cases hw
    rw [hget]
    exact (merge_of_bare v (.inl rfl)).symm

/-- A write that succeeds is read back as the merge of the value into what was read before, or into
null where nothing was; so a value that is no object is read back as it is. -/
theorem set_read_back {space : Namespace} {path : String} {v : Value} {store store' : Store}
    (hv : v.WellFormed) (h : set space path v store = (.ok (), store')) :
    store'.get? space path = some (((store.get? space path).getD .null).merge v) ∧
      (v.isObject = false → store'.get? space path = some v) := by
  obtain ⟨hr, old, root, hw, rfl⟩ := set_eq_ok h
  have hget : (store.setRoot space root).get? space path =
      some (((store.get? space path).getD .null).merge v) := by
    rw [get?_eq_read?, read?_setRoot_same, lookup_write hw, merge_held hv hr hw]
  refine ⟨hget, fun ho => ?_⟩
  rw [hget, merge_of_not_isObject _ ho]

/-- An object written to a handle is read back next to the fields of the handle. -/
theorem set_read_back_handle :
    let v : Value := .object [("tx", .string "0x1")]
    let store : Store :=
      { empty with deployed := some (.object [("vault", .handle ⟨"Vault", some "0xab"⟩)]) }
    let store' := (set .deployed "vault" v store).2
    v.WellFormed ∧ set .deployed "vault" v store = (.ok (), store') ∧
      store'.get? .deployed "vault" = some (.object
        [("contract", .string "Vault"), ("address", .string "0xab"), ("tx", .string "0x1")]) := by
  intro v store store'
  have hv : v.WellFormed := ⟨by decide, trivial, trivial⟩
  have hset : set .deployed "vault" v store = (.ok (), store') := rfl
  refine ⟨hv, hset, ?_⟩
  rw [(set_read_back hv hset).1]
  rfl

/-! ## What is left alone -/

/-- A write, whether it succeeds or fails, leaves every other namespace as it was, and in its own
namespace whatever can be read at a path that parts from its path into another child. -/
theorem set_frame (space : Namespace) (path : String) (v : Value) (store : Store) :
    (∀ other, other ≠ space →
      (set space path v store).2.root? other = store.root? other) ∧
    ∀ q w, store.read? space q = some w →
      Parts (store.root space) (Path.parse path) q →
      (set space path v store).2.read? space q = some w := by
  by_cases hr : Refused path v
  · rw [set_of_refused store hr]
    exact ⟨fun _ _ => rfl, fun q w hq _ => hq⟩
  · rw [set_of_not_refused hr rfl]
    constructor
    · intro other hne
      exact root?_setRoot_of_ne store _ hne
    · intro q w hq hparts
      rw [read?_setRoot_same]
      exact lookup_write_of_parts hparts (lookup_root hq)

/-- Two spellings of one item lead on, and its fields part. -/
theorem set_frame_item_key :
    let store : Store :=
      { empty with outputs := some (.object [("list", .array [.object [("a", .int 1)]])]) }
    let q : Path := [.key "list", .index 0, .key "a"]
    store.read? .outputs q = some (.int 1) ∧
      Parts (store.root .outputs) (Path.parse "list.0.b") q ∧
      (set .outputs "list.0.b" (.int 2) store).2.read? .outputs q = some (.int 1) := by
  intro store q
  have hq : store.read? .outputs q = some (.int 1) := rfl
  have hpath : Path.parse "list.0.b" = [.key "list", .key "0", .key "b"] := by decide +kernel
  have hparts : Parts (store.root .outputs) (Path.parse "list.0.b") q := by
    rw [hpath]
    -- The key `0` and the index name the same item.
    refine .deeper rfl rfl (.deeper ?_ rfl (.apart ?_))
    · decide +kernel
    · decide
  exact ⟨hq, hparts, (set_frame .outputs "list.0.b" (.int 2) store).2 q _ hq hparts⟩

/-! ## What a failure loses -/

/-- Whatever data can be read in the first state survives at the same place in the second. -/
def Keeps (old new : Store) : Prop :=
  ∀ space path v, old.read? space path = some v → v.Survives (new.read? space path)

/-- A write that fails keeps all data exactly when its path does not go on from a scalar, from a
handle by an index, or below a field of a handle. -/
theorem set_error_keeps_iff {space : Namespace} {path : String} {v : Value} {store store' : Store}
    {e : Error} (h : set space path v store = (.error e, store')) :
    store.Keeps store' ↔ ¬ Tramples (store.root space) (Path.parse path) := by
  rcases set_eq_error h with ⟨hr, rfl⟩ | ⟨fault, root, hw, rfl⟩
  · rw [hr.1]
    refine ⟨fun _ => not_tramples_nil _, fun _ other q w hq => ?_⟩
    rw [hq]
    exact survives_self w
  · rw [← keeps_iff_of_write_error hw]
    constructor
    · intro hk q w hq
      cases hroot : store.root? space with
      | none =>
        -- An absent namespace is written into as an empty object, which has no data to lose.
        obtain ⟨_, rfl⟩ := lookup_root_of_absent hroot hq
        trivial
      | some r =>
        have hread : store.read? space q = some w := by
          rw [read?, hroot]
          rw [Store.root, hroot] at hq
          exact hq
        have hsurvives := hk space q w hread
        rw [read?_setRoot_same] at hsurvives
        exact hsurvives
    · intro hk other q w hq
      by_cases hne : other = space
      · subst hne
        rw [read?_setRoot_same]
        exact hk q w (lookup_root hq)
      · rw [read?_setRoot_of_ne store q root hne, hq]
        exact survives_self w

/-- A write too far beyond the end of a list keeps the list. -/
theorem set_error_keeps_list :
    let store : Store := { empty with outputs := some (.object [("list", .array [.int 5])]) }
    let store' := (set .outputs "list[5000]" (.int 1) store).2
    set .outputs "list[5000]" (.int 1) store =
        (.error (.resolution (.slot "list[5000]" (.beyondPadding 5000 1))), store') ∧
      store.Keeps store' := by
  intro store store'
  have hset : set .outputs "list[5000]" (.int 1) store =
      (.error (.resolution (.slot "list[5000]" (.beyondPadding 5000 1))), store') := rfl
  have hpath : Path.parse "list[5000]" = [.key "list", .index 5000] := by decide +kernel
  have hroot : store.root .outputs = .object [("list", .array [.int 5])] := rfl
  refine ⟨hset, (set_error_keeps_iff hset).2 ?_⟩
  rw [hpath, hroot]
  simp [tramples_cons, not_tramples_nil, displaced, child?, Fields.get?]

/-- A write too far beyond the end of a list that it has put in place of a number loses the
number. -/
theorem set_error_loses_number :
    let store : Store := { empty with outputs := some (.object [("count", .int 5)]) }
    let store' := (set .outputs "count[5000]" (.int 1) store).2
    set .outputs "count[5000]" (.int 1) store =
        (.error (.resolution (.slot "count[5000]" (.beyondPadding 5000 0))), store') ∧
      store.get? .outputs "count" = some (.int 5) ∧
      store'.get? .outputs "count" = some (.array []) ∧ ¬ store.Keeps store' := by
  intro store store'
  have hold : store.get? .outputs "count" = some (.int 5) := by decide +kernel
  have hnew : store'.get? .outputs "count" = some (.array []) := by decide +kernel
  refine ⟨rfl, hold, hnew, fun hk => ?_⟩
  -- The number would have to be there still, but a list is.
  have hsurvives := hk .outputs (Path.parse "count") (.int 5) hold
  rw [← get?_eq_read?, hnew] at hsurvives
  cases hsurvives

end Playbook.Store
