import Playbook.Proofs.Path.Shape
import Playbook.Proofs.State.Set

/-!
# States that writes lead to

Everything that changes the state is a sequence of writes. What one write preserves, whether it
succeeds or fails, holds after any sequence of them: the roots of the namespaces are well-formed
objects, a namespace that is present stays present, and its names are appended to, never dropped and
never reordered.
-/

namespace Playbook.Store

open Value

/-- The root of every present namespace is a well-formed object. -/
def WellFormed (store : Store) : Prop :=
  ∀ space root, store.root? space = some root → root.isObject = true ∧ root.WellFormed

def keys (store : Store) (space : Namespace) : List String :=
  (store.root space).keys

/-- The second state has every namespace of the first one, with the same names before any others. -/
def Grows (store later : Store) : Prop :=
  ∀ space, ((store.root? space).isSome = true → (later.root? space).isSome = true) ∧
    store.keys space <+: later.keys space

/-- The states that writes of well-formed values lead to, one after another. -/
inductive Writes (start : Store) : Store → Prop where
  | refl : Writes start start
  | set {store : Store} (h : Writes start store) (space : Namespace) (path : String) {v : Value}
      (hv : v.WellFormed) : Writes start (Store.set space path v store).2

theorem Writes.trans {first second third : Store} (h : Writes first second)
    (h' : Writes second third) : Writes first third := by
  induction h' with
  | refl => exact h
  | set _ space path hv ih => exact .set ih space path hv

theorem Grows.refl (store : Store) : store.Grows store :=
  fun _ => ⟨id, List.prefix_rfl⟩

theorem Grows.trans {first second third : Store} (h : first.Grows second)
    (h' : second.Grows third) : first.Grows third := fun space =>
  ⟨fun hp => (h' space).1 ((h space).1 hp), (h space).2.trans (h' space).2⟩

/-! ## One write -/

/-- A write leaves the state as it was when it is refused, and puts another root into its namespace
in every other case. -/
theorem set_state (space : Namespace) (path : String) (v : Value) (store : Store) :
    (Refused path v ∧ (set space path v store).2 = store) ∨
    (¬ Refused path v ∧ (set space path v store).2 =
      store.setRoot space ((store.root space).write (·.merge v) (Path.parse path)).2) := by
  by_cases hr : Refused path v
  · rw [set_of_refused store hr]
    exact .inl ⟨hr, rfl⟩
  · rw [set_of_not_refused hr rfl]
    exact .inr ⟨hr, rfl⟩

theorem WellFormed.root {store : Store} (h : store.WellFormed) (space : Namespace) :
    (store.root space).isObject = true ∧ (store.root space).WellFormed := by
  rw [Store.root]
  cases hr : store.root? space with
  | none => exact ⟨rfl, wellFormed_nil⟩
  | some root => exact h space root hr

theorem wellFormed_setRoot {store : Store} {root : Value} (h : store.WellFormed)
    (space : Namespace) (ho : root.isObject = true) (hr : root.WellFormed) :
    (store.setRoot space root).WellFormed := by
  intro other w hw
  by_cases hne : other = space
  · subst hne
    rw [root?_setRoot_same] at hw
    exact Option.some.inj hw ▸ ⟨ho, hr⟩
  · rw [root?_setRoot_of_ne store root hne] at hw
    exact h other w hw

theorem isObject_of_not_refused {path : String} {v : Value} (hr : ¬ Refused path v)
    (hp : Path.parse path = []) : v.isObject = true := by
  cases hv : v.isObject with
  | false => exact absurd ⟨hp, hv⟩ hr
  | true => rfl

/-- The root that a write which is not refused leaves is an object, if the root before was one. -/
theorem isObject_write {path : String} {v root : Value} (hr : ¬ Refused path v)
    (h : root.isObject = true) : (root.write (·.merge v) (Path.parse path)).2.isObject = true := by
  cases hp : Path.parse path with
  | nil => exact isObject_merge root (isObject_of_not_refused hr hp)
  | cons segment rest => exact isObject_write_cons _ segment rest h

theorem keys_prefix_write {path : String} {v : Value} (root : Value) (hr : ¬ Refused path v) :
    root.keys <+: (root.write (·.merge v) (Path.parse path)).2.keys := by
  cases hp : Path.parse path with
  | nil => exact keys_prefix_merge root (isObject_of_not_refused hr hp)
  | cons segment rest => exact keys_prefix_write_cons _ segment rest root

theorem wellFormed_set {store : Store} {v : Value} (space : Namespace) (path : String)
    (h : store.WellFormed) (hv : v.WellFormed) : (set space path v store).2.WellFormed := by
  rcases set_state space path v store with ⟨_, hs⟩ | ⟨hr, hs⟩
  · rw [hs]
    exact h
  · rw [hs]
    have hroot := h.root space
    -- The slot of the write is filled with a merge of well-formed values.
    have hmerge : ∀ old : Value, old.WellFormed → (old.merge v).WellFormed :=
      fun _ hold => wellFormed_merge hold hv
    exact wellFormed_setRoot h space (isObject_write hr hroot.1)
      (wellFormed_write hmerge (Path.parse path) hroot.2)

theorem grows_setRoot {store : Store} {space : Namespace} {root : Value}
    (h : store.keys space <+: root.keys) : store.Grows (store.setRoot space root) := by
  intro other
  by_cases hne : other = space
  · subst hne
    refine ⟨fun _ => by rw [root?_setRoot_same]; rfl, ?_⟩
    rw [keys, keys, Store.root, Store.root, root?_setRoot_same]
    exact h
  · rw [keys, keys, Store.root, Store.root, root?_setRoot_of_ne store root hne]
    exact ⟨id, List.prefix_rfl⟩

theorem grows_set (space : Namespace) (path : String) (v : Value) (store : Store) :
    store.Grows (set space path v store).2 := by
  rcases set_state space path v store with ⟨_, hs⟩ | ⟨hr, hs⟩
  · rw [hs]
    exact Grows.refl store
  · rw [hs]
    exact grows_setRoot (keys_prefix_write (store.root space) hr)

/-! ## Any number of writes -/

theorem Writes.wellFormed {start store : Store} (h : Writes start store)
    (hs : start.WellFormed) : store.WellFormed := by
  induction h with
  | refl => exact hs
  | set _ space path hv ih => exact wellFormed_set space path ih hv

theorem Writes.grows {start store : Store} (h : Writes start store) : start.Grows store := by
  induction h with
  | refl => exact Grows.refl start
  | set _ space path _ ih => exact ih.trans (grows_set space path _ _)

end Playbook.Store
