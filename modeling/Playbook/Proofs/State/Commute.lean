import Playbook.Proofs.Path.Commute
import Playbook.Proofs.State.Set

/-!
# Independent writes

Two writes to one namespace whose paths part at hops that never lead to the same child may come in
either order, if they succeed in both. The main statement: the states that the two orders lead to
are the same but for the order of fields.
-/

namespace Playbook.Store

open Value

/-- The states are the same but for the order of the fields of one object in each namespace. -/
def Reordered (store other : Store) : Prop :=
  ∀ space, Option.Rel Value.Reordered (store.root? space) (other.root? space)

theorem reordered_setRoot (store : Store) (space : Namespace) {root other : Value}
    (h : root.Reordered other) :
    (store.setRoot space root).Reordered (store.setRoot space other) := by
  intro third
  by_cases hne : third = space
  · subst hne
    rw [root?_setRoot_same, root?_setRoot_same]
    exact .some h
  · rw [root?_setRoot_of_ne store root hne, root?_setRoot_of_ne store other hne]
    cases store.root? third with
    | none => exact .none
    | some held => exact .some (.refl held)

/-- Two writes to one namespace, whose paths go on together and then part, commute: where both
succeed in either order, the states that they lead to are the same but for the order of fields. -/
theorem independent_writes_commute {space : Namespace} {p q : String} {v w : Value}
    {store s₁ s₂ s₁₂ s₂₁ : Store} {shared rest rest' : Path} {a b : Segment}
    (hp : Path.parse p = shared ++ a :: rest) (hq : Path.parse q = shared ++ b :: rest')
    (hab : Apart a b) (h₁ : set space p v store = (.ok (), s₁))
    (h₁₂ : set space q w s₁ = (.ok (), s₁₂)) (h₂ : set space q w store = (.ok (), s₂))
    (h₂₁ : set space p v s₂ = (.ok (), s₂₁)) : s₁₂.Reordered s₂₁ := by
  obtain ⟨_, _, root₁, hw₁, rfl⟩ := set_eq_ok h₁
  obtain ⟨_, _, root₂, hw₂, rfl⟩ := set_eq_ok h₂
  obtain ⟨_, _, root₁₂, hw₁₂, rfl⟩ := set_eq_ok h₁₂
  obtain ⟨_, _, root₂₁, hw₂₁, rfl⟩ := set_eq_ok h₂₁
  rw [root_setRoot_same] at hw₁₂ hw₂₁
  rw [hp] at hw₁ hw₂₁
  rw [hq] at hw₂ hw₁₂
  -- Both orders put a root into the same namespace.
  rw [setRoot_setRoot, setRoot_setRoot]
  exact reordered_setRoot store space (write_write_reordered hab shared hw₁ hw₁₂ hw₂ hw₂₁)

/-- Two new fields of a handle change places with the writes that open it, and two items fill up the
list that the first of them puts in place of a number. -/
theorem independent_writes_commute_below_handle :
    let store : Store := { empty with
      deployed := some (.object [("vault", .handle ⟨"Vault", some "0xab"⟩), ("log", .int 5)]) }
    let tx := set .deployed "vault.tx" (.string "0x1")
    let block := set .deployed "vault.block" (.int 7)
    let first := set .deployed "log[0].tx" (.string "0x1")
    let third := set .deployed "log[2]" (.string "0x2")
    (block (tx store).2).2 ≠ (tx (block store).2).2 ∧
      (block (tx store).2).2.Reordered (tx (block store).2).2 ∧
      (third (first store).2).2.Reordered (first (third store).2).2 := by
  intro store tx block first third
  have htx : Path.parse "vault.tx" = [.key "vault"] ++ .key "tx" :: [] := by decide +kernel
  have hblock : Path.parse "vault.block" = [.key "vault"] ++ .key "block" :: [] := by
    decide +kernel
  have hfirst : Path.parse "log[0].tx" = [.key "log"] ++ .index 0 :: [.key "tx"] := by
    decide +kernel
  have hthird : Path.parse "log[2]" = [.key "log"] ++ .index 2 :: [] := by decide +kernel
  have hkeys : Apart (.key "tx") (.key "block") := apart_keys (by decide) (by decide +kernel)
  have hindices : Apart (.index 0) (.index 2) := apart_indices (by decide)
  have h₁ : tx store = (.ok (), (tx store).2) := rfl
  have h₁₂ : block (tx store).2 = (.ok (), (block (tx store).2).2) := rfl
  have h₂ : block store = (.ok (), (block store).2) := rfl
  have h₂₁ : tx (block store).2 = (.ok (), (tx (block store).2).2) := rfl
  have h₃ : first store = (.ok (), (first store).2) := rfl
  have h₃₄ : third (first store).2 = (.ok (), (third (first store).2).2) := rfl
  have h₄ : third store = (.ok (), (third store).2) := rfl
  have h₄₃ : first (third store).2 = (.ok (), (first (third store).2).2) := rfl
  refine ⟨by decide +kernel, ?_, ?_⟩
  · exact independent_writes_commute htx hblock hkeys h₁ h₁₂ h₂ h₂₁
  · exact independent_writes_commute hfirst hthird hindices h₃ h₃₄ h₄ h₄₃

end Playbook.Store
