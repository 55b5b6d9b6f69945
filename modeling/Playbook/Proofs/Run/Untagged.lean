import Playbook.Proofs.Instruction.Expansion
import Playbook.Proofs.Output.Writes
import Playbook.Proofs.Run.Step

/-!
# Failures without a tag

Nothing that an instruction or a loop does fails with the tag of a step. So the one tag that a
failure gets on its way out of a run is that of the step it came from.
-/

namespace Playbook

/-- The error does not say which step it came from. -/
def Error.Untagged (e : Error) : Prop :=
  e.stepSummary? = none

theorem Error.Untagged.withinStep {e : Error} (h : e.Untagged) (summary : String) :
    e.withinStep summary = .step summary e := by
  cases e with
  | step inner cause => cases h
  | _ => rfl

/-! ## Writes -/

namespace Store

theorem untagged_set {space : Namespace} {path : String} {v : Value} {store : Store} {e : Error}
    (h : (set space path v store).1 = .error e) : e.Untagged := by
  obtain ⟨fault, rfl⟩ := unresolved_of_set_error h
  rfl

end Store

theorem OutputSpec.untagged_store {spec : OutputSpec} {result : Value} {store : Store} {e : Error}
    (h : (spec.store result store).1 = .error e) : e.Untagged := by
  rcases error_of_store h with ⟨fault, rfl⟩ | ⟨_, _, fault, _, rfl⟩ <;> rfl

/-! ## Binding -/

theorem Coercer.untagged_coerce {coercer : Coercer} {declared : String} {v : Value} {e : Error}
    (h : coercer.coerce declared v = .error e) : e.Untagged := by
  unfold coerce at h
  split at h
  · obtain rfl := Except.error.inj h
    rfl
  · split at h
    · cases h
    · obtain ⟨message, _, rfl⟩ := Outcome.mapError_eq_error.1 h
      rfl

namespace Binder

variable {coercer : Coercer}

theorem untagged_bindParameters {signature : Signature} {fields : Fields Value}
    {parameters : List Parameter} {e : Error}
    (h : bindParameters coercer signature fields parameters = .error e) : e.Untagged := by
  induction parameters with
  | nil => cases h
  | cons parameter rest ih =>
    rcases Outcome.bind_eq_error.1 h with hbind | ⟨v, _, hrest⟩
    · unfold bindParameter at hbind
      split at hbind
      · exact Coercer.untagged_coerce hbind
      · obtain rfl := Except.error.inj hbind
        rfl
    · exact ih (Outcome.map_eq_error.1 hrest)

theorem untagged_piece {signature : Option Signature} {isOptions : Bool} {input : Value}
    {e : Error} (h : piece coercer signature isOptions input = .error e) : e.Untagged := by
  unfold piece at h
  split at h
  · split at h
    · cases h
    · exact untagged_bindParameters h
  · cases h

theorem untagged_sortFrom {signature : Option Signature} {parameterCount inputCount : Nat}
    {inputs : List Value} {index produced : Nat} {e : Error}
    (h : sortFrom coercer signature parameterCount inputCount index produced inputs = .error e) :
    e.Untagged := by
  induction inputs generalizing index produced with
  | nil => cases h
  | cons input rest ih =>
    rcases Outcome.bind_eq_error.1 h with hpiece | ⟨arguments, _, hrest⟩
    · exact untagged_piece hpiece
    · exact ih (Outcome.map_eq_error.1 hrest)

theorem untagged_sort {signature : Option Signature} {inputs : List Value} {e : Error}
    (h : sort coercer signature inputs = .error e) : e.Untagged :=
  untagged_sortFrom h

end Binder

/-! ## Instructions and loops -/

theorem Instruction.untagged_address {i : Instruction} {store : Store} {e : Error}
    (h : i.address store = .error e) : e.Untagged := by
  unfold address at h
  split at h
  · cases h
  · split at h
    · cases h
    · split at h
      · cases h
      · obtain rfl := Except.error.inj h
        rfl

namespace Loop

theorem untagged_items {l : Loop} {store : Store} {e : Error} (h : l.items store = .error e) :
    e.Untagged := by
  unfold items at h
  split at h
  · cases h
  · split at h
    · cases h
    all_goals
      obtain rfl := Except.error.inj h
      rfl

theorem untagged_expand {l : Loop} {store : Store} {e : Error} (h : l.expand store = .error e) :
    e.Untagged := by
  rcases expand_eq_error_iff.1 h with hitems | ⟨_, _, _, _, rfl⟩
  · exact untagged_items hitems
  · rfl

end Loop

namespace Runner

variable {σ : Type} {r : Runner σ}

theorem untagged_register {contract : String} {store : Store} {e : Error}
    (h : (register contract store).1 = .error e) : e.Untagged := by
  unfold register at h
  split at h
  · cases h
  · exact Store.untagged_set h

theorem untagged_signatureOf {artifacts : ArtifactSource} {i : Instruction} {e : Error}
    (h : signatureOf artifacts i = .error e) : e.Untagged := by
  unfold signatureOf at h
  split at h
  · cases h
  · split at h
    · obtain rfl := Except.error.inj h
      rfl
    · split at h
      · cases h
      · obtain rfl := Except.error.inj h
        rfl

theorem untagged_callOf {i : Instruction} {store : Store} {e : Error}
    (h : r.callOf i store = .error e) : e.Untagged := by
  rcases Outcome.bind_eq_error.1 h with hinstance | ⟨address, _, h⟩
  · unfold instanceOf at hinstance
    split at hinstance
    · exact Instruction.untagged_address hinstance
    · cases hinstance
  rcases Outcome.bind_eq_error.1 h with hsignature | ⟨signature, _, h⟩
  · exact untagged_signatureOf hsignature
  -- The last part makes the call and cannot fail.
  rcases Outcome.bind_eq_error.1 h with hsort | ⟨arguments, _, h⟩
  · exact Binder.untagged_sort hsort
  · cases h

/-- However an instruction fails, its failure has no tag until the instruction puts its own. -/
theorem untagged_perform {i : Instruction} {w w' : World σ} {e : Error}
    (h : r.perform i w = (.error e, w')) : e.Untagged := by
  -- Each way to end with a failure has its error from one of the four parts.
  have hends := perform_ends r i w
  rw [h] at hends
  generalize ho : Except.error e = outcome at hends
  cases hends with
  | unregistered hregister =>
    obtain rfl := Except.error.inj ho
    exact untagged_register (congrArg Prod.fst hregister)
  | unready _ hcall =>
    obtain rfl := Except.error.inj ho
    exact untagged_callOf hcall
  | refused _ _ _ =>
    obtain rfl := Except.error.inj ho
    rfl
  | @answered _ _ stored _ _ _ _ _ _ hstore =>
    cases stored with
    | ok u => cases ho
    | error fault =>
      obtain rfl := Except.error.inj ho
      exact OutputSpec.untagged_store (congrArg Prod.fst hstore)

end Runner

end Playbook
