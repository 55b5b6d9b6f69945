import Playbook.Proofs.State.Reachable

/-!
# Failures before the answer

An instruction that fails before its call is answered leaves the state as it was, but for the
registration of its contract, and the invoker is called only if it is the one that refuses. A loop
that does not expand changes nothing at all.
-/

namespace Playbook

namespace Runner

variable {σ : Type}

/-- The instruction fails because the answer to its call cannot be stored as its outputs say. -/
def FailsToStore (r : Runner σ) (i : Instruction) (w : World σ) (e : Error) (w' : World σ) : Prop :=
  ∃ store call answer cause,
    register i.contract w.store = (.ok (), store) ∧ r.callOf i store = .ok call ∧
    r.invoker call w.chain = (.ok answer, w'.chain) ∧
    i.outputs.store answer store = (.error cause, w'.store) ∧ e = cause.withinStep i.summary

/-- The second state is the first one, but for an unbound handle of the contract under its name
where nothing was stored. -/
def OnlyRegisters (contract : String) (store later : Store) : Prop :=
  ((store.get? .contracts contract).isSome = true → later = store) ∧
  (store.get? .contracts contract = none → ∃ fields, store.root .contracts = .object fields ∧
    later = store.setRoot .contracts
      (.object (fields ++ [(contract, .handle ⟨contract, none⟩)])))

theorem onlyRegisters_of_register {contract : String} {store later : Store}
    (hs : store.WellFormed) (hp : PlainKey contract)
    (h : register contract store = (.ok (), later)) : OnlyRegisters contract store later := by
  constructor
  · intro hsome
    rw [register_of_some hsome] at h
    exact (Prod.mk.inj h).2.symm
  · intro hnone
    obtain ⟨fields, hroot, hregister⟩ := register_of_none hs hp hnone
    rw [hregister] at h
    exact ⟨fields, hroot, (Prod.mk.inj h).2.symm⟩

/-- An instruction on a contract with a plain name that fails, but not because its answer cannot be
stored, changes nothing in the state but to register the contract; and no call is made, unless the
invoker refuses it. A loop in which some item makes no instruction with some template changes
nothing and makes no call, nor does any loop that does not expand. -/
theorem failure_atomic (r : Runner σ) (w : World σ) :
    (∀ i e w', Store.Reachable w.store → PlainKey i.contract →
      r.execute i w = (.error e, w') → ¬ r.FailsToStore i w e w' →
      OnlyRegisters i.contract w.store w'.store ∧
        ((w'.calls = w.calls ∧ w'.chain = w.chain) ∨
          ∃ call source, r.invoker call w.chain = (.error source, w'.chain) ∧
            w'.calls = w.calls ++ [call] ∧
            e = .step i.summary (.invocation call.contract call.method source))) ∧
    (∀ l list item template fault, l.items w.store = .ok list → item ∈ list →
      template ∈ l.templates → Instruction.build (Item.substitute item template) = .error fault →
      ∃ e, r.runEntry (.loop l) w = (.error e, w)) ∧
    ∀ l e, l.expand w.store = .error e →
      r.runEntry (.loop l) w = (.error (e.withinStep l.summary), w) := by
  refine ⟨fun i e w' hw hp h hstore => ?_, fun l list item template fault hl hi ht hf => ?_,
    fun l e h => runEntry_of_expand_error h⟩
  · have hs := hw.wellFormed
    obtain ⟨cause, hperform, he⟩ := execute_eq_error h
    have hends := perform_ends r i w
    rw [hperform] at hends
    generalize ho : Except.error cause = outcome at hends
    cases hends with
    | unregistered hregister =>
      -- A contract with a plain name is always registered.
      have hok := (register_plain hs hp).1
      rw [hregister] at hok
      cases hok
    | unready hregister hcall =>
      exact ⟨onlyRegisters_of_register hs hp hregister, .inl ⟨rfl, rfl⟩⟩
    | @refused call source store chain hregister hcall hrefusal =>
      obtain rfl := Except.error.inj ho
      exact ⟨onlyRegisters_of_register hs hp hregister, .inr ⟨call, source, hrefusal, rfl, he⟩⟩
    | @answered call answer stored store later chain hregister hcall hanswer hstored =>
      cases stored with
      | ok u => cases ho
      | error fault =>
        obtain rfl : cause = fault := Except.error.inj ho
        -- The call was answered, so that only the storing of the answer is left to fail.
        exact absurd ⟨store, call, answer, cause, hregister, hcall, hanswer, hstored, he⟩ hstore
  · obtain ⟨fault', hexpand⟩ := Loop.expand_eq_error hl hi ht hf
    exact ⟨_, runEntry_of_expand_error hexpand⟩

/-- A locator that leads nowhere fails the call, and a blank contract name fails the loop. -/
theorem failure_atomic_unresolved_locator :
    let r : Runner Nat := ⟨DryRun.invoker, ArtifactSet.empty.source, .default⟩
    let w : World Nat := ⟨.empty, 0, []⟩
    let i : Instruction := ⟨none, "Vault", some "$deployed.vault", "pause", [], .empty, .onInstance⟩
    let template : Value := .object [("contract", .string "$item"), ("run", .string "at")]
    let l : Loop := ⟨none, .items [.string "Lib", .string ""], [template]⟩
    let e : Error := .step "Vault.pause" (.resolution (.locator "$deployed.vault" "Vault.pause"))
    (∃ w', r.execute i w = (.error e, w') ∧ OnlyRegisters "Vault" .empty w'.store ∧
      w'.calls = []) ∧
    ∃ e, r.runEntry (.loop l) w = (.error e, w) := by
  intro r w i template l e
  have herror : Outcome.error? (r.execute i w).1 = some e := by decide +kernel
  have hfails : r.execute i w = (.error e, (r.execute i w).2) := Outcome.eq_error_of_error? herror
  have hplain : PlainKey i.contract := by
    unfold PlainKey
    decide +kernel
  -- No call was answered, for the invoker would have counted it.
  have hchain : (r.execute i w).2.chain = 0 := by decide +kernel
  have hstore : ¬ r.FailsToStore i w e (r.execute i w).2 := by
    rintro ⟨_, call, answer, _, _, _, hanswer, _, _⟩
    have hcount : (1 : Nat) = (r.execute i w).2.chain := (Prod.mk.inj hanswer).2
    rw [hchain] at hcount
    cases hcount
  have hblank : Instruction.build (Item.substitute (.string "") template) =
      .error (.emptyField "contract") := by
    apply Outcome.error?_eq_some.1
    decide +kernel
  have hatomic := failure_atomic r w
  refine ⟨⟨_, hfails, ?_⟩, ?_⟩
  · obtain ⟨honly, hcalls | ⟨_, _, _, _, he⟩⟩ := hatomic.1 i e _ .empty hplain hfails hstore
    · exact ⟨honly, hcalls.1⟩
    · simp [e] at he
  · exact hatomic.2.1 l _ (.string "") template _ rfl (by simp) (by simp [l]) hblank

end Runner

end Playbook
