import Playbook.Call.DryRun
import Playbook.Proofs.Call.Sort
import Playbook.Proofs.Run.Sequence
import Playbook.Proofs.Run.WellFormed

/-!
# Unresolved named arguments

A field of a keyed input that refers to nothing is dropped, and then its parameter is missing. The
step fails before it makes its call, unless the fields that are left pass for transaction options.
-/

namespace Playbook

/-! ## A keyed input once it is resolved -/

namespace Instruction

theorem resolvedFields_cons (store : Store) (name : String) (v : Value) (rest : Fields Value) :
    resolvedFields store ((name, v) :: rest) =
      ((v.resolve? store).map fun found => (name, found)).toList ++ resolvedFields store rest := by
  cases hv : v.resolve? store <;> simp [resolvedFields, hv]

theorem get?_resolvedFields {store : Store} {fields : Fields Value} (hd : Fields.Distinct fields)
    (name : String) :
    Fields.get? (resolvedFields store fields) name =
      (Fields.get? fields name).bind fun v => v.resolve? store := by
  induction fields with
  | nil => rfl
  | cons entry rest ih =>
    obtain ⟨first, v⟩ := entry
    obtain ⟨hfirst, hrest⟩ := List.nodup_cons.1 hd
    by_cases hname : first = name
    · subst hname
      cases hv : v.resolve? store with
      | some found => simp [resolvedFields_cons, hv, Fields.get?]
      | none =>
        -- The field was dropped, and no other has its name.
        have hnone := mt Fields.mem_names_iff_get?.2 hfirst
        rw [Option.not_isSome_iff_eq_none] at hnone
        simp [resolvedFields_cons, hv, Fields.get?, ih hrest, hnone]
    · cases hv : v.resolve? store <;>
        simp [resolvedFields_cons, hv, Fields.get?, hname, ih hrest]

/-- A keyed input has a parameter under one of its names only, and what it has there is a reference
to nothing. -/
structure Unresolved (store : Store) (fields : Fields Value) (parameter : Parameter)
    (key : String) : Prop where
  candidate : key ∈ Binder.candidates parameter.name
  nothing : ∃ v, Fields.get? fields key = some v ∧ v.resolve? store = none
  alone : ∀ other ∈ Binder.candidates parameter.name, other ≠ key → other ∉ Fields.names fields

theorem Unresolved.lacks {store : Store} {fields : Fields Value} {parameter : Parameter}
    {key : String} (h : Unresolved store fields parameter key) (hd : Fields.Distinct fields) :
    Binder.Lacks (resolvedFields store fields) parameter := by
  intro name hname
  rw [Fields.mem_names_iff_get?, get?_resolvedFields hd]
  by_cases hkey : name = key
  · obtain ⟨v, hv, hnone⟩ := h.nothing
    simp [hkey, hv, hnone]
  · have hother := h.alone name hname hkey
    rw [Fields.mem_names_iff_get?] at hother
    simp_all

end Instruction

/-! ## Steps that fail before their call -/

namespace Runner

variable {σ : Type} {r : Runner σ} {i : Instruction} {w : World σ}

/-- The state that the inputs of an instruction are resolved in: its contract is registered. -/
def registered (i : Instruction) (store : Store) : Store :=
  (register i.contract store).2

/-- The step fails, and nothing has changed but for the registered contract: no call is made. -/
def FailsUncalled (r : Runner σ) (i : Instruction) (w : World σ) : Prop :=
  (∃ e, (r.execute i w).1 = .error e) ∧
    (r.execute i w).2 = { w with store := registered i w.store }

theorem failsUncalled_iff : r.FailsUncalled i w ↔
    ¬ ((register i.contract w.store).1 = .ok () ∧
      ∃ call, r.callOf i (registered i w.store) = .ok call) := by
  rw [FailsUncalled, execute_eq, registered]
  have hends := perform_ends r i w
  generalize (r.perform i w).1 = outcome at hends
  generalize (r.perform i w).2 = w' at hends
  cases hends with
  | unregistered hregister => simp [hregister, Outcome.mapError_eq_error]
  | unready hregister hcall => simp [hregister, hcall, Outcome.mapError_eq_error]
  | refused hregister hcall => simp [hregister, hcall]
  | answered hregister hcall => simp [hregister, hcall]

theorem exists_callOf_iff {store : Store} {signature : Option Signature}
    (hs : signatureOf r.artifacts i = .ok signature) :
    (∃ call, r.callOf i store = .ok call) ↔
      (∃ address, instanceOf i store = .ok address) ∧
        ∃ arguments, Binder.sort r.coercer signature (i.resolvedInputs store) = .ok arguments := by
  constructor
  · rintro ⟨call, hcall⟩
    obtain ⟨address, found, arguments, ha, hf, hb, _⟩ := callOf_eq_ok hcall
    obtain rfl : signature = found := Except.ok.inj (hs.symm.trans hf)
    exact ⟨⟨address, ha⟩, arguments, hb⟩
  · rintro ⟨⟨address, ha⟩, arguments, hb⟩
    refine ⟨⟨i.contract, address, i.run, arguments, i.kind⟩, ?_⟩
    refine Outcome.bind_eq_ok.2 ⟨address, ha, ?_⟩
    exact Outcome.bind_eq_ok.2 ⟨signature, hs, Outcome.bind_eq_ok.2 ⟨arguments, hb, rfl⟩⟩

/-! ## Steps with an unresolved named argument -/

/-- What is left of a keyed input without its field is passed on as transaction options: whatever
else the call needs is there, and the fields that are left pass for options. -/
structure Overlooks (r : Runner σ) (i : Instruction) (store : Store) (signature : Signature)
    (before : List Value) (fields : Fields Value) (after : List Value) : Prop where
  registers : (register i.contract store).1 = .ok ()
  located : ∃ address, instanceOf i (registered i store) = .ok address
  bound : ∃ arguments, Binder.bindEach r.coercer signature
    (before.map (Instruction.resolvedInput (registered i store))) = .ok arguments
  passes : Binder.PassesForOptions signature
    (before.map (Instruction.resolvedInput (registered i store)))
    (Instruction.resolvedFields (registered i store) fields)
    (after.map (Instruction.resolvedInput (registered i store)))

/-- An instruction with a keyed input whose field for a declared parameter refers to nothing fails
before its call, exactly when what is left of that input is not passed on as options. The reference
is followed, as all of them are, once the contract is registered. -/
theorem unresolved_argument_reported_iff {signature : Signature} {parameter : Parameter}
    {key : String} {before after : List Value} {fields : Fields Value}
    (hsignature : signatureOf r.artifacts i = .ok (some signature))
    (hparameter : parameter ∈ signature.inputs)
    (hinputs : i.inputs = before ++ .object fields :: after) (hd : Fields.Distinct fields)
    (hu : Instruction.Unresolved (registered i w.store) fields parameter key) :
    r.FailsUncalled i w ↔ ¬ r.Overlooks i w.store signature before fields after := by
  have hresolved : i.resolvedInputs (registered i w.store) =
      before.map (Instruction.resolvedInput (registered i w.store)) ++
        .object (Instruction.resolvedFields (registered i w.store) fields) ::
          after.map (Instruction.resolvedInput (registered i w.store)) := by
    simp [Instruction.resolvedInputs, hinputs, Instruction.resolvedInput]
  -- There is a call exactly if the inputs are bound, and only the options are in question there.
  rw [failsUncalled_iff, exists_callOf_iff hsignature, hresolved,
    Binder.sort_succeeds_iff hparameter (hu.lacks hd)]
  refine not_congr ⟨?_, ?_⟩
  · rintro ⟨hregisters, hlocated, hbound, hpasses⟩
    exact ⟨hregisters, hlocated, hbound, hpasses⟩
  · rintro ⟨hregisters, hlocated, hbound, hpasses⟩
    exact ⟨hregisters, hlocated, hbound, hpasses⟩

def transfer : Signature :=
  ⟨.function, some "transfer", [⟨"_to", "address"⟩, ⟨"_amount", "uint256"⟩], []⟩

def tokenRunner : Runner Nat :=
  ⟨DryRun.invoker, (ArtifactSet.ofList [⟨"Token", [transfer]⟩]).source, .default⟩

/-- A transfer to a receiver, of an amount that is nowhere in the state. -/
def lostAmount : Fields Value :=
  [("to", .string "0xabc"), ("amount", .string "$outputs.missing")]

def transferring (inputs : List Value) : Instruction :=
  ⟨none, "Token", some "0x00000000000000000000000000000000000000aa", "transfer", inputs, .empty,
    .onInstance⟩

theorem signatureOf_transferring (inputs : List Value) :
    signatureOf tokenRunner.artifacts (transferring inputs) = .ok (some transfer) := rfl

theorem lostAmount_unresolved (inputs : List Value) :
    Instruction.Unresolved (registered (transferring inputs) .empty) lostAmount
      ⟨"_amount", "uint256"⟩ "amount" where
  candidate := by decide
  nothing := by
    refine ⟨.string "$outputs.missing", rfl, ?_⟩
    show (Value.string "$outputs.missing").resolve? (register "Token" .empty).2 = none
    decide +kernel
  alone := by decide

/-- The object is the only input, and the transfer is not made. -/
theorem unresolved_argument_reported_amount :
    tokenRunner.FailsUncalled (transferring [.object lostAmount]) ⟨.empty, 0, []⟩ := by
  have hinputs : (transferring [.object lostAmount]).inputs = [] ++ .object lostAmount :: [] := rfl
  have hunresolved := lostAmount_unresolved [.object lostAmount]
  refine (unresolved_argument_reported_iff (signatureOf_transferring _) (by decide) hinputs
    (by decide) hunresolved).2 ?_
  intro h
  simpa [transfer] using h.passes.covered

/-- A receiver stands before the object and counts for both parameters: the transfer is made, and in
the place of its amount are the options that are left of the object. -/
theorem unresolved_argument_called_amount :
    let i := transferring [.string "0xabc", .object lostAmount]
    let w : World Nat := ⟨.empty, 0, []⟩
    signatureOf tokenRunner.artifacts i = .ok (some transfer) ∧
      ⟨"_amount", "uint256"⟩ ∈ transfer.inputs ∧ Fields.Distinct lostAmount ∧
      "amount" ∉ Binder.optionKeys ∧
      Instruction.Unresolved (registered i w.store) lostAmount ⟨"_amount", "uint256"⟩ "amount" ∧
      (∃ result, (tokenRunner.execute i w).1 = .ok result) ∧
      (tokenRunner.execute i w).2.calls =
        [⟨"Token", some "0x00000000000000000000000000000000000000aa", "transfer",
          [.string "0xabc", .object [("to", .string "0xabc")]], .onInstance⟩] := by
  intro i w
  have hsome : (tokenRunner.execute i w).1.toOption.isSome = true := by decide +kernel
  obtain ⟨result, hresult⟩ := Option.isSome_iff_exists.1 hsome
  exact ⟨signatureOf_transferring _, by decide, by decide, by decide, lostAmount_unresolved _,
    ⟨result, Outcome.toOption_eq_some.1 hresult⟩, by decide +kernel⟩

end Runner

end Playbook
