import Playbook.Proofs.Call.Sort

/-!
# The place of transaction options

Transaction options follow the arguments of the inputs before them. The test that lets them through
counts an input without names once for the argument that it gives and once more for its place. The
main statement says when the options come after every declared parameter nevertheless.
-/

namespace Playbook.Binder

variable {coercer : Coercer} {signature : Signature} {before arguments : List Value} {last : Value}

theorem piece_of_options : piece coercer (some signature) true last = .ok [last] := by
  cases last <;> rfl

theorem sortFrom_singleton {parameterCount inputCount index produced : Nat} :
    sortFrom coercer (some signature) parameterCount inputCount index produced [last] =
      piece coercer (some signature)
        (isCallOptions last index inputCount produced parameterCount) last := by
  rw [sortFrom]
  cases piece coercer (some signature)
    (isCallOptions last index inputCount produced parameterCount) last with
  | error e => rfl
  | ok arguments => simp [sortFrom, Except.bind, Except.map]

/-- The arguments of inputs are those of the inputs before the last one, and then its own. -/
theorem sort_concat_eq_ok
    (h : sort coercer (some signature) (before ++ [last]) = .ok arguments) :
    ∃ early own, bindEach coercer signature before = .ok early ∧
      piece coercer (some signature) (isCallOptions last before.length (before.length + 1)
        early.length signature.inputs.length) last = .ok own ∧ early ++ own = arguments := by
  have hsort : sort coercer (some signature) (before ++ [last]) = _ :=
    sortFrom_append before [last] 0 0 (by simp)
  rw [hsort] at h
  obtain ⟨early, hearly, h⟩ := Outcome.bind_eq_ok.1 h
  obtain ⟨own, hown, happend⟩ := Outcome.map_eq_ok.1 h
  rw [sortFrom_singleton, List.length_append, Nat.zero_add, Nat.zero_add] at hown
  exact ⟨early, own, hearly, hown, happend⟩

/-- When inputs have arguments and the last of them is passed on as transaction options, the options
stand behind an argument for every parameter exactly if a keyed object is among the inputs before
them or these are as many as the parameters. -/
theorem options_follow_parameters_iff
    (h : sort coercer (some signature) (before ++ [last]) = .ok arguments) :
    ∃ early, bindEach coercer signature before = .ok early ∧
      (isCallOptions last before.length (before.length + 1) early.length
          signature.inputs.length = true →
        arguments = early ++ [last] ∧
          (signature.inputs.length ≤ early.length ↔
            (∃ input ∈ before, input.isObject = true) ∨
              signature.inputs.length ≤ before.length)) := by
  obtain ⟨early, own, hearly, hown, rfl⟩ := sort_concat_eq_ok h
  refine ⟨early, hearly, ?_⟩
  intro hoptions
  rw [hoptions, piece_of_options] at hown
  obtain rfl := Except.ok.inj hown
  refine ⟨rfl, ?_⟩
  -- A keyed object covers all parameters, and without one each input covers one.
  by_cases hkeyed : ∃ input ∈ before, input.isObject = true
  · have hcovered := parameters_le_of_object hearly hkeyed
    simp only [hkeyed, hcovered, true_or]
  · have hlength := length_of_bindEach hearly (by simpa using hkeyed)
    simp only [hkeyed, hlength, false_or]

/-- An approval, with parameters for who may spend and how much. -/
def approval : Signature :=
  ⟨.function, some "approve", [⟨"_spender", "address"⟩, ⟨"_value", "uint256"⟩], []⟩

/-- The sender of a transaction, as options. -/
def sender : Value :=
  .object [("from", .string "0xowner")]

/-- Both parameters are given by a keyed object, and the options come after them. -/
theorem options_follow_parameters_approval :
    let keyed : Value := .object [("value", .string "7"), ("spender", .string "0xabc")]
    sort .default (some approval) ([keyed] ++ [sender]) =
        .ok [.string "0xabc", .bigInt 7, sender] ∧
      approval.inputs.length ≤ [Value.string "0xabc", .bigInt 7].length := by
  intro keyed
  have hsort : sort .default (some approval) ([keyed] ++ [sender]) =
      .ok [.string "0xabc", .bigInt 7, sender] :=
    Outcome.toOption_eq_some.1 (by decide +kernel)
  obtain ⟨early, hearly, hoptions⟩ := options_follow_parameters_iff hsort
  have hbound : bindEach .default approval [keyed] = .ok [.string "0xabc", .bigInt 7] :=
    Outcome.toOption_eq_some.1 (by decide +kernel)
  obtain rfl := Except.ok.inj (hbound.symm.trans hearly)
  have hobject : ∃ input ∈ [keyed], input.isObject = true := ⟨keyed, by simp, rfl⟩
  exact ⟨hsort, (hoptions (by decide)).2.2 (.inl hobject)⟩

/-- One argument stands before the options, and they take the place of the value. -/
theorem options_take_place_of_value :
    let inputs := [.string "0xabc", sender]
    sort .default (some approval) inputs = .ok [.string "0xabc", sender] ∧
      bindEach .default approval [.string "0xabc"] = .ok [.string "0xabc"] ∧
      isCallOptions sender 1 2 1 approval.inputs.length = true ∧
      ¬ approval.inputs.length ≤ [Value.string "0xabc"].length :=
  ⟨Outcome.toOption_eq_some.1 (by decide +kernel), rfl, by decide, by decide⟩

end Playbook.Binder
