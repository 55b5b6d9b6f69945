import Playbook.Call.Binder
import Playbook.Proofs.Outcome

/-!
# Arguments input by input

Only the last input can be taken for transaction options, so that what the inputs before it
contribute depends neither on their places nor on how many arguments stand before them. A keyed
object that lacks a parameter contributes nothing, unless it is taken for options.
-/

namespace Playbook.Binder

variable {coercer : Coercer} {signature : Signature} {fields : Fields Value} {parameter : Parameter}

/-! ## The test for transaction options -/

theorem isCallOptions_of_not_last {input : Value} {index inputCount produced parameterCount : Nat}
    (h : index + 1 ≠ inputCount) :
    isCallOptions input index inputCount produced parameterCount = false := by
  simp [isCallOptions, h]

theorem isCallOptions_object {index inputCount produced parameterCount : Nat} :
    isCallOptions (.object fields) index inputCount produced parameterCount = true ↔
      index + 1 = inputCount ∧ parameterCount ≤ produced + index ∧
        ∀ name ∈ Fields.names fields, name ∈ optionKeys := by
  simp [isCallOptions, and_assoc]

/-! ## One keyed object -/

/-- A keyed object has a parameter under none of its names. -/
def Lacks (fields : Fields Value) (parameter : Parameter) : Prop :=
  ∀ name ∈ candidates parameter.name, name ∉ Fields.names fields

theorem firstOf?_of_lacks (h : Lacks fields parameter) :
    firstOf? fields (candidates parameter.name) = none := by
  refine List.findSome?_eq_none_iff.2 fun name hname => ?_
  simpa [Fields.mem_names_iff_get?] using h name hname

theorem bindParameters_of_lacks {parameters : List Parameter} (hp : parameter ∈ parameters)
    (h : Lacks fields parameter) :
    ∃ e, bindParameters coercer signature fields parameters = .error e := by
  induction parameters with
  | nil => cases hp
  | cons first rest ih =>
    simp only [bindParameters, Outcome.bind_eq_error, Outcome.map_eq_error]
    cases hfirst : bindParameter coercer signature fields first with
    | error e => exact ⟨e, .inl rfl⟩
    | ok v =>
      cases hp with
      | head => simp [bindParameter, firstOf?_of_lacks h] at hfirst
      | tail _ hrest =>
        obtain ⟨e, he⟩ := ih hrest
        exact ⟨e, .inr ⟨v, rfl, he⟩⟩

theorem piece_of_lacks {isOptions : Bool} {arguments : List Value}
    (hp : parameter ∈ signature.inputs) (h : Lacks fields parameter) :
    piece coercer (some signature) isOptions (.object fields) = .ok arguments ↔
      isOptions = true ∧ [.object fields] = arguments := by
  have hfails : ∃ e, bindParameters coercer signature fields signature.inputs = .error e :=
    bindParameters_of_lacks hp h
  obtain ⟨e, he⟩ := hfails
  cases isOptions <;> simp [piece, he]

theorem length_of_bindParameters {parameters : List Parameter} {arguments : List Value}
    (h : bindParameters coercer signature fields parameters = .ok arguments) :
    arguments.length = parameters.length := by
  induction parameters generalizing arguments with
  | nil => simp [← Except.ok.inj h]
  | cons first rest ih =>
    obtain ⟨v, _, h⟩ := Outcome.bind_eq_ok.1 h
    obtain ⟨later, hlater, rfl⟩ := Outcome.map_eq_ok.1 h
    simp [ih hlater]

/-! ## The inputs before the last one -/

/-- The arguments of inputs of which none is taken for options. -/
def bindEach (coercer : Coercer) (signature : Signature) : List Value → Except Error (List Value)
  | [] => .ok []
  | input :: rest =>
    (piece coercer (some signature) false input).bind fun arguments =>
      (bindEach coercer signature rest).map (arguments ++ ·)

theorem sortFrom_append {parameterCount inputCount : Nat} (inputs rest : List Value)
    (index produced : Nat) (h : index + inputs.length < inputCount) :
    sortFrom coercer (some signature) parameterCount inputCount index produced (inputs ++ rest) =
      (bindEach coercer signature inputs).bind fun arguments =>
        (sortFrom coercer (some signature) parameterCount inputCount (index + inputs.length)
          (produced + arguments.length) rest).map (arguments ++ ·) := by
  induction inputs generalizing index produced with
  | nil =>
    simp only [List.nil_append, bindEach, Except.bind, List.length_nil, Nat.add_zero]
    cases sortFrom coercer (some signature) parameterCount inputCount index produced rest <;> rfl
  | cons input inputs ih =>
    simp only [List.length_cons] at h
    -- No input of these is the last one, so that none is taken for options.
    have hfirst : index + 1 ≠ inputCount := by omega
    have hrest (produced : Nat) := ih (index + 1) produced (by omega)
    simp only [List.cons_append, sortFrom, bindEach, isCallOptions_of_not_last hfirst, hrest,
      Outcome.bind_assoc, Outcome.bind_map, Outcome.map_bind, Outcome.map_map]
    simp [Nat.add_assoc, Nat.add_comm 1]

theorem length_of_piece {input : Value} {arguments : List Value}
    (h : piece coercer (some signature) false input = .ok arguments) :
    arguments.length = if input.isObject then signature.inputs.length else 1 := by
  cases input with
  | object fields =>
    simp only [piece, Bool.false_eq_true, if_false] at h
    simp [Value.isObject, length_of_bindParameters h]
  | _ => simp [← Except.ok.inj h, Value.isObject]

/-- A keyed object has an argument for every parameter. -/
theorem parameters_le_of_object {inputs arguments : List Value}
    (h : bindEach coercer signature inputs = .ok arguments)
    (hkeyed : ∃ input ∈ inputs, input.isObject = true) :
    signature.inputs.length ≤ arguments.length := by
  induction inputs generalizing arguments with
  | nil => simp at hkeyed
  | cons input rest ih =>
    obtain ⟨first, hfirst, h⟩ := Outcome.bind_eq_ok.1 h
    obtain ⟨later, hlater, rfl⟩ := Outcome.map_eq_ok.1 h
    have hlength := length_of_piece hfirst
    simp only [List.mem_cons, exists_eq_or_imp] at hkeyed
    rw [List.length_append]
    cases hkeyed with
    | inl hobject =>
      -- The object contributes an argument for each parameter itself.
      rw [if_pos hobject] at hlength
      omega
    | inr hrest =>
      have := ih hlater hrest
      omega

/-- Inputs without a keyed object are as many as their arguments. -/
theorem length_of_bindEach {inputs arguments : List Value}
    (h : bindEach coercer signature inputs = .ok arguments)
    (hplain : ∀ input ∈ inputs, input.isObject = false) : arguments.length = inputs.length := by
  induction inputs generalizing arguments with
  | nil => simp [← Except.ok.inj h]
  | cons input rest ih =>
    obtain ⟨first, hfirst, h⟩ := Outcome.bind_eq_ok.1 h
    obtain ⟨later, hlater, rfl⟩ := Outcome.map_eq_ok.1 h
    obtain ⟨hinput, hrest⟩ := List.forall_mem_cons.1 hplain
    simp [length_of_piece hfirst, hinput, ih hlater hrest, Nat.add_comm]

/-- As the test for options counts them, inputs cover the parameters if a keyed object is among
them, or else if they are at least half as many: an input counts by what it contributes, and once
more by its place. -/
theorem covers_iff {inputs arguments : List Value}
    (h : bindEach coercer signature inputs = .ok arguments) :
    signature.inputs.length ≤ arguments.length + inputs.length ↔
      (∃ input ∈ inputs, input.isObject = true) ∨
        signature.inputs.length ≤ 2 * inputs.length := by
  by_cases hkeyed : ∃ input ∈ inputs, input.isObject = true
  · have hcovered := parameters_le_of_object h hkeyed
    simp only [hkeyed, true_or, iff_true]
    omega
  -- Each input contributes one argument, and is counted once for it and once for its place.
  · have hplain := length_of_bindEach h (by simpa using hkeyed)
    simp [hkeyed, hplain, Nat.two_mul]

/-! ## An object that lacks a parameter -/

/-- A keyed object among the inputs passes for transaction options: it is the last input, has no
other keys, and what stands before it covers the parameters as far as the test can tell. -/
structure PassesForOptions (signature : Signature) (before : List Value) (fields : Fields Value)
    (after : List Value) : Prop where
  last : after = []
  keys : ∀ name ∈ Fields.names fields, name ∈ optionKeys
  covered : (∃ input ∈ before, input.isObject = true) ∨
    signature.inputs.length ≤ 2 * before.length

/-- Inputs with a keyed object that lacks a parameter have arguments exactly when those before it
have and it passes for options. -/
theorem sort_succeeds_iff {before after : List Value} (hp : parameter ∈ signature.inputs)
    (h : Lacks fields parameter) :
    (∃ arguments, sort coercer (some signature) (before ++ .object fields :: after) =
        .ok arguments) ↔
      (∃ arguments, bindEach coercer signature before = .ok arguments) ∧
        PassesForOptions signature before fields after := by
  have hsort : sort coercer (some signature) (before ++ .object fields :: after) = _ :=
    sortFrom_append before (.object fields :: after) 0 0 (by simp)
  simp only [hsort, sortFrom, Nat.zero_add, Outcome.bind_eq_ok, Outcome.map_eq_ok,
    piece_of_lacks hp h, isCallOptions_object]
  constructor
  · rintro ⟨_, early, hearly, _, ⟨_, ⟨⟨hlast, hcount, hkeys⟩, _⟩, _⟩, _⟩
    refine ⟨⟨early, hearly⟩, ?_, hkeys, (covers_iff hearly).1 hcount⟩
    simpa using hlast
  -- The object is the only argument of its own and ends the list.
  · rintro ⟨⟨early, hearly⟩, rfl, hkeys, hcovered⟩
    have hcount := (covers_iff hearly).2 hcovered
    exact ⟨_, early, hearly, _, ⟨_, ⟨⟨by simp, hcount, hkeys⟩, rfl⟩, [], rfl, rfl⟩, rfl⟩

end Playbook.Binder
