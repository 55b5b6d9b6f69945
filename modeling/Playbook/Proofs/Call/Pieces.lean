import Mathlib.Data.List.Forall2
import Playbook.Proofs.Call.Sort

/-!
# Arguments piece by piece

What the arguments of a call consist of: one piece for each input, in the order of the inputs. A
keyed object contributes an argument for each parameter, in the order of the parameters and whatever
the order of its keys; everything else is passed on as it is. The main statement says which
arguments inputs have, and with which error they have none.
-/

namespace Playbook.Binder

/-! ## One parameter -/

/-- A name without the underscores that it begins with. -/
def bareName (name : String) : String :=
  String.ofList (name.toList.dropWhile (· == '_'))

/-- The names under which a parameter may be given: its own and its bare one, unless they are the
same or nothing is left of it. -/
def namesFor (name : String) : List String :=
  name :: if bareName name = "" ∨ bareName name = name then [] else [bareName name]

/-- The field of a keyed object for a parameter: the one under its name or else, unless nothing is
left of that, the one under its bare name. -/
def fieldFor? (fields : Fields Value) (name : String) : Option Value :=
  (fields.get? name).or (if bareName name = "" then none else fields.get? (bareName name))

variable {coercer : Coercer} {fields : Fields Value} {parameter : Parameter} {v : Value} {e : Error}

/-- A keyed object gives an argument for a parameter: its field for it, converted to its type. -/
def Gives (coercer : Coercer) (fields : Fields Value) (parameter : Parameter) (v : Value) : Prop :=
  ∃ given, fieldFor? fields parameter.name = some given ∧
    coercer.coerce parameter.type given = .ok v

/-- A keyed object fails a parameter: it has no field for it, which is reported with the names that
were tried, or its field cannot be converted. -/
def Fails (coercer : Coercer) (signature : Signature) (fields : Fields Value)
    (parameter : Parameter) (e : Error) : Prop :=
  (fieldFor? fields parameter.name = none ∧
    e = .missingArgument signature.display parameter.name (namesFor parameter.name)) ∨
  ∃ given, fieldFor? fields parameter.name = some given ∧
    coercer.coerce parameter.type given = .error e

theorem candidates_eq (name : String) : candidates name = namesFor name := by
  have h : candidates name =
      if bareName name ≠ "" ∧ bareName name ≠ name then [name, bareName name] else [name] := rfl
  rw [h, namesFor]
  by_cases hempty : bareName name = ""
  · simp [hempty]
  · by_cases hsame : bareName name = name <;> simp [hempty, hsame]

theorem firstOf?_candidates (name : String) :
    firstOf? fields (candidates name) = fieldFor? fields name := by
  rw [candidates_eq, namesFor, fieldFor?, firstOf?]
  by_cases hempty : bareName name = ""
  · cases hget : fields.get? name <;> simp [hempty, hget]
  · by_cases hsame : bareName name = name
    · cases hget : fields.get? name <;> simp_all
    · cases hget : fields.get? name <;> simp [hempty, hsame, hget]

theorem bindParameter_eq_ok {signature : Signature} :
    bindParameter coercer signature fields parameter = .ok v ↔
      Gives coercer fields parameter v := by
  rw [bindParameter, firstOf?_candidates, Gives]
  cases fieldFor? fields parameter.name <;> simp

theorem bindParameter_eq_error {signature : Signature} :
    bindParameter coercer signature fields parameter = .error e ↔
      Fails coercer signature fields parameter e := by
  rw [bindParameter, firstOf?_candidates, Fails, candidates_eq]
  cases fieldFor? fields parameter.name <;> simp [eq_comm]

theorem bindParameters_eq_ok {signature : Signature} {parameters : List Parameter}
    {arguments : List Value} :
    bindParameters coercer signature fields parameters = .ok arguments ↔
      List.Forall₂ (Gives coercer fields) parameters arguments := by
  induction parameters generalizing arguments with
  | nil => cases arguments <;> simp [bindParameters]
  | cons parameter rest ih =>
    simp only [bindParameters, Outcome.bind_eq_ok, Outcome.map_eq_ok, bindParameter_eq_ok, ih]
    cases arguments with
    | nil => simp
    | cons v later => simp [List.forall₂_cons]

/-- The first parameter that a keyed object fails is the one that is reported. -/
theorem bindParameters_eq_error {signature : Signature} {parameters : List Parameter} :
    bindParameters coercer signature fields parameters = .error e ↔
      ∃ early parameter later arguments, parameters = early ++ parameter :: later ∧
        List.Forall₂ (Gives coercer fields) early arguments ∧
          Fails coercer signature fields parameter e := by
  induction parameters with
  | nil => simp [bindParameters]
  | cons first rest ih =>
    simp only [bindParameters, Outcome.bind_eq_error, Outcome.map_eq_error, bindParameter_eq_ok,
      bindParameter_eq_error, ih]
    constructor
    -- The first parameter is failed itself, or it is given and a later one is failed.
    · rintro (hfails | ⟨v, hgives, early, parameter, later, arguments, rfl, hearly, hfails⟩)
      · exact ⟨[], first, rest, [], rfl, .nil, hfails⟩
      · exact ⟨first :: early, parameter, later, v :: arguments, rfl, .cons hgives hearly, hfails⟩
    · rintro ⟨early, parameter, later, arguments, hsplit, hearly, hfails⟩
      cases hearly with
      | nil =>
        obtain ⟨rfl, rfl⟩ := List.cons.inj hsplit
        exact .inl hfails
      | @cons _ v early arguments hgives hearly =>
        obtain ⟨rfl, rfl⟩ := List.cons.inj hsplit
        exact .inr ⟨v, hgives, early, parameter, later, arguments, rfl, hearly, hfails⟩

/-! ## One input -/

/-- How many parameters are declared. -/
def parameterCount : Option Signature → Nat
  | some signature => signature.inputs.length
  | none => 0

section Inputs

variable {signature : Option Signature} {inputCount index produced : Nat} {input : Value}
  {inputs arguments : List Value}

/-- The input at `index` is passed on as it is: it is no object, there is no signature, or it is
recognized as the options that follow the arguments produced before it. -/
def PassedOn (signature : Option Signature) (inputCount index produced : Nat) (input : Value) :
    Prop :=
  input.isObject = false ∨ signature = none ∨
    isCallOptions input index inputCount produced (parameterCount signature) = true

/-- The input at `index` contributes arguments to those produced before it: itself if it is passed
on, and otherwise, being a keyed object, one for each parameter in the order of the parameters. -/
inductive Contributes (coercer : Coercer) (signature : Option Signature)
    (inputCount index produced : Nat) : Value → List Value → Prop where
  | passed {input : Value} (passedOn : PassedOn signature inputCount index produced input) :
      Contributes coercer signature inputCount index produced input [input]
  | keyed {fields : Fields Value} {declared : Signature} {arguments : List Value}
      (signed : signature = some declared)
      (bound : ¬ PassedOn signature inputCount index produced (.object fields))
      (given : List.Forall₂ (Gives coercer fields) declared.inputs arguments) :
      Contributes coercer signature inputCount index produced (.object fields) arguments

/-- The input at `index` contributes nothing: it is a keyed object that fails a parameter, and the
first one that it fails gives the error. -/
inductive Refuses (coercer : Coercer) (signature : Option Signature)
    (inputCount index produced : Nat) : Value → Error → Prop where
  | keyed {fields : Fields Value} {declared : Signature} {early later : List Parameter}
      {parameter : Parameter} {arguments : List Value} {e : Error}
      (signed : signature = some declared)
      (bound : ¬ PassedOn signature inputCount index produced (.object fields))
      (split : declared.inputs = early ++ parameter :: later)
      (given : List.Forall₂ (Gives coercer fields) early arguments)
      (fails : Fails coercer declared fields parameter e) :
      Refuses coercer signature inputCount index produced (.object fields) e

theorem piece_of_passedOn (h : PassedOn signature inputCount index produced input) :
    piece coercer signature
      (isCallOptions input index inputCount produced (parameterCount signature)) input =
        .ok [input] := by
  obtain hplain | rfl | hoptions := h
  · cases input with
    | object fields => cases hplain
    | _ => rfl
  · cases input <;> rfl
  · rw [hoptions]
    cases input <;> cases signature <;> rfl

theorem piece_of_not_passedOn (coercer : Coercer)
    (h : ¬ PassedOn signature inputCount index produced input) :
    ∃ declared fields, signature = some declared ∧ input = .object fields ∧
      piece coercer signature
        (isCallOptions input index inputCount produced (parameterCount signature)) input =
          bindParameters coercer declared fields declared.inputs := by
  simp only [PassedOn, not_or, Bool.not_eq_true, Bool.not_eq_false] at h
  -- What is not passed on is an object, has a signature to follow, and is not taken for options.
  obtain ⟨hobject, hsigned, hoptions⟩ := h
  cases input with
  | object fields =>
    cases signature with
    | none => exact absurd rfl hsigned
    | some declared =>
      refine ⟨declared, fields, rfl, rfl, ?_⟩
      rw [hoptions]
      rfl
  | _ => cases hobject

theorem piece_eq_ok :
    piece coercer signature
      (isCallOptions input index inputCount produced (parameterCount signature)) input =
        .ok arguments ↔
      Contributes coercer signature inputCount index produced input arguments := by
  by_cases hpassed : PassedOn signature inputCount index produced input
  · rw [piece_of_passedOn hpassed]
    constructor
    · intro h
      obtain rfl := Except.ok.inj h
      exact .passed hpassed
    · intro h
      cases h with
      | passed => rfl
      | keyed _ hbound => exact absurd hpassed hbound
  · obtain ⟨declared, fields, hsigned, rfl, hpiece⟩ := piece_of_not_passedOn coercer hpassed
    rw [hpiece, bindParameters_eq_ok]
    constructor
    · intro h
      exact .keyed hsigned hpassed h
    · intro h
      cases h with
      | passed h => exact absurd h hpassed
      | keyed hsigned' _ hgiven =>
        -- The signature is the one that the pieces were bound for.
        obtain rfl := Option.some.inj (hsigned.symm.trans hsigned')
        exact hgiven

theorem piece_eq_error :
    piece coercer signature
      (isCallOptions input index inputCount produced (parameterCount signature)) input =
        .error e ↔
      Refuses coercer signature inputCount index produced input e := by
  by_cases hpassed : PassedOn signature inputCount index produced input
  · rw [piece_of_passedOn hpassed]
    constructor
    · intro h
      cases h
    · intro h
      cases h with
      | keyed _ hbound => exact absurd hpassed hbound
  · obtain ⟨declared, fields, hsigned, rfl, hpiece⟩ := piece_of_not_passedOn coercer hpassed
    rw [hpiece, bindParameters_eq_error]
    constructor
    · rintro ⟨early, parameter, later, arguments, hsplit, hgiven, hfails⟩
      exact .keyed hsigned hpassed hsplit hgiven hfails
    · intro h
      cases h with
      | keyed hsigned' _ hsplit hgiven hfails =>
        obtain rfl := Option.some.inj (hsigned.symm.trans hsigned')
        exact ⟨_, _, _, _, hsplit, hgiven, hfails⟩

/-! ## All inputs -/

/-- The inputs from `index` on contribute these pieces to the arguments produced before them. -/
def Contribute (coercer : Coercer) (signature : Option Signature) (inputCount index produced : Nat)
    (inputs : List Value) (pieces : List (List Value)) : Prop :=
  pieces.length = inputs.length ∧
    ∀ i input piece, inputs[i]? = some input → pieces[i]? = some piece →
      Contributes coercer signature inputCount (index + i)
        (produced + (pieces.take i).flatten.length) input piece

theorem contribute_nil {pieces : List (List Value)} :
    Contribute coercer signature inputCount index produced [] pieces ↔ pieces = [] := by
  simp [Contribute]

theorem contribute_cons {pieces : List (List Value)} :
    Contribute coercer signature inputCount index produced (input :: inputs) pieces ↔
      ∃ piece rest, pieces = piece :: rest ∧
        Contributes coercer signature inputCount index produced input piece ∧
        Contribute coercer signature inputCount (index + 1) (produced + piece.length) inputs
          rest := by
  constructor
  · rintro ⟨hlength, hpieces⟩
    cases pieces with
    | nil => cases hlength
    | cons piece rest =>
      refine ⟨piece, rest, rfl, by simpa using hpieces 0 input piece rfl rfl,
        Nat.succ.inj hlength, ?_⟩
      intro i input' piece' hinput hpiece
      -- What is produced before the rest is what the first piece has added.
      have h := hpieces (i + 1) input' piece' hinput hpiece
      simpa [Nat.add_assoc, Nat.add_comm 1] using h
  · rintro ⟨piece, rest, rfl, hfirst, hlength, hrest⟩
    refine ⟨congrArg Nat.succ hlength, ?_⟩
    intro i input' piece' hinput hpiece
    cases i with
    | zero =>
      obtain rfl := Option.some.inj hinput
      obtain rfl := Option.some.inj hpiece
      simpa using hfirst
    | succ i =>
      have h := hrest i input' piece' hinput hpiece
      simpa [Nat.add_assoc, Nat.add_comm 1] using h

theorem sortFrom_eq_ok :
    sortFrom coercer signature (parameterCount signature) inputCount index produced inputs =
        .ok arguments ↔
      ∃ pieces, Contribute coercer signature inputCount index produced inputs pieces ∧
        pieces.flatten = arguments := by
  induction inputs generalizing index produced arguments with
  | nil => simp [sortFrom, contribute_nil]
  | cons input rest ih =>
    simp only [sortFrom, Outcome.bind_eq_ok, Outcome.map_eq_ok, piece_eq_ok, ih, contribute_cons]
    constructor
    · rintro ⟨piece, hpiece, _, ⟨pieces, hpieces, rfl⟩, rfl⟩
      exact ⟨_, ⟨piece, pieces, rfl, hpiece, hpieces⟩, rfl⟩
    · rintro ⟨_, ⟨piece, pieces, rfl, hpiece, hpieces⟩, rfl⟩
      exact ⟨piece, hpiece, _, ⟨pieces, hpieces, rfl⟩, rfl⟩

theorem sortFrom_eq_error :
    sortFrom coercer signature (parameterCount signature) inputCount index produced inputs =
        .error e ↔
      ∃ before input after pieces, inputs = before ++ input :: after ∧
        Contribute coercer signature inputCount index produced before pieces ∧
        Refuses coercer signature inputCount (index + before.length)
          (produced + pieces.flatten.length) input e := by
  induction inputs generalizing index produced with
  | nil => simp [sortFrom]
  | cons first rest ih =>
    simp only [sortFrom, Outcome.bind_eq_error, Outcome.map_eq_error, piece_eq_ok, piece_eq_error,
      ih]
    constructor
    · rintro (hrefuses | ⟨piece, hpiece, before, input, after, pieces, rfl, hbefore, hrefuses⟩)
      · exact ⟨[], first, rest, [], rfl, contribute_nil.2 rfl, hrefuses⟩
      · refine ⟨first :: before, input, after, piece :: pieces, rfl,
          contribute_cons.2 ⟨piece, pieces, rfl, hpiece, hbefore⟩, ?_⟩
        simpa [Nat.add_assoc, Nat.add_comm 1] using hrefuses
    · rintro ⟨before, input, after, pieces, hsplit, hbefore, hrefuses⟩
      cases before with
      | nil =>
        obtain ⟨rfl, rfl⟩ := List.cons.inj hsplit
        -- Nothing stands before the input that refuses, so that it is the first one.
        obtain rfl := contribute_nil.1 hbefore
        exact .inl hrefuses
      | cons first' before =>
        obtain ⟨rfl, rfl⟩ := List.cons.inj hsplit
        obtain ⟨piece, pieces, rfl, hpiece, hbefore⟩ := contribute_cons.1 hbefore
        refine .inr ⟨piece, hpiece, before, input, after, pieces, rfl, hbefore, ?_⟩
        simpa [Nat.add_assoc, Nat.add_comm 1] using hrefuses

theorem contribute_passedOn (h : ∀ i input, inputs[i]? = some input →
      PassedOn signature inputCount (index + i) (produced + i) input) :
    Contribute coercer signature inputCount index produced inputs (inputs.map fun v => [v]) := by
  induction inputs generalizing index produced with
  | nil => exact contribute_nil.2 rfl
  | cons input rest ih =>
    refine contribute_cons.2 ⟨[input], rest.map fun v => [v], rfl, .passed (h 0 input rfl), ?_⟩
    apply ih
    intro i later hlater
    have hpassed := h (i + 1) later hlater
    rwa [← Nat.add_assoc, ← Nat.add_assoc, Nat.add_right_comm index, Nat.add_right_comm produced]
      at hpassed

end Inputs

/-! ## The order of keys -/

section Keys

variable {signature : Option Signature} {inputCount index produced : Nat}
  {fields others : Fields Value}

theorem gives_perm (hd : fields.Distinct) (hp : fields.Perm others) :
    Gives coercer fields = Gives coercer others := by
  funext parameter v
  simp only [Gives, fieldFor?, Fields.get?_perm hd hp]

theorem fails_perm (hd : fields.Distinct) (hp : fields.Perm others) (declared : Signature) :
    Fails coercer declared fields = Fails coercer declared others := by
  funext parameter e
  simp only [Fails, fieldFor?, Fields.get?_perm hd hp]

theorem isCallOptions_perm {parameterCount : Nat} (hp : fields.Perm others) :
    isCallOptions (.object fields) index inputCount produced parameterCount =
      isCallOptions (.object others) index inputCount produced parameterCount := by
  have hnames (name : String) : name ∈ fields.names ↔ name ∈ others.names :=
    (hp.map Prod.fst).mem_iff
  rw [Bool.eq_iff_iff, isCallOptions_object, isCallOptions_object]
  simp only [hnames]

theorem passedOn_perm (hp : fields.Perm others) :
    PassedOn signature inputCount index produced (.object fields) ↔
      PassedOn signature inputCount index produced (.object others) := by
  simp only [PassedOn, Value.isObject, isCallOptions_perm hp]

theorem Contributes.perm {arguments : List Value} (hd : fields.Distinct)
    (hp : fields.Perm others)
    (hbound : ¬ PassedOn signature inputCount index produced (.object fields))
    (h : Contributes coercer signature inputCount index produced (.object fields) arguments) :
    Contributes coercer signature inputCount index produced (.object others) arguments := by
  cases h with
  | passed hpassed => exact absurd hpassed hbound
  | keyed hsigned _ hgiven =>
    rw [gives_perm hd hp] at hgiven
    exact .keyed hsigned (mt (passedOn_perm hp).2 hbound) hgiven

theorem Refuses.perm (hd : fields.Distinct) (hp : fields.Perm others)
    (h : Refuses coercer signature inputCount index produced (.object fields) e) :
    Refuses coercer signature inputCount index produced (.object others) e := by
  cases h with
  | keyed hsigned hbound hsplit hgiven hfails =>
    rw [gives_perm hd hp] at hgiven
    rw [fails_perm hd hp] at hfails
    exact .keyed hsigned (mt (passedOn_perm hp).2 hbound) hsplit hgiven hfails

end Keys

/-! ## The arguments of a call -/

/-- Inputs have the arguments that their pieces make up, and fail as the first of them that refuses
does. They are their own arguments without a signature, and when no object is among them; and what
a keyed object contributes does not depend on the order of its keys. -/
theorem arguments_piece_by_piece (coercer : Coercer) (signature : Option Signature)
    (inputs : List Value) :
    (∀ arguments, sort coercer signature inputs = .ok arguments ↔
      ∃ pieces, Contribute coercer signature inputs.length 0 0 inputs pieces ∧
        pieces.flatten = arguments) ∧
    (∀ e, sort coercer signature inputs = .error e ↔
      ∃ before input after pieces, inputs = before ++ input :: after ∧
        Contribute coercer signature inputs.length 0 0 before pieces ∧
        Refuses coercer signature inputs.length before.length pieces.flatten.length input e) ∧
    (signature = none ∨ (∀ input ∈ inputs, input.isObject = false) →
      sort coercer signature inputs = .ok inputs) ∧
    ∀ (index produced : Nat) (fields others : Fields Value), fields.Distinct →
      fields.Perm others →
      ¬ PassedOn signature inputs.length index produced (.object fields) →
      (∀ arguments,
        Contributes coercer signature inputs.length index produced (.object fields) arguments ↔
          Contributes coercer signature inputs.length index produced (.object others)
            arguments) ∧
      ∀ e, Refuses coercer signature inputs.length index produced (.object fields) e ↔
        Refuses coercer signature inputs.length index produced (.object others) e := by
  have hsort : sort coercer signature inputs =
      sortFrom coercer signature (parameterCount signature) inputs.length 0 0 inputs := by
    cases signature <;> rfl
  refine ⟨?_, ?_, ?_, ?_⟩
  · intro arguments
    rw [hsort, sortFrom_eq_ok]
  · intro e
    simp only [hsort, sortFrom_eq_error, Nat.zero_add]
  · intro hplain
    -- Every input is passed on, and is a piece of its own.
    have hpieces : Contribute coercer signature inputs.length 0 0 inputs
        (inputs.map fun v => [v]) := by
      apply contribute_passedOn
      intro i input hinput
      rcases hplain with rfl | hplain
      · exact .inr (.inl rfl)
      · exact .inl (hplain input (List.mem_of_getElem? hinput))
    rw [hsort, sortFrom_eq_ok]
    exact ⟨_, hpieces, by rw [← List.flatMap_def, List.flatMap_singleton']⟩
  · intro index produced fields others hd hp hbound
    -- Either order of the keys is that of the other one reversed.
    have hd' : others.Distinct := hd.perm hp
    have hbound' := mt (passedOn_perm hp).2 hbound
    exact ⟨fun arguments => ⟨.perm hd hp hbound, .perm hd' hp.symm hbound'⟩,
      fun e => ⟨.perm hd hp, .perm hd' hp.symm⟩⟩

/-- A burn of tokens, whose only parameter has an underscore for its name. -/
def burning : Signature :=
  ⟨.function, some "burn", [⟨"_", "uint256"⟩], []⟩

/-- Nothing is left of the name without its underscore. The object has a field under that empty
name, which could be converted, and yet it fails the parameter. -/
theorem underscore_has_no_bare_name :
    let fields : Fields Value := [("", .int 5)]
    isCallOptions (.object fields) 0 1 0 burning.inputs.length = false ∧
      fields.get? (bareName "_") = some (.int 5) ∧
      Coercer.default.coerce "uint256" (.int 5) = .ok (.int 5) ∧
      sort .default (some burning) [.object fields] =
        .error (.missingArgument "burn" "_" ["_"]) := by
  refine ⟨by decide, by decide +kernel, ?_, ?_⟩
  · exact Outcome.toOption_eq_some.1 (by decide +kernel)
  · exact Outcome.error?_eq_some.1 (by decide +kernel)

end Playbook.Binder
