import Playbook.Instruction.Loop
import Playbook.Proofs.Instruction.Build

/-!
# Expansions

A loop puts its items into its templates, and the instructions that come of it have their inputs
resolved when they are carried out. The main statement: a string that an item gives to an input is
passed on as it is unless it is a reference, for then it is followed like an authored one.
-/

namespace Playbook

/-! ## Items in templates -/

namespace Item

theorem getElem?_substituteItems (item : Value) (items : List Value) (k : Nat) :
    (substituteItems item items)[k]? = items[k]?.map (substitute item) := by
  induction items generalizing k with
  | nil => simp [substituteItems]
  | cons v rest ih => cases k <;> simp [substituteItems, ih]

theorem get?_substituteFields (item : Value) (fields : Fields Value) (name : String) :
    Fields.get? (substituteFields item fields) name =
      (Fields.get? fields name).map (substitute item) := by
  induction fields with
  | nil => rfl
  | cons entry rest ih =>
    obtain ⟨key, v⟩ := entry
    by_cases hk : key = name
    · simp [substituteFields, Fields.get?, hk]
    · simp [substituteFields, Fields.get?, hk, ih]

theorem names_substituteFields (item : Value) (fields : Fields Value) :
    Fields.names (substituteFields item fields) = Fields.names fields := by
  induction fields with
  | nil => rfl
  | cons entry rest ih =>
    obtain ⟨name, v⟩ := entry
    simpa [substituteFields, Fields.names] using ih

/-- An item reference to something in the item is replaced by it. -/
theorem substitute_of_select {item v : Value} {text path : String} (hp : path? text = some path)
    (hv : item.select path = some v) : substitute item (.string text) = v := by
  have hresolved : resolve? (.string text) item = some v := by
    simp [resolve?, Value.text?, hp, hv]
  simp [substitute, hresolved]

end Item

/-! ## Definitions and their instructions -/

namespace Loop

section Definitions

variable {definitions : List (Nat × Value)} {instructions : List Instruction}

theorem length_of_buildAll (h : buildAll definitions = .ok instructions) :
    instructions.length = definitions.length := by
  induction definitions generalizing instructions with
  | nil =>
    obtain rfl := Except.ok.inj h
    rfl
  | cons entry rest ih =>
    obtain ⟨index, definition⟩ := entry
    rw [buildAll] at h
    split at h
    · cases h
    · obtain ⟨built, hbuilt, rfl⟩ := Outcome.map_eq_ok.1 h
      simp [ih hbuilt]

theorem getElem?_buildAll {n : Nat} {entry : Nat × Value} (h : buildAll definitions = .ok instructions)
    (he : definitions[n]? = some entry) :
    ∃ i, instructions[n]? = some i ∧ Instruction.build entry.2 = .ok i := by
  induction definitions generalizing instructions n with
  | nil => simp at he
  | cons first rest ih =>
    obtain ⟨index, definition⟩ := first
    rw [buildAll] at h
    split at h
    · cases h
    · rename_i i hi
      obtain ⟨built, hbuilt, rfl⟩ := Outcome.map_eq_ok.1 h
      cases n with
      | zero =>
        obtain rfl : (index, definition) = entry := by simpa using he
        exact ⟨i, by simp, hi⟩
      | succ n => simpa using ih hbuilt (by simpa using he)

theorem mem_of_buildAll {i : Instruction} (h : buildAll definitions = .ok instructions)
    (hi : i ∈ instructions) : ∃ definition ∈ definitions, Instruction.build definition.2 = .ok i := by
  obtain ⟨n, hn⟩ := List.mem_iff_getElem?.1 hi
  have hlt : n < definitions.length := by
    rw [← length_of_buildAll h]
    exact (List.getElem?_eq_some_iff.1 hn).1
  have hentry := List.getElem?_eq_getElem hlt
  obtain ⟨built, hbuilt, hb⟩ := getElem?_buildAll h hentry
  obtain rfl : i = built := Option.some.inj (hn.symm.trans hbuilt)
  exact ⟨_, List.mem_of_getElem? hentry, hb⟩

/-- One definition that makes no instruction fails them all. -/
theorem buildAll_eq_error {definition : Nat × Value} {fault : Violation}
    (hd : definition ∈ definitions) (hf : Instruction.build definition.2 = .error fault) :
    ∃ fault', buildAll definitions = .error fault' := by
  cases hall : buildAll definitions with
  | error fault' => exact ⟨fault', rfl⟩
  | ok instructions =>
    -- Were all of them built, this one would be too.
    obtain ⟨n, hn⟩ := List.mem_iff_getElem?.1 hd
    obtain ⟨i, -, hi⟩ := getElem?_buildAll hall hn
    rw [hf] at hi
    cases hi

/-- What fails is the first definition that makes no instruction. -/
theorem first_of_buildAll_error {e : Violation} (h : buildAll definitions = .error e) :
    ∃ (n index : Nat) (definition : Value) (fault : Violation),
      definitions[n]? = some (index, definition) ∧ Instruction.build definition = .error fault ∧
      e = .inItem index fault ∧ ∀ k < n, ∀ entry, definitions[k]? = some entry →
        ∃ i, Instruction.build entry.2 = .ok i := by
  induction definitions with
  | nil => cases h
  | cons first rest ih =>
    obtain ⟨index, definition⟩ := first
    rw [buildAll] at h
    split at h
    · rename_i fault hfault
      refine ⟨0, index, definition, fault, rfl, hfault, (Except.error.inj h).symm, fun k hk => ?_⟩
      exact absurd hk (Nat.not_lt_zero k)
    · rename_i i hi
      obtain ⟨n, place, failing, fault, hn, hfault, he, hbefore⟩ := ih (Outcome.map_eq_error.1 h)
      refine ⟨n + 1, place, failing, fault, by simpa using hn, hfault, he, fun k hk entry hentry => ?_⟩
      cases k with
      | zero =>
        obtain rfl : (index, definition) = entry := by simpa using hentry
        exact ⟨i, hi⟩
      | succ k => exact hbefore k (by omega) entry (by simpa using hentry)

end Definitions

theorem length_definitions (templates list : List Value) :
    (definitions templates list).length = list.length * templates.length := by
  unfold definitions
  rw [List.length_flatMap]
  simp only [List.length_map, List.length_zipIdx, List.map_const', List.sum_replicate_nat]

theorem getElem?_flatMap_map {α β γ : Type} (f : α → β → γ) {xs : List α} {ys : List β} {a b : Nat}
    {x : α} {y : β} (hx : xs[a]? = some x) (hy : ys[b]? = some y) :
    (xs.flatMap fun x => ys.map (f x))[a * ys.length + b]? = some (f x y) := by
  obtain ⟨hb, rfl⟩ := List.getElem?_eq_some_iff.1 hy
  induction xs generalizing a with
  | nil => simp at hx
  | cons first rest ih =>
    cases a with
    | zero =>
      obtain rfl : first = x := by simpa using hx
      simp [List.getElem?_append_left, hb]
    | succ a =>
      -- The first item has taken up one row of places.
      have hplace : (a + 1) * ys.length + b = ys.length + (a * ys.length + b) := by
        rw [Nat.succ_mul]
        omega
      have hrest : rest[a]? = some x := by simpa using hx
      simp [hplace, List.getElem?_append_right, ih hrest]

/-- The definition of an item and a template is where their places say. -/
theorem getElem?_definitions {templates list : List Value} {a b : Nat} {item template : Value}
    (hitem : list[a]? = some item) (htemplate : templates[b]? = some template) :
    (definitions templates list)[a * templates.length + b]? =
      some (a, Item.substitute item template) := by
  have hindexed : list.zipIdx[a]? = some (item, a) := by simp [hitem]
  exact getElem?_flatMap_map (fun x template => (x.2, Item.substitute x.1 template)) hindexed htemplate

/-! ## Expansions -/

section Expansions

variable {l : Loop} {store : Store} {instructions : List Instruction} {list : List Value}

theorem expand_eq_ok_iff :
    l.expand store = .ok instructions ↔
      ∃ list, l.items store = .ok list ∧
        buildAll (definitions l.templates list) = .ok instructions :=
  Outcome.bind_eq_ok.trans (exists_congr fun _ => and_congr_right fun _ => Outcome.mapError_eq_ok)

theorem expand_eq_error_iff {e : Error} :
    l.expand store = .error e ↔ l.items store = .error e ∨
      ∃ list fault, l.items store = .ok list ∧
        buildAll (definitions l.templates list) = .error fault ∧ .validation fault = e := by
  refine Outcome.bind_eq_error.trans (or_congr_right (exists_congr fun list => ?_))
  rw [Outcome.mapError_eq_error]
  exact exists_and_left.symm

/-- An expansion has an instruction for every item with every template. -/
theorem expand_eq_ok (h : l.expand store = .ok instructions) :
    ∃ list, l.items store = .ok list ∧
      instructions.length = list.length * l.templates.length := by
  obtain ⟨list, hlist, hbuild⟩ := expand_eq_ok_iff.1 h
  exact ⟨list, hlist, by rw [length_of_buildAll hbuild, length_definitions]⟩

/-- The expansion has the instruction of an item and a template where their places say. -/
theorem getElem?_expand {a b : Nat} {item template : Value} (h : l.expand store = .ok instructions)
    (hlist : l.items store = .ok list) (hitem : list[a]? = some item)
    (htemplate : l.templates[b]? = some template) :
    ∃ i, instructions[a * l.templates.length + b]? = some i ∧
      Instruction.build (Item.substitute item template) = .ok i := by
  obtain ⟨list', hlist', hbuild⟩ := expand_eq_ok_iff.1 h
  obtain rfl : list = list' := Except.ok.inj (hlist.symm.trans hlist')
  exact getElem?_buildAll hbuild (getElem?_definitions hitem htemplate)

/-- An instruction of an expansion is built from a template with an item put in. -/
theorem mem_of_expand {i : Instruction} (h : l.expand store = .ok instructions)
    (hi : i ∈ instructions) :
    ∃ list, l.items store = .ok list ∧ ∃ item ∈ list, ∃ template ∈ l.templates,
      Instruction.build (Item.substitute item template) = .ok i := by
  obtain ⟨list, hlist, hbuild⟩ := expand_eq_ok_iff.1 h
  obtain ⟨definition, hd, hb⟩ := mem_of_buildAll hbuild hi
  obtain ⟨⟨item, index⟩, hitem, htemplate⟩ := List.mem_flatMap.1 hd
  obtain ⟨template, ht, rfl⟩ := List.mem_map.1 htemplate
  exact ⟨list, hlist, item, List.fst_mem_of_mem_zipIdx hitem, template, ht, hb⟩

/-- One item that makes no instruction with a template fails the expansion. -/
theorem expand_eq_error {item template : Value} {fault : Violation} (hl : l.items store = .ok list)
    (hi : item ∈ list) (ht : template ∈ l.templates)
    (hf : Instruction.build (Item.substitute item template) = .error fault) :
    ∃ fault', l.expand store = .error (.validation fault') := by
  obtain ⟨index, hindex⟩ := List.mem_iff_getElem?.1 hi
  have hpair : (item, index) ∈ list.zipIdx := List.mk_mem_zipIdx_iff_getElem?.2 hindex
  have hd : (index, Item.substitute item template) ∈ definitions l.templates list :=
    List.mem_flatMap.2 ⟨(item, index), hpair, List.mem_map.2 ⟨template, ht, rfl⟩⟩
  obtain ⟨fault', hall⟩ := buildAll_eq_error hd hf
  exact ⟨fault', expand_eq_error_iff.2 (.inr ⟨list, fault', hl, hall, rfl⟩)⟩

end Expansions

/-! ## Strings of items -/

/-- A string stays what it is when it is resolved, unless it refers to something else. -/
theorem resolve?_string_eq_self_iff (x : String) (store : Store) :
    ((Value.string x).resolve? store).getD .null = .string x ↔
      ∀ reference, Reference.parse? x = some reference →
        store.get? reference.space reference.path = some (.string x) := by
  rw [Value.resolve?]
  cases hx : Reference.parse? x with
  | none => simp
  | some reference =>
    cases hv : store.get? reference.space reference.path <;> simp [hv]

/-- A string that an item gives to an input of a template is resolved once more, in the state in
which its instruction is carried out: the input is that string exactly when it is no reference, or a
reference to itself. -/
theorem item_string_kept_iff {l : Loop} {store : Store} {instructions : List Instruction}
    {list : List Value} {a b k : Nat} {item : Value} {fields : Fields Value} {inputs : List Value}
    {text path x : String} (later : Store) (h : l.expand store = .ok instructions)
    (hlist : l.items store = .ok list) (hitem : list[a]? = some item)
    (htemplate : l.templates[b]? = some (.object fields))
    (hinputs : Fields.get? fields "inputs" = some (.array inputs))
    (htext : inputs[k]? = some (.string text)) (hpath : Item.path? text = some path)
    (hx : item.select path = some (.string x)) :
    ∃ i, instructions[a * l.templates.length + b]? = some i ∧
      (i.resolvedInputs later)[k]? = some (((Value.string x).resolve? later).getD .null) ∧
      ((i.resolvedInputs later)[k]? = some (.string x) ↔
        ∀ reference, Reference.parse? x = some reference →
          later.get? reference.space reference.path = some (.string x)) := by
  obtain ⟨i, hi, hbuild⟩ := getElem?_expand h hlist hitem htemplate
  obtain ⟨fields', hfields', hdescribes⟩ := Instruction.build_eq_ok hbuild
  obtain rfl : Item.substituteFields item fields = fields' := by
    simpa [Item.substitute] using hfields'
  have hget : Fields.get? (Item.substituteFields item fields) "inputs" =
      some (.array (Item.substituteItems item inputs)) := by
    simp [Item.get?_substituteFields, hinputs, Item.substitute]
  -- Expansion has put the string in, and nothing marks it as taken from the item.
  have hinput : i.inputs[k]? = some (.string x) := by
    rw [hdescribes.inputs_eq hget, Item.getElem?_substituteItems, htext]
    exact congrArg some (Item.substitute_of_select hpath hx)
  have hresolved : (i.resolvedInputs later)[k]? =
      some (((Value.string x).resolve? later).getD .null) := by
    simp [Instruction.resolvedInputs, hinput, Instruction.resolvedInput]
  refine ⟨i, hi, hresolved, ?_⟩
  rw [hresolved, Option.some.injEq]
  exact resolve?_string_eq_self_iff x later

/-- An address in a list of the state is passed on as it is. -/
theorem item_string_kept_address :
    let store := Store.ofInputs [("list", .array [.string "0xff"])]
    let fields : Fields Value :=
      [("contract", .string "Vault"), ("run", .string "at"), ("inputs", .array [.string "$item"])]
    let l : Loop := ⟨none, .reference "$inputs.list", [.object fields]⟩
    ∃ instructions i, l.expand store = .ok instructions ∧ instructions[0]? = some i ∧
      (i.resolvedInputs store)[0]? = some (.string "0xff") := by
  intro store fields l
  have hsome : (l.expand store).toOption.isSome = true := by decide +kernel
  obtain ⟨instructions, hinstructions⟩ := Option.isSome_iff_exists.1 hsome
  have hexpand := Outcome.toOption_eq_some.1 hinstructions
  have hlist : l.items store = .ok [.string "0xff"] :=
    Outcome.toOption_eq_some.1 (by decide +kernel)
  have hpath : Item.path? "$item" = some "" := by decide +kernel
  have hx : (Value.string "0xff").select "" = some (.string "0xff") := by decide +kernel
  obtain ⟨i, hi, _, hkept⟩ :=
    item_string_kept_iff (a := 0) (b := 0) (k := 0) store hexpand hlist rfl rfl rfl rfl hpath hx
  refine ⟨instructions, i, hexpand, hi, hkept.2 fun reference hreference => ?_⟩
  -- An address is no reference, so that nothing is left to follow.
  have hnone : Reference.parse? "0xff" = none := by decide +kernel
  rw [hnone] at hreference
  cases hreference

/-- A string of the state that looks like a reference is not passed on: expansion puts it into the
instruction, and there it is followed. -/
theorem item_string_followed :
    let store := Store.ofInputs [("list", .array [.string "$inputs.owner"]), ("owner", .string "0xff")]
    let fields : Fields Value :=
      [("contract", .string "Vault"), ("run", .string "at"), ("inputs", .array [.string "$item"])]
    let l : Loop := ⟨none, .reference "$inputs.list", [.object fields]⟩
    l.items store = .ok [.string "$inputs.owner"] ∧ Item.path? "$item" = some "" ∧
      (Value.string "$inputs.owner").select "" = some (.string "$inputs.owner") ∧
      ∃ instructions i, l.expand store = .ok instructions ∧ instructions[0]? = some i ∧
        i.resolvedInputs store = [.string "0xff"] := by
  intro store fields l
  have hlist : l.items store = .ok [.string "$inputs.owner"] :=
    Outcome.toOption_eq_some.1 (by decide +kernel)
  refine ⟨hlist, by decide +kernel, by decide +kernel, ?_⟩
  have hinputs : ((l.expand store).toOption.bind (·[0]?)).map (·.resolvedInputs store) =
      some [.string "0xff"] := by decide +kernel
  obtain ⟨i, hi, hresolved⟩ := Option.map_eq_some_iff.1 hinputs
  obtain ⟨instructions, hexpand, hi⟩ := Option.bind_eq_some_iff.1 hi
  exact ⟨instructions, i, Outcome.toOption_eq_some.1 hexpand, hi, hresolved⟩

end Loop

end Playbook
