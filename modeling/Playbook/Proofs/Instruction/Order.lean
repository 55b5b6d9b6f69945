import Playbook.Proofs.Instruction.Expansion

/-!
# The order of an expansion

A loop makes an instruction of every item with every template, all those of one item before those of
the next. The main statement: an expansion is complete and in this order, or it fails with the first
pair in this order that makes no instruction, unless there is no list to run over.
-/

namespace Playbook.Loop

variable {l : Loop} {store : Store} {list : List Value}

/-! ## Items -/

/-- The list that the loop runs over: the authored one, or what its reference leads to if that is a
list. -/
def RunsOver (l : Loop) (store : Store) (list : List Value) : Prop :=
  l.source = .items list ∨
    ∃ text, l.source = .reference text ∧ (Value.string text).resolve? store = some (.array list)

theorem items_eq_ok : l.items store = .ok list ↔ l.RunsOver store list := by
  unfold items RunsOver
  split
  · rename_i authored hsource
    simp [hsource]
  · rename_i text hsource
    split <;> simp_all

theorem kind_of_items {e : Error} (h : l.items store = .error e) : e.kind = .resolution := by
  unfold items at h
  split at h
  · cases h
  · split at h
    · cases h
    · rw [← Except.error.inj h]
      rfl
    · rw [← Except.error.inj h]
      rfl

theorem exists_items_eq_error :
    (∃ e, l.items store = .error e) ↔ ∃ text, l.source = .reference text ∧
      ∀ list, (Value.string text).resolve? store ≠ some (.array list) := by
  unfold items
  split
  · rename_i authored hsource
    simp [hsource]
  · rename_i text hsource
    split <;> simp_all

/-! ## Places -/

/-- Every definition is that of an item and a template. -/
theorem exists_of_getElem?_definitions {templates : List Value} {n : Nat} {entry : Nat × Value}
    (h : (definitions templates list)[n]? = some entry) :
    ∃ a b item template, list[a]? = some item ∧ templates[b]? = some template ∧
      n = a * templates.length + b ∧ entry = (a, Item.substitute item template) := by
  have hn : n < list.length * templates.length := by
    rw [← length_definitions]
    exact (List.getElem?_eq_some_iff.1 h).1
  -- the place of the item and that of the template are the quotient and the remainder
  have hwidth : 0 < templates.length := Nat.pos_of_ne_zero fun hzero => by simp [hzero] at hn
  have ha : n / templates.length < list.length := Nat.div_lt_of_lt_mul (by rwa [Nat.mul_comm])
  have hb : n % templates.length < templates.length := Nat.mod_lt n hwidth
  have hplace : n = n / templates.length * templates.length + n % templates.length :=
    (Nat.div_add_mod' n _).symm
  refine ⟨n / templates.length, n % templates.length, _, _, List.getElem?_eq_getElem ha,
    List.getElem?_eq_getElem hb, hplace, ?_⟩
  have hentry := getElem?_definitions (List.getElem?_eq_getElem ha) (List.getElem?_eq_getElem hb)
  rw [← hplace, h] at hentry
  exact Option.some.inj hentry

/-- The place of an earlier pair is an earlier place. -/
theorem place_lt {width a b i j : Nat} (hj : j < width) (h : i < a ∨ i = a ∧ j < b) :
    i * width + j < a * width + b := by
  rcases h with hi | ⟨rfl, hb⟩
  -- The earlier item ends its row of places before that of the later one begins.
  · have hrow : (i + 1) * width ≤ a * width := Nat.mul_le_mul_right width hi
    rw [Nat.succ_mul] at hrow
    omega
  · omega

/-! ## The whole expansion -/

/-- An instruction of every item with every template, where their places say. -/
structure IsExpansion (l : Loop) (list : List Value) (instructions : List Instruction) : Prop where
  length : instructions.length = list.length * l.templates.length
  built : ∀ a b item template, list[a]? = some item → l.templates[b]? = some template →
    ∃ i, instructions[a * l.templates.length + b]? = some i ∧
      Instruction.build (Item.substitute item template) = .ok i

/-- The template makes no instruction of the item, and all pairs before this one make one. -/
structure FirstFault (l : Loop) (list : List Value) (a b : Nat) (fault : Violation) : Prop where
  fails : ∃ item template, list[a]? = some item ∧ l.templates[b]? = some template ∧
    Instruction.build (Item.substitute item template) = .error fault
  first : ∀ i j item template, (i < a ∨ i = a ∧ j < b) → list[i]? = some item →
    l.templates[j]? = some template →
      ∃ built, Instruction.build (Item.substitute item template) = .ok built

theorem exists_firstFault {e : Violation} (h : buildAll (definitions l.templates list) = .error e) :
    ∃ a b fault, l.FirstFault list a b fault ∧ e = .inItem a fault := by
  obtain ⟨n, index, definition, fault, hn, hfault, rfl, hbefore⟩ := first_of_buildAll_error h
  obtain ⟨a, b, item, template, hitem, htemplate, rfl, hentry⟩ := exists_of_getElem?_definitions hn
  obtain ⟨rfl, rfl⟩ := Prod.mk.inj hentry
  refine ⟨index, b, fault, ⟨⟨item, template, hitem, htemplate, hfault⟩, ?_⟩, rfl⟩
  intro i j item' template' hearlier hitem' htemplate'
  have hj : j < l.templates.length := (List.getElem?_eq_some_iff.1 htemplate').1
  exact hbefore _ (place_lt hj hearlier) _ (getElem?_definitions hitem' htemplate')

/-- An expansion fails for want of a list exactly when the reference of the loop leads to nothing or
to something else. Over a list it has as many instructions as are counted, that of each item and
template in its place; or it fails with the first pair, item by item, that makes no instruction. -/
theorem expand_in_order (l : Loop) (store : Store) :
    ((∃ e, l.expand store = .error e ∧ e.kind = .resolution) ↔
        ∃ text, l.source = .reference text ∧
          ∀ list, (Value.string text).resolve? store ≠ some (.array list)) ∧
      ∀ list, l.RunsOver store list →
        l.count store = .ok (list.length * l.templates.length) ∧
          ((∃ instructions, l.expand store = .ok instructions ∧ l.IsExpansion list instructions) ∨
            ∃ a b fault, l.FirstFault list a b fault ∧
              l.expand store = .error (.validation (.inItem a fault))) := by
  constructor
  · rw [← exists_items_eq_error]
    constructor
    · rintro ⟨e, h, hkind⟩
      rcases expand_eq_error_iff.1 h with hitems | ⟨list, fault, -, -, rfl⟩
      · exact ⟨e, hitems⟩
      · cases hkind
    · rintro ⟨e, hitems⟩
      exact ⟨e, expand_eq_error_iff.2 (.inl hitems), kind_of_items hitems⟩
  · intro list hover
    have hlist := items_eq_ok.2 hover
    refine ⟨Outcome.map_eq_ok.2 ⟨list, hlist, rfl⟩, ?_⟩
    cases h : l.expand store with
    | ok instructions =>
      obtain ⟨list', hlist', hlength⟩ := expand_eq_ok h
      obtain rfl : list = list' := Except.ok.inj (hlist.symm.trans hlist')
      exact .inl ⟨instructions, rfl, hlength, fun _ _ _ _ => getElem?_expand h hlist⟩
    | error e =>
      -- The items are there, so that it is a definition that makes no instruction.
      rcases expand_eq_error_iff.1 h with hitems | ⟨list', violation, hlist', hfault, rfl⟩
      · rw [hlist] at hitems
        cases hitems
      · obtain rfl : list = list' := Except.ok.inj (hlist.symm.trans hlist')
        obtain ⟨a, b, fault, hfirst, rfl⟩ := exists_firstFault hfault
        exact .inr ⟨a, b, fault, hfirst, rfl⟩

/-- Two vaults and two templates make four instructions. -/
theorem expand_in_order_vaults :
    let vaults : List Value := [.string "$deployed.first", .string "$deployed.second"]
    let store := Store.ofInputs [("vaults", .array vaults)]
    let template (run : String) : Value :=
      .object [("contract", .string "Vault"), ("run", .string run), ("at", .string "$item")]
    let l : Loop := ⟨none, .reference "$inputs.vaults", [template "open", template "fund"]⟩
    l.RunsOver store vaults ∧ l.count store = .ok 4 ∧
      ∃ instructions, l.expand store = .ok instructions ∧ l.IsExpansion vaults instructions := by
  intro vaults store template l
  have hover : l.RunsOver store vaults := .inr ⟨"$inputs.vaults", rfl, by decide +kernel⟩
  have hsome : (l.expand store).toOption.isSome = true := by decide +kernel
  obtain ⟨instructions, hexpand⟩ := Option.isSome_iff_exists.1 hsome
  obtain ⟨hcount, hcomplete | ⟨a, b, fault, -, hfault⟩⟩ := (expand_in_order l store).2 vaults hover
  · exact ⟨hover, hcount, hcomplete⟩
  · rw [hfault] at hexpand
    cases hexpand

end Playbook.Loop
