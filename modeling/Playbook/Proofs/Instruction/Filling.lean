import Playbook.Proofs.Instruction.Expansion
import Playbook.Proofs.Instruction.Substitution
import Playbook.Proofs.Value.Places

/-!
# What an item fills in

A template with an item put in, place by place. Its containers stay, an item reference to something
gives way to what it names, and every other leaf stays. The main statement: this is so at every
place of the template, it holds of no other value, and what else there is in the value lies inside
what was put in, where nothing has been followed any further.
-/

namespace Playbook.Item

open Value

variable {item template v w : Value} {place : List Nat}

/-- What stands in a template, and what stands in its place with the item put in, a container being
told apart from its parts only. -/
inductive Filled (item : Value) : Value → Value → Prop where
  | container {v w : Value} {c : Container} (hv : v.container? = some c)
      (hw : w.container? = some c) : Filled item v w
  | reference {text path : String} {w : Value} (hp : path? text = some path)
      (hw : item.select path = some w) : Filled item (.string text) w
  | leaf {v : Value} (hv : v.container? = none)
      (hn : ∀ text path, v = .string text → path? text = some path → item.select path = none) :
      Filled item v v

/-- At every place of the template stands what fills it there. -/
def FilledThroughout (item template result : Value) : Prop :=
  ∀ place v, template.part? place = some v → ∃ w, result.part? place = some w ∧ Filled item v w

/-- The place lies in what stands at the path of an item reference of the template. -/
def Inside (item template : Value) (place : List Nat) (w : Value) : Prop :=
  ∃ front back text path v, place = front ++ back ∧ template.part? front = some (.string text) ∧
    path? text = some path ∧ item.select path = some v ∧ v.part? back = some w

/-! ## One step inwards -/

theorem substituteItems_eq (item : Value) (items : List Value) :
    substituteItems item items = items.map (substitute item) := by
  induction items with
  | nil => rfl
  | cons v rest ih => rw [substituteItems, ih, List.map_cons]

theorem map_snd_substituteFields (item : Value) (fields : Fields Value) :
    (substituteFields item fields).map Prod.snd = (fields.map Prod.snd).map (substitute item) := by
  induction fields with
  | nil => rfl
  | cons entry rest ih => rw [substituteFields, List.map_cons, ih, List.map_cons, List.map_cons]

theorem container?_substitute {c : Container} (h : v.container? = some c) :
    (substitute item v).container? = some c := by
  cases v with
  | array items =>
    rw [substitute, substituteItems_eq, container?, List.length_map]
    exact h
  | object fields =>
    rw [substitute, container?, names_substituteFields]
    exact h
  | _ => cases h

theorem parts_substitute {c : Container} (h : v.container? = some c) :
    (substitute item v).parts = v.parts.map (substitute item) := by
  cases v with
  | array items => rw [substitute, parts, parts, substituteItems_eq]
  | object fields => rw [substitute, parts, parts, map_snd_substituteFields]
  | _ => cases h

theorem substitute_leaf (h : v.container? = none) :
    substitute item v = (resolve? v item).getD v := by
  cases v with
  | string text => rw [substitute]
  | array items => cases h
  | object fields => cases h
  | _ => rfl

theorem resolve?_eq_some_iff :
    resolve? v item = some w ↔
      ∃ text path, v = .string text ∧ path? text = some path ∧ item.select path = some w := by
  cases v with
  | string text => simp [resolve?, text?, Option.bind_eq_some_iff]
  | _ => simp [resolve?, text?]

theorem filled_substitute (item v : Value) : Filled item v (substitute item v) := by
  cases hc : v.container? with
  | some c => exact .container hc (container?_substitute hc)
  | none =>
    rw [substitute_leaf hc]
    cases hr : resolve? v item with
    | some w =>
      obtain ⟨text, path, rfl, hp, hw⟩ := resolve?_eq_some_iff.1 hr
      exact .reference hp hw
    | none =>
      -- A leaf that nothing replaces stays, so that a reference in it leads to nothing.
      refine .leaf hc fun text path hv hp => ?_
      cases hs : item.select path with
      | none => rfl
      | some w =>
        have hsome := resolve?_eq_some_iff.2 ⟨text, path, hv, hp, hs⟩
        rw [hr] at hsome
        cases hsome

theorem Filled.container?_eq {c : Container} (h : Filled item v w) (hc : v.container? = some c) :
    w.container? = some c := by
  cases h with
  | container hv hw => exact hw.trans (hv.symm.trans hc)
  | reference hp hw => cases hc
  | leaf hv hn =>
    rw [hc] at hv
    cases hv

/-- Only one value fills a leaf. -/
theorem Filled.eq_substitute (h : Filled item v w) (hc : v.container? = none) :
    w = substitute item v := by
  cases h with
  | container hv hw =>
    rw [hc] at hv
    cases hv
  | reference hp hw => exact (substitute_of_select hp hw).symm
  | leaf hv hn =>
    rw [substitute_leaf hc]
    cases hr : resolve? v item with
    | none => rfl
    | some w =>
      obtain ⟨text, path, ht, hp, hw⟩ := resolve?_eq_some_iff.1 hr
      -- The reference leads to nothing, and yet something would replace it.
      rw [hn text path ht hp] at hw
      cases hw

/-! ## Whole places -/

theorem part?_substitute (h : template.part? place = some v) :
    (substitute item template).part? place = some (substitute item v) := by
  induction place generalizing template with
  | nil =>
    obtain rfl := Option.some.inj h
    rfl
  | cons position rest ih =>
    cases hc : template.container? with
    | none =>
      rw [part?_cons_of_leaf hc] at h
      cases h
    | some c =>
      obtain ⟨part, hpart, hrest⟩ := Option.bind_eq_some_iff.1 h
      rw [part?_cons, parts_substitute hc, List.getElem?_map, hpart]
      exact ih hrest

/-- With the item put in there are the places of the template, and those inside what was put in. -/
theorem exists_part?_or_inside (h : (substitute item template).part? place = some w) :
    (∃ v, template.part? place = some v) ∨ Inside item template place w := by
  induction place generalizing template with
  | nil => exact .inl ⟨template, rfl⟩
  | cons position rest ih =>
    cases hc : template.container? with
    | none =>
      rw [substitute_leaf hc] at h
      cases hr : resolve? template item with
      | none =>
        rw [hr, Option.getD_none, part?_cons_of_leaf hc] at h
        cases h
      | some v =>
        -- The template ends here, so that the rest of the place lies in what is put in.
        obtain ⟨text, path, rfl, hp, hv⟩ := resolve?_eq_some_iff.1 hr
        rw [hr] at h
        exact .inr ⟨[], position :: rest, text, path, v, rfl, rfl, hp, hv, h⟩
    | some c =>
      rw [part?_cons, parts_substitute hc, List.getElem?_map] at h
      obtain ⟨filled, hfilled, hrest⟩ := Option.bind_eq_some_iff.1 h
      obtain ⟨part, hpart, rfl⟩ := Option.map_eq_some_iff.1 hfilled
      have hinwards (place : List Nat) : template.part? (position :: place) = part.part? place := by
        rw [part?_cons, hpart]
        rfl
      rcases ih hrest with ⟨v, hv⟩ | ⟨front, back, text, path, v, rfl, hfront, hinside⟩
      · exact .inl ⟨v, (hinwards rest).trans hv⟩
      · exact .inr ⟨position :: front, back, text, path, v, rfl, (hinwards front).trans hfront, hinside⟩

theorem FilledThroughout.part {result : Value} {position : Nat}
    (h : FilledThroughout item template result) (hv : template.parts[position]? = some v) :
    ∃ w, result.parts[position]? = some w ∧ FilledThroughout item v w := by
  -- A place in the part is a place of the template that goes through it.
  have hinwards (place : List Nat) : template.part? (position :: place) = v.part? place := by
    rw [part?_cons, hv]
    rfl
  obtain ⟨w, hw, -⟩ := h [position] v (hinwards [])
  obtain ⟨part, hpart, -⟩ := Option.bind_eq_some_iff.1 hw
  refine ⟨part, hpart, fun place u hu => ?_⟩
  obtain ⟨x, hx, hfilled⟩ := h (position :: place) u ((hinwards place).trans hu)
  rw [part?_cons, hpart] at hx
  exact ⟨x, hx, hfilled⟩

/-- What fills a template at all its places is the template with the item put in. -/
theorem FilledThroughout.eq_substitute {result : Value}
    (h : FilledThroughout item template result) : result = substitute item template := by
  induction template using parts_induction generalizing result with
  | step template ih =>
    obtain ⟨_, hw, hfilled⟩ := h [] template rfl
    obtain rfl := Option.some.inj hw
    cases hc : template.container? with
    | none => exact hfilled.eq_substitute hc
    | some c =>
      -- Both are the same container, so that they are equal part by part.
      have hresult := hfilled.container?_eq hc
      refine eq_of_parts hresult (container?_substitute hc) ?_
      rw [parts_substitute hc]
      apply List.ext_getElem?
      intro position
      rw [List.getElem?_map]
      cases hv : template.parts[position]? with
      | none =>
        have hlength := (length_parts hresult).trans (length_parts hc).symm
        rw [List.getElem?_eq_none_iff] at hv
        exact List.getElem?_eq_none (hlength ▸ hv)
      | some v =>
        obtain ⟨w, hw, hpart⟩ := h.part hv
        rw [hw, ih v (List.mem_of_getElem? hv) hpart]
        rfl

/-- The template with an item put in is the one value in which every container of the template has
its length or names, every item reference to something has given way to what it names, and every
other leaf is the same. Elsewhere there is only what stands inside what was put in. Without item
references the template stays as it is. -/
theorem substitute_fills_references (item template : Value) :
    (∀ result, substitute item template = result ↔ FilledThroughout item template result) ∧
      (∀ place w, (substitute item template).part? place = some w →
        (∃ v, template.part? place = some v) ∨ Inside item template place w) ∧
      (template.ItemFree → substitute item template = template) := by
  refine ⟨fun result => ⟨?_, fun h => h.eq_substitute.symm⟩, ?_, substitute_eq_self⟩
  · rintro rfl place v hv
    exact ⟨_, part?_substitute hv, filled_substitute item v⟩
  · intro place w hw
    exact exists_part?_or_inside hw

/-- What is put in is a list that holds an item reference itself, and a reference to nothing stays.
-/
theorem substitute_fills_references_nested :
    let item : Value := .object [("nested", .array [.string "$item.other"]), ("other", .string "x")]
    let template : Value := .object
      [("to", .string "$item.nested"), ("notes", .array [.string "$item.absent", .int 4])]
    let other : Value := .array [.string "$inputs.owner", .handle ⟨"$item.other", none⟩]
    let result : Value := .object
      [("to", .array [.string "$item.other"]), ("notes", .array [.string "$item.absent", .int 4])]
    FilledThroughout item template result ∧
      result.part? [0, 0] = some (.string "$item.other") ∧ template.part? [0, 0] = none ∧
      Inside item template [0, 0] (.string "$item.other") ∧
      other.ItemFree ∧ substitute item other = other := by
  intro item template other result
  have hresult : substitute item template = result := by decide +kernel
  have hpart : result.part? [0, 0] = some (.string "$item.other") := rfl
  have hinside := (substitute_fills_references item template).2.1 [0, 0] _ (hresult ▸ hpart)
  have hfree : other.ItemFree := by
    simp [other, ItemFree, EachText, EachTextOfItems, path?]
  refine ⟨((substitute_fills_references item template).1 result).1 hresult, hpart, rfl, ?_, hfree,
    (substitute_fills_references item other).2.2 hfree⟩
  exact hinside.resolve_left nofun

end Playbook.Item
