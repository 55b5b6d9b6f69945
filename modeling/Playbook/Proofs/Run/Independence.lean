import Mathlib.Data.List.Basic
import Playbook.Proofs.Run.Lockstep
import Playbook.Proofs.Run.WellFormed
import Playbook.Proofs.Value.Texts

/-!
# Namespaces that a run does not touch

A playbook may name a namespace nowhere: in no string that could be followed, and in no destination.
Two states that are the same outside of it are then the same to a run. The main statement: the run
makes the same calls from both, with the same results or the same error, and leaves the namespace as
it was in each.
-/

namespace Playbook

/-- A text is a reference to a place in a namespace. -/
def Reference.LeadsInto (space : Namespace) (text : String) : Prop :=
  (parse? text).map (·.space) = some space

instance (space : Namespace) (text : String) : Decidable (Reference.LeadsInto space text) :=
  inferInstanceAs (Decidable (_ = _))

/-- No string in the value is a reference to a place in a namespace. -/
def Value.Avoids (space : Namespace) (v : Value) : Prop :=
  v.EachText fun text => ¬ Reference.LeadsInto space text

/-- A destination is in a namespace. -/
def DestinedFor (space : Namespace) (target : String) : Prop :=
  (destination target).toOption.map (·.1) = some space

instance (space : Namespace) (target : String) : Decidable (DestinedFor space target) :=
  inferInstanceAs (Decidable (_ = _))

/-- No string of the instruction leads into a namespace, and no destination is there. -/
structure Instruction.Avoids (space : Namespace) (i : Instruction) : Prop where
  inputs : ∀ v ∈ i.inputs, v.Avoids space
  locator : ∀ text, i.locator = some text → ¬ Reference.LeadsInto space text
  targets : ∀ target ∈ i.outputs.destinations, ¬ DestinedFor space target

/-- The items of the loop are authored, no string in them or in the templates leads into a
namespace, and no destination of an instruction that it expands to is there. -/
structure Loop.Avoids (space : Namespace) (l : Loop) : Prop where
  items : ∃ list, l.source = .items list ∧ ∀ item ∈ list, item.Avoids space
  templates : ∀ template ∈ l.templates, template.Avoids space
  targets : ∀ store instructions, l.expand store = .ok instructions → ∀ i ∈ instructions,
    ∀ target ∈ i.outputs.destinations, ¬ DestinedFor space target

/-! ## Expansions -/

theorem Loop.Avoids.expand_eq {space : Namespace} {l : Loop} (h : l.Avoids space)
    (first second : Store) : l.expand first = l.expand second := by
  obtain ⟨list, hl, _⟩ := h.items
  simp only [Loop.expand, Loop.items, hl]

/-- A loop that avoids a namespace expands to instructions that do. -/
theorem Loop.Avoids.expanded {space : Namespace} {l : Loop} {store : Store}
    {instructions : List Instruction} (h : l.Avoids space)
    (he : l.expand store = .ok instructions) : ∀ i ∈ instructions, i.Avoids space := by
  intro i hi
  obtain ⟨list, hl, hitems⟩ := h.items
  obtain ⟨list', hlist, item, hitem, template, htemplate, hbuild⟩ := mem_of_expand he hi
  simp only [Loop.items, hl, Except.ok.injEq] at hlist
  subst hlist
  obtain ⟨fields, hfields, hdescribes⟩ := Instruction.build_eq_ok hbuild
  -- A substituted template has its strings from the item and from the template.
  have htexts : Value.Avoids space (.object fields) := hfields ▸
    Item.eachText_substitute (hitems item hitem) template (h.templates template htemplate)
  refine ⟨fun v hv => ?_, fun text htext => ?_, h.targets store instructions he i hi⟩
  · obtain ⟨inputs, hinputs, hmem⟩ := hdescribes.mem_inputs hv
    exact Value.eachTextOfItems_iff.1 (Value.EachTextOfFields.get? htexts hinputs) v hmem
  · have hlocator := hdescribes.locator
    rw [htext] at hlocator
    exact Value.EachTextOfFields.get? htexts (Instruction.get?_of_optionalText hlocator)

/-! ## States -/

namespace Store

/-- Two states are the same outside of a namespace. -/
def SameOutside (space : Namespace) (first second : Store) : Prop :=
  ∀ other, other ≠ space → first.root? other = second.root? other

/-- Two states that hold given roots in a namespace, and are the same outside of it. -/
structure Twins (space : Namespace) (a b : Option Value) (first second : Store) : Prop where
  outside : first.SameOutside space second
  root_first : first.root? space = a
  root_second : second.root? space = b

variable {space : Namespace} {a b : Option Value} {first second : Store}

theorem SameOutside.get?_eq (h : first.SameOutside space second) {other : Namespace}
    (ho : other ≠ space) (path : String) : first.get? other path = second.get? other path := by
  simp only [get?, h other ho]

theorem Twins.setRoot (h : Twins space a b first second) {other : Namespace} (ho : other ≠ space)
    (root : Value) : Twins space a b (first.setRoot other root) (second.setRoot other root) := by
  refine ⟨fun s hs => ?_, ?_, ?_⟩
  · by_cases hso : s = other
    · simp [hso]
    · simp [root?_setRoot_of_ne _ _ hso, h.outside s hs]
  · simp [root?_setRoot_of_ne _ _ ho.symm, h.root_first]
  · simp [root?_setRoot_of_ne _ _ ho.symm, h.root_second]

/-- A write into another namespace. -/
theorem lockstep_set {other : Namespace} (ho : other ≠ space) (path : String) (v : Value) :
    Lockstep (Twins space a b) (set other path v) := by
  intro first second h
  have hroot : first.root other = second.root other := by simp only [root, h.outside other ho]
  unfold set
  dsimp only
  -- The root that is written into is the same in both states.
  rw [← hroot]
  split
  · exact ⟨rfl, h⟩
  · rcases (first.root other).write (·.merge v) (Path.parse path) with ⟨fault | old, root⟩
    · exact ⟨rfl, h.setRoot ho root⟩
    · exact ⟨rfl, h.setRoot ho root⟩

theorem Action.lockstep_each {α : Type} {R : Store → Store → Prop} {action : α → Action Unit}
    {xs : List α} (h : ∀ x ∈ xs, Lockstep R (action x)) : Lockstep R (Action.each action xs) := by
  induction xs with
  | nil => exact fun _ _ hst => ⟨rfl, hst⟩
  | cons x xs ih =>
    obtain ⟨hx, hxs⟩ := List.forall_mem_cons.1 h
    intro s t hst
    have hstep := hx s t hst
    rw [Action.each_cons]
    unfold Action.followedBy
    -- Both states come to the next write, or both stop with the same error.
    generalize action x s = one at hstep
    generalize action x t = two at hstep
    obtain ⟨outcome, s'⟩ := one
    obtain ⟨_, t'⟩ := two
    obtain ⟨rfl, hafter⟩ := hstep
    cases outcome with
    | error e => exact ⟨rfl, hafter⟩
    | ok _ => exact ih hxs s' t' hafter

end Store

open Store

variable {space : Namespace} {a b : Option Value} {first second : Store}

/-- A result is stored in other namespaces. -/
theorem OutputSpec.lockstep_store {spec : OutputSpec} (result : Value)
    (h : ∀ target ∈ spec.destinations, ¬ DestinedFor space target) :
    Lockstep (Twins space a b) (spec.store result) := by
  rw [store_eq]
  refine Action.lockstep_each fun write hw => ?_
  rcases make_cases write with ⟨other, path, hd, hm⟩ | ⟨fault, _, hm⟩
  -- The destination of the write is one of the specification.
  · have ho : other ≠ space := by
      rintro rfl
      exact h write.2 (mem_writes hw).2 (by simp [DestinedFor, hd, Except.toOption])
    rw [hm]
    exact lockstep_set ho path write.1
  · rw [hm]
    exact fun _ _ hst => ⟨rfl, hst⟩

/-! ## Instructions -/

theorem Store.SameOutside.resolve?_eq (h : first.SameOutside space second) {v : Value}
    (hv : v.Avoids space) : v.resolve? first = v.resolve? second := by
  cases v with
  | string text =>
    simp only [Value.resolve?]
    cases hp : Reference.parse? text with
    | none => rfl
    | some reference =>
      refine h.get?_eq (fun he => hv ?_) reference.path
      simp [Reference.LeadsInto, hp, he]
  | _ => rfl

namespace Instruction

variable {i : Instruction}

theorem resolvedInput_eq (h : first.SameOutside space second) {v : Value} (hv : v.Avoids space) :
    resolvedInput first v = resolvedInput second v := by
  cases v with
  | object fields =>
    have hfields := Value.eachTextOfFields_iff.1 hv
    simp only [resolvedInput, resolvedFields, Value.object.injEq]
    exact List.filterMap_congr fun entry hentry => by rw [h.resolve?_eq (hfields entry hentry)]
  | _ => simp only [resolvedInput, h.resolve?_eq hv]

theorem Avoids.resolvedInputs_eq (hi : i.Avoids space) (h : first.SameOutside space second) :
    i.resolvedInputs first = i.resolvedInputs second :=
  List.map_congr_left fun v hv => resolvedInput_eq h (hi.inputs v hv)

theorem Avoids.address_eq (hi : i.Avoids space) (h : first.SameOutside space second) :
    i.address first = i.address second := by
  unfold address
  cases hl : i.locator with
  | none => rfl
  | some locator =>
    have hresolved : (Value.string locator).resolve? first = (Value.string locator).resolve? second :=
      h.resolve?_eq (hi.locator locator hl)
    simp only [hresolved]

end Instruction

namespace Runner

open Runner.Action Entry

variable {σ : Type} {r : Runner σ} {i : Instruction}

theorem callOf_eq (hi : i.Avoids space) (h : first.SameOutside space second) :
    r.callOf i first = r.callOf i second := by
  simp only [callOf, instanceOf, hi.address_eq h, hi.resolvedInputs_eq h]

theorem lockstep_register (hspace : space ≠ .contracts) (contract : String) :
    Lockstep (Twins space a b) (register contract) := by
  intro first second h
  unfold register
  rw [← h.outside.get?_eq hspace.symm]
  split
  · exact ⟨rfl, h⟩
  · exact lockstep_set hspace.symm contract _ first second h

/-- Two worlds that differ in one namespace of their states only, where they hold given roots. -/
structure Twins (space : Namespace) (a b : Option Value) (w v : World σ) : Prop where
  store : Store.Twins space a b w.store v.store
  chain : w.chain = v.chain
  calls : w.calls = v.calls

theorem lockstep_onStore {α : Type} {action : Store.Action α}
    (h : Lockstep (Store.Twins space a b) action) :
    Lockstep (Twins space a b (σ := σ)) (onStore action) := by
  intro w v hwv
  obtain ⟨houtcome, hstore⟩ := h w.store v.store hwv.store
  exact ⟨houtcome, hstore, hwv.chain, hwv.calls⟩

theorem lockstep_prepare (hi : i.Avoids space) : Lockstep (Twins space a b) (r.prepare i) :=
  fun _ _ h => ⟨callOf_eq hi h.store.outside, h⟩

theorem lockstep_make (call : Call) : Lockstep (Twins space a b) (r.make call) := by
  intro w v h
  unfold make
  rw [← h.chain, ← h.calls]
  rcases r.invoker call w.chain with ⟨source | answer, chain⟩
  · exact ⟨rfl, h.store, rfl, rfl⟩
  · exact ⟨rfl, h.store, rfl, rfl⟩

theorem lockstep_execute (hspace : space ≠ .contracts) (hi : i.Avoids space) :
    Lockstep (Twins space a b) (r.execute i) := by
  have hperform : Lockstep (Twins space a b) (r.perform i) := by
    -- Each of the four parts goes alike, the call with the same arguments.
    rw [perform_eq]
    refine lockstep_andThen (lockstep_onStore (lockstep_register hspace _)) fun _ => ?_
    refine lockstep_andThen (lockstep_prepare hi) fun call => ?_
    refine lockstep_andThen (lockstep_make call) fun answer => ?_
    refine lockstep_andThen (lockstep_onStore ?_) fun _ => lockstep_done answer
    exact OutputSpec.lockstep_store answer hi.targets
  intro w v h
  obtain ⟨houtcome, hafter⟩ := hperform w v h
  rw [execute_eq, execute_eq, houtcome]
  exact ⟨rfl, hafter⟩

/-- A run of a playbook that avoids a namespace other than that of the contracts goes alike from any
two states that are the same outside of it: with the same calls, and the same results or the same
error. It leaves the namespace as it was in each, and the rest of the two states the same. -/
theorem run_ignores_namespace {entries : List Entry} {chain : σ} {calls : List Call}
    {one two : Except Error Value} {w v : World σ} (hspace : space ≠ .contracts)
    (hall : AllOf (Instruction.Avoids space) (Loop.Avoids space) entries)
    (h : first.SameOutside space second)
    (hone : r.run entries ⟨first, chain, calls⟩ = (one, w))
    (htwo : r.run entries ⟨second, chain, calls⟩ = (two, v)) :
    one = two ∧ w.calls = v.calls ∧ w.chain = v.chain ∧
      w.store.root? space = first.root? space ∧ v.store.root? space = second.root? space ∧
      w.store.SameOutside space v.store := by
  -- What each namespace holds is part of the relation, so that it is preserved too.
  have halike : r.Alike (Twins space (first.root? space) (second.root? space))
      (Instruction.Avoids space) (Loop.Avoids space) := {
    executes := fun i hi => lockstep_execute hspace hi
    expands := fun l w v hl _ => hl.expand_eq w.store v.store
    expanded := fun l w instructions hl he => hl.expanded he }
  have htwins : Twins space (first.root? space) (second.root? space)
      (⟨first, chain, calls⟩ : World σ) ⟨second, chain, calls⟩ := ⟨⟨h, rfl, rfl⟩, rfl, rfl⟩
  obtain ⟨houtcome, hafter⟩ := lockstep_run halike hall _ _ htwins
  rw [hone, htwo] at houtcome hafter
  exact ⟨houtcome, hafter.calls, hafter.chain, hafter.store.root_first, hafter.store.root_second,
    hafter.store.outside⟩

/-- Whoever the owner in the inputs is, a reference to them that comes as an answer is passed on as
a string, by an instruction of a loop whose items look like references as well. -/
theorem run_ignores_namespace_owner :
    let r : Runner Nat :=
      ⟨fun _ count => (.ok (.string "$inputs.owner"), count + 1), ArtifactSet.empty.source, .default⟩
    let template : Value := .object [("contract", .string "Lib"), ("run", .string "at"),
      ("inputs", .array [.string "$item.name", .string "$outputs.last"]),
      ("outputs", .string "$deployed.seen")]
    let l : Loop := ⟨none, .items [.object [("name", .string "$item")]], [template]⟩
    let i : Instruction := ⟨none, "Vault", none, "at", [.string "0x1"], .path "last", .static⟩
    let one := r.run [.instruction i, .loop l] ⟨.ofInputs [("owner", .string "0xff")], 0, []⟩
    let two := r.run [.instruction i, .loop l] ⟨.empty, 0, []⟩
    one.2.calls.map (·.arguments) = [[.string "0x1"], [.string "$item", .string "$inputs.owner"]] ∧
      one.1 = two.1 ∧ one.2.calls = two.2.calls ∧
      one.2.store.get? .inputs "owner" = some (.string "0xff") ∧
      two.2.store.root? .inputs = none := by
  intro r template l i one two
  have hi : i.Avoids .inputs := {
    inputs := by
      simp only [i, List.forall_mem_singleton, Value.Avoids, Value.EachText]
      decide +kernel
    locator := by simp [i]
    targets := by
      simp only [i, OutputSpec.destinations, List.forall_mem_singleton]
      decide +kernel }
  -- The destinations of the one instruction that the loop expands to.
  have hexpanded : (l.expand .empty).toOption.map (·.map (·.outputs.destinations)) =
      some [["$deployed.seen"]] := by decide +kernel
  have hl : l.Avoids .inputs := {
    items := by
      refine ⟨_, rfl, ?_⟩
      simp only [List.forall_mem_singleton, Value.Avoids, Value.EachText, Value.EachTextOfFields]
      decide +kernel
    templates := by
      simp only [l, template, List.forall_mem_singleton, Value.Avoids, Value.EachText,
        Value.EachTextOfFields, Value.EachTextOfItems]
      decide +kernel
    targets := by
      intro store instructions he other hmem target htarget
      have hempty : l.expand .empty = .ok instructions := he
      have hall : instructions.map (·.outputs.destinations) = [["$deployed.seen"]] := by
        simpa [hempty, Except.toOption] using hexpanded
      have hother : other.outputs.destinations ∈ [["$deployed.seen"]] :=
        hall ▸ List.mem_map_of_mem hmem
      simp only [List.mem_singleton.1 hother, List.mem_singleton] at htarget
      subst htarget
      decide +kernel }
  have hall : AllOf (Instruction.Avoids .inputs) (Loop.Avoids .inputs) [.instruction i, .loop l] :=
    ⟨hi, hl, trivial⟩
  have hsame : Store.SameOutside .inputs (.ofInputs [("owner", .string "0xff")]) .empty := by
    intro other ho
    cases other <;> first | rfl | exact absurd rfl ho
  obtain ⟨houtcome, hcalls, _, hfirst, hsecond, _⟩ :=
    run_ignores_namespace (by decide) hall hsame (Prod.eta one).symm (Prod.eta two).symm
  refine ⟨by decide +kernel, houtcome, hcalls, ?_, hsecond⟩
  rw [Store.get?, hfirst]
  decide +kernel

end Runner

end Playbook
