import Playbook.Output.Write
import Playbook.Proofs.State.Writes

/-!
# Storing a result as writes

A specification makes a list of writes of a result: each target in authoring order, with the value
that goes there. To store the result is to make these writes one after another until one fails.
-/

namespace Playbook

namespace Store.Action

/-- The second action after the first one, unless that fails. -/
def followedBy (first second : Action Unit) : Action Unit := fun store =>
  match first store with
  | (.ok (), store) => second store
  | (.error e, store) => (.error e, store)

variable {α β : Type}

theorem each_cons (action : α → Action Unit) (a : α) (rest : List α) :
    each action (a :: rest) = followedBy (action a) (each action rest) := by
  funext store
  simp only [each, followedBy]
  rcases action a store with ⟨e | _, s⟩ <;> rfl

theorem followedBy_assoc (first second third : Action Unit) :
    followedBy (followedBy first second) third = followedBy first (followedBy second third) := by
  funext store
  unfold followedBy
  rcases first store with ⟨e | _, s⟩ <;> rfl

theorem each_append (action : α → Action Unit) (xs ys : List α) :
    each action (xs ++ ys) = followedBy (each action xs) (each action ys) := by
  induction xs with
  | nil => rfl
  | cons x xs ih => rw [List.cons_append, each_cons, each_cons, ih, followedBy_assoc]

theorem each_singleton (action : α → Action Unit) (a : α) : each action [a] = action a := by
  funext store
  simp only [each]
  rcases action a store with ⟨e | _, s⟩ <;> rfl

theorem each_map (action : β → Action Unit) (f : α → β) (xs : List α) :
    each action (xs.map f) = each (fun a => action (f a)) xs := by
  induction xs with
  | nil => rfl
  | cons x xs ih => rw [List.map_cons, each_cons, each_cons, ih]

theorem each_flatMap (action : β → Action Unit) (f : α → List β) (xs : List α) :
    each action (xs.flatMap f) = each (fun a => each action (f a)) xs := by
  induction xs with
  | nil => rfl
  | cons x xs ih => rw [List.flatMap_cons, each_append, each_cons, ih]

/-- What every action of a sequence preserves, the sequence does, wherever it stops. -/
theorem each_preserves {P : Store → Prop} {action : α → Action Unit} {xs : List α} {store : Store}
    (h : ∀ a ∈ xs, ∀ s, P s → P (action a s).2) (hs : P store) : P (each action xs store).2 := by
  induction xs generalizing store with
  | nil => exact hs
  | cons x xs ih =>
    have hx := h x List.mem_cons_self store hs
    rw [each_cons, followedBy]
    -- A failure stops the sequence with the state that it leaves.
    rcases hax : action x store with ⟨e | _, s⟩
    · rw [hax] at hx
      exact hx
    · rw [hax] at hx
      exact ih (fun a ha => h a (List.mem_cons_of_mem x ha)) hx

/-- A sequence of actions fails as one of them does. -/
theorem each_eq_error {action : α → Action Unit} {xs : List α} {store : Store}
    {e : Error} (h : (each action xs store).1 = .error e) :
    ∃ a ∈ xs, ∃ s, (action a s).1 = .error e := by
  induction xs generalizing store with
  | nil => cases h
  | cons x xs ih =>
    rw [each_cons, followedBy] at h
    rcases hx : action x store with ⟨e' | _, s⟩
    · rw [hx] at h
      exact ⟨x, List.mem_cons_self, store, by rw [hx]; exact h⟩
    · rw [hx] at h
      obtain ⟨a, ha, s', hs'⟩ := ih h
      exact ⟨a, List.mem_cons_of_mem x ha, s', hs'⟩

end Store.Action

namespace OutputSpec

open Store.Action

/-- A value and the target it is written to. -/
abbrev Write := Value × String

def Write.make (write : Write) : Store.Action Unit :=
  writeTo write.1 write.2

def sourceWrites (result : Value) (entry : String × Targets) : List Write :=
  match result.select entry.1 with
  | none => []
  | some v => entry.2.paths.map fun target => (v, target)

mutual

def writes (result : Value) : OutputSpec → List Write
  | .path target => [(result, target)]
  | .mapping sources => sources.flatMap (sourceWrites result)
  | .list specs => writesOf result specs

def writesOf (result : Value) : List OutputSpec → List Write
  | [] => []
  | spec :: rest => writes result spec ++ writesOf result rest

end

/-! ## Storing is writing -/

theorem storeSource_eq (result : Value) (entry : String × Targets) :
    storeSource result entry = each Write.make (sourceWrites result entry) := by
  rw [storeSource, sourceWrites]
  cases result.select entry.1 with
  | none => rfl
  | some v =>
    dsimp only
    rw [each_map]
    rfl

theorem storeAll_cons (result : Value) (spec : OutputSpec) (rest : List OutputSpec) :
    storeAll result (spec :: rest) = followedBy (spec.store result) (storeAll result rest) := by
  funext state
  simp only [storeAll, followedBy]
  rcases spec.store result state with ⟨e | _, s⟩ <;> rfl

mutual

/-- To store a result is to make its writes one after another. -/
theorem store_eq (result : Value) : ∀ spec : OutputSpec,
    spec.store result = each Write.make (spec.writes result)
  | .path target => by
    rw [writes, each_singleton, store]
    rfl
  | .mapping sources => by
    rw [writes, each_flatMap, store]
    exact congrArg (each · sources) (funext (storeSource_eq result))
  | .list specs => by
    rw [writes, store]
    exact storeAll_eq result specs

theorem storeAll_eq (result : Value) : ∀ specs : List OutputSpec,
    storeAll result specs = each Write.make (writesOf result specs)
  | [] => by
    rw [writesOf, each]
    rfl
  | spec :: rest => by
    rw [writesOf, each_append, ← store_eq result spec, ← storeAll_eq result rest, storeAll_cons]

end

/-! ## What is written, and where -/

theorem mem_sourceWrites {result : Value} {entry : String × Targets} {write : Write}
    (h : write ∈ sourceWrites result entry) :
    result.select entry.1 = some write.1 ∧ write.2 ∈ entry.2.paths := by
  rw [sourceWrites] at h
  cases hs : result.select entry.1 with
  | none =>
    rw [hs] at h
    cases h
  | some v =>
    rw [hs] at h
    obtain ⟨target, ht, rfl⟩ := List.mem_map.1 h
    exact ⟨rfl, ht⟩

mutual

/-- What is written can be read in the result, and goes to a destination of the specification. -/
theorem mem_writes {result : Value} {write : Write} : ∀ {spec : OutputSpec},
    write ∈ spec.writes result →
      (∃ path, result.lookup path = some write.1) ∧ write.2 ∈ spec.destinations
  | .path target, h => by
    rw [writes, List.mem_singleton] at h
    subst h
    refine ⟨⟨[], rfl⟩, ?_⟩
    rw [destinations]
    exact List.mem_singleton_self target
  | .mapping sources, h => by
    rw [writes] at h
    obtain ⟨entry, he, hw⟩ := List.mem_flatMap.1 h
    obtain ⟨hv, ht⟩ := mem_sourceWrites hw
    refine ⟨⟨_, hv⟩, ?_⟩
    rw [destinations]
    exact List.mem_flatMap.2 ⟨entry, he, ht⟩
  | .list specs, h => by
    rw [writes] at h
    rw [destinations]
    exact mem_writesOf h

theorem mem_writesOf {result : Value} {write : Write} : ∀ {specs : List OutputSpec},
    write ∈ writesOf result specs →
      (∃ path, result.lookup path = some write.1) ∧ write.2 ∈ destinationsOf specs
  | [], h => by
    rw [writesOf] at h
    cases h
  | spec :: rest, h => by
    rw [writesOf] at h
    rw [destinationsOf]
    rcases List.mem_append.1 h with hs | hr
    · exact ⟨(mem_writes hs).1, List.mem_append_left _ (mem_writes hs).2⟩
    · exact ⟨(mem_writesOf hr).1, List.mem_append_right _ (mem_writesOf hr).2⟩

end

/-- A write is one to the state at the place that its target names, or none at all. -/
theorem make_cases (write : Write) :
    (∃ space path, destination write.2 = .ok (space, path) ∧
      write.make = Store.set space path write.1) ∨
    ∃ fault, destination write.2 = .error fault ∧
      write.make = fun store => (.error (.validation fault), store) := by
  -- A target that is no destination fails before the state is touched.
  unfold Write.make
  cases hd : destination write.2 with
  | error fault =>
    refine .inr ⟨fault, rfl, ?_⟩
    funext store
    rw [writeTo, hd]
  | ok place =>
    refine .inl ⟨place.1, place.2, rfl, ?_⟩
    funext store
    rw [writeTo, hd]

/-- What every write of a value in the result to a destination of the specification preserves, is
preserved when the result is stored. -/
theorem store_preserves {P : Store → Prop} {result : Value} {spec : OutputSpec} {store : Store}
    (h : ∀ v path target, result.lookup path = some v → target ∈ spec.destinations →
      ∀ s, P s → P (Write.make (v, target) s).2)
    (hs : P store) : P (spec.store result store).2 := by
  rw [store_eq]
  refine each_preserves (fun write hw s hP => ?_) hs
  obtain ⟨⟨path, hv⟩, ht⟩ := mem_writes hw
  exact h write.1 path write.2 hv ht s hP

/-- Storing a result fails as a write does, or for a destination of the specification is at fault.
-/
theorem error_of_store {result : Value} {spec : OutputSpec} {store : Store} {e : Error}
    (h : (spec.store result store).1 = .error e) :
    (∃ fault, e = .resolution fault) ∨ ∃ target ∈ spec.destinations, ∃ fault,
      destination target = .error fault ∧ e = .validation fault := by
  rw [store_eq] at h
  obtain ⟨write, hw, s, hmake⟩ := each_eq_error h
  rcases make_cases write with ⟨space, path, _, hm⟩ | ⟨fault, hd, hm⟩
  · rw [hm] at hmake
    exact .inl (Store.unresolved_of_set_error hmake)
  · rw [hm] at hmake
    exact .inr ⟨write.2, (mem_writes hw).2, fault, hd, (Except.error.inj hmake).symm⟩

/-- To store a well-formed result is to write well-formed values. -/
theorem writes_store {result : Value} (spec : OutputSpec) (store : Store)
    (hr : result.WellFormed) : Store.Writes store (spec.store result store).2 := by
  refine store_preserves (P := Store.Writes store) (fun v path target hv _ s hs => ?_) .refl
  rcases make_cases (v, target) with ⟨space, place, _, hm⟩ | ⟨fault, _, hm⟩
  · rw [hm]
    exact .set hs space place (Value.wellFormed_lookup hr hv)
  · rw [hm]
    exact hs

end OutputSpec

end Playbook
