import Playbook.Proofs.Output.Writes

/-!
# The order of the writes

To store a result is to make the writes of its specification one after another, each on the state
that the one before it left, up to the first that fails. The targets are destinations in their
order, and a specification that is empty writes nothing.
-/

namespace Playbook

namespace Store.Action

variable {α : Type} {action : α → Action Unit} {xs : List α} {store later : Store}

/-- The actions succeed one after another, and lead from one state to another. -/
inductive Succeed (action : α → Action Unit) : List α → Store → Store → Prop where
  | nil {store : Store} : Succeed action [] store store
  | cons {x : α} {rest : List α} {store between later : Store}
      (first : action x store = (.ok (), between)) (others : Succeed action rest between later) :
      Succeed action (x :: rest) store later

/-- The actions fail at one of them, after those before it have succeeded. -/
def FailAt (action : α → Action Unit) (xs : List α) (store : Store) (e : Error) (later : Store) :
    Prop :=
  ∃ before x after between, xs = before ++ x :: after ∧ Succeed action before store between ∧
    action x between = (.error e, later)

theorem failAt_nil {e : Error} : ¬ FailAt action [] store e later := by
  rintro ⟨before, x, after, between, hnil, -, -⟩
  simp at hnil

theorem failAt_cons {x : α} {e : Error} :
    FailAt action (x :: xs) store e later ↔ action x store = (.error e, later) ∨
      ∃ between, action x store = (.ok (), between) ∧ FailAt action xs between e later := by
  constructor
  · rintro ⟨before, failing, after, between, hsplit, hbefore, hfailing⟩
    -- The failing action is the first one, or the first one is among those that succeed.
    cases hbefore with
    | nil =>
      obtain ⟨rfl, rfl⟩ := List.cons.inj hsplit
      exact .inl hfailing
    | cons first others =>
      obtain ⟨rfl, rfl⟩ := List.cons.inj hsplit
      exact .inr ⟨_, first, _, failing, after, between, rfl, others, hfailing⟩
  · rintro (hfailing | ⟨middle, first, before, failing, after, between, rfl, hbefore, hfailing⟩)
    · exact ⟨[], x, xs, store, rfl, .nil, hfailing⟩
    · exact ⟨x :: before, failing, after, between, rfl, .cons first hbefore, hfailing⟩

theorem each_eq_ok_iff : each action xs store = (.ok (), later) ↔ Succeed action xs store later := by
  induction xs generalizing store with
  | nil =>
    constructor
    · rintro ⟨⟩
      exact .nil
    · rintro ⟨⟩
      rfl
  | cons x xs ih =>
    rw [each_cons, followedBy]
    constructor
    · intro h
      rcases hx : action x store with ⟨e | _, between⟩
      · rw [hx] at h
        cases h
      · rw [hx] at h
        exact .cons hx (ih.1 h)
    · rintro (_ | ⟨first, others⟩)
      rw [first]
      exact ih.2 others

theorem each_eq_error_iff {e : Error} :
    each action xs store = (.error e, later) ↔ FailAt action xs store e later := by
  induction xs generalizing store with
  | nil => exact iff_of_false nofun failAt_nil
  | cons x xs ih =>
    rw [failAt_cons, each_cons, followedBy]
    rcases hx : action x store with ⟨e' | _, between⟩
    · simp
    · simp [ih]

end Store.Action

namespace OutputSpec

open Store.Action

variable {result : Value}

/-! ## Targets and destinations -/

theorem targets_sourceWrites_sublist (result : Value) (entry : String × Targets) :
    ((sourceWrites result entry).map Prod.snd).Sublist entry.2.paths := by
  rw [sourceWrites]
  -- A source that the result lacks makes no write, so that its targets are left out.
  cases result.select entry.1 with
  | none => exact List.nil_sublist _
  | some v => simp [Function.comp_def]

theorem targets_sources_sublist (result : Value) (sources : List (String × Targets)) :
    ((sources.flatMap (sourceWrites result)).map Prod.snd).Sublist
      (sources.flatMap fun entry => entry.2.paths) := by
  induction sources with
  | nil => exact .slnil
  | cons entry rest ih =>
    rw [List.flatMap_cons, List.flatMap_cons, List.map_append]
    exact (targets_sourceWrites_sublist result entry).append ih

mutual

/-- Every target is a destination, once for each time that it is one, and in their order. -/
theorem targets_sublist (result : Value) : ∀ spec : OutputSpec,
    ((spec.writes result).map Prod.snd).Sublist spec.destinations
  | .path target => by
    rw [writes, destinations]
    exact .refl _
  | .mapping sources => by
    rw [writes, destinations]
    exact targets_sources_sublist result sources
  | .list specs => by
    rw [writes, destinations]
    exact targets_all_sublist result specs

theorem targets_all_sublist (result : Value) : ∀ specs : List OutputSpec,
    ((writesOf result specs).map Prod.snd).Sublist (destinationsOf specs)
  | [] => by
    rw [writesOf, destinationsOf]
    exact .slnil
  | spec :: rest => by
    rw [writesOf, destinationsOf, List.map_append]
    exact (targets_sublist result spec).append (targets_all_sublist result rest)

end

/-! ## Empty specifications -/

mutual

theorem writes_of_isEmpty : ∀ {spec : OutputSpec}, spec.isEmpty = true → spec.writes result = []
  | .path target, h => by
    rw [isEmpty] at h
    cases h
  | .mapping sources, h => by
    rw [isEmpty] at h
    rw [writes, List.isEmpty_iff.1 h]
    rfl
  | .list specs, h => by
    rw [isEmpty] at h
    rw [writes]
    exact writesOf_of_allEmpty h

theorem writesOf_of_allEmpty : ∀ {specs : List OutputSpec},
    allEmpty specs = true → writesOf result specs = []
  | [], _ => by rw [writesOf]
  | spec :: rest, h => by
    rw [allEmpty, Bool.and_eq_true] at h
    rw [writesOf, writes_of_isEmpty h.1, writesOf_of_allEmpty h.2]
    rfl

end

/-- A result is stored when its writes succeed one after another, and else fails as the first of
them that fails: those before it are kept and those after it are not made. The writes go to
destinations of the specification in their order, and an empty specification changes nothing. -/
theorem store_writes_in_order (result : Value) (spec : OutputSpec) (store : Store) :
    (∀ later, spec.store result store = (.ok (), later) ↔
        Succeed Write.make (spec.writes result) store later) ∧
      (∀ e later, spec.store result store = (.error e, later) ↔
        FailAt Write.make (spec.writes result) store e later) ∧
      ((spec.writes result).map Prod.snd).Sublist spec.destinations ∧
      (spec.isEmpty = true → spec.store result store = (.ok (), store)) := by
  rw [store_eq]
  refine ⟨fun later => each_eq_ok_iff, fun e later => each_eq_error_iff,
    targets_sublist result spec, fun h => ?_⟩
  rw [writes_of_isEmpty h]
  rfl

/-- The second of three writes fails: the first one is kept, and the third one is not made. A source
that the result lacks makes no write. -/
theorem store_writes_in_order_halted :
    let result : Value := .object [("tx", .string "0x1")]
    let spec : OutputSpec := .list [.path "last", .list
      [.mapping [("block", .one "never"), ("tx", .many ["all[5000]", "$outputs.later"])]]]
    let idle : OutputSpec := .list [.mapping [], .list []]
    let stored := spec.store result .empty
    let fault := Error.resolution (.slot "all[5000]" (.beyondPadding 5000 0))
    (spec.writes result).map Prod.snd = ["last", "all[5000]", "$outputs.later"] ∧
      FailAt Write.make (spec.writes result) .empty fault stored.2 ∧
      stored.2.get? .outputs "last.tx" = some (.string "0x1") ∧
      stored.2.get? .outputs "later" = none ∧
      idle.isEmpty = true ∧ idle.store result .empty = (.ok (), .empty) := by
  intro result spec idle stored fault
  have hfails : stored = (.error fault, stored.2) := Outcome.eq_error_of_error? (by decide +kernel)
  have hidle : idle.isEmpty = true := by decide +kernel
  exact ⟨by decide +kernel, ((store_writes_in_order result spec .empty).2.1 fault stored.2).1 hfails,
    by decide +kernel, by decide +kernel, hidle,
    (store_writes_in_order result idle .empty).2.2.2 hidle⟩

end OutputSpec

end Playbook
