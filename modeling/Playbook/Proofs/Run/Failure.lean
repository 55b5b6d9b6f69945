import Playbook.Proofs.Run.Flat
import Playbook.Proofs.Run.Trace
import Playbook.Proofs.Run.Untagged

/-!
# Runs that fail

A run that fails completes some instructions, comes to an entry that fails, and stops there. Its
calls and writes are those of the completed instructions and then those of the failing one; its
error is the cause of the failure with the tag of the failing entry, however deep that was nested.
-/

namespace Playbook.Runner

open Runner.Action Store

variable {σ : Type}

/-- Working through a list of entries from one world to another completes some instructions, each
with its trace, and leaves a list to do. A nested list is spliced in place, and a loop is replaced
by what it expands to when it is reached. -/
inductive Reaches (r : Runner σ) : List Entry → World σ → List (Instruction × Trace) →
    List Entry → World σ → Prop where
  | refl {todo : List Entry} {w : World σ} : Reaches r todo w [] todo w
  | instruction {i : Instruction} {rest left : List Entry} {w between w' : World σ} {answer : Value}
      {completed : List (Instruction × Trace)}
      (ran : r.execute i w = (.ok answer, between))
      (onward : Reaches r rest between completed left w') :
      Reaches r (.instruction i :: rest) w ((i, r.trace i w) :: completed) left w'
  | loop {l : Loop} {instructions : List Instruction} {rest left : List Entry} {w w' : World σ}
      {completed : List (Instruction × Trace)}
      (expanded : l.expand w.store = .ok instructions)
      (onward : Reaches r (instructions.map .instruction ++ rest) w completed left w') :
      Reaches r (.loop l :: rest) w completed left w'
  | nested {entries rest left : List Entry} {w w' : World σ}
      {completed : List (Instruction × Trace)}
      (onward : Reaches r (entries ++ rest) w completed left w') :
      Reaches r (.nested entries :: rest) w completed left w'

/-- An entry fails in a world, with what it does on the way, its summary and the cause: an
instruction that cannot be carried out, or a loop that does not expand. -/
inductive Fails (r : Runner σ) (w : World σ) : Entry → Trace → String → Error → World σ → Prop where
  | instruction {i : Instruction} {cause : Error} {w' : World σ}
      (failed : r.perform i w = (.error cause, w')) :
      Fails r w (.instruction i) (r.trace i w) i.summary cause w'
  | loop {l : Loop} {cause : Error} (unexpanded : l.expand w.store = .error cause) :
      Fails r w (.loop l) ⟨[], []⟩ l.summary cause w

variable {r : Runner σ}

/-! ## Up to the failure -/

namespace Reaches

variable {todo left : List Entry} {w w' : World σ} {completed : List (Instruction × Trace)}

/-- Every completed instruction has made exactly one call. -/
theorem one_call (h : Reaches r todo w completed left w') :
    ∀ done ∈ completed, ∃ call, done.2.calls = [call] := by
  induction h with
  | refl => simp
  | instruction ran _ ih => exact List.forall_mem_cons.2 ⟨calls_trace_of_ok ran, ih⟩
  | loop _ _ ih => exact ih
  | nested _ ih => exact ih

/-- The calls and the writes on the way are those of the completed instructions. -/
theorem trace_eq (h : Reaches r todo w completed left w') :
    w'.calls = w.calls ++ completed.flatMap (·.2.calls) ∧
      w'.store = w.store.replay (completed.flatMap (·.2.writes)) := by
  induction h with
  | refl => exact ⟨(List.append_nil _).symm, rfl⟩
  | @instruction i _ _ w _ _ _ _ ran _ ih =>
    have hbetween := (perform_ends r i w).trace_eq
    rw [← execute_world, ran] at hbetween
    rw [ih.1, ih.2, hbetween.1, hbetween.2]
    simp [replay_append]
  | loop _ _ ih => exact ih
  | nested _ ih => exact ih

end Reaches

/-! ## The failure -/

namespace Fails

variable {entry : Entry} {own : Trace} {summary : String} {cause : Error} {w w' : World σ}

theorem untagged (h : Fails r w entry own summary cause w') : cause.Untagged := by
  cases h with
  | instruction failed => exact untagged_perform failed
  | loop unexpanded => exact Loop.untagged_expand unexpanded

theorem runEntry_eq (h : Fails r w entry own summary cause w') :
    r.runEntry entry w = (.error (.step summary cause), w') := by
  rw [← h.untagged.withinStep summary]
  cases h with
  | @instruction i _ _ failed =>
    show r.execute i w = _
    rw [execute, failed]
  | loop unexpanded => exact runEntry_of_expand_error unexpanded

theorem trace_eq (h : Fails r w entry own summary cause w') :
    w'.calls = w.calls ++ own.calls ∧ w'.store = w.store.replay own.writes := by
  cases h with
  | @instruction i _ _ failed =>
    have htrace := (perform_ends r i w).trace_eq
    rw [failed] at htrace
    exact htrace
  | loop _ => exact ⟨(List.append_nil _).symm, rfl⟩

/-- The entries behind an entry that fails play no part. -/
theorem run_eq_error (h : Fails r w entry own summary cause w') (later : List Entry) :
    r.run (entry :: later) w = (.error (.step summary cause), w') := by
  rw [run_eq, runEntries_cons, andThen_eq_error, andThen_eq_error]
  exact .inl (.inl h.runEntry_eq)

end Fails

/-- The flat execution of entries that fails comes to an entry that fails. -/
theorem reaches_of_runFlat (entries : List Entry) {w w' : World σ} {e : Error}
    (h : r.runFlat entries w = (.error e, w')) :
    ∃ completed failing rest mid own summary cause,
      Reaches r entries w completed (failing :: rest) mid ∧
      Fails r mid failing own summary cause w' ∧ e = .step summary cause := by
  fun_induction runFlat r entries generalizing w with
  | case1 => cases h
  | case2 i rest ih =>
    rcases andThen_eq_error.1 h with hfirst | ⟨answer, between, hran, hrest⟩
    · obtain ⟨cause, hperform, rfl⟩ := execute_eq_error hfirst
      -- The first instruction fails itself, with nothing completed before.
      exact ⟨[], .instruction i, rest, w, r.trace i w, i.summary, cause, .refl,
        .instruction hperform, (untagged_perform hperform).withinStep i.summary⟩
    · obtain ⟨completed, failing, left, mid, own, summary, cause, hreach, hfail, he⟩ := ih hrest
      exact ⟨_, failing, left, mid, own, summary, cause, .instruction hran hreach, hfail, he⟩
  | case3 l rest ih =>
    rcases andThen_eq_error.1 h with hfirst | ⟨instructions, between, hexpand, hrest⟩
    · obtain ⟨cause, hcause, rfl, rfl⟩ := expansion_eq_error hfirst
      -- The first loop does not expand, and the world is as it was.
      exact ⟨[], .loop l, rest, w', ⟨[], []⟩, l.summary, cause, .refl, .loop hcause,
        (Loop.untagged_expand hcause).withinStep l.summary⟩
    · obtain ⟨hexpanded, rfl⟩ := expansion_eq_ok hexpand
      obtain ⟨completed, failing, left, mid, own, summary, cause, hreach, hfail, he⟩ :=
        ih instructions hrest
      exact ⟨completed, failing, left, mid, own, summary, cause, .loop hexpanded hreach, hfail, he⟩
  | case4 entries rest ih =>
    obtain ⟨completed, failing, left, mid, own, summary, cause, hreach, hfail, he⟩ := ih h
    exact ⟨completed, failing, left, mid, own, summary, cause, .nested hreach, hfail, he⟩

/-- How a run went that failed with an error and left a world: it completed some instructions, which
led it to a failing entry in a world midway, and stopped there. -/
structure StopsAt (r : Runner σ) (entries : List Entry) (w : World σ) (e : Error) (w' : World σ)
    (completed : List (Instruction × Trace)) (failing : Entry) (mid : World σ) (own : Trace) :
    Prop where
  reached : ∃ rest, Reaches r entries w completed (failing :: rest) mid
  /-- The calls before the failure: one of each completed instruction. -/
  calls_before : (∀ done ∈ completed, ∃ call, done.2.calls = [call]) ∧
    mid.calls = w.calls ++ completed.flatMap (·.2.calls)
  writes_before : mid.store = w.store.replay (completed.flatMap (·.2.writes))
  /-- The calls and the writes after that are those of the failing entry. -/
  calls_after : w'.calls = mid.calls ++ own.calls
  writes_after : w'.store = mid.store.replay own.writes
  /-- What is read midway, apart from the writes of the failing entry, is read in the end. -/
  kept : ∀ space place v, mid.store.read? space place = some v →
    (∀ a ∈ own.writes, a.Apart mid.store space place) → w'.store.read? space place = some v
  /-- The error is the cause of the failure under the tag of the failing entry, and no other tag. -/
  tagged : ∃ summary cause, Fails r mid failing own summary cause w' ∧ e = .step summary cause ∧
    cause.Untagged
  /-- Whatever comes after the failing entry makes no difference. -/
  alone : ∀ later, r.run (failing :: later) mid = (.error e, w')

/-- A run that fails stops at the first failure, wherever it is nested: its calls and writes are
those of the instructions completed before, and then those of the failing one itself; and its error
has one tag, the summary of the instruction that failed or of the loop that did not expand. -/
theorem run_stops_at_failure {entries : List Entry} {w w' : World σ} {e : Error}
    (h : r.run entries w = (.error e, w')) :
    ∃ completed failing mid own, StopsAt r entries w e w' completed failing mid own := by
  -- The failure is found in the flat execution, where no entry is nested any more.
  have hflat : r.runFlat entries w = (.error e, w') := by
    rw [runFlat_eq]
    exact andThen_eq_error.2 (.inl h)
  obtain ⟨completed, failing, rest, mid, own, summary, cause, hreach, hfail, rfl⟩ :=
    reaches_of_runFlat entries hflat
  exact ⟨completed, failing, mid, own, {
    reached := ⟨rest, hreach⟩
    calls_before := ⟨hreach.one_call, hreach.trace_eq.1⟩
    writes_before := hreach.trace_eq.2
    calls_after := hfail.trace_eq.1
    writes_after := hfail.trace_eq.2
    kept := fun space place v hv hapart => by
      rw [hfail.trace_eq.2]
      exact read?_replay hv hapart
    tagged := ⟨summary, cause, hfail, rfl, hfail.untagged⟩
    alone := hfail.run_eq_error }⟩

/-- An instruction that attaches a contract and stores its handle. -/
def attaching (contract address : String) (outputs : OutputSpec) : Entry :=
  .instruction ⟨none, contract, none, "at", [.string address], outputs, .static⟩

/-- A contract without artifact is not deployed, in a loop in a nested list; the instruction behind
the loop is not reached. -/
theorem run_stops_at_missing_artifact :
    let r : Runner Nat := ⟨DryRun.invoker, ArtifactSet.empty.source, .default⟩
    let w : World Nat := ⟨.empty, 0, []⟩
    let deploying : Value := .object [("contract", .string "Ghost"), ("run", .string "new")]
    let entries : List Entry := [attaching "Vault" "0x1" (.path "vault"),
      .nested [.loop ⟨none, .items [.null], [deploying]⟩, attaching "Lib" "0x2" (.path "lib")]]
    let e : Error := .step "Ghost.new" (.artifact "Ghost" "unknown contract 'Ghost'")
    ∃ w', r.run entries w = (.error e, w') ∧ w'.calls.map Call.target = ["Vault.at"] ∧
      ∃ completed failing mid own, StopsAt r entries w e w' completed failing mid own := by
  intro r w deploying entries e
  have herror : Outcome.error? (r.run entries w).1 = some e := by decide +kernel
  have hrun : r.run entries w = (.error e, (r.run entries w).2) :=
    Outcome.eq_error_of_error? herror
  have hcalls : (r.run entries w).2.calls.map Call.target = ["Vault.at"] := by decide +kernel
  exact ⟨_, hrun, hcalls, run_stops_at_failure hrun⟩

/-- The failing instruction may itself write over what a completed one has written: the second
instruction stores its answer where the first one did, and then fails. -/
theorem run_failure_overwrites :
    let r : Runner Nat := ⟨DryRun.invoker, ArtifactSet.empty.source, .default⟩
    let w : World Nat := ⟨.empty, 0, []⟩
    let first := attaching "Vault" "0x1" (.path "$outputs.last")
    let second := attaching "Token" "0x2"
      (.list [.path "$outputs.last", .path "$outputs.list[5000]"])
    let answer : Value := .handle ⟨"Vault", some "0x1"⟩
    let e : Error := .step "Token.at" (.resolution (.slot "list[5000]" (.beyondPadding 5000 0)))
    (r.run [first] w).1.toOption = some (.array [answer]) ∧
      (r.run [first] w).2.store.get? .outputs "last" = some answer ∧
      (r.run [first, second] w).1 = .error e ∧
      (r.run [first, second] w).2.store.get? .outputs "last" ≠ some answer := by
  refine ⟨by decide +kernel, by decide +kernel, Outcome.error?_eq_some.1 ?_, by decide +kernel⟩
  decide +kernel

end Playbook.Runner
