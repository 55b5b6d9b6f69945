import Playbook.Proofs.Output.Writes
import Playbook.Proofs.Run.Step
import Playbook.Proofs.State.Replay

/-!
# What an instruction does

The trace of an instruction lists the calls and the writes that it makes as it is carried out: it
registers its contract, makes at most one call, and writes the answer until a write fails. The calls
of a world grow by those of the trace, and its state is the one before with the writes replayed.
-/

namespace Playbook

open Store (Assignment)

namespace OutputSpec

/-- The writes that storing makes of the writes of a result: each in turn until one fails. -/
def made : List Write → Store → List Assignment
  | [], _ => []
  | write :: rest, store =>
    match destination write.2 with
    | .error _ => []
    | .ok (space, place) =>
      ⟨space, place, write.1⟩ ::
        match Store.set space place write.1 store with
        | (.ok (), store) => made rest store
        | (.error _, _) => []

theorem replay_made (writes : List Write) (store : Store) :
    store.replay (made writes store) = (Store.Action.each Write.make writes store).2 := by
  induction writes generalizing store with
  | nil => rfl
  | cons write rest ih =>
    rw [Store.Action.each_cons, Store.Action.followedBy, made]
    rcases make_cases write with ⟨space, place, hd, hm⟩ | ⟨fault, hd, hm⟩
    · rw [hd, hm]
      dsimp only
      rw [Store.replay_cons, Assignment.make]
      rcases Store.set space place write.1 store with ⟨e | _, store'⟩
      · rfl
      · exact ih store'
    · rw [hd, hm]
      rfl

end OutputSpec

namespace Runner

variable {σ : Type}

/-- Calls and writes to the state, each in the order in which they were made. -/
structure Trace where
  calls : List Call
  writes : List Assignment

/-- The write that registers a contract, unless something is there. -/
def registration (contract : String) (store : Store) : List Assignment :=
  if (store.get? .contracts contract).isSome then []
  else [⟨.contracts, contract, .handle ⟨contract, none⟩⟩]

theorem replay_registration (contract : String) (store : Store) :
    store.replay (registration contract store) = (register contract store).2 := by
  unfold registration register
  split <;> rfl

/-- The calls and the writes that an instruction makes as it is carried out in a world. -/
def trace (r : Runner σ) (i : Instruction) (w : World σ) : Trace :=
  let registered := registration i.contract w.store
  match register i.contract w.store with
  | (.error _, _) => ⟨[], registered⟩
  | (.ok (), store) =>
    match r.callOf i store with
    | .error _ => ⟨[], registered⟩
    | .ok call =>
      match r.invoker call w.chain with
      | (.error _, _) => ⟨[call], registered⟩
      | (.ok answer, _) =>
        ⟨[call], registered ++ OutputSpec.made (i.outputs.writes answer) store⟩

/-- To carry out an instruction is to make the calls and the writes of its trace. -/
theorem Ends.trace_eq {r : Runner σ} {i : Instruction} {w w' : World σ}
    {outcome : Except Error Value} (h : Ends r i w outcome w') :
    w'.calls = w.calls ++ (r.trace i w).calls ∧
      w'.store = w.store.replay (r.trace i w).writes := by
  have hregistered := replay_registration i.contract w.store
  unfold trace
  cases h with
  | unregistered hregister =>
    rw [hregister] at hregistered ⊢
    exact ⟨(List.append_nil _).symm, hregistered.symm⟩
  | unready hregister hcall =>
    rw [hregister] at hregistered ⊢
    dsimp only
    rw [hcall]
    exact ⟨(List.append_nil _).symm, hregistered.symm⟩
  | refused hregister hcall hrefusal =>
    rw [hregister] at hregistered ⊢
    dsimp only
    rw [hcall]
    dsimp only
    rw [hrefusal]
    exact ⟨rfl, hregistered.symm⟩
  | answered hregister hcall hanswer hstore =>
    rw [hregister] at hregistered ⊢
    dsimp only
    rw [hcall]
    dsimp only
    rw [hanswer]
    dsimp only
    -- The registration is replayed first, and then the writes of the answer, as far as they went.
    rw [Store.replay_append, hregistered, OutputSpec.replay_made, ← OutputSpec.store_eq, hstore]
    exact ⟨rfl, rfl⟩

/-- An instruction that succeeds has made exactly one call. -/
theorem calls_trace_of_ok {r : Runner σ} {i : Instruction} {w w' : World σ} {answer : Value}
    (h : r.execute i w = (.ok answer, w')) : ∃ call, (r.trace i w).calls = [call] := by
  obtain ⟨call, _, hcalls⟩ := execute_eq_ok h
  have htrace := (perform_ends r i w).trace_eq.1
  rw [← execute_world, h, hcalls] at htrace
  exact ⟨call, (List.append_cancel_left htrace).symm⟩

end Runner

end Playbook
