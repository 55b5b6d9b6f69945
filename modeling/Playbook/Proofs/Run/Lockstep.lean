import Playbook.Proofs.Run.Invariant

/-!
# Runs in lockstep

A relation of worlds from which an action leads to the same outcome in related worlds is kept by the
action. What every instruction of a class keeps, a run keeps, if the loops of the playbook expand
alike in related worlds to instructions of the class.
-/

namespace Playbook

/-- From related states the action comes to the same outcome, and to related states. -/
def Lockstep {S O : Type} (R : S → S → Prop) (action : S → O × S) : Prop :=
  ∀ first second, R first second →
    (action first).1 = (action second).1 ∧ R (action first).2 (action second).2

namespace Runner

open Runner.Action Entry

variable {σ α β : Type} {R : World σ → World σ → Prop}

theorem lockstep_done (a : α) : Lockstep R (done a : Action σ α) :=
  fun _ _ h => ⟨rfl, h⟩

theorem lockstep_andThen {first : Action σ α} {next : α → Action σ β} (hf : Lockstep R first)
    (hn : ∀ a, Lockstep R (next a)) : Lockstep R (andThen first next) := by
  intro w v h
  have hstep := hf w v h
  unfold andThen
  generalize first w = one at hstep
  generalize first v = two at hstep
  obtain ⟨outcome, w'⟩ := one
  obtain ⟨_, v'⟩ := two
  obtain ⟨rfl, hafter⟩ := hstep
  cases outcome with
  | error e => exact ⟨rfl, hafter⟩
  | ok a => exact hn a w' v' hafter

/-- A relation that the instructions of a class keep, and loops of a class that expand alike to such
instructions. -/
structure Alike (r : Runner σ) (R : World σ → World σ → Prop) (I : Instruction → Prop)
    (L : Loop → Prop) : Prop where
  executes : ∀ i, I i → Lockstep R (r.execute i)
  expands : ∀ l (w v : World σ), L l → R w v → l.expand w.store = l.expand v.store
  expanded : ∀ l (w : World σ) instructions, L l → l.expand w.store = .ok instructions →
    ∀ i ∈ instructions, I i

variable {r : Runner σ} {I : Instruction → Prop} {L : Loop → Prop}

theorem lockstep_executeAll (h : r.Alike R I L) {instructions : List Instruction}
    (hi : ∀ i ∈ instructions, I i) : Lockstep R (r.executeAll instructions) := by
  induction instructions with
  | nil => exact lockstep_done []
  | cons i rest ih =>
    obtain ⟨hfirst, hrest⟩ := List.forall_mem_cons.1 hi
    rw [executeAll_cons]
    refine lockstep_andThen (h.executes i hfirst) fun v => ?_
    exact lockstep_andThen (ih hrest) fun _ => lockstep_done _

theorem lockstep_runLoop (h : r.Alike R I L) {l : Loop} (hl : L l) : Lockstep R (r.runLoop l) := by
  intro w v hwv
  simp only [runLoop, ← h.expands l w v hl hwv]
  cases hexpand : l.expand w.store with
  | error e => exact ⟨rfl, hwv⟩
  | ok instructions =>
    exact lockstep_executeAll h (h.expanded l w instructions hl hexpand) w v hwv

mutual

theorem lockstep_runEntry (h : r.Alike R I L) :
    ∀ entry : Entry, All I L entry → Lockstep R (r.runEntry entry)
  | .instruction i, hi => h.executes i hi
  | .loop l, hl => by
    rw [runEntry_loop]
    exact lockstep_andThen (lockstep_runLoop h hl) fun _ => lockstep_done _
  | .nested entries, hall => by
    rw [runEntry_nested]
    exact lockstep_andThen (lockstep_runEntries h entries hall) fun _ => lockstep_done _

theorem lockstep_runEntries (h : r.Alike R I L) :
    ∀ entries : List Entry, AllOf I L entries → Lockstep R (r.runEntries entries)
  | [], _ => lockstep_done []
  | entry :: rest, hall => by
    rw [runEntries_cons]
    refine lockstep_andThen (lockstep_runEntry h entry hall.1) fun v => ?_
    exact lockstep_andThen (lockstep_runEntries h rest hall.2) fun _ => lockstep_done _

end

/-- Runs from related worlds have the same result or the same error, and end in related worlds. -/
theorem lockstep_run (h : r.Alike R I L) {entries : List Entry} (hall : AllOf I L entries) :
    Lockstep R (r.run entries) := by
  rw [run_eq]
  exact lockstep_andThen (lockstep_runEntries h entries hall) fun _ => lockstep_done _

end Runner

end Playbook
