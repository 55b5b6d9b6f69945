import Playbook.Proofs.State.Set

/-!
# Logs of writes

A log lists writes to the state in the order in which they were made. To replay it is to make them
again, those that fail included. What is read apart from every write of a log is read after it.
-/

namespace Playbook.Store

open Value

/-- A value, and the place of the state that it is written to. -/
structure Assignment where
  space : Namespace
  path : String
  value : Value

def Assignment.make (a : Assignment) : Action Unit :=
  set a.space a.path a.value

def replay (store : Store) (log : List Assignment) : Store :=
  log.foldl (fun store a => (a.make store).2) store

@[simp] theorem replay_nil (store : Store) : store.replay [] = store := rfl

@[simp] theorem replay_cons (store : Store) (a : Assignment) (log : List Assignment) :
    store.replay (a :: log) = ((a.make store).2).replay log := rfl

theorem replay_append (store : Store) (first second : List Assignment) :
    store.replay (first ++ second) = (store.replay first).replay second :=
  List.foldl_append

/-! ## What a log leaves alone -/

/-- A place of a namespace is apart from a write, which goes to another namespace or to a path that
parts from it. -/
def Assignment.Apart (a : Assignment) (store : Store) (space : Namespace) (place : Path) : Prop :=
  a.space = space → Parts (store.root space) (Path.parse a.path) place

/-- What is read apart from a write is read after it, and stays apart from any write that it was
apart from. -/
theorem Assignment.frame {a : Assignment} {store : Store} {space : Namespace} {place : Path}
    {v : Value} (hread : store.read? space place = some v) (ha : a.Apart store space place) :
    (a.make store).2.read? space place = some v ∧
      ∀ b : Assignment, b.Apart store space place → b.Apart (a.make store).2 space place := by
  unfold Assignment.make
  by_cases hr : Refused a.path a.value
  · rw [set_of_refused store hr]
    exact ⟨hread, fun _ hb => hb⟩
  rw [set_of_not_refused hr rfl]
  by_cases hs : a.space = space
  · subst hs
    -- Only writes to the namespace of the place need to part from it.
    have hparts := ha rfl
    refine ⟨?_, fun b hb he => ?_⟩
    · rw [read?_setRoot_same]
      exact lookup_write_of_parts hparts (lookup_root hread)
    · rw [root, root?_setRoot_same]
      exact parts_write hparts (hb he) (lookup_root hread)
  · have hne : space ≠ a.space := fun h => hs h.symm
    refine ⟨?_, fun b hb he => ?_⟩
    · rw [read?_setRoot_of_ne store place _ hne]
      exact hread
    · rw [root, root?_setRoot_of_ne store _ hne]
      exact hb he

/-- What is read apart from every write of a log is read after them. -/
theorem read?_replay {store : Store} {log : List Assignment} {space : Namespace} {place : Path}
    {v : Value} (hread : store.read? space place = some v)
    (hlog : ∀ a ∈ log, a.Apart store space place) :
    (store.replay log).read? space place = some v := by
  induction log generalizing store with
  | nil => exact hread
  | cons a log ih =>
    obtain ⟨ha, hrest⟩ := List.forall_mem_cons.1 hlog
    obtain ⟨hread', hapart⟩ := Assignment.frame hread ha
    exact ih hread' fun b hb => hapart b (hrest b hb)

end Playbook.Store
