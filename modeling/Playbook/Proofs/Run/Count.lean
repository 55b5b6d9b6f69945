import Playbook.Proofs.Run.Failure
import Playbook.Proofs.Run.Invariant

/-!
# Counting instructions

The instructions of a playbook can be counted before it is run, in the state that the run starts
from. A run that succeeds makes a call for each instruction that it completes, and its result holds
an answer for each call. The main statement: the count is the number of both, as long as every loop
still has its items of the start when the run comes to it.
-/

namespace Playbook

namespace Entry

mutual

/-- The answers in the result of an entry, in the order of the entry's instructions. -/
def answers : Entry → Value → List Value
  | .instruction _, answer => [answer]
  | .loop _, .array results => results
  | .nested entries, .array results => answersOf entries results
  | _, _ => []

def answersOf : List Entry → List Value → List Value
  | entry :: rest, result :: results => answers entry result ++ answersOf rest results
  | _, _ => []

end

theorem countAll_instructions (instructions : List Instruction) (rest : List Entry) (store : Store) :
    countAll store (instructions.map .instruction ++ rest) =
      (countAll store rest).map (instructions.length + ·) := by
  induction instructions with
  | nil => cases h : countAll store rest <;> simp [h, Except.map]
  | cons i instructions ih =>
    simp only [List.map_cons, List.cons_append, countAll, count, Except.bind, ih]
    cases countAll store rest with
    | error e => rfl
    | ok n => simp only [Except.map, List.length_cons, Except.ok.injEq]; omega

theorem countAll_append (xs ys : List Entry) (store : Store) :
    countAll store (xs ++ ys) =
      (countAll store xs).bind fun n => (countAll store ys).map (n + ·) := by
  induction xs with
  | nil => cases h : countAll store ys <;> simp [h, countAll, Except.map, Except.bind]
  | cons x xs ih =>
    simp only [List.cons_append, countAll, ih]
    cases count store x <;> cases countAll store xs <;> cases countAll store ys <;>
      simp [Except.map, Except.bind, Nat.add_assoc]

end Entry

namespace Runner

open Runner.Action Entry

variable {σ : Type} {r : Runner σ}

/-! ## Calls and answers -/

theorem MirrorsAll.exists_calls_of_instructions {instructions : List Instruction} {w w' : World σ}
    {results : List Value} (h : MirrorsAll r (instructions.map .instruction) w results w') :
    ∃ made, w'.calls = w.calls ++ made ∧ made.length = results.length := by
  induction instructions generalizing w results with
  | nil => cases h; exact ⟨[], by simp, rfl⟩
  | cons i rest ih =>
    cases h with
    | cons head tail =>
      cases head with
      | instruction _ _ noted =>
        obtain ⟨made, hmade, hlength⟩ := ih tail
        exact ⟨_ :: made, by rw [hmade, noted, List.append_assoc]; rfl, by simp [hlength]⟩

mutual

/-- Between the worlds of an entry there is one call for each of its answers. -/
theorem Mirrors.exists_calls : ∀ {entry : Entry} {w w' : World σ} {result : Value},
    Mirrors r entry w result w' →
      ∃ made, w'.calls = w.calls ++ made ∧ made.length = (answers entry result).length
  | .instruction _, _, _, _, .instruction _ _ noted => ⟨_, noted, by simp [answers]⟩
  | .loop _, _, _, _, .loop _ _ each _ => by
    simpa only [answers] using each.exists_calls_of_instructions
  | .nested _, _, _, _, .nested each _ => by
    simpa only [answers] using each.exists_calls

theorem MirrorsAll.exists_calls : ∀ {entries : List Entry} {w w' : World σ} {results : List Value},
    MirrorsAll r entries w results w' →
      ∃ made, w'.calls = w.calls ++ made ∧ made.length = (answersOf entries results).length
  | [], _, _, _, .nil => ⟨[], by simp, by simp [answersOf]⟩
  | _ :: _, _, _, _, .cons head tail => by
    obtain ⟨first, hfirst, hlength⟩ := head.exists_calls
    obtain ⟨others, hothers, hrest⟩ := tail.exists_calls
    exact ⟨first ++ others, by rw [hothers, hfirst, List.append_assoc],
      by simp [answersOf, hlength, hrest]⟩

end

/-! ## Loops -/

/-- Whenever a run of the entries from a world comes to a loop, the loop has the items that it has
in the starting state. -/
def Steady (r : Runner σ) (start : Store) (entries : List Entry) (w : World σ) : Prop :=
  ∀ l rest completed mid, Reaches r entries w completed (.loop l :: rest) mid →
    l.items mid.store = l.items start

/-- What is left to do has its loops from the playbook. -/
theorem Reaches.allOf {todo left : List Entry} {w w' : World σ}
    {completed : List (Instruction × Trace)} {L : Loop → Prop}
    (h : Reaches r todo w completed left w') (hall : AllOf (fun _ => True) L todo) :
    AllOf (fun _ => True) L left := by
  induction h with
  | refl => exact hall
  | instruction _ _ ih => exact ih hall.2
  | loop _ _ ih => exact ih (allOf_append.2 ⟨allOf_instructions.2 (by simp), hall.2⟩)
  | nested _ ih => exact ih (allOf_append.2 hall)

/-- Loops over authored lists are steady. -/
theorem steady_of_literal {entries : List Entry} (start : Store) (w : World σ)
    (h : AllOf (fun _ => True) (fun l => ∃ list, l.source = .items list) entries) :
    Steady r start entries w := by
  intro l rest completed mid hreach
  obtain ⟨⟨list, hl⟩, _⟩ := hreach.allOf h
  simp only [Loop.items, hl]

/-- A loop that the run starts with is steady, and so is the playbook if it has no other. -/
theorem steady_loop_cons {l : Loop} {rest : List Entry} (w : World σ)
    (h : AllOf (fun _ => True) (fun _ => False) rest) : Steady r w.store (.loop l :: rest) w := by
  intro l' rest' completed mid hreach
  cases hreach with
  | refl => rfl
  | loop _ onward =>
    -- No loop is left after the first one.
    have hnone := onward.allOf (L := fun _ => False)
      (allOf_append.2 ⟨allOf_instructions.2 (by simp), h⟩)
    exact hnone.1.elim

/-! ## The count -/

/-- A flat execution that succeeds works through all entries. -/
theorem reaches_end_of_runFlat (entries : List Entry) {w w' : World σ}
    (h : r.runFlat entries w = (.ok (), w')) : ∃ completed, Reaches r entries w completed [] w' := by
  fun_induction runFlat r entries generalizing w with
  | case1 => cases h; exact ⟨[], .refl⟩
  | case2 i rest ih =>
    obtain ⟨answer, between, hran, hrest⟩ := andThen_eq_ok.1 h
    obtain ⟨completed, hreach⟩ := ih hrest
    exact ⟨_, .instruction hran hreach⟩
  | case3 l rest ih =>
    obtain ⟨instructions, between, hexpand, hrest⟩ := andThen_eq_ok.1 h
    obtain ⟨hexpanded, rfl⟩ := expansion_eq_ok hexpand
    obtain ⟨completed, hreach⟩ := ih instructions hrest
    exact ⟨completed, .loop hexpanded hreach⟩
  | case4 entries rest ih =>
    obtain ⟨completed, hreach⟩ := ih h
    exact ⟨completed, .nested hreach⟩

/-- As many instructions are completed as are counted in a state from which the loops are steady. -/
theorem Reaches.length_completed {todo : List Entry} {w w' : World σ} {start : Store}
    {completed : List (Instruction × Trace)} {n : Nat} (h : Reaches r todo w completed [] w')
    (hsteady : Steady r start todo w) (hcount : countAll start todo = .ok n) :
    completed.length = n := by
  generalize hl : [] = left at h
  induction h generalizing n with
  | refl =>
    subst hl
    exact Except.ok.inj hcount
  | @instruction _ rest _ _ between _ _ _ ran _ ih =>
    -- Whatever loop the rest comes to, the whole comes to as well.
    have hrest : Steady r start rest between := fun l rest _ mid hr =>
      hsteady l rest _ mid (.instruction ran hr)
    simp only [countAll, count, Except.bind] at hcount
    obtain ⟨m, hm, rfl⟩ := Outcome.map_eq_ok.1 hcount
    simp [ih hrest hm hl, Nat.add_comm]
  | @loop l _ rest _ w _ _ expanded _ ih =>
    have hitems := hsteady l rest [] w .refl
    obtain ⟨list, hlist, hlength⟩ := Loop.expand_eq_ok expanded
    apply ih (fun l rest done mid hr => hsteady l rest done mid (.loop expanded hr)) _ hl
    -- The loop had its items of the start, and so it was counted as long as it is.
    rw [countAll_instructions, hlength]
    simpa only [countAll, count, Loop.count, ← hitems, hlist, Except.map, Except.bind] using hcount
  | nested _ ih =>
    apply ih (fun l rest done mid hr => hsteady l rest done mid (.nested hr)) _ hl
    simpa only [countAll_append, countAll, count] using hcount

/-- The completed instructions have made one call each. -/
theorem Reaches.length_calls {todo left : List Entry} {w w' : World σ}
    {completed : List (Instruction × Trace)} (h : Reaches r todo w completed left w') :
    ∃ made, w'.calls = w.calls ++ made ∧ made.length = completed.length := by
  refine ⟨_, h.trace_eq.1, ?_⟩
  have hone := h.one_call
  clear h
  induction completed with
  | nil => rfl
  | cons done rest ih =>
    obtain ⟨⟨call, hcall⟩, hrest⟩ := List.forall_mem_cons.1 hone
    simp [hcall, ih hrest]

/-- The instructions that are counted up front are the calls that a run makes, and the answers in
its result, when it succeeds and every loop that it comes to has its items of the start; as every
loop does whose items are authored. -/
theorem run_makes_counted_calls (r : Runner σ) (entries : List Entry) (w : World σ) :
    (AllOf (fun _ => True) (fun l => ∃ list, l.source = .items list) entries →
      Steady r w.store entries w) ∧
    ∀ n result w', countAll w.store entries = .ok n → Steady r w.store entries w →
      r.run entries w = (.ok result, w') →
      ∃ results made, result = .array results ∧ w'.calls = w.calls ++ made ∧ made.length = n ∧
        (answersOf entries results).length = n := by
  refine ⟨steady_of_literal w.store w, fun n result w' hcount hsteady h => ?_⟩
  have hflat : r.runFlat entries w = (.ok (), w') := by
    rw [runFlat_eq]
    exact andThen_eq_ok.2 ⟨result, w', h, rfl⟩
  obtain ⟨completed, hreach⟩ := reaches_end_of_runFlat entries hflat
  obtain ⟨made, hmade, hlength⟩ := hreach.length_calls
  rw [run_eq] at h
  obtain ⟨results, hran, rfl⟩ := andThen_done_eq_ok.1 h
  obtain ⟨called, hcalled, hanswers⟩ := (mirrorsAll_of_runEntries r entries hran).exists_calls
  -- The calls are the same in both accounts: one of each completed instruction, and one of each
  -- answer.
  obtain rfl : made = called := List.append_cancel_left (hmade.symm.trans hcalled)
  have hn := hlength.trans (hreach.length_completed hsteady hcount)
  exact ⟨results, made, rfl, hmade, hn, hanswers.symm.trans hn⟩

/-- A loop over two owners in the inputs, and then an attachment in a nested list, which stores its
answer: the loop is come to in the state of the start. -/
theorem run_makes_counted_calls_owners :
    let r : Runner Nat := ⟨DryRun.invoker, ArtifactSet.empty.source, .default⟩
    let store := Store.ofInputs [("owners", .array [.string "a", .string "b"])]
    let template : Value := .object [("contract", .string "Lib"), ("run", .string "at"),
      ("inputs", .array [.string "$item"])]
    let entries : List Entry := [.loop ⟨none, .reference "$inputs.owners", [template]⟩,
      .nested [attaching "Vault" "0x1" (.path "$inputs.owners")]]
    let w : World Nat := ⟨store, 0, []⟩
    countAll store entries = .ok 3 ∧ ∃ results w', r.run entries w = (.ok (.array results), w') ∧
      w'.calls.length = 3 ∧ (answersOf entries results).length = 3 := by
  intro r store template entries w
  have hcount : countAll store entries = .ok 3 := Outcome.toOption_eq_some.1 (by decide +kernel)
  have hsteady : Steady r store entries w :=
    steady_loop_cons w ⟨⟨trivial, trivial⟩, trivial⟩
  have hsome : (r.run entries w).1.toOption.isSome = true := by decide +kernel
  obtain ⟨result, hresult⟩ := Option.isSome_iff_exists.1 hsome
  have hrun : r.run entries w = (.ok result, (r.run entries w).2) :=
    Outcome.eq_ok_of_toOption hresult
  obtain ⟨results, made, rfl, hmade, hlength, hanswers⟩ :=
    (run_makes_counted_calls r entries w).2 3 result _ hcount hsteady hrun
  refine ⟨hcount, results, _, hrun, ?_, hanswers⟩
  simpa [w, hmade] using hlength

end Runner

end Playbook
