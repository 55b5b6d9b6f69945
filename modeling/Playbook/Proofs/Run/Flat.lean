import Playbook.Proofs.Instruction.Expansion
import Playbook.Proofs.Run.Sequence
import Playbook.Proofs.Run.Step
import Playbook.Call.DryRun

/-!
# Flat execution

The flat execution of a playbook works through one list of entries from left to right. A nested list
is spliced in place; a loop is replaced by the instructions that it expands to when it is reached. A
run is the flat execution of its playbook, and its result mirrors the entries.
-/

namespace Playbook

namespace Entry

mutual

/-- How many loops and nested lists an entry holds. -/
def weight : Entry → Nat
  | .instruction _ => 0
  | .loop _ => 1
  | .nested entries => weightAll entries + 1

def weightAll : List Entry → Nat
  | [] => 0
  | entry :: rest => weight entry + weightAll rest

end

@[simp] theorem weightAll_append (xs ys : List Entry) :
    weightAll (xs ++ ys) = weightAll xs + weightAll ys := by
  induction xs with
  | nil => simp [weightAll]
  | cons x xs ih => simp only [List.cons_append, weightAll, ih]; omega

@[simp] theorem weightAll_instructions (instructions : List Instruction) :
    weightAll (instructions.map .instruction) = 0 := by
  induction instructions with
  | nil => rfl
  | cons i rest ih => simp [weightAll, weight, ih]

end Entry

namespace Runner

open Runner.Action Entry

variable {σ : Type} (r : Runner σ)

/-- The flat execution of entries. -/
def runFlat : List Entry → Action σ Unit
  | [] => done ()
  | .instruction i :: rest => andThen (r.execute i) fun _ => runFlat rest
  | .loop l :: rest =>
    andThen (expansion l) fun instructions => runFlat (instructions.map .instruction ++ rest)
  | .nested entries :: rest => runFlat (entries ++ rest)
termination_by entries => (weightAll entries, entries.length)
decreasing_by
  all_goals simp only [weightAll_append, weightAll_instructions, weightAll, weight]
  · exact Prod.Lex.right' _ (by omega) (by simp)
  · exact Prod.Lex.left _ _ (by omega)
  · exact Prod.Lex.left _ _ (by omega)

/-! ## A run is flat -/

theorem runFlat_instructions (instructions : List Instruction) (rest : List Entry) :
    r.runFlat (instructions.map .instruction ++ rest) =
      andThen (r.executeAll instructions) fun _ => r.runFlat rest := by
  induction instructions with
  | nil => rfl
  | cons i instructions ih =>
    -- Both run the first instruction, and then the rest of them before the other entries.
    rw [List.map_cons, List.cons_append, runFlat, ih, executeAll_cons]
    simp only [andThen_assoc, done_andThen]

mutual

/-- An entry is run in full before the entries after it. -/
theorem runFlat_cons : ∀ (entry : Entry) (rest : List Entry),
    r.runFlat (entry :: rest) = andThen (r.runEntry entry) fun _ => r.runFlat rest
  | .instruction i, rest => by
    rw [runFlat]
    rfl
  | .loop l, rest => by
    rw [runFlat, runEntry_loop, runLoop_eq]
    simp only [andThen_assoc, done_andThen]
    -- What a loop expands to is run before the entries behind it.
    exact andThen_congr _ fun instructions => runFlat_instructions r instructions rest
  | .nested entries, rest => by
    rw [runFlat, runFlat_append entries rest, runEntry_nested]
    simp only [andThen_assoc, done_andThen]

theorem runFlat_append : ∀ (entries rest : List Entry),
    r.runFlat (entries ++ rest) = andThen (r.runEntries entries) fun _ => r.runFlat rest
  | [], rest => rfl
  | entry :: entries, rest => by
    rw [List.cons_append, runFlat_cons entry (entries ++ rest), runFlat_append entries rest,
      runEntries_cons]
    simp only [andThen_assoc, done_andThen]

end

/-- The flat execution ends as the run does, with a success in place of the results. -/
theorem runFlat_eq (entries : List Entry) :
    r.runFlat entries = andThen (r.run entries) fun _ => done () := by
  have h := runFlat_append r entries []
  rw [List.append_nil, runFlat] at h
  rw [h, run_eq]
  simp only [andThen_assoc, done_andThen]

/-! ## Results -/

def joined : Value → Value → Value
  | .array first, .array second => .array (first ++ second)
  | first, _ => first

theorem run_append (xs ys : List Entry) :
    r.run (xs ++ ys) =
      andThen (r.run xs) fun first => andThen (r.run ys) fun second =>
        done (joined first second) := by
  rw [run_eq, run_eq, run_eq, runEntries_append]
  simp only [andThen_assoc, done_andThen, joined]

mutual

/-- A value mirrors an entry that is run from one world to another: it is the answer to the call of
an instruction, or a list of what mirrors the instructions of a loop or the entries of a nested
list. -/
inductive Mirrors (r : Runner σ) : Entry → World σ → Value → World σ → Prop where
  | instruction {i : Instruction} {w w' : World σ} {answer : Value} {call : Call}
      (ran : r.execute i w = (.ok answer, w'))
      (answered : r.invoker call w.chain = (.ok answer, w'.chain))
      (noted : w'.calls = w.calls ++ [call]) :
      Mirrors r (.instruction i) w answer w'
  | loop {l : Loop} {w w' : World σ} {items results : List Value} {instructions : List Instruction}
      (source : l.items w.store = .ok items)
      (expanded : l.expand w.store = .ok instructions)
      (each : MirrorsAll r (instructions.map .instruction) w results w')
      (size : results.length = items.length * l.templates.length) :
      Mirrors r (.loop l) w (.array results) w'
  | nested {entries : List Entry} {w w' : World σ} {results : List Value}
      (each : MirrorsAll r entries w results w')
      (size : results.length = entries.length) :
      Mirrors r (.nested entries) w (.array results) w'

/-- Values mirror entries one by one, each entry run from where the one before it ended. -/
inductive MirrorsAll (r : Runner σ) : List Entry → World σ → List Value → World σ → Prop where
  | nil {w : World σ} : MirrorsAll r [] w [] w
  | cons {entry : Entry} {rest : List Entry} {w between w' : World σ} {v : Value} {vs : List Value}
      (head : Mirrors r entry w v between)
      (tail : MirrorsAll r rest between vs w') :
      MirrorsAll r (entry :: rest) w (v :: vs) w'

end

theorem MirrorsAll.length_eq {r : Runner σ} {entries : List Entry} {results : List Value} :
    ∀ {w w' : World σ}, MirrorsAll r entries w results w' → results.length = entries.length := by
  induction entries generalizing results with
  | nil =>
    intro w w' h
    cases h
    rfl
  | cons entry rest ih =>
    intro w w' h
    cases h with
    | cons _ tail => simp [ih tail]

theorem mirrors_instruction {i : Instruction} {w w' : World σ} {v : Value}
    (h : r.execute i w = (.ok v, w')) : Mirrors r (.instruction i) w v w' := by
  obtain ⟨call, ha, hc⟩ := execute_eq_ok h
  exact .instruction h ha hc

theorem mirrorsAll_instructions {instructions : List Instruction} {w w' : World σ}
    {vs : List Value} (h : r.executeAll instructions w = (.ok vs, w')) :
    MirrorsAll r (instructions.map .instruction) w vs w' := by
  induction instructions generalizing w vs with
  | nil =>
    obtain ⟨hv, rfl⟩ := Prod.mk.inj h
    rw [← Except.ok.inj hv]
    exact .nil
  | cons i rest ih =>
    rw [executeAll_cons] at h
    obtain ⟨v, between, hi, hrest⟩ := andThen_eq_ok.1 h
    obtain ⟨ws, hall, rfl⟩ := andThen_done_eq_ok.1 hrest
    exact .cons (mirrors_instruction r hi) (ih hall)

theorem mirrors_loop {l : Loop} {w w' : World σ} {v : Value}
    (h : r.runEntry (.loop l) w = (.ok v, w')) : Mirrors r (.loop l) w v w' := by
  rw [runEntry_loop, runLoop_eq, andThen_assoc] at h
  obtain ⟨instructions, between, he, hrest⟩ := andThen_eq_ok.1 h
  obtain ⟨vs, hall, rfl⟩ := andThen_done_eq_ok.1 hrest
  unfold expansion at he
  cases hexp : l.expand w.store with
  | error e =>
    rw [hexp] at he
    cases he
  | ok expanded =>
    rw [hexp] at he
    obtain ⟨hi, rfl⟩ := Prod.mk.inj he
    obtain rfl := Except.ok.inj hi
    -- An expansion that succeeds has an instruction for each item and each template.
    obtain ⟨items, hitems, hsize⟩ := Loop.expand_eq_ok hexp
    have hmirrors := mirrorsAll_instructions r hall
    refine .loop hitems hexp hmirrors ?_
    rw [hmirrors.length_eq, List.length_map, hsize]

mutual

theorem mirrors_of_runEntry : ∀ (entry : Entry) {w w' : World σ} {v : Value},
    r.runEntry entry w = (.ok v, w') → Mirrors r entry w v w'
  | .instruction _, _, _, _, h => mirrors_instruction r h
  | .loop _, _, _, _, h => mirrors_loop r h
  | .nested entries, w, w', v, h => by
    rw [runEntry_nested] at h
    obtain ⟨vs, hall, rfl⟩ := andThen_done_eq_ok.1 h
    have hmirrors := mirrorsAll_of_runEntries entries hall
    exact .nested hmirrors hmirrors.length_eq

theorem mirrorsAll_of_runEntries : ∀ (entries : List Entry) {w w' : World σ} {vs : List Value},
    r.runEntries entries w = (.ok vs, w') → MirrorsAll r entries w vs w'
  | [], w, w', vs, h => by
    obtain ⟨hv, rfl⟩ := Prod.mk.inj h
    rw [← Except.ok.inj hv]
    exact .nil
  | entry :: rest, w, w', vs, h => by
    rw [runEntries_cons] at h
    obtain ⟨v, between, hentry, hrest⟩ := andThen_eq_ok.1 h
    obtain ⟨ws, hall, rfl⟩ := andThen_done_eq_ok.1 hrest
    exact .cons (mirrors_of_runEntry entry hentry) (mirrorsAll_of_runEntries rest hall)

end

/-- A run makes the calls of the flat execution of its playbook, ends in its world and fails as it
fails. One playbook after another runs as both in one list. The results of a run that succeeds
mirror its entries. -/
theorem run_sequential (entries : List Entry) (w : World σ) :
    r.runFlat entries w = ((r.run entries w).1.map fun _ => (), (r.run entries w).2) ∧
    (∀ more, r.run (entries ++ more) w =
      andThen (r.run entries) (fun first => andThen (r.run more) fun second =>
        done (joined first second)) w) ∧
    ∀ result w', r.run entries w = (.ok result, w') →
      ∃ results, result = .array results ∧ MirrorsAll r entries w results w' := by
  refine ⟨?_, fun more => ?_, fun result w' h => ?_⟩
  · rw [runFlat_eq]
    unfold andThen
    rcases r.run entries w with ⟨e | v, w'⟩ <;> rfl
  -- A list of two parts is run as one part and then the other.
  · rw [run_append]
  · rw [run_eq] at h
    obtain ⟨results, hall, rfl⟩ := andThen_done_eq_ok.1 h
    exact ⟨results, rfl, mirrorsAll_of_runEntries r entries hall⟩

/-- A nested list that attaches one contract, and a loop that attaches two. -/
def attachments : List Entry :=
  [.nested [.instruction ⟨none, "Vault", none, "at", [.string "0x1"], .path "vault", .static⟩],
    .loop ⟨none, .items [.string "a", .string "b"],
      [.object [("contract", .string "Lib"), ("run", .string "at"),
        ("inputs", .array [.string "$item"])]]⟩]

theorem run_sequential_attachments :
    let r : Runner Nat := ⟨DryRun.invoker, ArtifactSet.empty.source, .default⟩
    let w : World Nat := ⟨.empty, 0, []⟩
    let results : List Value := [.array [.handle ⟨"Vault", some "0x1"⟩],
      .array [.handle ⟨"Lib", some "a"⟩, .handle ⟨"Lib", some "b"⟩]]
    ∃ w', r.run attachments w = (.ok (.array results), w') ∧
      MirrorsAll r attachments w results w' := by
  intro r w results
  have hsome : (r.run attachments w).1.toOption = some (.array results) := by decide +kernel
  have hran : r.run attachments w = (.ok (.array results), (r.run attachments w).2) := by
    rcases hrun : r.run attachments w with ⟨e | v, w'⟩
    · rw [hrun] at hsome
      cases hsome
    · rw [hrun] at hsome
      obtain rfl : v = .array results := Option.some.inj hsome
      rfl
  obtain ⟨vs, hvs, hmirrors⟩ := (run_sequential r attachments w).2.2 _ _ hran
  obtain rfl : results = vs := Value.array.inj hvs
  exact ⟨_, hran, hmirrors⟩

end Runner

end Playbook
