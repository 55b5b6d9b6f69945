import Playbook.Proofs.Run.Sequence

/-!
# What a run preserves

A property of worlds that every instruction preserves, a run preserves, whether it succeeds or
fails; for expanding a loop changes nothing. The instructions may be taken from a class, if the
loops expand to instructions of the class.
-/

namespace Playbook

namespace Entry

mutual

/-- The instructions of an entry have one property, and its loops another. -/
def All (I : Instruction → Prop) (L : Loop → Prop) : Entry → Prop
  | .instruction i => I i
  | .loop l => L l
  | .nested entries => AllOf I L entries

def AllOf (I : Instruction → Prop) (L : Loop → Prop) : List Entry → Prop
  | [] => True
  | entry :: rest => All I L entry ∧ AllOf I L rest

end

mutual

theorem All.mono {I I' : Instruction → Prop} {L L' : Loop → Prop} (hi : ∀ i, I i → I' i)
    (hl : ∀ l, L l → L' l) : ∀ {entry : Entry}, All I L entry → All I' L' entry
  | .instruction i, h => hi i h
  | .loop l, h => hl l h
  | .nested _, h => AllOf.mono hi hl h

theorem AllOf.mono {I I' : Instruction → Prop} {L L' : Loop → Prop} (hi : ∀ i, I i → I' i)
    (hl : ∀ l, L l → L' l) : ∀ {entries : List Entry}, AllOf I L entries → AllOf I' L' entries
  | [], _ => trivial
  | _ :: _, h => ⟨All.mono hi hl h.1, AllOf.mono hi hl h.2⟩

end

theorem allOf_append {I : Instruction → Prop} {L : Loop → Prop} {xs ys : List Entry} :
    AllOf I L (xs ++ ys) ↔ AllOf I L xs ∧ AllOf I L ys := by
  induction xs with
  | nil => simp [AllOf]
  | cons x xs ih => simp [AllOf, ih, and_assoc]

theorem allOf_instructions {I : Instruction → Prop} {L : Loop → Prop}
    {instructions : List Instruction} :
    AllOf I L (instructions.map .instruction) ↔ ∀ i ∈ instructions, I i := by
  induction instructions with
  | nil => simp [AllOf]
  | cons i rest ih => simp [AllOf, All, ih]

end Entry

namespace Runner

variable {σ α β : Type}

namespace Action

/-- The action leads from worlds with a property to worlds with that property. -/
def Preserves (Q : World σ → Prop) (action : Action σ α) : Prop :=
  ∀ w, Q w → Q (action w).2

theorem preserves_done {Q : World σ → Prop} (a : α) : Preserves Q (done a) :=
  fun _ hw => hw

theorem preserves_andThen {Q : World σ → Prop} {first : Action σ α} {next : α → Action σ β}
    (hf : Preserves Q first)
    (hn : ∀ w a w', Q w → first w = (.ok a, w') → Q w' → Q (next a w').2) :
    Preserves Q (andThen first next) := by
  intro w hw
  have hw' := hf w hw
  rw [andThen]
  rcases hrun : first w with ⟨e | a, between⟩
  · rw [hrun] at hw'
    exact hw'
  · rw [hrun] at hw'
    exact hn w a between hw hrun hw'

end Action

open Runner.Action Entry

/-- A property of worlds that is preserved by instructions of a class, to which loops of a class
expand. -/
structure Invariant (r : Runner σ) (Q : World σ → Prop) (I : Instruction → Prop)
    (L : Loop → Prop) : Prop where
  executes : ∀ i, I i → Preserves Q (r.execute i)
  expands : ∀ l w instructions, L l → Q w → l.expand w.store = .ok instructions →
    ∀ i ∈ instructions, I i

theorem preserves_expansion {Q : World σ → Prop} (l : Loop) : Preserves Q (expansion l) := by
  intro w hw
  rw [expansion]
  cases l.expand w.store <;> exact hw

variable {r : Runner σ} {Q : World σ → Prop} {I : Instruction → Prop} {L : Loop → Prop}

theorem preserves_executeAll (h : r.Invariant Q I L) {instructions : List Instruction}
    (hi : ∀ i ∈ instructions, I i) : Preserves Q (r.executeAll instructions) := by
  induction instructions with
  | nil => exact preserves_done []
  | cons i rest ih =>
    rw [executeAll_cons]
    have hrest := ih fun j hj => hi j (List.mem_cons_of_mem i hj)
    refine preserves_andThen (h.executes i (hi i List.mem_cons_self)) fun _ _ w' _ _ hw' => ?_
    exact preserves_andThen hrest (fun _ _ _ _ _ hw => hw) w' hw'

theorem preserves_runLoop (h : r.Invariant Q I L) {l : Loop} (hl : L l) :
    Preserves Q (r.runLoop l) := by
  rw [runLoop_eq]
  refine preserves_andThen (preserves_expansion l) fun w instructions w' hw he hw' => ?_
  have hi := h.expands l w instructions hl hw (expansion_eq_ok he).1
  exact preserves_executeAll h hi w' hw'

mutual

theorem preserves_runEntry (h : r.Invariant Q I L) :
    ∀ entry : Entry, All I L entry → Preserves Q (r.runEntry entry)
  | .instruction i, hi => h.executes i hi
  | .loop l, hl => by
    rw [runEntry_loop]
    exact preserves_andThen (preserves_runLoop h hl) fun _ _ _ _ _ hw => hw
  | .nested entries, hall => by
    rw [runEntry_nested]
    exact preserves_andThen (preserves_runEntries h entries hall) fun _ _ _ _ _ hw => hw

theorem preserves_runEntries (h : r.Invariant Q I L) :
    ∀ entries : List Entry, AllOf I L entries → Preserves Q (r.runEntries entries)
  | [], _ => preserves_done []
  | entry :: rest, hall => by
    rw [runEntries_cons]
    refine preserves_andThen (preserves_runEntry h entry hall.1) fun _ _ w' _ _ hw' => ?_
    exact preserves_andThen (preserves_runEntries h rest hall.2) (fun _ _ _ _ _ hw => hw) w' hw'

end

/-- A run preserves what its instructions preserve. -/
theorem preserves_run (h : r.Invariant Q I L) {entries : List Entry} (hall : AllOf I L entries) :
    Preserves Q (r.run entries) := by
  rw [run_eq]
  exact preserves_andThen (preserves_runEntries h entries hall) fun _ _ _ _ _ hw => hw

end Runner

end Playbook
