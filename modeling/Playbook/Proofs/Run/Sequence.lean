import Playbook.Run

/-!
# Runs as sequences of actions

A run is made of actions one after another, and stops at the first that fails. Sequencing is
associative; each function of a run is stated here as a sequence.
-/

namespace Playbook.Runner

variable {σ α β γ : Type}

namespace Action

/-- Changes nothing and has a result. -/
def done (a : α) : Action σ α := fun w => (.ok a, w)

/-- Goes on with the result of an action, unless it fails. -/
def andThen (first : Action σ α) (next : α → Action σ β) : Action σ β := fun w =>
  match first w with
  | (.ok a, w) => next a w
  | (.error e, w) => (.error e, w)

theorem andThen_assoc (first : Action σ α) (next : α → Action σ β) (last : β → Action σ γ) :
    andThen (andThen first next) last = andThen first fun a => andThen (next a) last := by
  funext w
  unfold andThen
  rcases first w with ⟨e | a, w'⟩ <;> rfl

theorem done_andThen (a : α) (next : α → Action σ β) : andThen (done a) next = next a := rfl

theorem andThen_congr (first : Action σ α) {next next' : α → Action σ β}
    (h : ∀ a, next a = next' a) : andThen first next = andThen first next' := by
  rw [funext h]

theorem andThen_eq_ok {first : Action σ α} {next : α → Action σ β} {w w' : World σ} {b : β} :
    andThen first next w = (.ok b, w') ↔
      ∃ a between, first w = (.ok a, between) ∧ next a between = (.ok b, w') := by
  unfold andThen
  rcases first w with ⟨e | a, between⟩
  · constructor
    · intro h
      cases h
    · rintro ⟨a, between', h, _⟩
      cases h
  · constructor
    · intro h
      exact ⟨a, between, rfl, h⟩
    · rintro ⟨a', between', h, hn⟩
      obtain ⟨ha, rfl⟩ := Prod.mk.inj h
      rw [Except.ok.inj ha]
      exact hn

theorem andThen_eq_error {first : Action σ α} {next : α → Action σ β} {w w' : World σ} {e : Error} :
    andThen first next w = (.error e, w') ↔
      first w = (.error e, w') ∨
        ∃ a between, first w = (.ok a, between) ∧ next a between = (.error e, w') := by
  unfold andThen
  rcases first w with ⟨fault | a, between⟩
  · constructor
    · intro h
      obtain ⟨he, hw⟩ := Prod.mk.inj h
      rw [Except.error.inj he, hw]
      exact .inl rfl
    · rintro (h | ⟨a, between', h, _⟩)
      · obtain ⟨he, hw⟩ := Prod.mk.inj h
        rw [Except.error.inj he, hw]
      · cases h
  · constructor
    · intro h
      exact .inr ⟨a, between, rfl, h⟩
    · rintro (h | ⟨a', between', h, hn⟩)
      · cases h
      · obtain ⟨ha, rfl⟩ := Prod.mk.inj h
        rw [Except.ok.inj ha]
        exact hn

/-- The last action only makes a result of what it is given. -/
theorem andThen_done_eq_ok {first : Action σ α} {f : α → β} {w w' : World σ} {b : β} :
    andThen first (fun a => done (f a)) w = (.ok b, w') ↔
      ∃ a, first w = (.ok a, w') ∧ f a = b := by
  rw [andThen_eq_ok]
  constructor
  · rintro ⟨a, between, ha, hd⟩
    obtain ⟨hb, rfl⟩ := Prod.mk.inj hd
    exact ⟨a, ha, Except.ok.inj hb⟩
  · rintro ⟨a, ha, rfl⟩
    exact ⟨a, w', ha, rfl⟩

end Action

open Runner.Action

/-- The instructions that a loop expands to at the moment. -/
def expansion (l : Loop) : Action σ (List Instruction) := fun w =>
  match l.expand w.store with
  | .ok instructions => (.ok instructions, w)
  | .error e => (.error (e.withinStep l.summary), w)

theorem expansion_eq_ok {l : Loop} {w w' : World σ} {instructions : List Instruction}
    (h : expansion l w = (.ok instructions, w')) :
    l.expand w.store = .ok instructions ∧ w' = w := by
  rw [expansion] at h
  cases he : l.expand w.store with
  | error e =>
    rw [he] at h
    cases h
  | ok expanded =>
    rw [he] at h
    obtain ⟨hi, hw⟩ := Prod.mk.inj h
    exact ⟨hi, hw.symm⟩

theorem expansion_eq_error {l : Loop} {w w' : World σ} {e : Error}
    (h : expansion l w = (.error e, w')) :
    ∃ cause, l.expand w.store = .error cause ∧ e = cause.withinStep l.summary ∧ w' = w := by
  rw [expansion] at h
  cases he : l.expand w.store with
  | error cause =>
    rw [he] at h
    obtain ⟨hcause, hw⟩ := Prod.mk.inj h
    exact ⟨cause, rfl, (Except.error.inj hcause).symm, hw.symm⟩
  | ok instructions =>
    rw [he] at h
    cases h

/-- An operation on the state of a world. -/
def onStore (action : Store.Action α) : Action σ α := fun w =>
  ((action w.store).1, { w with store := (action w.store).2 })

/-- The call that an instruction makes as the world stands. -/
def prepare (r : Runner σ) (i : Instruction) : Action σ Call := fun w =>
  (r.callOf i w.store, w)

variable (r : Runner σ)

theorem perform_eq (i : Instruction) :
    r.perform i =
      andThen (onStore (register i.contract)) fun _ =>
      andThen (r.prepare i) fun call =>
      andThen (r.make call) fun answer =>
      andThen (onStore (i.outputs.store answer)) fun _ => done answer := by
  funext w
  simp only [perform, andThen, onStore, prepare]
  -- Both sides stop where one of the four parts fails.
  rcases register i.contract w.store with ⟨e | _, store⟩
  · rfl
  dsimp only
  rcases r.callOf i store with e | call
  · rfl
  dsimp only
  rcases r.make call { w with store } with ⟨e | answer, made⟩
  · rfl
  dsimp only
  rcases i.outputs.store answer made.store with ⟨e | _, stored⟩ <;> rfl

theorem execute_eq (i : Instruction) (w : World σ) :
    r.execute i w =
      ((r.perform i w).1.mapError (·.withinStep i.summary), (r.perform i w).2) := by
  unfold execute
  rcases r.perform i w with ⟨e | answer, w'⟩ <;> rfl

theorem executeAll_cons (i : Instruction) (rest : List Instruction) :
    r.executeAll (i :: rest) =
      andThen (r.execute i) fun v => andThen (r.executeAll rest) fun vs => done (v :: vs) := by
  funext w
  simp only [executeAll, andThen]
  rcases r.execute i w with ⟨e | v, w'⟩
  · rfl
  · dsimp only
    rcases r.executeAll rest w' with ⟨e | vs, w''⟩ <;> rfl

theorem runEntries_cons (entry : Entry) (rest : List Entry) :
    r.runEntries (entry :: rest) =
      andThen (r.runEntry entry) fun v => andThen (r.runEntries rest) fun vs => done (v :: vs) := by
  funext w
  simp only [runEntries, andThen]
  rcases r.runEntry entry w with ⟨e | v, w'⟩
  · rfl
  · dsimp only
    rcases r.runEntries rest w' with ⟨e | vs, w''⟩ <;> rfl

theorem runLoop_eq (l : Loop) : r.runLoop l = andThen (expansion l) r.executeAll := by
  funext w
  unfold runLoop andThen expansion
  cases l.expand w.store <;> rfl

theorem runEntry_loop (l : Loop) :
    r.runEntry (.loop l) = andThen (r.runLoop l) fun vs => done (.array vs) := by
  funext w
  simp only [runEntry, andThen]
  rcases r.runLoop l w with ⟨e | vs, w'⟩ <;> rfl

theorem runEntry_nested (entries : List Entry) :
    r.runEntry (.nested entries) = andThen (r.runEntries entries) fun vs => done (.array vs) := by
  funext w
  simp only [runEntry, andThen]
  rcases r.runEntries entries w with ⟨e | vs, w'⟩ <;> rfl

theorem run_eq (entries : List Entry) :
    r.run entries = andThen (r.runEntries entries) fun vs => done (.array vs) := by
  funext w
  unfold run andThen
  rcases r.runEntries entries w with ⟨e | vs, w'⟩ <;> rfl

theorem runEntries_append (xs ys : List Entry) :
    r.runEntries (xs ++ ys) =
      andThen (r.runEntries xs) fun vs => andThen (r.runEntries ys) fun ws => done (vs ++ ws) := by
  induction xs with
  | nil =>
    funext w
    show r.runEntries ys w = andThen (r.runEntries ys) (fun ws => done ([] ++ ws)) w
    unfold andThen
    rcases r.runEntries ys w with ⟨e | ws, w'⟩ <;> rfl
  | cons x xs ih =>
    rw [List.cons_append, runEntries_cons, runEntries_cons, ih]
    simp only [andThen_assoc, done_andThen, List.cons_append]

end Playbook.Runner
