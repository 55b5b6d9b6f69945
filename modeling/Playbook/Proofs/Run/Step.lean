import Playbook.Run

/-!
# What one step of a run does

An instruction that is carried out makes one call, and its result is the answer to that call. A loop
that does not expand changes nothing.
-/

namespace Playbook

namespace Runner

variable {σ : Type} {r : Runner σ}

theorem make_of_ok {call : Call} {w : World σ} {result : Value} {chain : σ}
    (h : r.invoker call w.chain = (.ok result, chain)) :
    r.make call w = (.ok result, { w with chain, calls := w.calls ++ [call] }) := by
  unfold make
  rw [h]

theorem make_of_error {call : Call} {w : World σ} {source : String} {chain : σ}
    (h : r.invoker call w.chain = (.error source, chain)) :
    r.make call w = (.error (.invocation call.contract call.method source),
      { w with chain, calls := w.calls ++ [call] }) := by
  unfold make
  rw [h]

/-- The ways in which carrying out an instruction ends: before its call is ready, with a call that
is refused, or with a call that is answered and an answer that is stored or not. -/
inductive Ends (r : Runner σ) (i : Instruction) (w : World σ) :
    Except Error Value → World σ → Prop where
  | unregistered {e : Error} {store : Store}
      (hregister : register i.contract w.store = (.error e, store)) :
      Ends r i w (.error e) { w with store }
  | unready {e : Error} {store : Store}
      (hregister : register i.contract w.store = (.ok (), store))
      (hcall : r.callOf i store = .error e) :
      Ends r i w (.error e) { w with store }
  | refused {call : Call} {source : String} {store : Store} {chain : σ}
      (hregister : register i.contract w.store = (.ok (), store))
      (hcall : r.callOf i store = .ok call)
      (hrefusal : r.invoker call w.chain = (.error source, chain)) :
      Ends r i w (.error (.invocation call.contract call.method source))
        ⟨store, chain, w.calls ++ [call]⟩
  | answered {call : Call} {result : Value} {outcome : Except Error Unit} {store stored : Store}
      {chain : σ}
      (hregister : register i.contract w.store = (.ok (), store))
      (hcall : r.callOf i store = .ok call)
      (hanswer : r.invoker call w.chain = (.ok result, chain))
      (hstore : i.outputs.store result store = (outcome, stored)) :
      Ends r i w (outcome.map fun _ => result) ⟨stored, chain, w.calls ++ [call]⟩

theorem perform_ends (r : Runner σ) (i : Instruction) (w : World σ) :
    Ends r i w (r.perform i w).1 (r.perform i w).2 := by
  unfold perform
  -- One case for each place at which the instruction can end.
  rcases hregister : register i.contract w.store with ⟨e | _, store⟩
  · exact .unregistered hregister
  dsimp only
  cases hcall : r.callOf i store with
  | error e => exact .unready hregister hcall
  | ok call =>
    dsimp only
    rcases hinvoke : r.invoker call w.chain with ⟨source | result, chain⟩
    · rw [make_of_error (w := { w with store }) hinvoke]
      exact .refused hregister hcall hinvoke
    · rw [make_of_ok (w := { w with store }) hinvoke]
      have hanswered := Ends.answered hregister hcall hinvoke (Prod.eta _).symm
      rcases hstore : i.outputs.store result store with ⟨e | _, stored⟩
      · rw [hstore] at hanswered
        dsimp only
        rw [hstore]
        exact hanswered
      · rw [hstore] at hanswered
        dsimp only
        rw [hstore]
        exact hanswered

/-- The result of an instruction that succeeds is the answer to the one call that it makes. -/
theorem Ends.ok {i : Instruction} {w w' : World σ} {result : Value}
    (h : Ends r i w (.ok result) w') :
    ∃ call, r.invoker call w.chain = (.ok result, w'.chain) ∧ w'.calls = w.calls ++ [call] := by
  generalize ho : Except.ok result = o at h
  cases h with
  | @answered call answer outcome _ _ _ _ _ hanswer _ =>
    cases outcome with
    | error e => cases ho
    | ok u =>
      obtain rfl : result = answer := Except.ok.inj ho
      exact ⟨call, hanswer, rfl⟩
  | _ => cases ho

theorem execute_world (r : Runner σ) (i : Instruction) (w : World σ) :
    (r.execute i w).2 = (r.perform i w).2 := by
  rw [execute]
  rcases r.perform i w with ⟨e | result, w'⟩ <;> rfl

theorem execute_eq_ok {i : Instruction} {w w' : World σ} {result : Value}
    (h : r.execute i w = (.ok result, w')) :
    ∃ call, r.invoker call w.chain = (.ok result, w'.chain) ∧ w'.calls = w.calls ++ [call] := by
  have hends := perform_ends r i w
  unfold execute at h
  rcases hp : r.perform i w with ⟨e | answer, w''⟩
  · rw [hp] at h
    cases h
  · rw [hp] at h hends
    obtain ⟨ha, rfl⟩ := Prod.mk.inj h
    rw [Except.ok.inj ha] at hends
    exact hends.ok

theorem execute_eq_error {i : Instruction} {w w' : World σ} {e : Error}
    (h : r.execute i w = (.error e, w')) :
    ∃ cause, r.perform i w = (.error cause, w') ∧ e = cause.withinStep i.summary := by
  rw [execute] at h
  rcases hp : r.perform i w with ⟨cause | result, w''⟩
  · rw [hp] at h
    obtain ⟨he, rfl⟩ := Prod.mk.inj h
    exact ⟨cause, rfl, (Except.error.inj he).symm⟩
  · rw [hp] at h
    cases h

theorem runEntry_of_expand_error {l : Loop} {w : World σ} {e : Error}
    (h : l.expand w.store = .error e) :
    r.runEntry (.loop l) w = (.error (e.withinStep l.summary), w) := by
  simp only [runEntry, runLoop, h]

end Runner

end Playbook
