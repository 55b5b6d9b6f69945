import Playbook.Proofs.Run.WellFormed

/-!
# Proper calls

An accepted playbook only ever makes proper calls: of the kind that the method has, on an address
where they are made on an instance, and of a method that the artifact declares. An instruction is
built of a complete definition wherever it comes from, so that what was checked when it was built
holds when it is carried out. The main statement: the calls of a run are proper, and the
destinations of its results are known.
-/

namespace Playbook

/-- The kind of the call is that of its method, it has an address exactly if it is made on an
instance, and its method is a function of the contract unless it works on the contract itself. -/
structure Call.Proper (artifacts : ArtifactSource) (call : Call) : Prop where
  kind : call.kind = .static ↔ call.method = "new" ∨ call.method = "link" ∨ call.method = "at"
  bound : call.kind = .onInstance → ∃ address, call.address = some address
  unbound : call.kind = .static → call.address = none
  declared : call.method ≠ "new" → call.method ≠ "link" → call.method ≠ "at" →
    ∃ artifact, artifacts call.contract = .ok artifact ∧
      ∃ entry ∈ artifact.entries, entry.kind = .function ∧ entry.name = some call.method

/-! ## Accepted playbooks -/

/-- The instruction is what some definition describes. -/
def Instruction.Built (i : Instruction) : Prop :=
  ∃ definition, build definition = .ok i

theorem Instruction.Built.describes {i : Instruction} (h : i.Built) :
    ∃ fields, Describes .concrete fields i := by
  obtain ⟨definition, hbuild⟩ := h
  obtain ⟨fields, _, hdescribes⟩ := build_eq_ok hbuild
  exact ⟨fields, hdescribes⟩

theorem Loop.built_of_expand {l : Loop} {store : Store} {instructions : List Instruction}
    (h : l.expand store = .ok instructions) : ∀ i ∈ instructions, i.Built := by
  intro i hi
  obtain ⟨_, _, item, _, template, _, hbuild⟩ := mem_of_expand h hi
  exact ⟨Item.substitute item template, hbuild⟩

namespace Entry

theorem all_buildLeaf {definition : Value} {entry : Entry} (h : buildLeaf definition = .ok entry) :
    All Instruction.Built (fun _ => True) entry := by
  have hinstruction : (Instruction.build definition).map Entry.instruction = .ok entry →
      All Instruction.Built (fun _ => True) entry := by
    intro hmap
    obtain ⟨i, hbuild, rfl⟩ := Outcome.map_eq_ok.1 hmap
    exact ⟨definition, hbuild⟩
  unfold buildLeaf at h
  split at h
  · split at h
    · obtain ⟨l, _, rfl⟩ := Outcome.map_eq_ok.1 h
      trivial
    · exact hinstruction h
  · exact hinstruction h

mutual

theorem all_buildAt : ∀ {definition : Value} {location : String} {entry : Entry},
    buildAt location definition = .ok entry → All Instruction.Built (fun _ => True) entry
  | .array definitions, location, entry, h => by
    rw [buildAt] at h
    obtain ⟨entries, hentries, rfl⟩ := Outcome.map_eq_ok.1 h
    rw [All]
    exact allOf_buildList hentries
  | .null, _, _, h | .bool _, _, _, h | .number _, _, _, h | .bigInt _, _, _, h | .date _, _, _, h
  | .string _, _, _, h | .bytes _, _, _, h | .object _, _, _, h | .handle _, _, _, h => by
    rw [buildAt] at h
    · exact all_buildLeaf (Outcome.mapError_eq_ok.1 h)
    all_goals simp

theorem allOf_buildList : ∀ {definitions : List Value} {location : String} {index : Nat}
    {entries : List Entry}, buildList location index definitions = .ok entries →
      AllOf Instruction.Built (fun _ => True) entries
  | [], _, _, _, h => by
    rw [buildList] at h
    obtain rfl := Except.ok.inj h
    trivial
  | definition :: rest, location, index, entries, h => by
    rw [buildList] at h
    obtain ⟨entry, hentry, h⟩ := Outcome.bind_eq_ok.1 h
    obtain ⟨built, hbuilt, rfl⟩ := Outcome.map_eq_ok.1 h
    exact ⟨all_buildAt hentry, allOf_buildList hbuilt⟩

end

/-- Every instruction of an accepted playbook is built of a definition. -/
theorem allOf_buildPlaybook {document : Value} {entries : List Entry}
    (h : buildPlaybook document = .ok entries) :
    AllOf Instruction.Built (fun _ => True) entries := by
  obtain ⟨entry, hentry, hentries⟩ := Outcome.map_eq_ok.1 h
  have hall := all_buildAt hentry
  cases entry with
  | nested list =>
    obtain rfl := hentries
    simpa [All] using hall
  | _ =>
    obtain rfl := hentries
    exact ⟨hall, trivial⟩

end Entry

/-! ## Calls -/

namespace Runner

variable {σ : Type} {r : Runner σ} {i : Instruction}

theorem declared_of_signature? {artifact : Artifact} {run : String} {signature : Signature}
    (h : artifact.signature? run = some signature) (hnew : run ≠ "new") :
    ∃ entry ∈ artifact.entries, entry.kind = .function ∧ entry.name = some run := by
  rw [Artifact.signature?, if_neg hnew] at h
  split at h
  · cases h
  · have hfound := List.find?_some h
    simp only [Bool.and_eq_true, beq_iff_eq] at hfound
    exact ⟨signature, List.mem_of_find?_eq_some h, hfound⟩

/-- A built instruction makes a proper call if it makes one. -/
theorem proper_callOf {store : Store} {call : Call} (hi : i.Built)
    (h : r.callOf i store = .ok call) : call.Proper r.artifacts := by
  obtain ⟨fields, hdescribes⟩ := hi.describes
  obtain ⟨address, signature, arguments, hinstance, hsignature, _, rfl⟩ := callOf_eq_ok h
  refine ⟨Instruction.kind_eq_static_iff hdescribes.kind, fun hk => ?_, fun hk => ?_,
    fun hnew hlink hat => ?_⟩
  · obtain ⟨locator, hl⟩ := hdescribes.exists_locator hk
    -- A call on an instance has the address that its locator is or leads to.
    simp only [instanceOf, show i.kind = .onInstance from hk, Instruction.address, hl] at hinstance
    split at hinstance
    · exact ⟨locator, (Except.ok.inj hinstance).symm⟩
    · split at hinstance
      · rename_i found _
        exact ⟨found, (Except.ok.inj hinstance).symm⟩
      · cases hinstance
  · simp only [instanceOf, show i.kind = .static from hk] at hinstance
    exact (Except.ok.inj hinstance).symm
  -- Any other method has been found among the functions of the artifact.
  · have hneither : ¬ (i.run = "link" ∨ i.run = "at") := not_or.2 ⟨hlink, hat⟩
    rw [signatureOf, if_neg hneither] at hsignature
    split at hsignature
    · cases hsignature
    · rename_i artifact hartifact
      refine ⟨artifact, hartifact, ?_⟩
      split at hsignature
      · rename_i found hfound
        exact declared_of_signature? hfound hnew
      · cases hsignature

/-- An instruction makes one call or none. -/
theorem Ends.calls {w w' : World σ} {outcome : Except Error Value} (h : Ends r i w outcome w') :
    w'.calls = w.calls ∨
      ∃ call store, r.callOf i store = .ok call ∧ w'.calls = w.calls ++ [call] := by
  cases h with
  | unregistered _ => exact .inl rfl
  | unready _ _ => exact .inl rfl
  | refused _ hcall _ => exact .inr ⟨_, _, hcall, rfl⟩
  | answered _ hcall _ _ => exact .inr ⟨_, _, hcall, rfl⟩

/-- The calls made since a world are all proper. -/
def ProperSince (r : Runner σ) (w w' : World σ) : Prop :=
  ∃ made, w'.calls = w.calls ++ made ∧ ∀ call ∈ made, call.Proper r.artifacts

theorem properSince_execute {w between : World σ} (hi : i.Built) (h : r.ProperSince w between) :
    r.ProperSince w (r.execute i between).2 := by
  obtain ⟨made, hmade, hproper⟩ := h
  rw [execute_world]
  rcases (perform_ends r i between).calls with hnone | ⟨call, store, hcall, hone⟩
  · exact ⟨made, hnone.trans hmade, hproper⟩
  · refine ⟨made ++ [call], by rw [hone, hmade, List.append_assoc], fun other hmem => ?_⟩
    rcases List.mem_append.1 hmem with hold | hnew
    · exact hproper other hold
    · obtain rfl := List.mem_singleton.1 hnew
      exact proper_callOf hi hcall

end Runner

/-! ## Results -/

/-- A result is stored without a destination at fault, whatever the result and the state are. -/
def Instruction.KnowsTargets (i : Instruction) : Prop :=
  ∀ result store e, (i.outputs.store result store).1 = .error e → e.kind ≠ .validation

theorem Instruction.Built.knowsTargets {i : Instruction} (h : i.Built) : i.KnowsTargets := by
  obtain ⟨fields, hdescribes⟩ := h.describes
  intro result store e he
  rcases OutputSpec.error_of_store he with ⟨fault, rfl⟩ | ⟨target, htarget, fault, hfault, _⟩
  · simp [Error.kind]
  · obtain ⟨place, hplace⟩ := hdescribes.exists_destination target htarget
    -- Every destination of a built instruction was read when it was built.
    rw [hplace] at hfault
    cases hfault

/-! ## Runs -/

/-- Every call that a run of an accepted playbook makes is proper, whatever the state it starts
from, and whether it succeeds or fails. The destinations of the results are known, for the
instructions of the playbook and for those that its loops expand to. -/
theorem run_calls_proper {document : Value} {entries : List Entry}
    (h : Entry.buildPlaybook document = .ok entries) :
    (∀ {σ : Type} (r : Runner σ) (w : World σ), ∃ made,
      (r.run entries w).2.calls = w.calls ++ made ∧ ∀ call ∈ made, call.Proper r.artifacts) ∧
    Entry.AllOf Instruction.KnowsTargets
      (fun l => ∀ store instructions, l.expand store = .ok instructions →
        ∀ i ∈ instructions, i.KnowsTargets) entries := by
  have hall := Entry.allOf_buildPlaybook h
  constructor
  · intro σ r w
    -- The calls made so far are all proper: every instruction keeps it so.
    have hinvariant : r.Invariant (r.ProperSince w) Instruction.Built (fun _ => True) := {
      executes := fun i hi between hbetween => Runner.properSince_execute hi hbetween
      expands := fun l between instructions _ _ hexpand => Loop.built_of_expand hexpand }
    exact Runner.preserves_run hinvariant hall w ⟨[], by simp, by simp⟩
  · refine hall.mono (fun i hi => hi.knowsTargets) fun l _ store instructions hexpand i hi => ?_
    exact (Loop.built_of_expand hexpand i hi).knowsTargets

/-- A contract is attached, and a loop then calls a method of another one there. -/
theorem run_calls_proper_mint :
    let document : Value := .array
      [.object [("contract", .string "Vault"), ("run", .string "at"),
        ("inputs", .array [.string "0x1"]), ("outputs", .string "vault")],
       .object [("for", .array [.int 1, .int 2]),
        ("each", .object [("contract", .string "Token"), ("run", .string "mint"),
          ("at", .string "$outputs.vault"), ("inputs", .array [.string "$item"])])]]
    let artifacts := ArtifactSet.ofList
      [⟨"Token", [⟨.function, some "mint", [⟨"amount", "uint256"⟩], []⟩]⟩]
    let r : Runner Nat := ⟨DryRun.invoker, artifacts.source, .default⟩
    let calls : List Call :=
      [⟨"Vault", none, "at", [.string "0x1"], .static⟩,
       ⟨"Token", some "0x1", "mint", [.int 1], .onInstance⟩,
       ⟨"Token", some "0x1", "mint", [.int 2], .onInstance⟩]
    ∃ entries, Entry.buildPlaybook document = .ok entries ∧
      (r.run entries ⟨.empty, 0, []⟩).2.calls = calls ∧
      ∀ call ∈ calls, call.Proper r.artifacts := by
  intro document artifacts r calls
  let w : World Nat := ⟨.empty, 0, []⟩
  have hran : (Entry.buildPlaybook document).toOption.map (fun entries => (r.run entries w).2.calls) =
      some calls := by decide +kernel
  obtain ⟨entries, hentries, hcalls⟩ := Option.map_eq_some_iff.1 hran
  have hbuild := Outcome.toOption_eq_some.1 hentries
  obtain ⟨made, hmade, hproper⟩ := (run_calls_proper hbuild).1 r w
  obtain rfl : calls = made := by simpa [hcalls, w] using hmade
  exact ⟨entries, hbuild, hcalls, hproper⟩

end Playbook
