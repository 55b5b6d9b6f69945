import Playbook.Proofs.Path.Hop
import Playbook.Value.Merge

/-!
# Reading back a write

After a write that succeeds, its path leads to the new value of the slot. What the slot held before
is what its path led to; where the path led nowhere, the slot held null or a text that a handle
carried, and both merge in the same way.
-/

namespace Playbook.Value

/-- A hop of a write that succeeds leads on, and the rest of the write succeeds in its slot. -/
theorem write_cons_ok {f : Value → Value} {segment : Segment} {rest : Path} {v v' old : Value}
    (h : write f (segment :: rest) v = (.ok old, v')) :
    (v.hop segment).Leads ∧
      ∃ child, write f rest (v.hop segment).slot = (.ok old, child) ∧
        v' = (v.hop segment).fill child := by
  rcases (v.hop segment).leads_or_stuck with hl | ⟨reason, left, hs⟩
  · rw [write_of_leads f rest hl] at h
    obtain ⟨ho, hv⟩ := Prod.mk.inj h
    exact ⟨hl, _, Prod.ext ho rfl, hv.symm⟩
  · rw [write_of_stuck f rest hs] at h
    cases h

/-- The path of a write leads to the new value of its slot. -/
theorem lookup_write {f : Value → Value} {path : Path} {v v' old : Value}
    (h : write f path v = (.ok old, v')) : v'.lookup path = some (f old) := by
  induction path generalizing v v' with
  | nil =>
    obtain ⟨ho, rfl⟩ := Prod.mk.inj h
    obtain rfl : v = old := Except.ok.inj ho
    rfl
  | cons segment rest ih =>
    obtain ⟨hl, child, hc, rfl⟩ := write_cons_ok h
    rw [lookup, child?_fill child hl]
    exact ih hc

/-- A write that goes on from a value that its path leads to is a write to that value, in its place.
-/
theorem write_append {v w : Value} {path : Path} (f : Value → Value) (rest : Path)
    (h : v.lookup path = some w) :
    (write f (path ++ rest) v).1 = (write f rest w).1 ∧
      (write f (path ++ rest) v).2.lookup path = some (write f rest w).2 := by
  induction path generalizing v with
  | nil =>
    obtain rfl := Option.some.inj h
    exact ⟨rfl, rfl⟩
  | cons segment path ih =>
    obtain ⟨child, hc, hw⟩ := Option.bind_eq_some_iff.1 h
    obtain ⟨hl, hslot⟩ := hop_of_child? hc
    rw [List.cons_append, write_of_leads f (path ++ rest) hl, hslot, lookup, child?_fill _ hl]
    exact ih hw

theorem lookup_of_bare {v w : Value} {path : Path} (hv : v = .null ∨ ∃ text, v = .string text)
    (h : v.lookup path = some w) : w = v := by
  cases path with
  | nil => exact (Option.some.inj h).symm
  | cons segment rest =>
    have hc : v.child? segment = none := by
      obtain rfl | ⟨text, rfl⟩ := hv <;> cases segment <;> rfl
    rw [lookup, hc] at h
    cases h

/-- What the slot of a write held before: what its path led to, or else null or a text. -/
theorem held_of_write {f : Value → Value} {path : Path} {v v' old : Value}
    (h : write f path v = (.ok old, v')) :
    v.lookup path = some old ∨
      v.lookup path = none ∧ (old = .null ∨ ∃ text, old = .string text) := by
  induction path generalizing v v' with
  | nil =>
    obtain ⟨ho, _⟩ := Prod.mk.inj h
    exact .inl (congrArg some (Except.ok.inj ho))
  | cons segment rest ih =>
    obtain ⟨hl, child, hc, _⟩ := write_cons_ok h
    cases hv : v.child? segment with
    | some c =>
      obtain rfl := (hop_of_child? hv).2
      rw [lookup, hv]
      exact ih hc
    | none =>
      have hn : v.lookup (segment :: rest) = none := by rw [lookup, hv]; rfl
      -- The first hop makes its slot, and below a null or a text nothing is read.
      have hbare := slot_of_child?_eq_none hl hv
      refine .inr ⟨hn, ?_⟩
      rcases ih hc with hs | ⟨_, ho⟩
      · obtain rfl := lookup_of_bare hbare hs
        exact hbare
      · exact ho

theorem merge_of_bare {old : Value} (v : Value) (h : old = .null ∨ ∃ text, old = .string text) :
    old.merge v = v := by
  obtain rfl | ⟨text, rfl⟩ := h <;> cases v <;> simp [merge, opened]

end Playbook.Value
