/-!
# Pieces of a text

Cutting characters at every occurrence of a separator, or at the first one. The main statement:
texts joined by the separator have the pieces of the first followed by those of the second.
-/

namespace Playbook.Text

/-- The pieces between the occurrences of a separator, always at least one. -/
def pieces (separator : Char) : List Char → List (List Char)
  | [] => [[]]
  | c :: cs =>
    if c = separator then [] :: pieces separator cs
    else
      match pieces separator cs with
      | [] => [[c]]
      | piece :: rest => (c :: piece) :: rest

/-- What stands before and after the first separator; `none` when there is none. -/
def cut? (separator : Char) : List Char → Option (List Char × List Char)
  | [] => none
  | c :: cs =>
    if c = separator then some ([], cs)
    else (cut? separator cs).map fun (before, after) => (c :: before, after)

theorem pieces_ne_nil (separator : Char) (cs : List Char) : pieces separator cs ≠ [] := by
  cases cs with
  | nil => simp [pieces]
  | cons c cs =>
    simp only [pieces]
    split
    · simp
    · split <;> simp

theorem pieces_of_not_mem {separator : Char} {cs : List Char} (h : separator ∉ cs) :
    pieces separator cs = [cs] := by
  induction cs with
  | nil => rfl
  | cons c cs ih =>
    obtain ⟨hc, hcs⟩ := List.ne_and_not_mem_of_not_mem_cons h
    rw [pieces, if_neg (Ne.symm hc), ih hcs]

theorem pieces_append_cons (separator : Char) (p q : List Char) :
    pieces separator (p ++ separator :: q) = pieces separator p ++ pieces separator q := by
  induction p with
  | nil => simp [pieces]
  | cons c p ih =>
    by_cases h : c = separator
    · simp [pieces, h, ih]
    · simp only [List.cons_append, pieces, h, if_false, ih]
      cases hp : pieces separator p with
      | nil => exact absurd hp (pieces_ne_nil separator p)
      | cons piece rest => simp

theorem cut?_eq_some_iff {separator : Char} {cs before after : List Char} :
    cut? separator cs = some (before, after) ↔
      cs = before ++ separator :: after ∧ separator ∉ before := by
  induction cs generalizing before with
  | nil => simp [cut?]
  | cons c cs ih =>
    by_cases h : c = separator
    · subst h
      cases before <;> simp [cut?]
      intro hc _ hne
      exact absurd hc hne
    · cases before with
      | nil => simp [cut?, h]
      | cons b before =>
        simp only [cut?, h, if_false, Option.map_eq_some_iff, Prod.exists, Prod.mk.injEq,
          List.cons.injEq, List.cons_append, List.mem_cons, not_or]
        constructor
        · rintro ⟨x, y, hxy, ⟨rfl, rfl⟩, rfl⟩
          have := ih.1 hxy
          exact ⟨⟨rfl, this.1⟩, Ne.symm h, this.2⟩
        · rintro ⟨⟨rfl, rfl⟩, _, hn⟩
          exact ⟨before, after, ih.2 ⟨rfl, hn⟩, ⟨rfl, rfl⟩, rfl⟩

end Playbook.Text
