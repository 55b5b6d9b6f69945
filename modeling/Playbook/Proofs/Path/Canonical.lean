import Playbook.Path.Basic
import Playbook.Proofs.Text.Numeral

/-!
# Paths and their texts

The text of a path joins its keys by dots and writes its indices in brackets. A path is canonical
when its indices are of 64 bits and no key can be taken for something else: none is empty, holds a
dot or an opening bracket, or has a blank at an end of the text. The main statement: the text of a
canonical path is read as the path, and a dot between two texts joins the paths that they spell, so
that empty parts are nothing.
-/

namespace Playbook.Path

open Text

/-- A path that can be told from its text. -/
structure Canonical (path : Path) : Prop where
  keys : ∀ name, .key name ∈ path → name ≠ "" ∧ '.' ∉ name.toList ∧ '[' ∉ name.toList
  indices : ∀ n, .index n ∈ path → n < 2 ^ 64
  first : ∀ name, path.head? = some (.key name) → ∀ c ∈ name.toList.head?, isBlank c = false
  last : ∀ name, path.getLast? = some (.key name) → ∀ c ∈ name.toList.getLast?, isBlank c = false

/-! ## Brackets -/

theorem bracketed_toDigits {n : Nat} (h : n < 2 ^ 64) :
    bracketed (Nat.toDigits 10 n) = [.index n] := by
  have htrim : trimChars (Nat.toDigits 10 n) = Nat.toDigits 10 n :=
    trimChars_of_not_blank fun _ hc => (numeral_toDigits n).not_isBlank hc
  have hword : word? (Nat.toDigits 10 n) = some n :=
    unsigned?_eq_some_iff.2 ⟨.inl (numeral_toDigits n), h⟩
  rw [bracketed, htrim, hword]

/-- An open bracket reaches to the first closing one. -/
theorem indices_some_append (read rest : List Char) {inside : List Char} (h : ']' ∉ inside) :
    indices (some read) (inside ++ ']' :: rest) =
      bracketed (read.reverse ++ inside) ++ indices none rest := by
  induction inside generalizing read with
  | nil => simp [indices]
  | cons c inside ih =>
    obtain ⟨hc, hinside⟩ := List.ne_and_not_mem_of_not_mem_cons h
    -- Without a closing bracket the characters are gathered in reverse.
    have hnext (cs : List Char) : indices (some read) (c :: cs) = indices (some (c :: read)) cs :=
      indices.eq_4 read c cs fun h => hc h.symm
    rw [List.cons_append, hnext, ih (c :: read) hinside, List.reverse_cons, List.append_assoc,
      List.singleton_append]

theorem indices_renderNext {n : Nat} (h : n < 2 ^ 64) (rest : List Char) :
    indices none (renderNext (.index n) ++ rest) = .index n :: indices none rest := by
  have hclose : ']' ∉ Nat.toDigits 10 n := not_mem_toDigits (by decide)
  rw [renderNext, List.cons_append, List.cons_append, List.append_assoc, List.singleton_append,
    indices, indices_some_append [] rest hclose, List.reverse_nil, List.nil_append,
    bracketed_toDigits h]
  rfl

/-! ## One part -/

/-- The part spells the hops, whatever brackets come after it in the same part. -/
def Spells (part : List Char) (hops : Path) : Prop :=
  '.' ∉ part ∧ ∀ brackets, (∀ c ∈ brackets.head?, c = '[') →
    ofPart (part ++ brackets) = hops ++ indices none brackets

theorem spells_nil : Spells [] [] := by
  refine ⟨List.not_mem_nil, fun brackets hb => ?_⟩
  cases brackets with
  | nil => rfl
  | cons c brackets =>
    obtain rfl := hb c rfl
    rfl

theorem spells_key {name : String} (hne : name ≠ "") (hdot : '.' ∉ name.toList)
    (hopen : '[' ∉ name.toList) : Spells name.toList [.key name] := by
  refine ⟨hdot, fun brackets hb => ?_⟩
  have hkey : ∀ c ∈ name.toList, (c != '[') = true := by
    intro c hc
    refine bne_iff_ne.2 ?_
    rintro rfl
    exact hopen hc
  have hstop : brackets.takeWhile (· != '[') = [] ∧ brackets.dropWhile (· != '[') = brackets := by
    cases brackets with
    | nil => exact ⟨rfl, rfl⟩
    | cons c brackets =>
      obtain rfl := hb c rfl
      exact ⟨rfl, rfl⟩
  have hname : name.toList ≠ [] := by simpa using hne
  simp only [ofPart, List.takeWhile_append_of_pos hkey, List.dropWhile_append_of_pos hkey, hstop,
    List.append_nil, if_neg hname, String.ofList_toList]

theorem Spells.index {part : List Char} {hops : Path} (h : Spells part hops) {n : Nat}
    (hn : n < 2 ^ 64) : Spells (part ++ renderNext (.index n)) (hops ++ [.index n]) := by
  have hdot : '.' ∉ Nat.toDigits 10 n := not_mem_toDigits (by decide)
  refine ⟨by simp [renderNext, h.1, hdot], fun brackets _ => ?_⟩
  have hopen : ∀ c ∈ (renderNext (.index n) ++ brackets).head?, c = '[' := by simp [renderNext]
  rw [List.append_assoc, h.2 _ hopen, indices_renderNext hn, List.append_assoc,
    List.singleton_append]

theorem ofChars_of_spells {part : List Char} {hops : Path} (h : Spells part hops) :
    ofChars part = hops := by
  have hpart := h.2 [] (by simp)
  simpa [ofChars, pieces_of_not_mem h.1, indices] using hpart

/-! ## All parts -/

/-- The hops that are written after a part are read after those of the part: a key begins the next
part, and an index goes on with the same one. -/
theorem ofChars_append_renderNext {part : List Char} {hops rest : Path} (h : Spells part hops)
    (hkeys : ∀ name, .key name ∈ rest → name ≠ "" ∧ '.' ∉ name.toList ∧ '[' ∉ name.toList)
    (hindices : ∀ n, .index n ∈ rest → n < 2 ^ 64) :
    ofChars (part ++ rest.flatMap renderNext) = hops ++ rest := by
  induction rest generalizing part hops with
  | nil => simpa using ofChars_of_spells h
  | cons segment rest ih =>
    have hkeys' := fun name hname => hkeys name (List.mem_cons_of_mem segment hname)
    have hindices' := fun n hn => hindices n (List.mem_cons_of_mem segment hn)
    cases segment with
    | key name =>
      obtain ⟨hne, hdot, hopen⟩ := hkeys name List.mem_cons_self
      -- The dot before a key ends the part, and the key is the next one.
      rw [List.flatMap_cons, renderNext, List.cons_append, ofChars_append_dot, ofChars_of_spells h,
        ih (spells_key hne hdot hopen) hkeys' hindices', List.singleton_append]
    | index n =>
      rw [List.flatMap_cons, ← List.append_assoc,
        ih (h.index (hindices n List.mem_cons_self)) hkeys' hindices', List.append_assoc,
        List.singleton_append]

theorem ofChars_renderChars {path : Path} (h : Canonical path) :
    ofChars (renderChars path) = path := by
  cases path with
  | nil => rfl
  | cons segment rest =>
    have hkeys := fun name hname => h.keys name (List.mem_cons_of_mem segment hname)
    have hindices := fun n hn => h.indices n (List.mem_cons_of_mem segment hn)
    cases segment with
    | key name =>
      obtain ⟨hne, hdot, hopen⟩ := h.keys name List.mem_cons_self
      exact ofChars_append_renderNext (spells_key hne hdot hopen) hkeys hindices
    | index n =>
      exact ofChars_append_renderNext (spells_nil.index (h.indices n List.mem_cons_self)) hkeys
        hindices

/-! ## The ends of the text -/

theorem isBlank_head?_renderChars {path : Path} (h : Canonical path) :
    ∀ c ∈ (renderChars path).head?, isBlank c = false := by
  intro c hc
  match path with
  | [] => cases hc
  | .key name :: rest =>
    have hne : name.toList ≠ [] := by simpa using (h.keys name List.mem_cons_self).1
    -- The text begins with the first key, or with a bracket.
    rw [renderChars, List.head?_append_of_ne_nil _ hne] at hc
    exact h.first name rfl c hc
  | .index n :: rest =>
    obtain rfl : '[' = c := by simpa [renderChars, renderNext] using hc
    rfl

/-- The text ends with the last key, or with the bracket of the last index. -/
theorem exists_renderChars_concat (path : Path) (segment : Segment) :
    ∃ before, renderChars (path ++ [segment]) = before ++
      match segment with
      | .key name => name.toList
      | .index _ => [']'] := by
  match path with
  | [] =>
    cases segment with
    | key name => exact ⟨[], by simp [renderChars]⟩
    | index n => exact ⟨'[' :: Nat.toDigits 10 n, by simp [renderChars, renderNext]⟩
  | first :: rest =>
    -- Every hop but the first is written with its mark before it, whatever the first one is.
    have hlast : ∃ before, renderChars (first :: rest ++ [segment]) =
        before ++ renderNext segment := by
      cases first <;> exact ⟨_, by simp [renderChars, ← List.append_assoc]; rfl⟩
    obtain ⟨before, hbefore⟩ := hlast
    cases segment with
    | key name => exact ⟨before ++ ['.'], hbefore.trans (by simp [renderNext])⟩
    | index n =>
      exact ⟨before ++ '[' :: Nat.toDigits 10 n, hbefore.trans (by simp [renderNext])⟩

theorem isBlank_getLast?_renderChars {path : Path} (h : Canonical path) :
    ∀ c ∈ (renderChars path).getLast?, isBlank c = false := by
  intro c hc
  rcases List.eq_nil_or_concat path with rfl | ⟨rest, segment, rfl⟩
  · cases hc
  · rw [List.concat_eq_append] at h hc
    obtain ⟨before, hbefore⟩ := exists_renderChars_concat rest segment
    rw [hbefore] at hc
    cases segment with
    | key name =>
      have hne : name.toList ≠ [] := by simpa using (h.keys name (by simp)).1
      rw [List.getLast?_append_of_ne_nil _ hne] at hc
      exact h.last name (by simp) c hc
    | index n =>
      obtain rfl : ']' = c := by simpa using hc
      rfl

/-- The text of a canonical path is read as the path. -/
theorem parse_render {path : Path} (h : Canonical path) : parse (render path) = path := by
  rw [parse, render, String.toList_ofList, trimChars_eq_self (isBlank_head?_renderChars h)
    (isBlank_getLast?_renderChars h), ofChars_renderChars h]

/-! ## Joined texts -/

theorem parse_append_dot {p q : String} (hp : ∀ c ∈ p.toList.getLast?, isBlank c = false)
    (hq : ∀ c ∈ q.toList.head?, isBlank c = false) :
    parse (p ++ "." ++ q) = parse p ++ parse q := by
  have hchars : (p ++ "." ++ q).toList = p.toList ++ '.' :: q.toList := by simp
  -- What is trimmed from the joined text is trimmed from the outer end of each of the two.
  rw [parse, hchars, trimChars_append_cons rfl, ← trimChars_of_getLast? hp, ← trimChars_of_head? hq,
    ofChars_append_dot]
  rfl

/-- The text of a canonical path is read as the path. Texts that meet at a dot without blanks around
it spell the hops of the first and then those of the second, and a dot more is as good as none. -/
theorem reads_back_and_joins :
    (∀ path, Canonical path → parse (render path) = path) ∧
    ∀ p q : String, (∀ c ∈ p.toList.getLast?, isBlank c = false) →
      (∀ c ∈ q.toList.head?, isBlank c = false) →
      parse (p ++ "." ++ q) = parse p ++ parse q ∧
      parse (p ++ "." ++ "." ++ q) = parse (p ++ "." ++ q) ∧
      parse ("." ++ q) = parse q ∧ parse (p ++ ".") = parse p := by
  refine ⟨fun path h => parse_render h, fun p q hp hq => ?_⟩
  have hempty : parse "" = [] := rfl
  have hafter : parse (p ++ ".") = parse p := by
    simpa [hempty] using parse_append_dot (q := "") hp (by simp)
  have hbefore : parse ("." ++ q) = parse q := by
    simpa [hempty] using parse_append_dot (p := "") (by simp) hq
  have hdot : ∀ c ∈ (p ++ ".").toList.getLast?, isBlank c = false := by
    intro c hc
    obtain rfl : '.' = c := by simpa using hc
    rfl
  have hjoined := parse_append_dot hp hq
  refine ⟨hjoined, ?_, hbefore, hafter⟩
  -- Two dots are a dot after a text that ends in one.
  rw [parse_append_dot hdot hq, hafter, hjoined]

/-- Blanks and a closing bracket inside of keys, the greatest index, and an index that the dot
between two texts cuts in two. -/
theorem reads_back_and_joins_holders :
    let path : Path :=
      [.key "holders] of", .index 18446744073709551615, .key " a ", .index 0, .key "b"]
    let p := "  a[1"
    let q := "2].b "
    Canonical path ∧ parse (render path) = path ∧
      (∀ c ∈ p.toList.getLast?, isBlank c = false) ∧ (∀ c ∈ q.toList.head?, isBlank c = false) ∧
      parse (p ++ "." ++ q) = parse p ++ parse q ∧
      parse p ++ parse q = [.key "a", .key "2]", .key "b"] := by
  intro path p q
  have hpath : Canonical path := by
    refine ⟨fun name hname => ?_, fun n hn => ?_, fun name hname c hc => ?_,
      fun name hname c hc => ?_⟩
    · obtain rfl | rfl | rfl : name = "holders] of" ∨ name = " a " ∨ name = "b" := by
        simpa [path] using hname
      all_goals decide
    · obtain rfl | rfl : n = 18446744073709551615 ∨ n = 0 := by simpa [path] using hn
      all_goals decide
    · obtain rfl : "holders] of" = name := by simpa [path] using hname
      obtain rfl : 'h' = c := by simpa using hc
      rfl
    · obtain rfl : "b" = name := by simpa [path] using hname
      obtain rfl : 'b' = c := by simpa using hc
      rfl
  have hp : ∀ c ∈ p.toList.getLast?, isBlank c = false := by
    intro c hc
    obtain rfl : '1' = c := by simpa [p] using hc
    rfl
  have hq : ∀ c ∈ q.toList.head?, isBlank c = false := by
    intro c hc
    obtain rfl : '2' = c := by simpa [q] using hc
    rfl
  exact ⟨hpath, reads_back_and_joins.1 path hpath, hp, hq, (reads_back_and_joins.2 p q hp hq).1,
    by decide +kernel⟩

end Playbook.Path
