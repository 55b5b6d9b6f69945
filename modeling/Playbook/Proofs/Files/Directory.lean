import Mathlib.Data.List.DropRight
import Playbook.Files.Name

/-!
# The directory of a file

A name is read as steps: to the root, where it begins with a slash, and then into its parts, where
an empty part or a single dot is no step, but for a dot at the start. The main statement: the
directory that names in a file are relative to is the shortest beginning of the name of the file
that takes all of its steps but the last.
-/

namespace Playbook

theorem Text.pieces_eq_splitOn (separator : Char) (cs : List Char) :
    pieces separator cs = cs.splitOn separator := by
  induction cs with
  | nil => rfl
  | cons c cs ih =>
    rw [pieces, List.splitOn_cons_eq_if_modifyHead, ih]
    cases hrest : cs.splitOn separator with
    | nil => exact absurd hrest (List.splitOn_ne_nil _ _)
    | cons piece rest => simp

namespace FileName

/-! ## Steps -/

def root : List Char := ['/']

/-- A part leads somewhere, unless it is empty or a single dot. -/
def leads (part : List Char) : Bool :=
  part != [] && part != ['.']

/-- The step that a name begins with, by its first part and the others. -/
def start (first : List Char) (rest : List (List Char)) : List (List Char) :=
  if first ≠ [] then [first] else if rest = [] then [] else [root]

def stepsOf : List (List Char) → List (List Char)
  | [] => []
  | first :: rest => start first rest ++ rest.filter leads

def steps (name : List Char) : List (List Char) :=
  stepsOf (name.splitOn '/')

/-- The directory of a file: the shortest beginning of its name that takes all of its steps but the
last. A name without a step below the root lies in the current directory. -/
inductive LiesIn (name : String) : String → Prop where
  | above {directory : String} {last : List Char} (begins : directory.toList <+: name.toList)
      (takes : steps name.toList = steps directory.toList ++ [last]) (below : last ≠ root)
      (shortest : ∀ shorter, shorter <+: directory.toList →
        steps shorter = steps directory.toList → shorter = directory.toList) :
      LiesIn name directory
  | here (noStep : steps name.toList = [] ∨ steps name.toList = [root]) : LiesIn name "."

theorem ne_of_below {taken : List (List Char)} {last : List Char} (below : last ≠ root) :
    ¬ (taken ++ [last] = [] ∨ taken ++ [last] = [root]) := by
  rintro (h | h)
  · simp at h
  · have hlast : [last] = [root] := (List.append_inj' (h.trans (List.nil_append _).symm) rfl).2
    exact below (List.singleton_inj.1 hlast)

theorem LiesIn.unique {name first second : String} (hf : LiesIn name first)
    (hs : LiesIn name second) : first = second := by
  cases hf with
  | above begins takes below shortest =>
    cases hs with
    | above begins' takes' below' shortest' =>
      have hsame := (List.append_inj' (takes.symm.trans takes') rfl).1
      apply String.toList_injective
      -- Of two beginnings of one name one begins the other, and none is shorter.
      obtain h | h := List.prefix_or_prefix_of_prefix begins begins'
      · exact shortest' _ h hsame
      · exact (shortest _ h hsame.symm).symm
    | here noStep => exact absurd (takes ▸ noStep) (ne_of_below below)
  | here noStep =>
    cases hs with
    | above begins takes below => exact absurd (takes ▸ noStep) (ne_of_below below)
    | here => rfl

/-! ## Shortest beginnings -/

theorem splitOn_concat_of_ne {c : Char} (hc : c ≠ '/') (cs : List Char) :
    ∃ above last, cs.splitOn '/' = above ++ [last] ∧
      (cs ++ [c]).splitOn '/' = above ++ [last ++ [c]] := by
  induction cs with
  | nil => exact ⟨[], [], rfl, by simp [List.splitOn_cons_eq_if_modifyHead, hc]⟩
  | cons d cs ih =>
    -- The character goes on with the last part, which is the first one if there is no slash.
    obtain ⟨above, last, hcs, hmore⟩ := ih
    rw [List.cons_append, List.splitOn_cons_eq_if_modifyHead, List.splitOn_cons_eq_if_modifyHead,
      hcs, hmore]
    split
    · exact ⟨[] :: above, last, rfl, rfl⟩
    · cases above with
      | nil => exact ⟨[], d :: last, rfl, rfl⟩
      | cons part above => exact ⟨(d :: part) :: above, last, rfl, rfl⟩

theorem splitOn_concat_slash (cs : List Char) :
    (cs ++ ['/']).splitOn '/' = cs.splitOn '/' ++ [[]] :=
  List.splitOn_append_cons_self cs []

/-- How many characters the steps of a name have. -/
def reach (name : List Char) : Nat :=
  (steps name).flatten.length

theorem length_stepsOf_concat (first : List Char) (rest : List (List Char)) (last : List Char) :
    (stepsOf (first :: rest ++ [last])).flatten.length =
      (start first [[]]).flatten.length + (rest.filter leads).flatten.length +
        if leads last then last.length else 0 := by
  have hlast : ([last].filter leads).flatten.length = if leads last then last.length else 0 := by
    cases h : leads last <;> simp [h]
  -- Where the name starts depends on whether there are other parts, not on which.
  have hstart : start first (rest ++ [last]) = start first [[]] := by simp [start]
  rw [List.cons_append, stepsOf, hstart, List.filter_append, List.flatten_append,
    List.flatten_append, List.length_append, List.length_append, hlast, Nat.add_assoc]

theorem reach_le_concat_slash (cs : List Char) : reach cs ≤ reach (cs ++ ['/']) := by
  unfold reach steps
  rw [splitOn_concat_slash]
  cases cs.splitOn '/' with
  | nil => exact Nat.zero_le _
  | cons first rest =>
    have hstart : (start first rest).flatten.length ≤ (start first [[]]).flatten.length := by
      unfold start
      split
      · exact Nat.le_refl _
      · split <;> simp
    rw [length_stepsOf_concat, stepsOf, List.flatten_append, List.length_append]
    omega

/-- A character that goes on with a part takes no step away, and if the part leads somewhere, goes
further. -/
theorem reach_concat_of_ne {c : Char} (hc : c ≠ '/') (cs : List Char) :
    reach cs ≤ reach (cs ++ [c]) ∧ ∃ above last, (cs ++ [c]).splitOn '/' = above ++ [last] ∧
      (above = [] ∨ leads last = true → reach cs < reach (cs ++ [c])) := by
  obtain ⟨above, last, hcs, hmore⟩ := splitOn_concat_of_ne hc cs
  unfold reach steps
  rw [hcs, hmore]
  cases above with
  | nil =>
    have hlt : (stepsOf [last]).flatten.length < (stepsOf [last ++ [c]]).flatten.length := by
      cases last <;> simp [stepsOf, start]
    exact ⟨Nat.le_of_lt hlt, [], _, rfl, fun _ => hlt⟩
  | cons first rest =>
    -- A part that leads somewhere still does when it goes on: only a lone dot does not.
    have hleads : leads last = true → leads (last ++ [c]) = true := by
      intro h
      cases last <;> simp_all [leads]
    rw [length_stepsOf_concat, length_stepsOf_concat, List.length_append, List.length_singleton]
    refine ⟨?_, _, _, rfl, ?_⟩
    · split
      · rw [if_pos (hleads ‹_›)]
        omega
      · omega
    · rintro (h | h)
      · cases h
      · rw [if_pos h]
        split <;> omega

theorem reach_le_concat (cs : List Char) (c : Char) : reach cs ≤ reach (cs ++ [c]) := by
  by_cases hc : c = '/'
  · exact hc ▸ reach_le_concat_slash cs
  · exact (reach_concat_of_ne hc cs).1

theorem reach_le_append (cs more : List Char) : reach cs ≤ reach (cs ++ more) := by
  induction more using List.reverseRecOn with
  | nil => rw [List.append_nil]
  | append_singleton more c ih =>
    rw [← List.append_assoc]
    exact ih.trans (reach_le_concat _ c)

/-- No shorter beginning of a name takes the same steps, if the last part leads somewhere. -/
theorem eq_of_steps_eq {name shorter : List Char} {above : List (List Char)} {last : List Char}
    (hparts : name.splitOn '/' = above ++ [last]) (hne : last ≠ [])
    (hlast : above = [] ∨ leads last = true) (hbegins : shorter <+: name)
    (hsteps : steps shorter = steps name) : shorter = name := by
  obtain ⟨more, rfl⟩ := hbegins
  cases more using List.reverseRecOn with
  | nil => exact (List.append_nil _).symm
  | append_singleton more c =>
    exfalso
    rw [← List.append_assoc] at hparts hsteps
    have hc : c ≠ '/' := by
      rintro rfl
      rw [splitOn_concat_slash] at hparts
      exact hne (List.singleton_inj.1 (List.append_inj' hparts rfl).2).symm
    obtain ⟨-, above', last', hparts', hlt⟩ := reach_concat_of_ne hc (shorter ++ more)
    obtain ⟨rfl, hlast'⟩ := List.append_inj' (hparts.symm.trans hparts') rfl
    obtain rfl := List.singleton_inj.1 hlast'
    -- The last character goes further than any beginning without it.
    have hle := reach_le_append shorter more
    have heq : reach shorter = reach (shorter ++ more ++ [c]) := by rw [reach, reach, hsteps]
    have hless := hlt hlast
    omega

/-! ## Cut names -/

theorem not_mem_of_mem_splitOn {part name : List Char} (h : part ∈ name.splitOn '/') :
    '/' ∉ part := by
  induction name generalizing part with
  | nil =>
    obtain rfl := List.mem_singleton.1 h
    exact List.not_mem_nil
  | cons c name ih =>
    rw [List.splitOn_cons_eq_if_modifyHead] at h
    split at h
    · obtain rfl | h := List.mem_cons.1 h
      · exact List.not_mem_nil
      · exact ih h
    · rename_i hc
      cases hname : name.splitOn '/' with
      | nil => exact absurd hname (List.splitOn_ne_nil _ _)
      | cons first rest =>
        rw [hname] at h ih
        obtain rfl | h := List.mem_cons.1 h
        · exact List.not_mem_cons_of_ne_of_not_mem (fun h => hc (beq_iff_eq.2 h.symm))
            (ih List.mem_cons_self)
        · exact ih (List.mem_cons_of_mem _ h)

theorem ne_root {name part : List Char} {parts : List (List Char)}
    (hparts : name.splitOn '/' = parts) (h : part ∈ parts) : part ≠ root := by
  rintro rfl
  subst hparts
  exact not_mem_of_mem_splitOn h List.mem_cons_self

/-- Parts without those at the end that lead nowhere. -/
def trimmed (parts : List (List Char)) : List (List Char) :=
  parts.rdropWhile fun part => !leads part

theorem trimmed_begins (parts : List (List Char)) : trimmed parts <+: parts :=
  List.rdropWhile_prefix _ parts

theorem trimParts_map (parts : List (List Char)) :
    trimParts (parts.map String.ofList) = (trimmed parts).map String.ofList := by
  have hhere : isHere ∘ String.ofList = fun part => !leads part := by
    funext part
    have hempty : String.ofList part = "" ↔ part = [] := by simp
    have hdot : String.ofList part = "." ↔ part = ['.'] := @String.ofList_inj part ['.']
    rw [Bool.eq_iff_iff]
    simp [isHere, leads, hempty, hdot]
  rw [trimParts, trimmed, List.rdropWhile, ← List.map_reverse, List.dropWhile_map, hhere,
    List.map_reverse]

theorem filter_trimmed (parts : List (List Char)) :
    (trimmed parts).filter leads = parts.filter leads := by
  induction parts using List.reverseRecOn with
  | nil => rfl
  | append_singleton parts part ih =>
    cases hpart : leads part with
    | true => rw [trimmed, List.rdropWhile_concat_neg _ _ _ (by simp [hpart])]
    | false =>
      rw [trimmed, List.rdropWhile_concat_pos _ _ _ (by simp [hpart]), ← trimmed, ih]
      simp [hpart]

theorem trimmed_cases (parts : List (List Char)) :
    trimmed parts = [] ∨ ∃ init last, trimmed parts = init ++ [last] ∧ leads last = true := by
  by_cases h : trimmed parts = []
  · exact .inl h
  · have hlast := List.rdropWhile_last_not (fun part => !leads part) parts h
    refine .inr ⟨_, _, (List.dropLast_concat_getLast h).symm, ?_⟩
    rwa [Bool.not_eq_true, Bool.not_eq_false'] at hlast

theorem directory_eq {name : String} {first : List Char} {rest : List (List Char)}
    (hparts : name.toList.splitOn '/' = first :: rest) :
    directory name =
      if trimmed rest = [] then if first = [] then "." else ""
      else if first = [] ∧ trimmed (trimmed rest).dropLast = [] then "/"
      else ofParts ((first :: trimmed (trimmed rest).dropLast).map String.ofList) := by
  have hempty : String.ofList first = "" ↔ first = [] := by simp
  rw [directory, parent?, parts, Text.pieces_eq_splitOn, hparts, List.map_cons]
  simp only [trimParts_map, hempty]
  -- The last part that leads somewhere is dropped, and then those that lead nowhere.
  cases htrim : trimmed rest with
  | nil => by_cases hfirst : first = [] <;> simp [hfirst]
  | cons below parts =>
    simp only [List.map_cons, List.cons_ne_nil, if_false]
    rw [← List.map_cons, ← List.map_dropLast, trimParts_map]
    split <;> simp_all

theorem intercalate_prefix (separator first : List Char) (above more : List (List Char)) :
    separator.intercalate (first :: above) <+:
      separator.intercalate (first :: (above ++ more)) := by
  induction above generalizing first with
  | nil =>
    cases more with
    | nil => exact List.prefix_rfl
    | cons next more =>
      rw [List.nil_append, List.intercalate_cons_cons, List.intercalate_singleton,
        List.append_assoc]
      exact List.prefix_append _ _
  | cons next above ih =>
    rw [List.cons_append, List.intercalate_cons_cons, List.intercalate_cons_cons]
    exact (List.prefix_append_right_inj _).2 (ih next)

/-- The parts before the last that leads somewhere are the directory, if they end in one that leads
somewhere. -/
theorem liesIn_ofParts {name : String} {first last : List Char} {above rest : List (List Char)}
    (hparts : name.toList.splitOn '/' = first :: rest) (habove : above <+: rest)
    (hrest : rest.filter leads = above.filter leads ++ [last])
    (hends : above = [] ∧ first ≠ [] ∨ ∃ init part, above = init ++ [part] ∧ leads part = true) :
    LiesIn name (ofParts ((first :: above).map String.ofList)) := by
  have hname : ['/'].intercalate (first :: rest) = name.toList :=
    hparts ▸ List.intercalate_splitOn '/'
  have hdirectory : (ofParts ((first :: above).map String.ofList)).toList =
      ['/'].intercalate (first :: above) := by
    rw [ofParts, String.toList_intercalate, List.map_map]
    simp [Function.comp_def]
  -- No part holds a slash, so that the directory is cut into the same parts again.
  have hsplit : (['/'].intercalate (first :: above)).splitOn '/' = first :: above := by
    refine List.splitOn_intercalate '/' (fun part hpart => ?_) (List.cons_ne_nil _ _)
    have hmem : part ∈ first :: rest := ((List.prefix_cons_inj first).2 habove).subset hpart
    exact not_mem_of_mem_splitOn (hparts ▸ hmem)
  have hlast : last ∈ rest := List.mem_of_mem_filter (hrest ▸ List.mem_concat_self)
  have hstart : start first rest = start first above := by
    have hne : rest ≠ [] := List.ne_nil_of_mem hlast
    obtain ⟨-, hfirst⟩ | ⟨init, part, rfl, -⟩ := hends
    · simp [start, hfirst]
    · simp [start, hne]
  have hbegins : (ofParts ((first :: above).map String.ofList)).toList <+: name.toList := by
    obtain ⟨more, rfl⟩ := habove
    rw [hdirectory, ← hname]
    exact intercalate_prefix _ _ _ _
  have hsteps : steps name.toList =
      steps (ofParts ((first :: above).map String.ofList)).toList ++ [last] := by
    rw [hdirectory, steps, steps, hparts, hsplit, stepsOf, stepsOf, hrest, hstart,
      List.append_assoc]
  refine .above hbegins hsteps (ne_root hparts (List.mem_cons_of_mem first hlast)) ?_
  rw [hdirectory]
  -- The directory ends in a part that leads somewhere, or is a single part.
  obtain ⟨rfl, hfirst⟩ | ⟨init, part, rfl, hpart⟩ := hends
  · have hsingle : (['/'].intercalate [first]).splitOn '/' = [] ++ [first] := hsplit
    exact fun shorter => eq_of_steps_eq hsingle hfirst (.inl rfl)
  · have hlonger : (['/'].intercalate (first :: (init ++ [part]))).splitOn '/' =
        (first :: init) ++ [part] := hsplit
    have hpartne : part ≠ [] := by
      rintro rfl
      cases hpart
    exact fun shorter => eq_of_steps_eq hlonger hpartne (.inr hpart)

theorem liesIn_root {name : String} {last : List Char} {rest : List (List Char)}
    (hparts : name.toList.splitOn '/' = [] :: rest) (hrest : rest.filter leads = [last]) :
    LiesIn name "/" := by
  have hname : ['/'].intercalate ([] :: rest) = name.toList :=
    hparts ▸ List.intercalate_splitOn '/'
  have hlast : last ∈ rest := List.mem_of_mem_filter (hrest ▸ List.mem_singleton_self last)
  have hne : rest ≠ [] := List.ne_nil_of_mem hlast
  have hbegins : "/".toList <+: name.toList := by
    rw [← hname, List.intercalate_cons_of_ne_nil hne]
    exact List.prefix_append _ _
  have hsteps : steps name.toList = steps "/".toList ++ [last] := by
    rw [steps, hparts, stepsOf, hrest, start, if_neg (by simp), if_neg hne]
    rfl
  refine .above hbegins hsteps (ne_root hparts (List.mem_cons_of_mem [] hlast)) ?_
  intro shorter hshorter hsame
  obtain rfl | ⟨_, rfl, hnil⟩ := List.prefix_cons_iff.1 hshorter
  · cases hsame
  · rw [List.prefix_nil.1 hnil]
    rfl

/-- A single part lies in the directory without a name. -/
theorem liesIn_empty {name : String} {first : List Char} {rest : List (List Char)}
    (hparts : name.toList.splitOn '/' = first :: rest) (hfirst : first ≠ [])
    (hrest : rest.filter leads = []) : LiesIn name "" := by
  have hsteps : steps name.toList = steps "".toList ++ [first] := by
    rw [steps, hparts, stepsOf, hrest, start, if_pos hfirst]
    rfl
  exact .above List.nil_prefix hsteps (ne_root hparts List.mem_cons_self)
    fun shorter hshorter _ => List.prefix_nil.1 hshorter

theorem liesIn_here {name : String} {rest : List (List Char)}
    (hparts : name.toList.splitOn '/' = [] :: rest) (hrest : rest.filter leads = []) :
    LiesIn name "." := by
  apply LiesIn.here
  rw [steps, hparts, stepsOf, hrest, start, if_neg (by simp)]
  split
  · exact .inl rfl
  · exact .inr rfl

theorem liesIn_directory (name : String) : LiesIn name (directory name) := by
  obtain ⟨first, rest, hparts⟩ := List.exists_cons_of_ne_nil (List.splitOn_ne_nil '/' name.toList)
  rw [directory_eq hparts]
  -- Below the first part either nothing leads anywhere, or the last part that does is the file.
  obtain htrim | ⟨above, last, htrim, hlast⟩ := trimmed_cases rest
  · have hrest : rest.filter leads = [] := by rw [← filter_trimmed, htrim, List.filter_nil]
    rw [if_pos htrim]
    split
    · rename_i hfirst
      exact liesIn_here (hfirst ▸ hparts) hrest
    · rename_i hfirst
      exact liesIn_empty hparts hfirst hrest
  · have hrest : rest.filter leads = (trimmed above).filter leads ++ [last] := by
      rw [← filter_trimmed, htrim, List.filter_append, filter_trimmed]
      simp [hlast]
    have habove : trimmed above <+: rest :=
      ((trimmed_begins above).trans (List.prefix_append above [last])).trans
        (htrim ▸ trimmed_begins rest)
    rw [if_neg (by simp [htrim]), htrim, List.dropLast_concat]
    split
    · rename_i hfirst
      rw [hfirst.2] at hrest
      exact liesIn_root (hfirst.1 ▸ hparts) hrest
    · rename_i hfirst
      refine liesIn_ofParts hparts habove hrest ?_
      obtain hnone | ⟨init, part, hsome, hpart⟩ := trimmed_cases above
      · exact .inl ⟨hnone, fun h => hfirst ⟨h, hnone⟩⟩
      · exact .inr ⟨init, part, hsome, hpart⟩

end FileName

end Playbook
