/-!
# Blank characters

The characters with the Unicode property White_Space, and the cuts that are made by it: taking the
blank characters off both ends of a text, and asking whether a text holds nothing else. The main
statements: nothing is taken off a text without blank ends, and around a character that is not blank
each side is cut at its own end.
-/

namespace Playbook.Text

/-- The characters with the Unicode property White_Space. -/
def isBlank (c : Char) : Bool :=
  let n := c.toNat
  (9 ≤ n && n ≤ 13) || n == 0x20 || n == 0x85 || n == 0xA0 || n == 0x1680 ||
  (0x2000 ≤ n && n ≤ 0x200A) || n == 0x2028 || n == 0x2029 || n == 0x202F || n == 0x205F ||
  n == 0x3000

/-- The characters left when the blank ones are taken off both ends. -/
def trimChars (cs : List Char) : List Char :=
  ((cs.dropWhile isBlank).reverse.dropWhile isBlank).reverse

def trim (text : String) : String :=
  String.ofList (trimChars text.toList)

/-- A text that holds nothing but blank characters. -/
def isBlankText (text : String) : Bool :=
  text.toList.all isBlank

theorem dropWhile_isBlank_eq_self {cs : List Char} (h : ∀ c ∈ cs.head?, isBlank c = false) :
    cs.dropWhile isBlank = cs := by
  cases cs with
  | nil => rfl
  | cons c cs => rw [List.dropWhile_cons, h c rfl, if_neg Bool.false_ne_true]

/-- Nothing is taken off characters that neither start nor end with a blank one. -/
theorem trimChars_eq_self {cs : List Char} (hfirst : ∀ c ∈ cs.head?, isBlank c = false)
    (hlast : ∀ c ∈ cs.getLast?, isBlank c = false) : trimChars cs = cs := by
  have hreverse : ∀ c ∈ cs.reverse.head?, isBlank c = false := by rwa [List.head?_reverse]
  rw [trimChars, dropWhile_isBlank_eq_self hfirst, dropWhile_isBlank_eq_self hreverse,
    List.reverse_reverse]

theorem trimChars_of_not_blank {cs : List Char} (h : ∀ c ∈ cs, isBlank c = false) :
    trimChars cs = cs :=
  trimChars_eq_self (fun c hc => h c (List.mem_of_head? hc)) fun c hc =>
    h c (List.mem_of_getLast? hc)

/-- Before a character that is not blank, the blank ones are taken off what comes first. -/
theorem dropWhile_isBlank_append_cons (before after : List Char) {c : Char}
    (h : isBlank c = false) :
    (before ++ c :: after).dropWhile isBlank = before.dropWhile isBlank ++ c :: after := by
  induction before with
  | nil => exact dropWhile_isBlank_eq_self (by simpa using h)
  | cons b before ih =>
    rw [List.cons_append, List.dropWhile_cons, List.dropWhile_cons, ih]
    split <;> rfl

/-- On both sides of a character that is not blank, blank ones are taken off the outer end. -/
theorem trimChars_append_cons {before after : List Char} {c : Char} (h : isBlank c = false) :
    trimChars (before ++ c :: after) =
      before.dropWhile isBlank ++ c :: (after.reverse.dropWhile isBlank).reverse := by
  rw [trimChars, dropWhile_isBlank_append_cons _ _ h, List.reverse_append, List.reverse_cons,
    List.append_assoc, List.singleton_append, dropWhile_isBlank_append_cons _ _ h,
    List.reverse_append, List.reverse_cons, List.reverse_reverse, List.append_assoc,
    List.singleton_append]

theorem trimChars_of_head? {cs : List Char} (h : ∀ c ∈ cs.head?, isBlank c = false) :
    trimChars cs = (cs.reverse.dropWhile isBlank).reverse := by
  rw [trimChars, dropWhile_isBlank_eq_self h]

theorem trimChars_of_getLast? {cs : List Char} (h : ∀ c ∈ cs.getLast?, isBlank c = false) :
    trimChars cs = cs.dropWhile isBlank := by
  have hlast : ∀ c ∈ (cs.dropWhile isBlank).reverse.head?, isBlank c = false := by
    intro c hc
    rw [List.head?_reverse] at hc
    refine h c ?_
    rw [← List.takeWhile_append_dropWhile (p := isBlank) (l := cs), List.getLast?_append,
      Option.mem_def.1 hc]
    rfl
  rw [trimChars, dropWhile_isBlank_eq_self hlast, List.reverse_reverse]

@[simp] theorem toList_trim (text : String) : (trim text).toList = trimChars text.toList := by
  simp [trim]

end Playbook.Text
