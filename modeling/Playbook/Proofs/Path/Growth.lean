import Playbook.Proofs.Path.ReadBack
import Playbook.Proofs.Text.Numeral

/-!
# How far a write reaches, and how much it makes

Whether a write gets to the end of its path is decided hop by hop, by the containers that stood on
the path before the write. A container that is made on the way gives no trouble but where an empty
list is too short for an index. The main statement: the exact condition, and that a list on the way
keeps its items and is filled up with nulls within the limit; both hold when indices are reckoned in
words of 64 bits, where no sum or difference overflows.
-/

namespace Playbook.Value

/-- A hop of a write finds room at what stood there before the write, if anything did: an object is
entered by a key; a list by an index or a key that spells one, within the padding; and anything else
gives way to a new container, which is an empty list for an index. -/
def Admits : Option Value → Segment → Prop
  | some (.object _), segment => ∃ key, segment = .key key
  | some (.array items), segment =>
    ∃ index, itemOf? segment = some index ∧ index < items.length + maxPadding
  | _, .key _ => True
  | _, .index index => index < 0 + maxPadding

/-- What a hop of a write makes of the items of a list: it keeps them and adds nulls within the
limit, but for the item that it leads to. -/
structure Grown (items : List Value) (segment : Segment) (items' : List Value) : Prop where
  keeps : items.length ≤ items'.length
  bound : items'.length ≤ items.length + maxPadding
  same : ∀ i < items.length, itemOf? segment ≠ some i → items'[i]? = items[i]?
  nulls : ∀ i < items'.length, items.length ≤ i → itemOf? segment ≠ some i → items'[i]? = some .null

/-! ## Hops that find room -/

theorem leads_hopToItem_iff {items : List Value} {index : Nat} :
    (hopToItem items index).Leads ↔ index < items.length + maxPadding := by
  rw [hopToItem_eq]
  split
  · rename_i hlt
    exact iff_of_true trivial hlt
  · rename_i hge
    exact iff_of_false id hge

theorem admits_array_iff {items : List Value} {segment : Segment} :
    Admits (some (.array items)) segment ↔ ((array items).hop segment).Leads := by
  cases segment with
  | key key =>
    cases hk : itemKey? key with
    | none => simp [Admits, itemOf?, hop, hk, Hop.Leads]
    | some index => simp [Admits, itemOf?, hop, hk, leads_hopToItem_iff]
  | index index => simp [Admits, itemOf?, hop, leads_hopToItem_iff]

/-- A value that is neither a list nor an object is entered like a place where nothing is. -/
theorem admits_none_iff {v : Value} {segment : Segment} (ha : v.shape ≠ .array)
    (ho : v.shape ≠ .object) : Admits none segment ↔ (v.hop segment).Leads := by
  cases segment with
  | key key =>
    rw [hop_key key ha]
    exact Iff.rfl
  | index index =>
    have hhop : v.hop (.index index) = hopToItem [] index := by
      cases v with
      | array items => exact absurd rfl ha
      | object fields => exact absurd rfl ho
      | _ => rfl
    rw [hhop, leads_hopToItem_iff]
    exact Iff.rfl

/-- A hop leads on exactly if it finds room at the value. -/
theorem admits_iff_leads {v : Value} {segment : Segment} :
    Admits (some v) segment ↔ (v.hop segment).Leads := by
  cases v with
  | object fields => cases segment <;> simp [Admits, hop, Hop.Leads]
  | array items => exact admits_array_iff
  | _ =>
    rw [← admits_none_iff (by simp [shape]) (by simp [shape])]
    cases segment <;> exact Iff.rfl

/-- What is found below the slot of a hop that leads on: what was there before, or a place that is
entered as if nothing were there. -/
theorem admits_slot_iff {v : Value} {segment other : Segment} {front : Path}
    (hl : (v.hop segment).Leads) :
    Admits ((v.hop segment).slot.lookup front) other ↔
      Admits (v.lookup (segment :: front)) other := by
  cases hc : v.child? segment with
  | some child => rw [lookup, hc, (hop_of_child? hc).2, Option.bind_some]
  | none =>
    have hnone : v.lookup (segment :: front) = none := by rw [lookup, hc, Option.bind_none]
    have hbare := slot_of_child?_eq_none hl hc
    rw [hnone]
    cases hread : (v.hop segment).slot.lookup front with
    | none => exact Iff.rfl
    | some w =>
      -- Nothing is below a null or a text, so the path ends at it.
      obtain rfl := lookup_of_bare hbare hread
      rw [admits_iff_leads]
      obtain h | ⟨text, h⟩ := hbare <;>
        exact (admits_none_iff (by simp [h, shape]) (by simp [h, shape])).symm

/-! ## Writes that succeed -/

/-- A write succeeds exactly if every hop of its path finds room. -/
theorem write_succeeds_iff (f : Value → Value) (v : Value) (path : Path) :
    (∃ old, (write f path v).1 = .ok old) ↔
      ∀ front segment rest, path = front ++ segment :: rest → Admits (v.lookup front) segment := by
  induction path generalizing v with
  | nil => exact iff_of_true ⟨v, rfl⟩ fun front segment rest h => by simp at h
  | cons segment rest ih =>
    constructor
    · rintro ⟨old, hold⟩ front other tail hpath
      obtain ⟨hl, child, hc, -⟩ := write_cons_ok (Prod.ext hold rfl)
      cases front with
      | nil =>
        obtain ⟨rfl, rfl⟩ := List.cons.inj hpath
        exact admits_iff_leads.2 hl
      | cons first front =>
        obtain ⟨rfl, rfl⟩ := List.cons.inj hpath
        -- Below the slot the hops find what they find below the child.
        rw [← admits_slot_iff hl]
        exact (ih _).1 ⟨old, by rw [hc]⟩ front other tail rfl
    · intro hadmits
      have hl : (v.hop segment).Leads := admits_iff_leads.1 (hadmits [] segment rest rfl)
      rw [write_of_leads f rest hl]
      refine (ih _).2 fun front other tail hpath => ?_
      rw [admits_slot_iff hl]
      exact hadmits (segment :: front) other tail (by rw [hpath, List.cons_append])

/-! ## Lists on the way -/

theorem grown_refl (items : List Value) (segment : Segment) : Grown items segment items where
  keeps := Nat.le_refl _
  bound := Nat.le_add_right _ _
  same := fun _ _ _ => rfl
  nulls := fun _ hlt hge _ => absurd hlt (Nat.not_lt.2 hge)

theorem length_padded (items : List Value) (index : Nat) :
    (padded items index).length = max items.length (index + 1) := by
  simp only [padded, List.length_append, List.length_replicate]
  omega

theorem grown_padded {items : List Value} {segment : Segment} {index : Nat} (child : Value)
    (hi : itemOf? segment = some index) (hlt : index < items.length + maxPadding) :
    Grown items segment ((padded items index).set index child) where
  keeps := by
    rw [List.length_set, length_padded]
    exact Nat.le_max_left _ _
  bound := by
    rw [List.length_set, length_padded]
    omega
  same := by
    intro i hold hne
    have hne' : index ≠ i := fun e => hne (e ▸ hi)
    rw [List.getElem?_set_ne hne', padded, List.getElem?_append_left hold]
  nulls := by
    intro i hnew hge hne
    have hne' : index ≠ i := fun e => hne (e ▸ hi)
    rw [List.length_set, length_padded] at hnew
    -- Only the items before the new one are filled up.
    have hle : i ≤ index := by omega
    rw [List.getElem?_set_ne hne', getElem?_padded_eq, if_pos hle, itemSlot,
      List.getElem?_eq_none hge, Option.getD_none]

/-- A write that goes on from a list leaves a list that has grown at most. -/
theorem write_cons_array (f : Value → Value) (items : List Value) (segment : Segment)
    (rest : Path) :
    ∃ items', (write f (segment :: rest) (.array items)).2 = .array items' ∧
      Grown items segment items' := by
  rcases ((array items).hop segment).leads_or_stuck with hl | ⟨reason, left, hs⟩
  · rw [write_of_leads f rest hl]
    rcases hl.cases with ⟨_, _, hshape, _⟩ | ⟨index, hi, _, hh⟩
    · exact absurd rfl hshape
    -- That the hop leads on bounds the index that the list is filled up to.
    · obtain ⟨index', hi', hlt⟩ := admits_array_iff.2 hl
      obtain rfl : index = index' := Option.some.inj (hi.symm.trans hi')
      rw [hh]
      exact ⟨_, rfl, grown_padded _ hi hlt⟩
  · rw [write_of_stuck f rest hs]
    rcases left_of_stuck hs with rfl | ⟨_, hshape, _⟩
    · exact ⟨items, rfl, grown_refl items segment⟩
    · exact absurd rfl hshape

/-! ## Indices in words -/

/-- The length that a list is filled up to for an item that it lacks, reckoned in words of 64 bits:
one more than the index, if that is a word and lies within the padding. The outer `none` stands for
an overflow that no check has caught. -/
def filledLength? (length index : BitVec 64) : Option (Option (BitVec 64)) :=
  if BitVec.uaddOverflow index 1 then some none
  else if BitVec.usubOverflow (index + 1) length then none
  else if index + 1 - length ≤ BitVec.ofNat 64 maxPadding then some (some (index + 1))
  else some none

/-- The hop to an item, reckoned in words of 64 bits; `none` stands for an overflow. -/
def hopInWords? (items : List Value) (index : Nat) : Option Hop :=
  if BitVec.ofNat 64 items.length ≤ BitVec.ofNat 64 index then
    (filledLength? (BitVec.ofNat 64 items.length) (BitVec.ofNat 64 index)).map fun filled =>
      match filled with
      | some length => .item (items ++ List.replicate (length.toNat - items.length) .null) index
      | none => .stuck (.beyondPadding index items.length) (.array items)
  else some (.item items index)

/-- Words give the filled length exactly, if the list is so short that its padding ends at a word.
-/
theorem filledLength?_eq {length index : BitVec 64} (hle : length ≤ index)
    (hb : length.toNat + maxPadding < Text.wordBound) :
    ∃ filled, filledLength? length index = some filled ∧
      filled.map BitVec.toNat =
        if index.toNat < length.toNat + maxPadding then some (index.toNat + 1) else none := by
  have hbound : Text.wordBound = 2 ^ 64 := rfl
  have hpadding : maxPadding = 1024 := rfl
  rw [hbound, hpadding] at hb
  rw [BitVec.le_def] at hle
  by_cases hmax : BitVec.uaddOverflow index 1 = true
  · -- The index is the greatest word, and so beyond the padding of any such list.
    refine ⟨none, by rw [filledLength?, if_pos hmax], ?_⟩
    have hindex : 2 ^ 64 ≤ index.toNat + 1 := by simpa [BitVec.uaddOverflow] using hmax
    rw [if_neg (by omega), Option.map_none]
  · have hsum : (index + 1).toNat = index.toNat + 1 := BitVec.toNat_add_of_not_uaddOverflow hmax
    -- The index is at least the length, so that the difference is one of natural numbers.
    have hover : ¬ BitVec.usubOverflow (index + 1) length = true := by
      simp only [BitVec.usubOverflow, hsum, decide_eq_true_eq]
      omega
    have hdiff : (index + 1 - length).toNat = index.toNat + 1 - length.toNat := by
      rw [BitVec.toNat_sub_of_not_usubOverflow hover, hsum]
    have hnear : index + 1 - length ≤ BitVec.ofNat 64 maxPadding ↔
        index.toNat < length.toNat + maxPadding := by
      rw [BitVec.le_def, hdiff, BitVec.toNat_ofNat, hpadding]
      omega
    rw [filledLength?, if_neg hmax, if_neg hover]
    by_cases hlt : index.toNat < length.toNat + maxPadding
    · exact ⟨some (index + 1), by rw [if_pos (hnear.2 hlt)], by rw [if_pos hlt, ← hsum]; rfl⟩
    · exact ⟨none, by rw [if_neg (mt hnear.1 hlt)], by rw [if_neg hlt]; rfl⟩

/-- Words give the hop to an item exactly, and nothing overflows. -/
theorem hopInWords?_eq {items : List Value} {index : Nat} (hi : index < Text.wordBound)
    (hb : items.length + maxPadding < Text.wordBound) :
    hopInWords? items index = some (hopToItem items index) := by
  have hlength : (BitVec.ofNat 64 items.length).toNat = items.length :=
    Nat.mod_eq_of_lt (Nat.lt_of_le_of_lt (Nat.le_add_right _ _) hb)
  have hindex : (BitVec.ofNat 64 index).toNat = index := Nat.mod_eq_of_lt hi
  have hle : BitVec.ofNat 64 items.length ≤ BitVec.ofNat 64 index ↔ items.length ≤ index := by
    rw [BitVec.le_def, hlength, hindex]
  rw [hopInWords?]
  by_cases hword : BitVec.ofNat 64 items.length ≤ BitVec.ofNat 64 index
  · obtain ⟨filled, hfilled, hvalue⟩ := filledLength?_eq hword (by rwa [hlength])
    rw [hlength, hindex] at hvalue
    rw [if_pos hword, hfilled, Option.map_some, hopToItem_eq]
    by_cases hlt : index < items.length + maxPadding
    · rw [if_pos hlt] at hvalue ⊢
      obtain ⟨length, rfl, hlength'⟩ := Option.map_eq_some_iff.1 hvalue
      simp only [hlength', padded]
    · rw [if_neg hlt, Option.map_eq_none_iff] at hvalue
      simp only [hvalue, if_neg hlt]
  · have hlt : index < items.length := Nat.lt_of_not_le (mt hle.2 hword)
    rw [if_neg hword, hopToItem, if_pos hlt]

/-- A write succeeds exactly if every hop of its path finds room at what stood there, where a key
spells an index if it is the decimal numeral of a word. Whether the write succeeds or not, a list on
its way has kept its items and grown within the padding, but for the item that the path goes on to;
a list at the end of the path is only changed by the change itself. Reckoned in words of 64 bits
every hop to an item is the same, and nothing overflows. -/
theorem write_reaches_and_grows (f : Value → Value) (v : Value) (path : Path) :
    ((∃ old, (write f path v).1 = .ok old) ↔
      ∀ front segment rest, path = front ++ segment :: rest → Admits (v.lookup front) segment) ∧
    (∀ key index, itemKey? key = some index ↔
      (Text.Numeral 10 key.toList index ∨
        ∃ digits, key.toList = '+' :: digits ∧ Text.Numeral 10 digits index) ∧
      index < Text.wordBound) ∧
    (∀ front segment rest items, path = front ++ segment :: rest →
      v.lookup front = some (.array items) →
      ∃ items', (write f path v).2.lookup front = some (.array items') ∧
        Grown items segment items') ∧
    (∀ items, v.lookup path = some (.array items) →
      (write f path v).2.lookup path = some (f (.array items))) ∧
    ((∀ index, .index index ∈ path → index < Text.wordBound) →
      ∀ segment ∈ path, ∀ items index, itemOf? segment = some index →
        items.length + maxPadding < Text.wordBound →
        hopInWords? items index = some (hopToItem items index)) := by
  refine ⟨write_succeeds_iff f v path, fun _ _ => Text.unsigned?_eq_some_iff, ?_, ?_, ?_⟩
  · rintro front segment rest items rfl hread
    obtain ⟨items', hitems, hgrown⟩ := write_cons_array f items segment rest
    -- A write through the list is a write to it, in its place.
    rw [(write_append f (segment :: rest) hread).2, hitems]
    exact ⟨items', rfl, hgrown⟩
  · intro items hread
    have hwrite := (write_append f [] hread).2
    rwa [List.append_nil] at hwrite
  · intro hwords segment hmem items index hi hb
    refine hopInWords?_eq ?_ hb
    cases segment with
    | key key => exact (Text.unsigned?_eq_some_iff.1 hi).2
    | index i =>
      obtain rfl := Option.some.inj hi
      exact hwords i hmem

/-- A list of one item is filled up as far as the padding goes, and an item beyond it gets a field;
the greatest index of all is only too great. -/
theorem write_reaches_and_grows_edge :
    let tree : Value := .object [("list", .array [.string "a"])]
    let path : Path := [.key "list", .index maxPadding, .key "x"]
    (∃ old, (write (fun _ => .int 1) path tree).1 = .ok old) ∧
      (∃ items', (write (fun _ => .int 1) path tree).2.lookup [.key "list"] = some (.array items') ∧
        Grown [.string "a"] (.index maxPadding) items') ∧
      hopInWords? [.string "a"] (Text.wordBound - 1) =
        some (.stuck (.beyondPadding (Text.wordBound - 1) 1) (.array [.string "a"])) := by
  intro tree path
  have hadmits : ∀ front segment rest, path = front ++ segment :: rest →
      Admits (tree.lookup front) segment := by
    intro front segment rest hpath
    -- The path has three hops, and each finds room: the field, the last item of the padding, and
    -- the field of a null.
    rcases front with _ | ⟨first, _ | ⟨second, _ | ⟨third, front⟩⟩⟩ <;>
      simp only [path, List.nil_append, List.cons_append, List.cons.injEq] at hpath
    · exact ⟨"list", hpath.1.symm⟩
    · obtain ⟨rfl, rfl, -⟩ := hpath
      exact ⟨maxPadding, rfl, by decide⟩
    · obtain ⟨rfl, rfl, rfl, -⟩ := hpath
      exact trivial
    · simp at hpath
  obtain ⟨hreach, -, hgrow, -⟩ := write_reaches_and_grows (fun _ => .int 1) tree path
  obtain ⟨-, -, -, -, hwords⟩ :=
    write_reaches_and_grows (fun _ => .int 1) tree [.index (Text.wordBound - 1)]
  have hword : ∀ index, Segment.index index ∈ [Segment.index (Text.wordBound - 1)] →
      index < Text.wordBound := by
    intro index hmem
    obtain rfl := Segment.index.inj (List.mem_singleton.1 hmem)
    decide
  refine ⟨hreach.2 hadmits, hgrow [.key "list"] _ _ _ rfl rfl, ?_⟩
  rw [hwords hword _ (List.mem_singleton.2 rfl) [.string "a"] _ rfl (by decide)]
  rfl

end Playbook.Value
