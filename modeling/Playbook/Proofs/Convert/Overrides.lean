import Mathlib.Data.List.Find
import Mathlib.Data.List.Induction
import Mathlib.Data.List.Nodup
import Mathlib.Data.List.Pairwise
import Playbook.Convert.Coercer

/-!
# Which override counts

The tables of overrides are taken in one after another, in an order that nobody chose. The main
statement: when no two keys name the same alias or type, every order gives the same conversions. A
registration for the alias of a family counts for all types of the family, and then none for a
single type does; the shapes that are left out keep the conversions of the family.
-/

namespace Playbook

namespace ConversionTable

@[simp] theorem overriddenBy_none (table : ConversionTable) : table.overriddenBy .none = table :=
  rfl

end ConversionTable

namespace Overrides

open Coercer (addTable ofOverrides)

/-- What a key of overrides may name: a family by its alias, or a single type. -/
inductive Target where
  | family (family : Family)
  | type (type : SolidityType)
  deriving DecidableEq

/-- What a key names; a single type has many spellings. -/
def target? (key : String) : Option Target :=
  let name := Text.trim key
  match Family.ofAlias? name with
  | some family => some (.family family)
  | none => (SolidityType.parse? name).map .type

structure Registration where
  key : String
  shape : Shape
  conversion : Conversion

/-- What is found among elements that do not compete is the one that is sought. -/
theorem find?_eq_some_iff_of_unique {α : Type} {l : List α} {sought : α → Bool}
    (hu : ∀ a ∈ l, ∀ b ∈ l, sought a = true → sought b = true → a = b) {a : α} :
    l.find? sought = some a ↔ a ∈ l ∧ sought a = true := by
  constructor
  · intro h
    exact ⟨List.mem_of_find?_eq_some h, List.find?_some h⟩
  · rintro ⟨ha, hsought⟩
    cases h : l.find? sought with
    | none => exact absurd hsought (List.find?_eq_none.1 h a ha)
    | some b => rw [hu b (List.mem_of_find?_eq_some h) a ha (List.find?_some h) hsought]

/-! ## Registrations -/

/-- The last conversions that were registered under the keys, by shape. -/
def latest (rs : List Registration) (keys : String → Bool) : ConversionTable := fun shape =>
  (rs.reverse.find? fun r => keys r.key && r.shape = shape).map Registration.conversion

theorem latest_snoc (rs : List Registration) (r : Registration) (keys : String → Bool) :
    latest (rs ++ [r]) keys =
      if keys r.key then (latest rs keys).set r.shape r.conversion else latest rs keys := by
  funext shape
  by_cases hkey : keys r.key = true
  · by_cases hshape : r.shape = shape
    · simp [latest, ConversionTable.set, hkey, hshape]
    · simp [latest, ConversionTable.set, hkey, hshape, Ne.symm hshape]
  · simp [latest, hkey]

theorem latest_congr {rs : List Registration} {keys others : String → Bool}
    (h : ∀ r ∈ rs, keys r.key = others r.key) : latest rs keys = latest rs others := by
  funext shape
  have hfind : rs.reverse.find? (fun r => keys r.key && r.shape = shape) =
      rs.reverse.find? (fun r => others r.key && r.shape = shape) :=
    List.find?_congr fun r hr => by rw [h r (List.mem_reverse.1 hr)]
  rw [latest, latest, hfind]

theorem latest_eq_none {rs : List Registration} {keys : String → Bool}
    (h : ∀ r ∈ rs, keys r.key = false) : latest rs keys = .none := by
  have hnone : latest rs keys = latest rs fun _ => false := latest_congr h
  rw [hnone]
  funext shape
  simp [latest, ConversionTable.none]

/-- No key was registered twice for one shape. -/
def RegisteredOnce (rs : List Registration) : Prop :=
  (rs.map fun r => (r.key, r.shape)).Nodup

instance (rs : List Registration) : Decidable (RegisteredOnce rs) :=
  inferInstanceAs (Decidable (List.Nodup _))

/-- Where no two registrations compete, each of them is the last one. -/
theorem latest_eq_some_iff {rs : List Registration} {keys : String → Bool}
    (hu : ∀ r ∈ rs, ∀ r' ∈ rs, keys r.key → keys r'.key → r.shape = r'.shape → r = r')
    {shape : Shape} {conversion : Conversion} :
    latest rs keys shape = some conversion ↔
      ∃ r ∈ rs, keys r.key ∧ r.shape = shape ∧ r.conversion = conversion := by
  have hunique : ∀ r ∈ rs.reverse, ∀ r' ∈ rs.reverse, (keys r.key && r.shape = shape) = true →
      (keys r'.key && r'.shape = shape) = true → r = r' := by
    simp only [List.mem_reverse, Bool.and_eq_true, decide_eq_true_eq]
    intro r hr r' hr' h h'
    exact hu r hr r' hr' h.1 h'.1 (h.2.trans h'.2.symm)
  simp [latest, find?_eq_some_iff_of_unique hunique, and_assoc]

/-- Where no two registrations compete, their order does not matter. -/
theorem latest_perm {rs others : List Registration} {keys : String → Bool}
    (hu : ∀ r ∈ rs, ∀ r' ∈ rs, keys r.key → keys r'.key → r.shape = r'.shape → r = r')
    (hp : others.Perm rs) : latest others keys = latest rs keys := by
  have hu' : ∀ r ∈ others, ∀ r' ∈ others,
      keys r.key → keys r'.key → r.shape = r'.shape → r = r' :=
    fun r hr r' hr' => hu r (hp.mem_iff.1 hr) r' (hp.mem_iff.1 hr')
  funext shape
  -- Each side has a conversion exactly if it was registered, in whatever order.
  apply Option.ext
  intro conversion
  simp only [latest_eq_some_iff hu, latest_eq_some_iff hu', hp.mem_iff]

def ofRegistrations (rs : List Registration) : Overrides :=
  rs.foldl (fun overrides r => overrides.register r.key r.shape r.conversion) empty

/-- No two keys name the same alias or the same type. -/
def Separate (overrides : Overrides) : Prop :=
  ((Fields.names overrides.tables).filterMap target?).Nodup

instance (overrides : Overrides) : Decidable overrides.Separate :=
  inferInstanceAs (Decidable (List.Nodup _))

theorem ofRegistrations_snoc (rs : List Registration) (r : Registration) :
    ofRegistrations (rs ++ [r]) = (ofRegistrations rs).register r.key r.shape r.conversion := by
  simp [ofRegistrations]

theorem distinct_ofRegistrations (rs : List Registration) :
    Fields.Distinct (ofRegistrations rs).tables := by
  induction rs using List.reverseRecOn with
  | nil => exact List.nodup_nil
  | append_singleton rs r ih =>
    rw [ofRegistrations_snoc]
    exact Fields.distinct_put _ _ ih

/-- A key has a table if it was registered, and it holds the last conversion of every shape. -/
theorem get?_ofRegistrations (rs : List Registration) (key : String) :
    Fields.get? (ofRegistrations rs).tables key =
      if ∃ r ∈ rs, r.key = key then some (latest rs (· = key)) else none := by
  induction rs using List.reverseRecOn with
  | nil => simp [ofRegistrations, empty]
  | append_singleton rs r ih =>
    rw [ofRegistrations_snoc, register, latest_snoc]
    by_cases hkey : r.key = key
    · subst hkey
      -- The table of the key so far, which is empty if the key was not registered before.
      have hold : (Fields.get? (ofRegistrations rs).tables r.key).getD .none =
          latest rs (· = r.key) := by
        rw [ih]
        split
        · rfl
        · rename_i hnone
          exact (latest_eq_none fun r' hr' => by simpa using fun h => hnone ⟨r', hr', h⟩).symm
      simp [hold]
    · simp [Fields.get?_put_of_ne _ _ (Ne.symm hkey), ih, hkey]

theorem mem_names_ofRegistrations {rs : List Registration} {key : String} :
    key ∈ Fields.names (ofRegistrations rs).tables ↔ ∃ r ∈ rs, r.key = key := by
  rw [Fields.mem_names_iff_get?, get?_ofRegistrations]
  split <;> simp_all

/-! ## The table for a target -/

/-- The first table under a key that names the target. -/
def tableOf? (tables : Fields ConversionTable) (target : Target) : Option ConversionTable :=
  (tables.find? fun entry => target? entry.1 = some target).map Prod.snd

theorem tableOf?_snoc (tables : Fields ConversionTable) (key : String) (table : ConversionTable)
    (target : Target) :
    tableOf? (tables ++ [(key, table)]) target =
      (tableOf? tables target).or (if target? key = some target then some table else none) := by
  rw [tableOf?, tableOf?, List.find?_append, Option.map_or]
  by_cases h : target? key = some target <;> simp [h]

theorem tableOf?_eq_none_iff {tables : Fields ConversionTable} {target : Target} :
    tableOf? tables target = none ↔ ∀ key ∈ Fields.names tables, target? key ≠ some target := by
  simp [tableOf?, Fields.names]

/-- Only one key of separate overrides names the target. -/
theorem Separate.eq_of_target? {overrides : Overrides} (hs : overrides.Separate)
    {target : Target} {key other : String} (hk : key ∈ Fields.names overrides.tables)
    (ho : other ∈ Fields.names overrides.tables) (hkt : target? key = some target)
    (hot : target? other = some target) : key = other := by
  by_contra hne
  have hpairs := List.pairwise_filterMap.1 hs
  -- The list of targets says it for keys in their order, and it holds in both directions.
  have : Std.Symm fun key other => ∀ target, target? key = some target →
      ∀ target', target? other = some target' → target ≠ target' :=
    ⟨fun _ _ h target ht target' ht' heq => h target' ht' target ht heq.symm⟩
  exact hpairs.forall hk ho hne target hkt target hot rfl

theorem Separate.perm {overrides others : Overrides} (hs : overrides.Separate)
    (hp : others.tables.Perm overrides.tables) : others.Separate :=
  ((hp.map Prod.fst).filterMap target?).nodup_iff.2 hs

theorem tableOf?_eq_some {overrides : Overrides} (hs : overrides.Separate)
    (hd : Fields.Distinct overrides.tables) {target : Target} {key : String}
    {table : ConversionTable} (ht : target? key = some target)
    (hm : (key, table) ∈ overrides.tables) : tableOf? overrides.tables target = some table := by
  have hunique : ∀ entry ∈ overrides.tables, ∀ other ∈ overrides.tables,
      decide (target? entry.1 = some target) = true →
      decide (target? other.1 = some target) = true → entry = other := by
    rintro ⟨key, table⟩ hentry ⟨key', table'⟩ hother ht ht'
    obtain rfl := hs.eq_of_target? (List.mem_map_of_mem hentry) (List.mem_map_of_mem hother)
      (of_decide_eq_true ht) (of_decide_eq_true ht')
    have htable := (Fields.get?_eq_some_iff hd).2 hentry
    rw [(Fields.get?_eq_some_iff hd).2 hother] at htable
    rw [Option.some.inj htable]
  rw [tableOf?, (find?_eq_some_iff_of_unique hunique).2 ⟨hm, decide_eq_true ht⟩, Option.map_some]

/-- The table for a target holds the last conversion that was registered for each shape under the
only key that names the target. -/
theorem tableOf?_of_perm {rs : List Registration} {order : Fields ConversionTable}
    (hs : (ofRegistrations rs).Separate)
    (hp : order.Perm (ofRegistrations rs).tables) (target : Target) :
    tableOf? order target =
      if ∃ r ∈ rs, target? r.key = some target then
        some (latest rs fun key => target? key = some target)
      else none := by
  have hnames (key : String) : key ∈ Fields.names order ↔ ∃ r ∈ rs, r.key = key := by
    rw [← mem_names_ofRegistrations]
    exact (hp.map Prod.fst).mem_iff
  split
  · rename_i h
    obtain ⟨r, hr, ht⟩ := h
    -- Whatever was registered for the target was registered under this one key.
    have hsame : latest rs (fun key => target? key = some target) = latest rs (· = r.key) := by
      refine latest_congr fun other hother => decide_eq_decide.2 ⟨fun hot => ?_, fun h => h ▸ ht⟩
      exact hs.eq_of_target? (mem_names_ofRegistrations.2 ⟨other, hother, rfl⟩)
        (mem_names_ofRegistrations.2 ⟨r, hr, rfl⟩) hot ht
    have hget : Fields.get? (ofRegistrations rs).tables r.key =
        some (latest rs fun key => target? key = some target) := by
      rw [get?_ofRegistrations, if_pos ⟨r, hr, rfl⟩, hsame]
    have hd := distinct_ofRegistrations rs
    have hmem := hp.mem_iff.2 ((Fields.get?_eq_some_iff hd).1 hget)
    have horder : Separate ⟨order⟩ := hs.perm hp
    exact tableOf?_eq_some horder (hd.perm hp.symm) ht hmem
  · rename_i h
    refine tableOf?_eq_none_iff.2 fun key hkey ht => h ?_
    obtain ⟨r, hr, rfl⟩ := (hnames key).1 hkey
    exact ⟨r, hr, ht⟩

/-! ## Taking in tables -/

/-- What taking in a table does depends only on what its key names. -/
theorem addTable_eq (coercer : Coercer) (key : String) (table : ConversionTable) :
    coercer.addTable key table =
      match target? key with
      | none => coercer
      | some (.family family) =>
        { coercer with
          families := fun f =>
            if f = family then (coercer.families f).overriddenBy table else coercer.families f
          aliased := fun f => f = family || coercer.aliased f }
      | some (.type type) =>
        { coercer with
          exact := fun t =>
            if t = type then some ((coercer.families type.family).overriddenBy table)
            else coercer.exact t } := by
  simp only [addTable, target?]
  cases Family.ofAlias? (Text.trim key) with
  | some family => rfl
  | none => cases SolidityType.parse? (Text.trim key) <;> rfl

/-- A key that names nothing supported has no effect. -/
theorem ofOverrides_filter (tables : Fields ConversionTable) :
    ofOverrides ⟨tables.filter fun entry => (target? entry.1).isSome⟩ = ofOverrides ⟨tables⟩ := by
  -- To leave out such a table and to take it in are the same.
  have hstep (coercer : Coercer) (entry : String × ConversionTable) :
      (if (target? entry.1).isSome then coercer.addTable entry.1 entry.2 else coercer) =
        coercer.addTable entry.1 entry.2 := by
    split
    · rfl
    · rename_i h
      rw [addTable_eq, Option.not_isSome_iff_eq_none.1 h]
  simp only [ofOverrides, List.foldl_filter, hstep]

/-- The conversions are those that the tables make, as far as they count: nothing is said about a
single type when the alias of its family has a table. -/
structure Reflects (coercer : Coercer) (tables : Fields ConversionTable) : Prop where
  families (family : Family) : coercer.families family =
    family.defaults.overriddenBy ((tableOf? tables (.family family)).getD .none)
  aliased (family : Family) : coercer.aliased family = (tableOf? tables (.family family)).isSome
  exact (type : SolidityType) (h : tableOf? tables (.family type.family) = none) :
    coercer.exact type = (tableOf? tables (.type type)).map type.family.defaults.overriddenBy

theorem reflects_default : Reflects Coercer.default [] where
  families _ := rfl
  aliased _ := rfl
  exact _ _ := rfl

theorem Reflects.snoc {coercer : Coercer} {tables : Fields ConversionTable} {key : String}
    (h : Reflects coercer tables) (table : ConversionTable)
    (hnew : ∀ target, target? key = some target → tableOf? tables target = none) :
    Reflects (coercer.addTable key table) (tables ++ [(key, table)]) := by
  -- The table counts for what its key names, and all other targets keep theirs.
  have hother {target : Target} (hne : target? key ≠ some target) :
      tableOf? (tables ++ [(key, table)]) target = tableOf? tables target := by
    simp [tableOf?_snoc, hne]
  have hsame {target : Target} (heq : target? key = some target) :
      tableOf? (tables ++ [(key, table)]) target = some table := by
    simp [tableOf?_snoc, heq, hnew target heq]
  rw [addTable_eq]
  match htarget : target? key with
  | none =>
    have hkeep (target : Target) :
        tableOf? (tables ++ [(key, table)]) target = tableOf? tables target :=
      hother (by simp [htarget])
    refine ⟨fun f => ?_, fun f => ?_, fun t ht => ?_⟩
    · rw [hkeep, ← h.families]
    · rw [hkeep, ← h.aliased]
    · rw [hkeep] at ht
      rw [hkeep, ← h.exact t ht]
  | some (.family family) =>
    refine ⟨fun f => ?_, fun f => ?_, fun t ht => ?_⟩
    · by_cases hf : f = family
      · subst hf
        simp [h.families, hsame htarget, hnew _ htarget]
      · rw [hother (by simpa [htarget, eq_comm] using hf), ← h.families]
        exact if_neg hf
    · by_cases hf : f = family
      · subst hf
        simp [hsame htarget]
      · rw [hother (by simpa [htarget, eq_comm] using hf), ← h.aliased]
        simp [hf]
    -- The family of the type has no table, and so it is not the one of the new table.
    · have hne : target? key ≠ some (.family t.family) := by
        intro heq
        simp [hsame heq] at ht
      rw [hother hne] at ht
      rw [hother (by simp [htarget]), ← h.exact t ht]
  | some (.type type) =>
    refine ⟨fun f => ?_, fun f => ?_, fun t ht => ?_⟩
    · rw [hother (by simp [htarget]), ← h.families]
    · rw [hother (by simp [htarget]), ← h.aliased]
    · rw [hother (by simp [htarget])] at ht
      by_cases htype : t = type
      · subst htype
        simp [hsame htarget, h.families, ht]
      · rw [hother (by simpa [htarget, eq_comm] using htype), ← h.exact t ht]
        exact if_neg htype

theorem Separate.of_snoc {tables : Fields ConversionTable} {key : String}
    {table : ConversionTable} (hs : Separate ⟨tables ++ [(key, table)]⟩) :
    Separate ⟨tables⟩ ∧
      ∀ target, target? key = some target → tableOf? tables target = none := by
  rw [Separate, Fields.names, List.map_append, List.filterMap_append,
    List.nodup_append] at hs
  obtain ⟨htables, -, hapart⟩ := hs
  refine ⟨htables, fun target ht => tableOf?_eq_none_iff.2 fun other hmem hother => ?_⟩
  exact hapart target (List.mem_filterMap.2 ⟨other, hmem, hother⟩) target (by simp [ht]) rfl

theorem reflects_ofOverrides {tables : Fields ConversionTable} (hs : Separate ⟨tables⟩) :
    Reflects (ofOverrides ⟨tables⟩) tables := by
  induction tables using List.reverseRecOn with
  | nil => exact reflects_default
  | append_singleton tables entry ih =>
    obtain ⟨key, table⟩ := entry
    obtain ⟨htables, hnew⟩ := hs.of_snoc
    have hfold : ofOverrides ⟨tables ++ [(key, table)]⟩ =
        (ofOverrides ⟨tables⟩).addTable key table := by
      simp only [ofOverrides, List.foldl_append, List.foldl_cons, List.foldl_nil]
    rw [hfold]
    exact (ih htables).snoc table hnew

/-- Of the tables for the alias of a family and for a single type the first one counts. -/
theorem Reflects.tableFor_eq {coercer : Coercer} {tables : Fields ConversionTable}
    (h : Reflects coercer tables) (type : SolidityType) :
    coercer.tableFor type = type.family.defaults.overriddenBy
      (((tableOf? tables (.family type.family)).or (tableOf? tables (.type type))).getD .none) := by
  rw [Coercer.tableFor, h.aliased, h.families]
  cases hfamily : tableOf? tables (.family type.family) with
  | some table => rfl
  | none =>
    rw [h.exact type hfamily]
    cases tableOf? tables (.type type) <;> rfl

/-! ## Precedence -/

/-- The conversion for a type and a shape: the one registered for the alias of the family if
anything is, and else the one registered for the type, in any spelling; where there is none, the one
that the family has by default. -/
def inForce? (rs : List Registration) (type : SolidityType) (shape : Shape) : Option Conversion :=
  if ∃ r ∈ rs, target? r.key = some (.family type.family) then
    (latest rs (fun key => target? key = some (.family type.family)) shape).or
      (type.family.defaults shape)
  else
    (latest rs (fun key => target? key = some (.type type)) shape).or (type.family.defaults shape)

theorem tableFor_ofOverrides {rs : List Registration} {order : Fields ConversionTable}
    (hs : (ofRegistrations rs).Separate)
    (hp : order.Perm (ofRegistrations rs).tables) (type : SolidityType) (shape : Shape) :
    (ofOverrides ⟨order⟩).tableFor type shape = inForce? rs type shape := by
  rw [(reflects_ofOverrides (hs.perm hp)).tableFor_eq, tableOf?_of_perm hs hp,
    tableOf?_of_perm hs hp, inForce?]
  split
  · rfl
  · split
    · rfl
    · rename_i hnone
      -- Neither the alias nor the type was registered, so that the defaults are left.
      have hlatest : latest rs (fun key => target? key = some (.type type)) = .none :=
        latest_eq_none fun r hr => decide_eq_false fun ht => hnone ⟨r, hr, ht⟩
      rw [hlatest]
      rfl

/-- The value with a conversion made, if there is one; a refusal names the declared type. -/
def converted (declared : String) (v : Value) : Option Conversion → Except Error Value
  | none => .ok v
  | some conversion => (conversion v).mapError (.coercion declared)

theorem converted_ne_unsupportedType (declared name : String) (v : Value)
    (conversion? : Option Conversion) :
    converted declared v conversion? ≠ .error (.unsupportedType name) := by
  cases conversion? with
  | none => simp [converted]
  | some conversion => cases h : conversion v <;> simp [converted, Except.mapError, h]

theorem coerce_ofOverrides {rs : List Registration} {order : Fields ConversionTable}
    (hs : (ofRegistrations rs).Separate)
    (hp : order.Perm (ofRegistrations rs).tables) (declared : String) (v : Value) :
    (ofOverrides ⟨order⟩).coerce declared v =
      match SolidityType.parse? declared with
      | none => .error (.unsupportedType declared)
      | some type => converted declared v (inForce? rs type v.shape) := by
  simp only [Coercer.coerce, tableFor_ofOverrides hs hp]
  cases SolidityType.parse? declared with
  | none => rfl
  | some type => cases inForce? rs type v.shape <;> rfl

theorem Separate.of_registrations_perm {rs others : List Registration}
    (hs : (ofRegistrations rs).Separate) (hp : others.Perm rs) :
    (ofRegistrations others).Separate := by
  have hnames : (Fields.names (ofRegistrations others).tables).Perm
      (Fields.names (ofRegistrations rs).tables) := by
    rw [List.perm_ext_iff_of_nodup (distinct_ofRegistrations others) (distinct_ofRegistrations rs)]
    intro key
    simp only [mem_names_ofRegistrations, hp.mem_iff]
  exact (hnames.filterMap target?).nodup_iff.2 hs

theorem inForce?_perm {rs others : List Registration}
    (hs : (ofRegistrations rs).Separate) (ho : RegisteredOnce rs) (hp : others.Perm rs)
    (type : SolidityType) (shape : Shape) :
    inForce? others type shape = inForce? rs type shape := by
  have hlatest (target : Target) : latest others (fun key => target? key = some target) =
      latest rs (fun key => target? key = some target) := by
    refine latest_perm (fun r hr r' hr' ht ht' hshape => ?_) hp
    -- Two registrations for one target have one key, and one shape, and are the same.
    have hkey := hs.eq_of_target? (mem_names_ofRegistrations.2 ⟨r, hr, rfl⟩)
      (mem_names_ofRegistrations.2 ⟨r', hr', rfl⟩) (of_decide_eq_true ht)
      (of_decide_eq_true ht')
    exact List.inj_on_of_nodup_map ho hr hr' (Prod.ext hkey hshape)
  simp only [inForce?, hlatest, hp.mem_iff]

/-- Whatever order the tables are taken in, a text that is no supported type is refused, and no
other; for a type the conversion in force is made, and a value without one stays as it is. Tables of
keys that name nothing supported have no effect, and the order of registrations has none where no
one replaces another. -/
theorem coerce_follows_precedence {rs : List Registration} {order : Fields ConversionTable}
    (hs : (ofRegistrations rs).Separate)
    (hp : order.Perm (ofRegistrations rs).tables) (declared : String) (v : Value) :
    let result := (ofOverrides ⟨order⟩).coerce declared v
    (∀ name, result = .error (.unsupportedType name) ↔
      SolidityType.parse? declared = none ∧ name = declared) ∧
    (∀ type, SolidityType.parse? declared = some type →
      result = converted declared v (inForce? rs type v.shape)) ∧
    ofOverrides ⟨order.filter fun entry => (target? entry.1).isSome⟩ = ofOverrides ⟨order⟩ ∧
    ∀ (others : List Registration) (order' : Fields ConversionTable), RegisteredOnce rs →
      others.Perm rs → order'.Perm (ofRegistrations others).tables →
      (ofOverrides ⟨order'⟩).coerce declared v = result := by
  intro result
  have hresult : result = _ := coerce_ofOverrides hs hp declared v
  refine ⟨fun name => ?_, fun type ht => ?_, ofOverrides_filter order, ?_⟩
  · rw [hresult]
    cases SolidityType.parse? declared with
    | none => simp [eq_comm]
    | some type => simp [converted_ne_unsupportedType]
  · rw [hresult, ht]
  · intro others order' ho hothers hp'
    rw [coerce_ofOverrides (hs.of_registrations_perm hothers) hp', hresult]
    simp only [inForce?_perm hs ho hothers]

/-- Registrations for an alias and a type of its family, for a type in a spelling with a zero before
its length, and for a type that is not supported. -/
def exampleRegistrations : List Registration :=
  [⟨"uint256", .string, fun _ => .ok (.string "single")⟩,
    ⟨" uint ", .string, fun _ => .ok (.string "family")⟩,
    ⟨"bytes04", .string, fun _ => .error "refused"⟩,
    ⟨"uint256[]", .string, fun _ => .ok .null⟩]

/-- Tables in the reverse order, and registrations too, do not take the place of the alias. -/
theorem coerce_follows_precedence_reversed :
    let coercer := ofOverrides ⟨(ofRegistrations exampleRegistrations).tables.reverse⟩
    coercer.coerce "uint256" (.string "1") = .ok (.string "family") ∧
      coercer.coerce "uint256" (.bigInt 3) = .ok (.string "3") ∧
      coercer.coerce "bytes4" (.string "1") = .error (.coercion "bytes4" "refused") ∧
      coercer.coerce "bytes5" .null = .ok .null ∧
      coercer.coerce "uint256[]" (.string "1") = .error (.unsupportedType "uint256[]") ∧
      (ofOverrides (ofRegistrations exampleRegistrations.reverse)).coerce "uint256"
        (.string "1") = .ok (.string "family") := by
  have hs : (ofRegistrations exampleRegistrations).Separate := by decide +kernel
  have ho : RegisteredOnce exampleRegistrations := by decide +kernel
  have hlaw := coerce_follows_precedence hs (List.reverse_perm _)
  have hfamily := (hlaw "uint256" (.string "1")).2.1 (.uint 256) (by decide +kernel)
  refine ⟨hfamily, ?_, ?_, ?_, ?_, ?_⟩
  · exact (hlaw _ _).2.1 (.uint 256) (by decide +kernel)
  · exact (hlaw _ _).2.1 (.fixedBytes 4) (by decide +kernel)
  · exact (hlaw _ _).2.1 (.fixedBytes 5) (by decide +kernel)
  · exact ((hlaw _ _).1 _).2 ⟨by decide +kernel, rfl⟩
  · exact ((hlaw _ _).2.2.2 _ _ ho (List.reverse_perm _) (.refl _)).trans hfamily

end Overrides

end Playbook
