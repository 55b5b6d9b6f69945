import Playbook.Proofs.Convert.RoundTrip

/-!
# Instants as whole seconds

For an integer type an instant becomes the nearest whole second, where half a second goes up. It is
cut to milliseconds before half a second is added to it, and then to seconds, each time downward and
so alike before and after 1970 began. The main statement: the second is the nearest one to the exact
instant, a later instant has no earlier second, and in words of 64 bits nothing overflows in any
year of the calendar.
-/

namespace Playbook

namespace Instant

/-- The exact place of an instant in time: nanoseconds since 1970 began. -/
def nanoseconds (t : Instant) : Int :=
  t.seconds * 1000000000 + t.nanos.val

/-- The instant lies in the half second before the given one or less than half a second after. -/
def Nearest (t : Instant) (n : Int) : Prop :=
  n * 1000000000 - 500000000 ≤ t.nanoseconds ∧ t.nanoseconds < n * 1000000000 + 500000000

def year (t : Instant) : Int :=
  (Day.ofCount (t.seconds / 86400)).year

/-- The instant lies in a year of the calendar: the years from -262143 to 262142. -/
def Supported (t : Instant) : Prop :=
  -262143 ≤ t.year ∧ t.year ≤ 262142

/-! ## The nearest second -/

theorem roundedSeconds_eq (t : Instant) :
    t.roundedSeconds = if t.nanos.val < 500000000 then t.seconds else t.seconds + 1 := by
  have hnanos := t.nanos.isLt
  unfold roundedSeconds milliseconds
  split <;> omega

/-- There is one nearest second, and what the milliseconds leave out does not change it. -/
theorem nearest_iff {t : Instant} {n : Int} : t.Nearest n ↔ n = t.roundedSeconds := by
  have hnanos := t.nanos.isLt
  unfold Nearest nanoseconds
  rw [roundedSeconds_eq]
  -- Both count the half second that lies before the next second to it.
  split <;> omega

theorem Nearest.le {t u : Instant} {n m : Int} (ht : t.Nearest n) (hu : u.Nearest m)
    (h : t.nanoseconds ≤ u.nanoseconds) : n ≤ m := by
  have hbelow := ht.1
  have habove := hu.2
  omega

/-! ## Seconds in words -/

/-- The integer is a word of 64 bits with a sign. -/
def IsWord (n : Int) : Prop :=
  -2 ^ 63 ≤ n ∧ n < 2 ^ 63

/-- The product of two words; `none` stands for an overflow. -/
def product? (x y : BitVec 64) : Option (BitVec 64) :=
  if x.smulOverflow y then none else some (x * y)

/-- The sum of two words; `none` stands for an overflow. -/
def sum? (x y : BitVec 64) : Option (BitVec 64) :=
  if x.saddOverflow y then none else some (x + y)

/-- The quotient of two words that leaves no negative remainder, for a positive divisor: the one
that is cut toward zero, or the one below it. -/
def floorQuotient (x d : BitVec 64) : BitVec 64 :=
  if (x.srem d).msb then x.sdiv d - 1 else x.sdiv d

/-- The nearest second, reckoned in words of 64 bits; `none` stands for an overflow. -/
def roundedInWords? (t : Instant) : Option (BitVec 64) := do
  let whole ← product? (.ofInt 64 t.seconds) (.ofInt 64 1000)
  let milliseconds ← sum? whole (.ofInt 64 (t.nanos.val / 1000000))
  let raised ← sum? milliseconds (.ofInt 64 500)
  return floorQuotient raised (.ofInt 64 1000)

theorem toInt_ofInt_of_isWord {n : Int} (h : IsWord n) : (BitVec.ofInt 64 n).toInt = n :=
  BitVec.toInt_ofInt_eq_self (by decide) h.1 h.2

theorem product?_ofInt {n m : Int} (hn : IsWord n) (hm : IsWord m) (h : IsWord (n * m)) :
    product? (.ofInt 64 n) (.ofInt 64 m) = some (.ofInt 64 (n * m)) := by
  have hover : ¬ (BitVec.ofInt 64 n).smulOverflow (.ofInt 64 m) = true := by
    simp only [BitVec.smulOverflow, toInt_ofInt_of_isWord hn, toInt_ofInt_of_isWord hm,
      Bool.or_eq_true, decide_eq_true_eq]
    unfold IsWord at h
    omega
  rw [product?, if_neg hover, BitVec.ofInt_mul]

theorem sum?_ofInt {n m : Int} (hn : IsWord n) (hm : IsWord m) (h : IsWord (n + m)) :
    sum? (.ofInt 64 n) (.ofInt 64 m) = some (.ofInt 64 (n + m)) := by
  have hover : ¬ (BitVec.ofInt 64 n).saddOverflow (.ofInt 64 m) = true := by
    simp only [BitVec.saddOverflow, toInt_ofInt_of_isWord hn, toInt_ofInt_of_isWord hm,
      Bool.or_eq_true, decide_eq_true_eq]
    unfold IsWord at h
    omega
  rw [sum?, if_neg hover, BitVec.ofInt_add]

/-- The quotient that leaves no negative remainder is the one that is cut toward zero, or, where
that one leaves a negative remainder, the one below it. -/
theorem ediv_eq_tdiv (n : Int) {d : Int} (hd : 0 < d) :
    n / d = if n.tmod d < 0 then n.tdiv d - 1 else n.tdiv d := by
  have hnonneg := Int.emod_nonneg n (Int.ne_of_gt hd)
  have hlt := Int.emod_lt_of_pos n hd
  rw [Int.tdiv_eq_ediv, Int.tmod_eq_emod, Int.sign_eq_one_of_pos hd]
  split
  · rw [if_neg (by simpa using hnonneg), Int.add_zero]
  · rw [if_pos (by omega), Int.add_sub_cancel]

/-- A thousandth of a word is cut downward. -/
theorem toInt_floorQuotient {n : Int} (h : IsWord n) :
    (floorQuotient (.ofInt 64 n) (.ofInt 64 1000)).toInt = n / 1000 := by
  have hd : (BitVec.ofInt 64 1000).toInt = 1000 := by decide
  have hone : (1 : BitVec 64).toInt = 1 := by decide
  have hquotient : ((BitVec.ofInt 64 n).sdiv (.ofInt 64 1000)).toInt = n.tdiv 1000 := by
    rw [BitVec.toInt_sdiv_of_ne_or_ne _ _ (.inr (by decide)), toInt_ofInt_of_isWord h, hd]
  have hremainder : ((BitVec.ofInt 64 n).srem (.ofInt 64 1000)).toInt = n.tmod 1000 := by
    rw [BitVec.toInt_srem, toInt_ofInt_of_isWord h, hd]
  have hfloor := ediv_eq_tdiv n (d := 1000) (by decide)
  unfold IsWord at h
  unfold floorQuotient
  rw [BitVec.msb_eq_toInt, hremainder]
  by_cases hneg : n.tmod 1000 < 0
  · rw [if_pos hneg] at hfloor
    -- A quotient by a thousand is far from the least word, so that one less is a word too.
    have hover : ¬ ((BitVec.ofInt 64 n).sdiv (.ofInt 64 1000)).ssubOverflow 1 = true := by
      simp only [BitVec.ssubOverflow, hquotient, hone, Bool.or_eq_true, decide_eq_true_eq]
      omega
    rw [if_pos (decide_eq_true hneg), BitVec.toInt_sub_of_not_ssubOverflow hover, hquotient, hone,
      hfloor]
  · rw [if_neg hneg] at hfloor
    rw [if_neg (by simpa using hneg), hquotient, hfloor]

/-- In every year of the calendar the seconds since 1970 take up less than 44 bits. -/
theorem Supported.seconds {t : Instant} (h : t.Supported) :
    -2 ^ 43 ≤ t.seconds ∧ t.seconds < 2 ^ 43 := by
  simp only [Supported, year, Day.ofCount] at h
  omega

example : year ⟨-8334601228800, 0⟩ = -262143 ∧ year ⟨-8334601228801, 0⟩ = -262144 := by decide

/-- Words give the nearest second exactly, and nothing overflows. -/
theorem exists_roundedInWords? {t : Instant} (h : t.Supported) :
    ∃ word, t.roundedInWords? = some word ∧ word.toInt = t.roundedSeconds := by
  have hseconds := h.seconds
  have hnanos := t.nanos.isLt
  -- Forty-four bits leave room for three more digits.
  have hmilliseconds : IsWord t.milliseconds := by
    unfold IsWord milliseconds
    omega
  have hraised : IsWord (t.milliseconds + 500) := by
    unfold IsWord milliseconds
    omega
  have hwhole : product? (.ofInt 64 t.seconds) (.ofInt 64 1000) =
      some (.ofInt 64 (t.seconds * 1000)) := by
    apply product?_ofInt <;> unfold IsWord <;> omega
  have hsum : sum? (.ofInt 64 (t.seconds * 1000)) (.ofInt 64 (t.nanos.val / 1000000)) =
      some (.ofInt 64 t.milliseconds) := by
    apply sum?_ofInt _ _ hmilliseconds <;> unfold IsWord <;> omega
  have hhalf : sum? (.ofInt 64 t.milliseconds) (.ofInt 64 500) =
      some (.ofInt 64 (t.milliseconds + 500)) := by
    apply sum?_ofInt hmilliseconds _ hraised
    unfold IsWord
    omega
  refine ⟨floorQuotient (.ofInt 64 (t.milliseconds + 500)) (.ofInt 64 1000), ?_, ?_⟩
  · unfold roundedInWords?
    simp only [hwhole, hsum, hhalf, Option.bind_eq_bind, Option.bind_some, Option.pure_def]
  · rw [toInt_floorQuotient hraised]
    rfl

end Instant

/-! ## Instants as arguments -/

namespace Coercer

variable {declared : String} {type : SolidityType}

theorem coerce_default_date (hp : SolidityType.parse? declared = some type) (hi : IsInteger type)
    (t : Instant) : default.coerce declared (.date t) = .ok (.int t.roundedSeconds) := by
  rw [coerce, hp]
  obtain ⟨bits, rfl⟩ | ⟨bits, rfl⟩ := hi <;> rfl

/-- For an integer type an instant is converted to its seconds, or from half a second on to one
more, and that is the nearest second to the exact instant. In every year of the calendar words of 64
bits give the same without an overflow, and a later instant never has an earlier second. -/
theorem date_to_nearest_second (hp : SolidityType.parse? declared = some type)
    (hi : IsInteger type) :
    (∀ t : Instant, default.coerce declared (.date t) =
      .ok (.int (if t.nanos.val < 500000000 then t.seconds else t.seconds + 1))) ∧
    (∀ (t : Instant) n, default.coerce declared (.date t) = .ok (.int n) ↔ t.Nearest n) ∧
    (∀ t : Instant, t.Supported → ∃ word, t.roundedInWords? = some word ∧
      default.coerce declared (.date t) = .ok (.int word.toInt)) ∧
    ∀ t u : Instant, t.nanoseconds ≤ u.nanoseconds → ∃ n m,
      default.coerce declared (.date t) = .ok (.int n) ∧
      default.coerce declared (.date u) = .ok (.int m) ∧ n ≤ m := by
  have hdate := coerce_default_date hp hi
  refine ⟨fun t => ?_, fun t n => ?_, fun t ht => ?_, fun t u hle => ?_⟩
  · rw [hdate, Instant.roundedSeconds_eq]
  · rw [hdate, Instant.nearest_iff]
    simp [Value.int, eq_comm]
  · obtain ⟨word, hword, hvalue⟩ := Instant.exists_roundedInWords? ht
    exact ⟨word, hword, by rw [hdate, hvalue]⟩
  · exact ⟨_, _, hdate t, hdate u,
      (Instant.nearest_iff.2 rfl).le (Instant.nearest_iff.2 rfl) hle⟩

/-- Half a second before 1970 began counts as its beginning, and a nanosecond earlier as the second
before. The first instant of the calendar is reckoned in words as well. -/
theorem date_to_nearest_second_before_epoch :
    let first : Instant := ⟨-8334601228800, 0⟩
    default.coerce "uint64" (.date ⟨-1, 499999999⟩) = .ok (.int (-1)) ∧
      default.coerce "uint64" (.date ⟨-1, 500000000⟩) = .ok (.int 0) ∧
      (∃ word, first.roundedInWords? = some word ∧
        default.coerce "uint64" (.date first) = .ok (.int word.toInt)) ∧
      ∃ n m, default.coerce "uint64" (.date ⟨-1, 499999999⟩) = .ok (.int n) ∧
        default.coerce "uint64" (.date ⟨-1, 500000000⟩) = .ok (.int m) ∧ n ≤ m := by
  intro first
  have hp : SolidityType.parse? "uint64" = some (.uint 64) := by decide +kernel
  have hsupported : first.Supported := ⟨by decide, by decide⟩
  obtain ⟨hdate, -, hwords, hmonotone⟩ := date_to_nearest_second hp (.inl ⟨64, rfl⟩)
  exact ⟨hdate _, hdate _, hwords first hsupported, hmonotone _ _ (by decide)⟩

end Coercer

end Playbook
