import Playbook.Abi.Cache

/-!
# Caches in front of providers

A cache passes on what it does not keep, and keeps what succeeded. The main statement: in front of a
provider that answers each name always the same way, a cache cannot be told from the provider by its
outcomes, asks for a known contract once, and asks for an unknown one as often as it is fetched.
-/

namespace Playbook

variable {σ : Type}

namespace ArtifactProvider

/-- The provider answers each name always the same way, which is that of the source. -/
def AnswersAs (provider : ArtifactProvider σ) (source : ArtifactSource) : Prop :=
  ∀ contract s, (provider contract s).1 = source contract

/-- The provider with a record of the names that it was asked for. -/
def recorded (provider : ArtifactProvider σ) : ArtifactProvider (σ × List String) :=
  fun contract (s, names) =>
    ((provider contract s).1, (provider contract s).2, names ++ [contract])

/-- The state of the provider when it was asked for names one after another. -/
def askEach (provider : ArtifactProvider σ) (names : List String) (s : σ) : σ :=
  names.foldl (fun s contract => (provider contract s).2) s

variable {provider : ArtifactProvider σ} {source : ArtifactSource}

theorem AnswersAs.recorded (h : provider.AnswersAs source) :
    provider.recorded.AnswersAs source := fun contract s => h contract s.1

end ArtifactProvider

namespace ArtifactCache

variable {provider : ArtifactProvider σ} {source : ArtifactSource}

/-- The cache after contracts were fetched one after another. -/
def after (provider : ArtifactProvider σ) (contracts : List String) (cache : ArtifactCache σ) :
    ArtifactCache σ :=
  contracts.foldl (fun cache contract => (fetch provider contract cache).2) cache

/-! ## One fetch -/

theorem fetch_of_kept {contract : String} {cache : ArtifactCache σ} {a : Artifact}
    (h : Fields.get? cache.kept contract = some a) :
    fetch provider contract cache = (.ok a, cache) := by
  simp only [fetch, h]

/-- What is not kept is passed on to the provider, and kept when it succeeds. -/
theorem fetch_of_not_kept {contract : String} {cache : ArtifactCache σ}
    (h : Fields.get? cache.kept contract = none) :
    fetch provider contract cache =
      ((provider contract cache.provider).1,
        ⟨match (provider contract cache.provider).1 with
          | .ok a => Fields.put cache.kept contract a
          | .error _ => cache.kept,
          (provider contract cache.provider).2⟩) := by
  simp only [fetch, h]
  rcases provider contract cache.provider with ⟨outcome | outcome, later⟩ <;> rfl

/-! ## The record -/

/-- The cache without the record of its provider. -/
def unrecorded (cache : ArtifactCache (σ × List String)) : ArtifactCache σ :=
  ⟨cache.kept, cache.provider.1⟩

/-- A record changes nothing for the cache. -/
theorem fetch_unrecorded (provider : ArtifactProvider σ) (contract : String)
    (cache : ArtifactCache (σ × List String)) :
    fetch provider contract cache.unrecorded =
      ((fetch provider.recorded contract cache).1,
        (fetch provider.recorded contract cache).2.unrecorded) := by
  cases hkept : Fields.get? cache.kept contract with
  | some a =>
    have hplain : Fields.get? cache.unrecorded.kept contract = some a := hkept
    rw [fetch_of_kept hkept, fetch_of_kept hplain]
  | none =>
    have hplain : Fields.get? cache.unrecorded.kept contract = none := hkept
    rw [fetch_of_not_kept hkept, fetch_of_not_kept hplain]
    rfl

theorem fetchEach_unrecorded (provider : ArtifactProvider σ) (contracts : List String)
    (cache : ArtifactCache (σ × List String)) :
    (fetchEach provider contracts cache.unrecorded).map Prod.fst =
      (fetchEach provider.recorded contracts cache).map Prod.fst ∧
    after provider contracts cache.unrecorded =
      (after provider.recorded contracts cache).unrecorded := by
  induction contracts generalizing cache with
  | nil => exact ⟨rfl, rfl⟩
  | cons contract rest ih =>
    obtain ⟨houtcomes, hafter⟩ := ih (fetch provider.recorded contract cache).2
    have hfetch := fetch_unrecorded provider contract cache
    simp only [fetchEach, after, List.map_cons, List.foldl_cons, hfetch]
    exact ⟨by rw [houtcomes], hafter⟩

/-! ## What is kept and what was asked -/

/-- After fetches of the contracts, the cache keeps the artifacts of those that are known, and asked
for them once, and for the others at every fetch. The provider started from `s`. -/
structure Tracks (provider : ArtifactProvider σ) (source : ArtifactSource) (s : σ)
    (contracts : List String) (cache : ArtifactCache (σ × List String)) : Prop where
  kept : ∀ name, Fields.get? cache.kept name =
    if name ∈ contracts then (source name).toOption else none
  asked : ∀ name, cache.provider.2.count name =
    match source name with
    | .ok _ => if name ∈ contracts then 1 else 0
    | .error _ => contracts.count name
  state : cache.provider.1 = provider.askEach cache.provider.2 s

theorem tracks_nil (provider : ArtifactProvider σ) (source : ArtifactSource) (s : σ) :
    Tracks provider source s [] ⟨[], s, []⟩ where
  kept _ := rfl
  asked name := by cases source name <;> rfl
  state := rfl

variable {s : σ} {contracts : List String} {cache : ArtifactCache (σ × List String)}

/-- What is kept was fetched before, and is what the source answers. -/
theorem Tracks.of_kept (h : Tracks provider source s contracts cache) {contract : String}
    {a : Artifact} (hkept : Fields.get? cache.kept contract = some a) :
    contract ∈ contracts ∧ source contract = .ok a := by
  rw [h.kept] at hkept
  split at hkept
  · rename_i hmem
    cases hsource : source contract with
    | ok b =>
      rw [hsource] at hkept
      exact ⟨hmem, congrArg Except.ok (Option.some.inj hkept)⟩
    | error e =>
      rw [hsource] at hkept
      cases hkept
  · cases hkept

/-- A known contract that is not kept was not fetched before. -/
theorem Tracks.not_mem_of_not_kept (h : Tracks provider source s contracts cache)
    {contract : String} {a : Artifact} (hkept : Fields.get? cache.kept contract = none)
    (hsource : source contract = .ok a) : contract ∉ contracts := by
  intro hmem
  rw [h.kept, if_pos hmem, hsource] at hkept
  cases hkept

theorem Tracks.fetch_kept (h : Tracks provider source s contracts cache) {contract : String}
    {a : Artifact} (hkept : Fields.get? cache.kept contract = some a) :
    Tracks provider source s (contracts ++ [contract]) cache := by
  obtain ⟨hmem, hsource⟩ := h.of_kept hkept
  -- The contract was fetched before, so that nothing is asked and no name is new.
  have hmem_iff (name : String) : name ∈ contracts ++ [contract] ↔ name ∈ contracts := by
    rw [List.mem_append, List.mem_singleton]
    exact or_iff_left_of_imp fun hname => hname ▸ hmem
  refine ⟨fun name => ?_, fun name => ?_, h.state⟩
  · simp only [hmem_iff]
    exact h.kept name
  · have hasked := h.asked name
    cases hname : source name with
    | ok b => simpa only [hname, hmem_iff] using hasked
    | error e =>
      have hne : contract ≠ name := by
        rintro rfl
        rw [hsource] at hname
        cases hname
      rw [hname] at hasked
      rw [hasked, List.count_append, List.count_singleton]
      simp [hne]

theorem Tracks.fetch_not_kept (h : Tracks provider source s contracts cache)
    {contract : String} (hkept : Fields.get? cache.kept contract = none) :
    Tracks provider source s (contracts ++ [contract])
      ⟨match source contract with
        | .ok a => Fields.put cache.kept contract a
        | .error _ => cache.kept,
        (provider contract cache.provider.1).2, cache.provider.2 ++ [contract]⟩ := by
  refine ⟨fun name => ?_, fun name => ?_, ?_⟩
  -- Only what is kept for this contract changes, and how often it was asked for.
  · have hold := h.kept name
    by_cases hname : name = contract
    · subst hname
      cases hsource : source name with
      | ok a => simp [Except.toOption]
      | error e => simpa [Except.toOption] using hkept
    · have hmem_iff : name ∈ contracts ++ [contract] ↔ name ∈ contracts := by simp [hname]
      cases hsource : source contract with
      | ok a => simpa only [Fields.get?_put_of_ne _ a hname, hmem_iff] using hold
      | error e => simpa only [hmem_iff] using hold
  · have hold := h.asked name
    by_cases hname : name = contract
    · subst hname
      cases hsource : source name with
      | ok a =>
        have hnew := h.not_mem_of_not_kept hkept hsource
        simp_all
      | error e => simp_all
    · cases hsource : source name <;> simp_all [Ne.symm hname]
  · rw [h.state, ArtifactProvider.askEach, ArtifactProvider.askEach, List.foldl_append]
    rfl

/-- A fetch has the outcome of the source. -/
theorem Tracks.fetch (h : Tracks provider source s contracts cache)
    (hsame : provider.AnswersAs source) (contract : String) :
    (ArtifactCache.fetch provider.recorded contract cache).1 = source contract ∧
      Tracks provider source s (contracts ++ [contract])
        (ArtifactCache.fetch provider.recorded contract cache).2 := by
  cases hkept : Fields.get? cache.kept contract with
  | some a =>
    rw [fetch_of_kept hkept]
    exact ⟨(h.of_kept hkept).2.symm, h.fetch_kept hkept⟩
  | none =>
    rw [fetch_of_not_kept hkept, hsame.recorded]
    exact ⟨rfl, h.fetch_not_kept hkept⟩

/-- Fetches one after another have the outcomes of the source. -/
theorem Tracks.fetchEach (h : Tracks provider source s contracts cache)
    (hsame : provider.AnswersAs source) (more : List String) :
    (ArtifactCache.fetchEach provider.recorded more cache).map Prod.fst = more.map source ∧
      Tracks provider source s (contracts ++ more) (after provider.recorded more cache) := by
  induction more generalizing contracts cache with
  | nil =>
    rw [List.append_nil]
    exact ⟨rfl, h⟩
  | cons contract rest ih =>
    obtain ⟨houtcome, hnext⟩ := h.fetch hsame contract
    obtain ⟨houtcomes, hafter⟩ := ih hnext
    rw [List.append_assoc] at hafter
    exact ⟨by rw [ArtifactCache.fetchEach, List.map_cons, List.map_cons, houtcome, houtcomes], hafter⟩

/-- In front of a provider that answers each name always the same way, fetches have the outcomes of
the provider. It is asked for a known contract once, and for an unknown one as often as that is
fetched; the cache keeps the artifacts of the known ones and nothing else. -/
theorem fetches_transparent (hsame : provider.AnswersAs source) (contracts : List String) (s : σ) :
    let asked := (after provider.recorded contracts ⟨[], s, []⟩).provider.2
    (fetchEach provider contracts ⟨[], s⟩).map Prod.fst = contracts.map source ∧
    (∀ name, asked.count name =
      match source name with
      | .ok _ => if name ∈ contracts then 1 else 0
      | .error _ => contracts.count name) ∧
    (after provider contracts ⟨[], s⟩).provider = provider.askEach asked s ∧
    ∀ name, Fields.get? (after provider contracts ⟨[], s⟩).kept name =
      if name ∈ contracts then (source name).toOption else none := by
  intro asked
  obtain ⟨houtcomes, htracks⟩ := (tracks_nil provider source s).fetchEach hsame contracts
  obtain ⟨hplain, hafter⟩ := fetchEach_unrecorded provider contracts ⟨[], s, []⟩
  have hstart : unrecorded ⟨[], s, []⟩ = ⟨[], s⟩ := rfl
  rw [hstart] at hplain hafter
  rw [hafter, hplain]
  exact ⟨houtcomes, htracks.asked, htracks.state, htracks.kept⟩

/-- A known contract and an unknown one, in turn: the set is asked once for the one and each time
for the other. -/
theorem fetches_transparent_token :
    let token : Artifact := ⟨"Token", []⟩
    let source := (ArtifactSet.ofList [token, ⟨"Vault", []⟩]).source
    let contracts := ["Missing", "Token", "Missing", "Token", "Token"]
    let asked := (after source.counted.recorded contracts ⟨[], 0, []⟩).provider.2
    source.counted.AnswersAs source ∧
      (fetchAll source contracts empty).map Prod.fst = [.error "unknown contract 'Missing'",
        .ok token, .error "unknown contract 'Missing'", .ok token, .ok token] ∧
      asked.count "Token" = 1 ∧ asked.count "Missing" = 2 ∧ asked.count "Vault" = 0 ∧
      (after source.counted contracts empty).asked = 3 := by
  intro token source contracts asked
  have hsame : source.counted.AnswersAs source := fun _ _ => rfl
  obtain ⟨houtcomes, hasked, -, -⟩ := fetches_transparent hsame contracts 0
  exact ⟨hsame, houtcomes, hasked "Token", hasked "Missing", hasked "Vault", rfl⟩

end ArtifactCache

end Playbook
