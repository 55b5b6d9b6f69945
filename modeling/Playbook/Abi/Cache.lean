import Playbook.Abi.Basic
import Playbook.Fields

/-!
# Artifact sources

Artifacts are asked for by contract name. A cache in front of a source keeps what it answered, so
that a known contract is asked for once; a failure is not kept.
-/

namespace Playbook

/-- A source of artifacts: the artifact of a name, or why there is none. -/
abbrev ArtifactSource : Type :=
  String → Except String Artifact

/-- Artifacts by contract name; a later one replaces an earlier one of the same name. -/
structure ArtifactSet where
  byName : Fields Artifact

namespace ArtifactSet

def empty : ArtifactSet := ⟨[]⟩

/-- Adds an artifact. -/
def insert (set : ArtifactSet) (a : Artifact) : ArtifactSet :=
  ⟨Fields.put set.byName a.contract a⟩

/-- The set of artifacts that are added one after another. -/
def ofList (artifacts : List Artifact) : ArtifactSet :=
  artifacts.foldl insert empty

def size (set : ArtifactSet) : Nat :=
  set.byName.length

/-- The set as a source. -/
def source (set : ArtifactSet) : ArtifactSource := fun contract =>
  match Fields.get? set.byName contract with
  | some a => .ok a
  | none => .error s!"unknown contract '{contract}'"

end ArtifactSet

/-- Answers requests for artifacts, over a state of type `σ`. -/
abbrev ArtifactProvider (σ : Type) : Type :=
  String → σ → Except String Artifact × σ

/-- A source that counts how often it is asked. -/
def ArtifactSource.counted (source : ArtifactSource) : ArtifactProvider Nat :=
  fun contract asked => (source contract, asked + 1)

/-- What a cache keeps, and the state of the provider behind it. -/
structure ArtifactCache (σ : Type) where
  kept : Fields Artifact
  provider : σ

namespace ArtifactCache

variable {σ : Type}

/-- The artifact of a contract, from what is kept or else from the provider. -/
def fetch (provider : ArtifactProvider σ) (contract : String) (cache : ArtifactCache σ) :
    Except String Artifact × ArtifactCache σ :=
  match Fields.get? cache.kept contract with
  | some a => (.ok a, cache)
  | none =>
    match provider contract cache.provider with
    | (.ok a, later) => (.ok a, ⟨Fields.put cache.kept contract a, later⟩)
    | (.error e, later) => (.error e, { cache with provider := later })

/-- The outcomes of fetching contracts one after another, each with the cache then. -/
def fetchEach (provider : ArtifactProvider σ) : List String → ArtifactCache σ →
    List (Except String Artifact × ArtifactCache σ)
  | [], _ => []
  | contract :: rest, cache =>
    let fetched := fetch provider contract cache
    fetched :: fetchEach provider rest fetched.2

/-! ## Counted sources -/

def empty : ArtifactCache Nat := ⟨[], 0⟩

def asked (cache : ArtifactCache Nat) : Nat :=
  cache.provider

/-- The outcomes of fetching contracts from a source, each with the cache then. -/
def fetchAll (source : ArtifactSource) (contracts : List String) (cache : ArtifactCache Nat) :
    List (Except String Artifact × ArtifactCache Nat) :=
  fetchEach source.counted contracts cache

end ArtifactCache

end Playbook
