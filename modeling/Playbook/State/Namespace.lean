/-!
# Namespaces

The four namespaces of a playbook's state.
-/

namespace Playbook

/-- A namespace of the state: what the caller provides, what calls return, the contracts in use, and
the deployments. -/
inductive Namespace where
  | inputs | outputs | contracts | deployed
  deriving DecidableEq

namespace Namespace

def keyword : Namespace → String
  | .inputs => "inputs"
  | .outputs => "outputs"
  | .contracts => "contracts"
  | .deployed => "deployed"

def all : List Namespace :=
  [.inputs, .outputs, .contracts, .deployed]

def ofKeyword? (keyword : String) : Option Namespace :=
  all.find? (·.keyword == keyword)

/-- The namespace that a keyword names, with or without one leading `$`. -/
def parse? (text : String) : Option Namespace :=
  match text.toList with
  | '$' :: rest => ofKeyword? (String.ofList rest)
  | _ => ofKeyword? text

def display (space : Namespace) : String :=
  "$" ++ space.keyword

theorem mem_all (space : Namespace) : space ∈ all := by
  cases space <;> decide

@[simp] theorem ofKeyword?_keyword (space : Namespace) : ofKeyword? space.keyword = some space := by
  cases space <;> decide

end Namespace

end Playbook
