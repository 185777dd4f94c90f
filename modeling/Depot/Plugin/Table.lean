import Depot.Plugin.Registry
/-!
# Tables of registries

Registries by contract, and values that constructors share by name. A contract has a registry once
something is registered for it.
-/

namespace Depot

/-- Registries by contract and shared values of one type by name. -/
structure PluginTable (κ ν : Type) where
  registries : Dict String (Registry κ)
  shared : Dict String ν

namespace PluginTable

variable {κ ν : Type}

/-- Nothing registered, nothing shared. -/
def empty : PluginTable κ ν := { registries := .empty, shared := .empty }

/-- Registers an implementation. -/
def register (t : PluginTable κ ν) (contract : String) (r : Registration κ) : PluginTable κ ν :=
  let g := (t.registries.get? contract).getD { contract, registrations := [] }
  { t with registries := t.registries.insert contract
            { g with registrations := g.registrations ++ [r] } }

/-- Shares a value under a name. -/
def share (t : PluginTable κ ν) (name : String) (v : ν) : PluginTable κ ν :=
  { t with shared := t.shared.insert name v }

/-- The contracts with a registry, in order. -/
def contracts (t : PluginTable κ ν) : List String := t.registries.keys

/-- The registry of a contract. -/
def registry (t : PluginTable κ ν) (contract : String) : Except PluginError (Registry κ) :=
  match t.registries.get? contract with
  | some g => .ok g
  | none   => .error (.unknownContract contract)

/-- The shared value under a name that must have one; `type` says what is asked for. -/
def require (t : PluginTable κ ν) (type name : String) : Except PluginError ν :=
  match t.shared.get? name with
  | some v => .ok v
  | none   => .error (.config (.missingCollaborator type name))

/-- A short description. -/
def describe (t : PluginTable κ ν) : String :=
  "Plugins \x7b contracts: " ++ Text.quoteList t.contracts ++
    s!", collaborators: {t.shared.size} \x7d"

end PluginTable

end Depot
