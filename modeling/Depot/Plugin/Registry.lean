import Depot.Config.Merge
import Depot.Plugin.Descriptor
/-!
# Registries

A registry lists the implementations of one contract in the order of their registration. Each is
judged on its own and against those before it: it is available, unusable or rejected. What builds
an instance is left open; a registry only says which implementation is built, from which
parameters.
-/

namespace Depot

universe u

open Json

/-- Whether an implementation can be used here. -/
inductive Usability where
  | usable
  /-- It cannot, and this is missing. -/
  | unusable (reason : String)
deriving DecidableEq

/-- One registered implementation. -/
structure Registration (κ : Type u) where
  name : String
  usability : Usability := .usable
  /-- Parameters for which nothing else is given. -/
  defaults : Object
  /-- What builds an instance. -/
  construct : κ

/-- The implementations of a contract. -/
structure Registry (κ : Type u) where
  contract : String
  /-- In order of registration; names may repeat. -/
  registrations : List (Registration κ)

/-- The judgement on every implementation of a contract. -/
structure Discovery where
  contract : String
  /-- Valid and usable ones. -/
  available : List String
  /-- Valid ones that cannot be used, with the reason. -/
  unusable : List (String × String)
  /-- The faults of the others. -/
  rejected : List PluginError

/-- A letter, then letters, digits and underscores, all of them ASCII. -/
def isIdentifier (name : String) : Bool :=
  match name.toList with
  | []      => false
  | c :: cs => c.isAlpha && cs.all fun c => c.isAlphanum || c = '_'

namespace Registration

variable {κ : Type u}

/-- The first flaw of an implementation, given the names registered before it. -/
def flaw? (r : Registration κ) (earlier : List String) : Option Flaw :=
  if isIdentifier r.name = false then some .notIdentifier
  else if r.name = typeKey then some .reserved
  else if r.name ∈ earlier then some .duplicate
  else if (Assoc.get? typeKey r.defaults).isSome then some .reservedDefault
  else
    match Config.flatten r.defaults with
    | .error e => some (.notPortable e)
    | .ok _    => none

end Registration

namespace Registry

variable {κ : Type u}

/-- Every implementation with its flaw, given the names registered before. -/
def judgeFrom (earlier : List String) :
    List (Registration κ) → List (Registration κ × Option Flaw)
  | []      => []
  | r :: rs => (r, r.flaw? earlier) :: judgeFrom (earlier ++ [r.name]) rs

/-- Every implementation with its flaw. -/
def judged (g : Registry κ) : List (Registration κ × Option Flaw) := judgeFrom [] g.registrations

/-- Every name in order of registration. -/
def names (g : Registry κ) : List String := g.registrations.map (·.name)

/-- Sorts the implementations into available, unusable and rejected ones. -/
def discover (g : Registry κ) : Discovery where
  contract := g.contract
  available := g.judged.filterMap fun (r, flaw) =>
    match flaw, r.usability with
    | none, .usable => some r.name
    | _, _          => none
  unusable := g.judged.filterMap fun (r, flaw) =>
    match flaw, r.usability with
    | none, .unusable reason => some (r.name, reason)
    | _, _                   => none
  rejected := g.judged.filterMap fun (r, flaw) =>
    flaw.map (.validation g.contract r.name)

/-- A descriptor that selects nothing and lists the defaults of what is available. -/
def template (g : Registry κ) : Descriptor :=
  let available := g.discover.available
  (g.registrations.filter fun r => available.contains r.name).foldl
    (fun d r => d.withParams r.name r.defaults) .empty

/-- The first implementation with a name, with its flaw. -/
def find (g : Registry κ) (name : String) :
    Except PluginError (Registration κ × Option Flaw) :=
  match g.judged.find? (·.1.name = name) with
  | some found => .ok found
  | none       => .error (.notFound g.contract name g.discover.available)

/-- The defaults of a named implementation. -/
def defaults (g : Registry κ) (name : String) : Except PluginError Object :=
  (g.find name).map (·.1.defaults)

/-- The implementation to build under a name and the parameters to build it from: those given,
laid over its defaults. -/
def prepare (g : Registry κ) (name : String) (params : Object) :
    Except PluginError (Registration κ × Object) := do
  let (r, flaw) ← g.find name
  match flaw with
  | some flaw => throw (.validation g.contract name flaw)
  | none      =>
    match r.usability with
    | .unusable reason => throw (.unusable g.contract name reason)
    | .usable          => return (r, Config.merge r.defaults params)

/-- Builds under a name. A constructor gives its reason when it fails. -/
def instantiate {m : Type → Type u} [Monad m] {α : Type}
    (g : Registry (Object → ExceptT String m α)) (name : String) (params : Object) :
    ExceptT PluginError m α :=
  match g.prepare name params with
  | .error e        => throw e
  | .ok (r, config) => ExceptT.adapt (.construction g.contract name) (r.construct config)

/-- Builds what a descriptor selects. -/
def resolve {m : Type → Type u} [Monad m] {α : Type}
    (g : Registry (Object → ExceptT String m α)) (d : Descriptor) : ExceptT PluginError m α :=
  match d.selection g.contract with
  | .error e           => throw (.config e)
  | .ok (name, params) => g.instantiate name params

/-- Builds what an optional descriptor selects; nothing if it is missing or selects nothing. -/
def resolveOptional {m : Type → Type u} [Monad m] {α : Type}
    (g : Registry (Object → ExceptT String m α)) (value : Option Value) :
    ExceptT PluginError m (Option α) :=
  match Descriptor.ofOptional g.contract value with
  | .error e     => throw (.config e)
  | .ok none     => return none
  | .ok (some d) => some <$> g.resolve d

/-- A short description. -/
def describe (g : Registry κ) : String :=
  "Registry \x7b contract: " ++ Text.quote g.contract ++ ", plugins: " ++
    Text.quoteList g.names ++ " \x7d"

end Registry

end Depot
