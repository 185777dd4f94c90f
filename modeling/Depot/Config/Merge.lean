import Depot.Json.Value
/-!
# Merging configurations

An overlay is laid over a base: objects are merged key by key at every depth, any other value of
the overlay replaces what the base has.
-/

namespace Depot.Config

open Json

mutual

/-- What stands at a place after the overlay has a value there. -/
def mergeValue (base : Option Value) : Value → Value
  | .object overlay =>
    match base with
    | some (.object b) => .object (mergeMembers b overlay)
    | _                => .object overlay
  | v               => v

/-- Lays the members of an overlay over a base, one after the other. -/
def mergeMembers (base : Object) : List (String × Value) → Object
  | []           => base
  | (k, v) :: ms =>
    mergeMembers (Assoc.insert k (mergeValue (Assoc.get? k base) v) base) ms

end

/-- Lays `overlay` over `base`. -/
def merge (base overlay : Object) : Object := mergeMembers base overlay

end Depot.Config
