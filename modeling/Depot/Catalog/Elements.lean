import Depot.Element.Parameters
import Depot.Plugin.Registry
import Depot.World.Basic
/-!
# The implementations of elements

Elements in memory, in files, in backends and at web addresses. A web page cannot be fetched, so
that implementation is known but not usable.
-/

namespace Depot

open Json

/-- What the constructors of implementations share: the backends, by name. -/
structure Plugins where
  backends : BackendNames
deriving DecidableEq

/-- What builds an instance in the world; a failure has its reason. -/
abbrev Constructor (α : Type) := Object → World.Action String α

namespace Plugins

/-- The contract of elements. -/
def elementContract : String := "data_element"

/-- A constructor of elements from one of sources. -/
def elementOf (build : Object → Except ParameterError Source) : Constructor ElementRef := fun o =>
  match build o with
  | .ok s    => World.newElement s
  | .error e => throw e.message

/-- Why web pages cannot be fetched. -/
def noWebReason : String :=
  "optional dependency \x60reqwest\x60 not compiled in (enable the \x60http\x60 feature)"

/-- The implementations of elements. -/
def elements (p : Plugins) : Registry (Constructor ElementRef) where
  contract := elementContract
  registrations :=
    [{ name := Source.memoryName
       defaults := Source.memoryDefaults
       construct := elementOf Source.memoryOfConfig },
     { name := Source.fileName
       defaults := Source.fileDefaults
       construct := elementOf Source.fileOfConfig },
     { name := Source.backendName
       defaults := Source.backendDefaults
       construct := elementOf (Source.backendOfConfig p.backends) },
     { name := Source.webName
       usability := .unusable noWebReason
       defaults := Source.webDefaults
       construct := elementOf Source.webOfConfig }]

/-- Builds the element that a descriptor selects. -/
def element (p : Plugins) (d : Descriptor) : World.Action PluginError ElementRef :=
  p.elements.resolve d

/-- Builds the element that an optional descriptor selects. -/
def element? (p : Plugins) (v : Option Value) : World.Action PluginError (Option ElementRef) :=
  p.elements.resolveOptional v

end Plugins

end Depot
