import Depot.Set.Error
import Depot.World.Stores
/-!
# What a data set offers

A data set holds elements by the checksums of their content. It is given by a few operations on
its own state and the world; others are built from them.
-/

namespace Depot

/-- A data set of some kind in the world. -/
structure InWorld (σ : Type) where
  set : σ
  world : World

namespace InWorld

/-- An action on a data set and the world. -/
abbrev Action (σ α : Type) := Depot.Action (InWorld σ) SetError α

variable {σ τ α : Type}

/-- Runs an action on the world. -/
def onWorld (x : World.Action SetError α) : Action σ α :=
  x.onPart (·.world) fun w s => { s with world := w }

@[simp] theorem onWorld_apply (x : World.Action SetError α) (s : InWorld σ) :
    onWorld x s = ((x s.world).1, { s with world := (x s.world).2 }) := rfl

/-- The key of an element. -/
def uuid (r : ElementRef) : Action σ ElementKey := onWorld ((World.uuid r).mapError .element)

end InWorld

/-- The operations every data set has of its own, on a state `σ`. -/
structure SetCore (σ : Type) where
  count : InWorld.Action σ Nat
  keys : InWorld.Action σ (List ElementKey)
  has : ElementKey → InWorld.Action σ Bool
  addMany : List ElementRef → InWorld.Action σ Unit
  get : ElementKey → InWorld.Action σ ElementRef
  remove : ElementKey → InWorld.Action σ Unit

namespace SetCore

variable {σ : Type} (s : SetCore σ)

/-- Adds an element. -/
def add (r : ElementRef) : InWorld.Action σ Unit := s.addMany [r]

/-- Whether there is an element with the key of another. -/
def contains (r : ElementRef) : InWorld.Action σ Bool := do
  s.has (← InWorld.uuid r)

/-- The elements under several keys. -/
def getMany : List ElementKey → InWorld.Action σ (List ElementRef)
  | []      => return []
  | k :: ks => do
    let r ← s.get k
    return r :: (← getMany ks)

/-- Every element, in the order of the keys. -/
def elements : InWorld.Action σ (List ElementRef) := do
  s.getMany (← s.keys)

/-- Whether there is no element. -/
def isEmpty : InWorld.Action σ Bool := do
  return (← s.count) = 0

end SetCore

end Depot
