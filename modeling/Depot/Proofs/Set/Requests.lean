import Depot.Proofs.FiniteMap
import Depot.Proofs.World.Showing
import Depot.Set.Basic
/-!
# Requests to data sets

What a data set can be asked for, and what a finite map from keys to elements answers, where it is
known what every element looks like.
-/

namespace Depot

open Depot.Action

/-- What a data set can be asked for. -/
inductive SetRequest where
  | addMany (rs : List ElementRef)
  | remove (k : ElementKey)
  | get (k : ElementKey)
  | has (k : ElementKey)
  | contains (r : ElementRef)
  | keys
  | count
  | elements
  | isEmpty

/-- What a data set answers. Of elements their keys are given, and what they look like. -/
inductive SetAnswer where
  | done
  | element (e : ElementKey × Look)
  | elements (es : List (ElementKey × Look))
  | truth (b : Bool)
  | keys (ks : List ElementKey)
  | number (n : Nat)

/-- A fault of the disk, or of an element that cannot be written, possibly under a store. -/
def SetError.isFault : SetError → Bool
  | .io .. | .element (.store ..) | .store (.element (.store ..)) => true
  | _ => false

namespace InWorld

variable {σ : Type}

/-- The key of an element, and what it looks like. -/
def observe [MediaTypes] (r : ElementRef) : Action σ (ElementKey × Look) := do
  let source := (← get).world.source r
  let bytes ← onWorld ((World.read r).mapError .element)
  let k ← uuid r
  return (k, { bytes, contentType := source.contentType, writable := source.writable })

/-- The keys of several elements, and what they look like. -/
def observeAll [MediaTypes] : List ElementRef → Action σ (List (ElementKey × Look))
  | []      => return []
  | r :: rs => do
    let e ← observe r
    return e :: (← observeAll rs)

end InWorld

namespace SetRequest

/-- The elements that a request names. -/
def named : SetRequest → List ElementRef
  | addMany rs => rs
  | contains r => [r]
  | _          => []

/-- Asks a data set. -/
def ask [MediaTypes] : SetRequest → InWorld.Action DataSet SetAnswer
  | addMany rs => (fun _ => .done) <$> DataSet.core.addMany rs
  | remove k   => (fun _ => .done) <$> DataSet.core.remove k
  | get k      => do return .element (← InWorld.observe (← DataSet.core.get k))
  | has k      => .truth <$> DataSet.core.has k
  | contains r => .truth <$> DataSet.core.contains r
  | keys       => .keys <$> DataSet.core.keys
  | count      => .number <$> DataSet.core.count
  | elements   => do return .elements (← InWorld.observeAll (← DataSet.core.elements))
  | isEmpty    => .truth <$> DataSet.core.isEmpty

/-- The answers to several requests. -/
def answers [MediaTypes] : List SetRequest → InWorld DataSet → List (Except SetError SetAnswer)
  | [], _      => []
  | q :: qs, s => (q.ask s).1 :: answers qs (q.ask s).2

/-! ### Finite maps -/

/-- The elements by key. -/
abbrev SetMap := Dict ElementKey ElementRef

/-- What a finite map answers, where it is known what elements look like, and the map after it. Of
two elements with the same key the one that is added later stays. -/
def onMap (look : ElementRef → Look) (m : SetMap) : SetRequest → Except SetError SetAnswer × SetMap
  | addMany rs => (.ok .done, m.insertAll (rs.map fun r => ((look r).key, r)))
  | remove k   =>
    if m.contains k then (.ok .done, m.erase k) else (.error (.keyNotFound k), m)
  | get k      =>
    match m.get? k with
    | some r => (.ok (.element (k, look r)), m)
    | none   => (.error (.keyNotFound k), m)
  | has k      => (.ok (.truth (m.contains k)), m)
  | contains r => (.ok (.truth (m.contains (look r).key)), m)
  | keys       => (.ok (.keys m.keys), m)
  | count      => (.ok (.number m.size), m)
  | elements   => (.ok (.elements (m.entries.map fun (k, r) => (k, look r))), m)
  | isEmpty    => (.ok (.truth (m.size = 0)), m)

/-- The map after several requests. -/
def mapAfter (look : ElementRef → Look) (qs : List SetRequest) (m : SetMap) : SetMap :=
  qs.foldl (fun m q => (q.onMap look m).2) m

/-- What a finite map answers to several requests. -/
def mapAnswers (look : ElementRef → Look) :
    List SetRequest → SetMap → List (Except SetError SetAnswer)
  | [], _      => []
  | q :: qs, m => (q.onMap look m).1 :: mapAnswers look qs (q.onMap look m).2

end SetRequest

end Depot
