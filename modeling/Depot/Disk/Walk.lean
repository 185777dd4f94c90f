import Depot.Disk.Basic
/-!
# Walking a directory

The files below a directory, in the order of their names at every level. Links are followed, but
not into a directory that the walk is inside of already, and what a broken link names is left out.
A disk without links gives the files below the directory as they stand in it.
-/

namespace Depot.Disk

/-- What stands below a location, by the names that lead there from it. -/
def below (d : Disk) (l : Location) : List (List String × Node) :=
  d.nodes.entries.filterMap fun (m, n) =>
    if l.isPrefixOf m ∧ l ≠ m then some (m.drop l.length, n) else none

/-- The directories passed on the way from a location down some names, the first included. -/
def passed (l : Location) (names : List String) : List Location :=
  (List.range names.length).map fun i => l ++ names.take i

/-- The files below a directory that is shown under another location, each as it is shown. `open`
are the directories that the walk is inside of; a link leads into a directory that is none of
them, so that there are fewer links to follow than entries on the disk. -/
def walkFrom (d : Disk) : (fuel : Nat) → (inside : List Location) → (real shown : Location) →
    List Location
  | 0, _, _, _                     => []
  | fuel + 1, inside, real, shown => (d.below real).flatMap fun (names, n) =>
    match n with
    | .file _ => [shown ++ names]
    | .dir    => []
    | .link _ =>
      match d.locate (.ofLocation (real ++ names)) with
      | .error _ => []
      | .ok l    =>
        match d.node? l with
        | some .dir =>
          let inside := inside ++ passed real names
          if l ∈ inside then [] else walkFrom d fuel inside l (shown ++ names)
        | some _    => [shown ++ names]
        | none      => []

/-- The files below a directory. -/
def walk (d : Disk) (root : Location) : List Location :=
  d.walkFrom (d.nodes.size + 1) [] root root

end Depot.Disk
