/-!
# Paths

A path is read from text into its segments; nothing is resolved. Two paths are the same if they
agree after dots that mean nothing have been dropped. A location is a path that has been resolved:
the names that lead to it from the root.
-/

namespace Depot.Disk

/-- The names that lead from the root to a place. -/
abbrev Location := List String

/-- A path as written, split at its slashes. -/
structure Path where
  /-- Slashes at the front: none in a relative path; two exactly are kept apart from one. -/
  slashes : Nat
  /-- The parts between slashes, empty ones dropped. -/
  segments : List String
  /-- Whether a slash stands after the last segment. -/
  trailing : Bool
deriving DecidableEq, Repr

namespace Path

/-- Splits at every slash. -/
def splitSlashes : List Char → List (List Char)
  | []      => [[]]
  | c :: cs =>
    if c = '/' then
      [] :: splitSlashes cs
    else
      match splitSlashes cs with
      | []      => [[c]]
      | s :: ss => (c :: s) :: ss

/-- Reads a path. -/
def ofText (s : String) : Path :=
  let cs := s.toList
  let front := (cs.takeWhile (· = '/')).length
  let segments := (splitSlashes cs).filter (· ≠ [])
  { slashes := if front = 0 then 0 else if front = 2 then 2 else 1
    segments := segments.map .ofList
    trailing := segments ≠ [] && cs.getLast? = some '/' }

/-- The path to a location. -/
def ofLocation (l : Location) : Path := { slashes := 1, segments := l, trailing := false }

/-- The text of a path. -/
def text (p : Path) : String :=
  .ofList (List.replicate p.slashes '/') ++ "/".intercalate p.segments ++
    (if p.trailing then "/" else "")

/-- Whether the path starts at the root. -/
def isAbsolute (p : Path) : Bool := p.slashes ≠ 0

/-- Whether there is nothing in the path. -/
def isEmpty (p : Path) : Bool := p.slashes = 0 && p.segments = []

/-- The segments without the dots that mean nothing: a dot counts only at the front of a relative
path. -/
def tidySegments (p : Path) : List String :=
  match p.segments with
  | []      => []
  | s :: ss => (if s = "." ∧ p.isAbsolute then [] else [s]) ++ ss.filter (· ≠ ".")

/-- The path without dots that mean nothing and without a slash at the end. -/
def tidy (p : Path) : Path :=
  { slashes := min p.slashes 1, segments := p.tidySegments, trailing := false }

/-- Whether two paths are written the same but for what means nothing. -/
def same (p q : Path) : Bool := p.tidy = q.tidy

/-- The path without its last segment; none if there is no segment. -/
def parent? (p : Path) : Option Path :=
  match p.tidySegments with
  | [] => none
  | ss => some { p.tidy with segments := ss.dropLast }

/-- The name at the end of a path; a step upwards is no name. -/
def fileName? (p : Path) : Option String :=
  match p.tidySegments.getLast? with
  | some s => if s = "." ∨ s = ".." then none else some s
  | none   => none

/-- What follows the last dot of the name at the end; a dot at the front of the name does not
count. -/
def extension? (p : Path) : Option String := do
  let cs := (← p.fileName?).toList
  let back := cs.reverse
  let after := back.takeWhile (· ≠ '.')
  if back.length ≤ after.length + 1 then none else some (.ofList after.reverse)

/-- Adds a name at the end. -/
def join (p : Path) (name : String) : Path :=
  { p with segments := p.segments ++ [name], trailing := false }

/-- The path seen from a directory. Dots that mean nothing are dropped; steps upwards and a slash
at the end are kept. -/
def absoluteFrom (base : Location) (p : Path) : Path :=
  if p.isAbsolute then
    { p with segments := p.tidySegments }
  else
    let ss :=
      match p.tidySegments with
      | "." :: ss => ss
      | ss        => ss
    { slashes := 1, segments := base ++ ss, trailing := p.trailing }

end Path

end Depot.Disk
