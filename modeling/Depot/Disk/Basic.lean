import Depot.Action
import Depot.Dict
import Depot.Disk.Fault
import Depot.Disk.Names
import Depot.Disk.Path
import Depot.Text.Basic
/-!
# The disk

A disk holds directories, files and links by location. A path is resolved name by name: every name
but the last must be a directory or lead to one through links, and no more than a fixed number of
links is followed.
-/

namespace Depot

open Disk

/-- What stands at a location. -/
inductive Disk.Node where
  | dir
  | file (content : Bytes)
  | link (target : Path)
deriving DecidableEq

/-- A disk as a process sees it. -/
structure Disk where
  /-- Everything below the root. -/
  nodes : Dict Location Disk.Node
  /-- Where relative paths start. -/
  workDir : Location
  /-- Where temporary files go if nobody says otherwise. -/
  tempDir : Path
  /-- What temporary files are called. -/
  names : Disk.Names

namespace Disk

/-- What stands at a location. The root is a directory. -/
def node? (d : Disk) (l : Location) : Option Node :=
  if l = [] then some .dir else d.nodes.get? l

/-- Puts something at a location. -/
def put (d : Disk) (l : Location) (n : Node) : Disk := { d with nodes := d.nodes.insert l n }

/-- Empties a location. -/
def drop (d : Disk) (l : Location) : Disk := { d with nodes := d.nodes.erase l }

/-! ### Resolving paths -/

/-- Where a run of names leads. -/
inductive Target where
  /-- To something that exists. -/
  | found (l : Location)
  /-- To a name that is free in a directory. -/
  | free (dir : Location) (name : String)
deriving DecidableEq

/-- Where a run of names leads, up to the first link that has to be followed. -/
inductive Stop where
  | target (t : Target)
  /-- At a link in a directory, with the names after it. -/
  | link (dir : Location) (target : Path) (rest : List String)

/-- Bytes a name may have. -/
def maxName : Nat := 255

/-- How many links are followed on the way. -/
def maxLinks : Nat := 40

/-- Follows names from a directory. A link at the end is followed if `last` says so. -/
def advance (d : Disk) (last : Bool) : Location → List String → Except Fault Stop
  | l, []      => .ok (.target (.found l))
  | l, s :: ss =>
    if s = "." then advance d last l ss
    else if s = ".." then advance d last l.dropLast ss
    else if maxName < s.utf8ByteSize then .error .nameTooLong
    else
      match d.node? (l ++ [s]) with
      | none            => if ss = [] then .ok (.target (.free l s)) else .error .notFound
      | some .dir       => advance d last (l ++ [s]) ss
      | some (.file _)  =>
        if ss = [] then .ok (.target (.found (l ++ [s]))) else .error .notDirectory
      | some (.link target) =>
        if ss = [] ∧ last = false then .ok (.target (.found (l ++ [s])))
        else .ok (.link l target ss)

/-- The directory from which a path is followed, given the one it stands in. -/
def Path.start (p : Path) (base : Location) : Location := if p.isAbsolute then [] else base

/-- The names to follow where a path must lead to something; a slash at the end asks for a
directory. -/
def Path.steps (p : Path) : List String := if p.trailing then p.segments ++ ["."] else p.segments

/-- Follows names and links from a directory. -/
def follow (d : Disk) (last : Bool) : (links : Nat) → Location → List String → Except Fault Target
  | links, l, ss =>
    match advance d last l ss with
    | .error e                    => .error e
    | .ok (.target t)             => .ok t
    | .ok (.link dir target rest) =>
      match links with
      | 0         => .error .tooManyLinks
      | links + 1 => follow d last links (target.start dir) (target.steps ++ rest)

/-- Where names from the start of a path lead. -/
def resolveSteps (d : Disk) (last : Bool) (p : Path) (steps : List String) :
    Except Fault Target :=
  if p.isEmpty then .error .notFound
  else if p.segments.any fun s => s.toList.contains '\x00' then .error .nulInName
  else follow d last maxLinks (p.start d.workDir) steps

/-- Where a path leads, links included; it must lead to something. -/
def locate (d : Disk) (p : Path) : Except Fault Location :=
  match d.resolveSteps true p p.steps with
  | .error e           => .error e
  | .ok (.found l)     => .ok l
  | .ok (.free _ _)    => .error .notFound

/-- What a path leads to. -/
def stat (d : Disk) (p : Path) : Except Fault Node :=
  (d.locate p).bind fun l =>
    match d.node? l with
    | some n => .ok n
    | none   => .error .notFound

/-- Whether a path leads to anything. -/
def exists? (d : Disk) (p : Path) : Bool := (d.stat p).isOk

/-- Whether a path leads to a file. -/
def isFile (d : Disk) (p : Path) : Bool :=
  match d.stat p with
  | .ok (.file _) => true
  | _             => false

/-- Whether a path leads to a directory. -/
def isDir (d : Disk) (p : Path) : Bool :=
  match d.stat p with
  | .ok .dir => true
  | _        => false

/-! ### Files -/

/-- The content of a file. -/
def contentAt (d : Disk) (p : Path) : Except Fault Bytes :=
  match d.stat p with
  | .error e           => .error e
  | .ok (.file b)      => .ok b
  | .ok _              => .error .isDirectory

/-- The content of a file as text. -/
def readText (d : Disk) (p : Path) : Except Fault String :=
  (d.contentAt p).bind fun b =>
    match Text.ofBytes? b with
    | some s => .ok s
    | none   => .error .notText

/-- Writes a file, creating it if need be. A slash at the end asks for a directory. -/
def writeFile (d : Disk) (p : Path) (content : Bytes) : Except Fault Disk :=
  if p.trailing then
    match d.resolveSteps true p (p.segments.dropLast ++ ["."]) with
    | .error e         => .error e
    | .ok (.free _ _)  => .error .notFound
    | .ok (.found _)   => .error .isDirectory
  else
    match d.resolveSteps true p p.segments with
    | .error e           => .error e
    | .ok (.free dir s)  => .ok (d.put (dir ++ [s]) (.file content))
    | .ok (.found l)     =>
      if d.node? l = some .dir then .error .isDirectory else .ok (d.put l (.file content))

/-- Makes a file that was not there before. -/
def createFile (d : Disk) (p : Path) (content : Bytes) : Except Fault Disk :=
  match d.resolveSteps false p p.segments with
  | .error e          => .error e
  | .ok (.found _)    => .error .alreadyExists
  | .ok (.free dir s) => .ok (d.put (dir ++ [s]) (.file content))

/-- Deletes a file or a link. -/
def removeFile (d : Disk) (p : Path) : Except Fault Disk :=
  match d.resolveSteps false p p.segments with
  | .error e          => .error e
  | .ok (.free _ _)   => .error .notFound
  | .ok (.found l)    =>
    if d.node? l = some .dir then .error .isDirectory
    else if p.trailing then .error .notDirectory
    else .ok (d.drop l)

/-- Puts a finished file in the place of whatever file or link a path names; a link is not
followed. -/
def replaceFile (d : Disk) (p : Path) (content : Bytes) : Except Fault Disk :=
  match p.segments.getLast? with
  | none      => if p.isEmpty then .error .notFound else .error .busy
  | some last =>
    match d.resolveSteps true p (p.segments.dropLast ++ ["."]) with
    | .error e            => .error e
    | .ok (.free _ _)     => .error .notFound
    | .ok (.found dir)    =>
      if last = "." ∨ last = ".." then .error .busy
      else if maxName < last.utf8ByteSize then .error .nameTooLong
      else if p.trailing then .error .notDirectory
      else if d.node? (dir ++ [last]) = some .dir then .error .isDirectory
      else .ok (d.put (dir ++ [last]) (.file content))

/-- Makes a link. -/
def makeLink (d : Disk) (p : Path) (target : Path) : Except Fault Disk :=
  match d.resolveSteps false p p.segments with
  | .error e           => .error e
  | .ok (.found _)     => .error .alreadyExists
  | .ok (.free dir s)  =>
    if p.trailing then .error .notFound else .ok (d.put (dir ++ [s]) (.link target))

/-! ### Directories -/

/-- An action on a disk that may fail; what was done before the failure stays. -/
abbrev Action (ε α : Type) := Depot.Action Disk ε α

/-- Makes one directory. -/
def makeDir (d : Disk) (p : Path) : Except Fault Disk :=
  match d.resolveSteps false p p.segments with
  | .error e           => .error e
  | .ok (.found _)     => .error .alreadyExists
  | .ok (.free dir s)  => .ok (d.put (dir ++ [s]) .dir)

/-- An attempt to make a directory that counts as done if the directory exists already. -/
def ensureDir (p : Path) : Action Fault Unit := fun d =>
  match d.makeDir p with
  | .ok d'   => (.ok (), d')
  | .error e => (if d.isDir p then .ok () else .error e, d)

/-- Makes the directories at the ends of ever longer paths. -/
def ensureDirs : List Path → Action Fault Unit
  | []      => pure ()
  | p :: ps => do
    ensureDir p
    ensureDirs ps

/-- The path and those it passes through, longest first, up to the first whose directory can be
made or whose failure is not that something before it is missing. -/
def missing (d : Disk) : List Path → List Path
  | []      => []
  | p :: ps =>
    match d.makeDir p with
    | .error .notFound => p :: missing d ps
    | _                => [p]

/-- A path and what is left of it when its last segments are dropped one by one. -/
def Path.ancestors (p : Path) : List Path :=
  let ss := p.tidySegments
  p :: ((List.range ss.length).map fun i => { p.tidy with segments := ss.take (ss.length - 1 - i) })

/-- Makes a directory and all that are missing on the way to it. -/
def makeDirs (p : Path) : Action Fault Unit := fun d =>
  if p.isEmpty then
    (.ok (), d)
  else
    ensureDirs ((d.missing (p.ancestors.filter fun q => !q.isEmpty)).reverse) d

/-! ### Temporary files -/

/-- The first turn from `n` on whose name is free in a directory, looked for `fuel` times. -/
def freeName (d : Disk) (dir : Location) (suffix : String) : (fuel n : Nat) → Nat
  | 0, n        => n
  | fuel + 1, n =>
    if (d.node? (dir ++ [tempName d.names n suffix])).isSome then
      freeName d dir suffix fuel (n + 1)
    else n

/-- Writes a new file in a directory, under a name that is free. -/
def writeTemp (dir : Path) (suffix : String) (content : Bytes) : Action Fault Path := fun d =>
  match d.locate dir with
  | .error e => (.error e, d)
  | .ok l    =>
    if d.node? l = some .dir then
      let n := d.freeName l suffix d.names.attempts d.names.used
      let p := dir.join (tempName d.names n suffix)
      match d.createFile p content with
      | .error e => (.error e, d)
      | .ok d'   => (.ok p, { d' with names.used := n + 1 })
    else
      (.error .notDirectory, d)

/-! ### Paths -/

/-- The path seen from the root. -/
def absolute (d : Disk) (p : Path) : Except Fault Path :=
  if p.isEmpty then .error .emptyPath else .ok (p.absoluteFrom d.workDir)

/-- A disk with nothing on it but a working directory and a directory for temporary files in
it. -/
def fresh (workDir : Location) (temp : String) : Disk :=
  let parents := (List.range workDir.length).map fun i => (workDir.take (i + 1), Node.dir)
  { nodes := .ofList (parents ++ [(workDir ++ [temp], Node.dir)])
    workDir
    tempDir := .ofLocation (workDir ++ [temp])
    names := .numbered }

end Disk

end Depot
