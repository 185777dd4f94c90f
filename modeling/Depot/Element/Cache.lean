import Depot.Checksum
import Depot.Element.Error
import Depot.Disk.Basic
import Depot.MediaType
/-!
# Memory of checksums and temporary files

A cache remembers checksums of some content and the temporary files that hold it, never the
content itself. It counts how often its content has changed: what comes from a reading that began
before a change is not used after it. The reading is an action of its own, which may change the
content and the cache while it runs.
-/

namespace Depot

/-- A temporary file and the generation of the content it was written from. -/
structure TempFile where
  generation : Nat
  path : Disk.Path
deriving DecidableEq

/-- What is remembered of some content. -/
structure ContentCache where
  /-- How many times the content has changed. -/
  generation : Nat
  /-- Checksums of the content, one for each algorithm at most. -/
  checksums : List Checksum
  /-- Temporary files written, oldest first. -/
  temps : List TempFile
deriving DecidableEq

/-- A cache and what surrounds it: the disk, and whatever a reading works on. -/
structure Scene (τ : Type) where
  cache : ContentCache
  disk : Disk
  around : τ

namespace ContentCache

/-- Nothing remembered. -/
def empty : ContentCache := { generation := 0, checksums := [], temps := [] }

instance : Inhabited ContentCache := ⟨empty⟩

/-- The checksum remembered for an algorithm. -/
def checksum? (c : ContentCache) (a : Algorithm) : Option Checksum :=
  c.checksums.find? (·.algorithm = a)

/-- Remembers a checksum in the place of any other of its algorithm. -/
def remember (c : ContentCache) (k : Checksum) : ContentCache :=
  { c with checksums := k :: c.checksums.filter (·.algorithm ≠ k.algorithm) }

/-- Remembers a checksum unless the content has changed since a generation. -/
def rememberSince (c : ContentCache) (generation : Nat) (k : Checksum) : ContentCache :=
  if c.generation = generation then c.remember k else c

/-- Forgets the temporary files that are gone. -/
def prune (c : ContentCache) (d : Disk) : ContentCache :=
  { c with temps := c.temps.filter fun t => d.exists? t.path }

/-- Remembers a temporary file. -/
def track (c : ContentCache) (t : TempFile) : ContentCache := { c with temps := c.temps ++ [t] }

/-- Forgets everything: the content has changed. -/
def renew (c : ContentCache) : ContentCache :=
  { generation := c.generation + 1, checksums := [], temps := [] }

/-- Whether a temporary file may serve a request for a directory, or for any. -/
def serves (generation : Nat) (dir : Option Disk.Path) (t : TempFile) : Bool :=
  t.generation = generation &&
    match dir with
    | none   => true
    | some d => t.path.parent?.any (·.same d)

/-- The newest temporary file of the current content in a directory, or in any. -/
def current? (c : ContentCache) (dir : Option Disk.Path) : Option TempFile :=
  c.temps.reverse.find? (serves c.generation dir)

/-- Deletes temporary files; what cannot be deleted is left. -/
def deleteAll (temps : List TempFile) (d : Disk) : Disk :=
  temps.foldl (fun d t => (d.removeFile t.path).toOption.getD d) d

end ContentCache

namespace Scene

open ContentCache

variable {τ : Type}

/-- An action in a scene. -/
abbrev Action (τ ε α : Type) := Depot.Action (Scene τ) ε α

/-- Changes the cache. -/
def onCache {ε : Type} (change : ContentCache → ContentCache) : Action τ ε Unit :=
  .ofChange fun s => { s with cache := change s.cache }

/-- Runs an action on the disk. -/
def onDisk {ε α : Type} (x : Disk.Action ε α) : Action τ ε α :=
  x.onPart (·.disk) fun d s => { s with disk := d }

/-- The content has changed: everything remembered is forgotten, every temporary file deleted. -/
def invalidate {ε : Type} : Action τ ε Unit := .ofChange fun s =>
  { s with cache := s.cache.renew, disk := deleteAll s.cache.temps s.disk }

/-- The checksum of the content that `read` gives, unless it is remembered. It is remembered if
the content has not changed in the meantime. -/
def checksum (a : Algorithm) (read : Action τ ElementError Bytes) :
    Action τ ElementError Checksum := do
  let cache := (← get).cache
  match cache.checksum? a with
  | some k => return k
  | none   =>
    let k := Checksum.ofBytes a (← read)
    onCache fun c => c.rememberSince cache.generation k
    return k

/-- Makes a directory with all that is missing on the way to it, and gives the path to it from the
root. -/
def enterDir (dir : String) : Action τ ElementError Disk.Path := do
  let fault := ElementError.temporary dir
  onDisk ((Disk.makeDirs (.ofText dir)).mapError fault)
  onDisk (.ofView fun d => (d.absolute (.ofText dir)).mapError fault)

/-- Writes a new temporary file. -/
def writeNew (dir : Disk.Path) (suffix : String) (content : Bytes) :
    Action τ ElementError Disk.Path :=
  onDisk ((Disk.writeTemp dir suffix content).mapError (.temporary dir.text))

/-- A file that holds the content that `read` gives: one remembered for the current content and
still there, or a new one. With a directory, only a file in it will do, and a new one is made
there; without one, any file will do, and a new one is made where temporary files go. -/
def writeTemp [MediaTypes] (dir : Option String) (contentType : Option String)
    (read : Action τ ElementError Bytes) : Action τ ElementError Disk.Path := do
  let dir ← dir.mapM enterDir
  modify fun s => { s with cache := s.cache.prune s.disk }
  let s ← get
  match s.cache.current? dir with
  | some t => return t.path
  | none   =>
    let content ← read
    let suffix := contentType.elim "" MediaType.suffix
    let path ← writeNew (dir.getD s.disk.tempDir) suffix content
    onCache fun c => c.track { generation := s.cache.generation, path }
    return path

/-- The end of a cache: its temporary files are deleted. -/
def close {ε : Type} : Action τ ε Unit := .ofChange fun s =>
  { s with cache := { s.cache with temps := [] }, disk := deleteAll s.cache.temps s.disk }

end Scene

end Depot
