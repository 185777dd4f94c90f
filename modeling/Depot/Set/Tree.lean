import Depot.Catalog.Elements
import Depot.Disk.Walk
import Depot.Set.FileName
import Depot.Set.Interface
/-!
# Data sets in directory trees

The descriptor of every element is kept in a file below a root directory, where the key and the
digest of the element say. Files for one key may stand in several places, if sets have used
different numbers of pieces; the set knows all of them, and the element is the one that the first
describes.
-/

namespace Depot

open Json

/-- The files for one key, and the element. -/
structure TreeEntry where
  paths : List Disk.Location
  element : ElementRef
deriving DecidableEq

/-- Descriptor files below a root, and what builds elements from them. -/
structure TreeSet where
  root : Disk.Location
  /-- Into how many pieces digests are cut. -/
  chunk : Nat
  plugins : Plugins
  entries : Dict ElementKey TreeEntry
deriving DecidableEq

namespace TreeSet

/-- The name of the implementation. -/
def pluginName : String := "FileDataSet"

/-- How many pieces digests are cut into unless something else is asked for. -/
def defaultChunk : Nat := 10

/-- The most pieces that digests can be cut into. -/
def maxChunk : Nat := 40

/-- The text of a location. -/
def pathText (l : Disk.Location) : String := (Disk.Path.ofLocation l).text

/-! ### Reading the tree -/

/-- Builds the element that a descriptor file describes. -/
def loadFile (p : Plugins) (l : Disk.Location) : World.Action SetError ElementRef := do
  let content ← .ofView fun w =>
    (w.disk.contentAt (.ofLocation l)).mapError (SetError.io (pathText l))
  let trouble := SetError.storage (pluginName ++ " entry " ++ pathText l)
  match Object.ofBytes? content with
  | none   => throw (trouble .fileNotObject)
  | some o =>
    match Descriptor.ofObject Plugins.elementContract o with
    | .error e => throw (trouble (.fileNotDescriptor e))
    | .ok d    => (p.element d).mapError .plugin

/-- The key that the name of a file holds. -/
def keyAt? (l : Disk.Location) : Option ElementKey := l.getLast?.bind DescriptorFile.key?

/-- Adds files to the entries. The first file for a key is read, the others are only noted; files
that are not for any key are passed over. -/
def scanFiles (p : Plugins) (entries : Dict ElementKey TreeEntry) :
    List Disk.Location → World.Action SetError (Dict ElementKey TreeEntry)
  | []      => return entries
  | l :: ls =>
    match keyAt? l with
    | none   => scanFiles p entries ls
    | some k =>
      match entries.get? k with
      | some e => scanFiles p (entries.insert k { e with paths := e.paths ++ [l] }) ls
      | none   => do
        let r ← loadFile p l
        scanFiles p (entries.insert k { paths := [l], element := r }) ls

/-- The entries that the files below a root make up. -/
def scan (p : Plugins) (root : Disk.Location) :
    World.Action SetError (Dict ElementKey TreeEntry) := do
  scanFiles p .empty ((← get).disk.walk root)

/-- Opens the set below a root, which is made if it is missing. -/
def openAt (p : Plugins) (root : String) (chunk : Nat) : World.Action SetError TreeSet := do
  if chunk = 0 ∨ maxChunk < chunk then
    throw (.storage pluginName (.chunkOutOfRange chunk))
  let path := Disk.Path.ofText root
  World.onDisk ((Disk.makeDirs path).mapError (.io root))
  let l ← World.onDisk (.ofView fun d => (d.locate path).mapError (.io root))
  return { root := l, chunk, plugins := p, entries := ← scan p l }

/-- Reads the tree again. -/
def refresh : InWorld.Action TreeSet Unit := do
  let s := (← get).set
  let entries ← InWorld.onWorld (scan s.plugins s.root)
  modify fun s => { s with set.entries := entries }

/-! ### Adding -/

/-- Where the file for a key and a digest stands. -/
def placeOf (s : TreeSet) (key : ElementKey) (sha1 : String) : Except SetError Disk.Location :=
  match DescriptorFile.place? s.chunk key sha1 with
  | some names => .ok (s.root ++ names)
  | none       =>
    .error (.storage (pluginName ++ " at " ++ pathText s.root) (.cannotSplit sha1 s.chunk))

/-- A way of deleting a file, which may fail. -/
abbrev Deletion := Disk → Disk.Location → Except Disk.Fault Disk

/-- Deletes a file of the disk. -/
def deleteFile : Deletion := fun d l => d.removeFile (.ofLocation l)

/-- Deletes files; what cannot be deleted is left. -/
def deleteAll (ls : List Disk.Location) (d : Disk) : Disk :=
  ls.foldl (fun d l => (deleteFile d l).toOption.getD d) d

/-- Writes a descriptor file, with the directories it stands in. -/
def writeFile (l : Disk.Location) (content : Bytes) : World.Action SetError Unit := do
  let fault := SetError.io (pathText l)
  World.onDisk ((Disk.makeDirs (.ofLocation l.dropLast)).mapError fault)
  World.onDisk (.ofStep fun d => (d.writeFile (.ofLocation l) content).mapError fault)

/-- Adds an element: its file is written, and every other file for its key is deleted. -/
def addOne (r : ElementRef) : InWorld.Action TreeSet Unit := do
  let key ← InWorld.uuid r
  let sha1 ← InWorld.uuid r
  let l ← .ofView fun s => s.set.placeOf key sha1
  let content := ((← get).world.source r).descriptor.toValue.prettyText.toUTF8
  InWorld.onWorld (writeFile l content)
  let old := ((← get).set.entries.get? key).elim [] (·.paths)
  InWorld.onWorld (World.onDisk (.ofChange (deleteAll (old.filter (· ≠ l)))))
  modify fun s =>
    { s with set.entries := s.set.entries.insert key { paths := [l], element := r } }

/-- Adds elements one after the other. -/
def addEach : List ElementRef → InWorld.Action TreeSet Unit
  | []      => return
  | r :: rs => do
    addOne r
    addEach rs

/-! ### Removing -/

/-- Deletes the files of a reversed list, the last file first; one that is missing counts as
deleted. At the first file that cannot be deleted it stops, with the fault and the files that are
left, reversed as well. -/
def deleteBack (delete : Deletion) (d : Disk) : List Disk.Location →
    Disk × Option (Disk.Location × Disk.Fault) × List Disk.Location
  | []      => (d, none, [])
  | l :: ls =>
    match delete d l with
    | .ok d'           => deleteBack delete d' ls
    | .error .notFound => deleteBack delete d ls
    | .error f         => (d, some (l, f), l :: ls)

/-- Removes a key with all its files. If a file cannot be deleted, the entry stays, with the files
that are left. -/
def removeKey (delete : Deletion) (k : ElementKey) : InWorld.Action TreeSet Unit := fun s =>
  match s.set.entries.get? k with
  | none   => (.error (.keyNotFound k), s)
  | some e =>
    match deleteBack delete s.world.disk e.paths.reverse with
    | (d, none, _)           =>
      (.ok (), { set := { s.set with entries := s.set.entries.erase k }
                 world := { s.world with disk := d } })
    | (d, some (l, f), left) =>
      (.error (.io (pathText l) f),
        { set := { s.set with entries := s.set.entries.insert k { e with paths := left.reverse } }
          world := { s.world with disk := d } })

/-! ### The set -/

/-- The element under a key that must have one. -/
def find (s : TreeSet) (k : ElementKey) : Except SetError ElementRef :=
  match s.entries.get? k with
  | some e => .ok e.element
  | none   => .error (.keyNotFound k)

/-- A data set in a directory tree. -/
def core : SetCore TreeSet where
  count := .ofView fun s => .ok s.set.entries.size
  keys := .ofView fun s => .ok s.set.entries.keys
  has k := .ofView fun s => .ok (s.set.entries.contains k)
  addMany := addEach
  get k := .ofView fun s => s.set.find k
  remove := removeKey deleteFile

/-- The file for a key, the first one if there are several. -/
def path? (s : TreeSet) (k : ElementKey) : Option Disk.Location :=
  (s.entries.get? k).bind (·.paths.head?)

/-- The parameters that the set can be rebuilt from. -/
def config (s : TreeSet) : Object :=
  [("root_directory", .string (pathText s.root)),
   ("sha1_chunk", .number (.ofUInt64 (.ofNat s.chunk)))]

/-- A short description. -/
def describe (s : TreeSet) : String :=
  "FileDataSet \x7b root_directory: " ++ Text.quote (pathText s.root) ++
    s!", sha1_chunk: {s.chunk}, count: {s.entries.size} \x7d"

end TreeSet

end Depot
