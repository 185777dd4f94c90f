import Depot.Element.Cache
import Depot.Element.Source
/-!
# Elements

An element is a handle to some content: a source and what is remembered of its content. Its
operations run in a scene that holds the disk and the backends besides: reading, writing,
checksums, and files that hold the content.
-/

namespace Depot

/-- A handle to some content. -/
structure Element where
  source : Source
  cache : ContentCache
deriving DecidableEq

instance : Inhabited Element := ⟨⟨default, .empty⟩⟩

namespace Element

/-- What surrounds the cache of an element. -/
structure Around where
  source : Source
  backends : List Backend

/-- An action on an element, with the disk and the backends. -/
abbrev Action (α : Type) := Scene.Action Around ElementError α

/-- A new handle. -/
def ofSource (s : Source) : Element := ⟨s, .empty⟩

/-! ### Content -/

/-- The content. -/
def read : Action Bytes := .ofView fun s => s.around.source.content s.disk s.around.backends

/-- Whether there is nothing in the content. -/
def isEmpty : Action Bool := do
  return (← read).size = 0

/-- The directory in which a file is to stand. -/
def directoryOf (p : Disk.Path) : Disk.Path :=
  match p.parent? with
  | some dir => if dir.isEmpty then .ofText "." else dir
  | none     => .ofText "."

/-- Puts content into a file. The directory is made if it is missing, and the finished file takes
the place of the old one, so that nobody sees half of it. -/
def storeInFile (path locator : String) (content : Bytes) : Action Unit := do
  let p := Disk.Path.ofText path
  let fault (f : Disk.Fault) := ElementError.store locator (.disk f)
  Scene.onDisk ((Disk.makeDirs (directoryOf p)).mapError fault)
  Scene.onDisk (.ofStep fun d => (d.replaceFile p content).mapError fault)

/-- Puts content where the source has it, without asking whether that is allowed. What is
remembered stays. -/
def store (content : Bytes) : Action Unit := do
  let source := (← get).around.source
  match source with
  | .memory _ type readOnly     =>
    modify fun s => { s with around.source := .memory content type readOnly }
  | .file path _ _              => storeInFile path source.locator content
  | .backend _ ref locator _ _  =>
    let backends := (← get).around.backends
    match (backends.getD ref .empty).write locator content with
    | .ok b    => modify fun s => { s with around.backends := backends.set ref b }
    | .error e => throw e
  | .web ..                     => throw (.readOnly source.locator)

/-- Fails if the content may not be replaced. -/
def ensureWritable : Action Unit := do
  let source := (← get).around.source
  if source.writable then return else throw (.readOnly source.locator)

/-- Replaces the content, if that is allowed, and forgets what is remembered of the old. -/
def setBytes (content : Bytes) : Action Unit := do
  ensureWritable
  store content
  Scene.invalidate

/-! ### Identity -/

/-- The checksum of the content. -/
def checksum (a : Algorithm) : Action Checksum := Scene.checksum a read

/-- The key under which data sets keep the element. -/
def uuid : Action ElementKey := do
  return (← checksum .identity).elementKey

/-! ### Files -/

/-- A file that is handed out, and how its path is written. -/
structure LocalFile where
  path : Disk.Path
  text : String
deriving DecidableEq

/-- A file whose path is written in the usual way. -/
def LocalFile.ofPath (p : Disk.Path) : LocalFile := ⟨p, p.text⟩

/-- A file whose path is written as in a text. -/
def LocalFile.ofText (s : String) : LocalFile := ⟨.ofText s, s⟩

/-- Whether a path names something that stands in a directory, both seen from the root. -/
def standsIn (d : Disk) (path : String) (dir : Disk.Path) : Bool :=
  match d.absolute (.ofText path) with
  | .ok own  => own.parent?.any (·.same dir)
  | .error _ => false

/-- A temporary file that holds the content. -/
def writeTempFile [MediaTypes] (dir : Option String) : Action LocalFile := do
  let type := (← get).around.source.contentType
  return .ofPath (← Scene.writeTemp dir type read)

/-- The file that a path names, if it is there. -/
def ownFile (path : String) : Action LocalFile := do
  let s ← get
  if s.disk.isFile (.ofText path) then return .ofText path
  else throw (.retrieval s.around.source.locator .noFile)

/-- A file that holds the content of a file: itself, unless another directory is asked for. -/
def writeTempOfFile [MediaTypes] (path : String) (dir : Option String) : Action LocalFile := do
  let d := (← get).disk
  match dir with
  | none     => ownFile path
  | some dir =>
    match d.absolute (.ofText dir) with
    | .error f      => throw (.temporary dir f)
    | .ok requested => if standsIn d path requested then ownFile path else writeTempFile (some dir)

/-- A file that holds the content. -/
def writeTemp [MediaTypes] (dir : Option String) : Action LocalFile := do
  let source := (← get).around.source
  match source with
  | .file path _ _ => writeTempOfFile path dir
  | .web ..        => throw (.retrieval source.locator .noWeb)
  | _              => writeTempFile dir

/-- Deletes the temporary files and forgets what is remembered. -/
def clean : Action Unit := Scene.invalidate

/-! ### Backends -/

/-- Whether a backend has content for the element; other sources have none there. -/
def exists? (backends : List Backend) : Source → Except ElementError Bool
  | .backend _ ref locator _ _ => (backends.getD ref .empty).exists? locator
  | _                          => .ok false

/-- Deletes the content from the backend, if that is allowed, and says whether there was any. -/
def delete : Action Bool := do
  let s ← get
  ensureWritable
  match s.around.source with
  | .backend _ ref locator _ _ =>
    let backends := s.around.backends
    match (backends.getD ref .empty).delete locator with
    | .ok (existed, b) =>
      modify fun s => { s with around.backends := backends.set ref b }
      Scene.invalidate
      return existed
    | .error e => throw e
  | _                          => return false

/-- A short description of a source in a backend. -/
def describe : Source → String
  | .backend name _ locator type readOnly =>
    "BackendElement \x7b backend: " ++ Text.quote name ++ ", locator: " ++ Text.quote locator ++
      ", content_type: " ++ Text.quoteOption type ++ s!", readonly: {readOnly} \x7d"
  | other => other.locator

end Element

end Depot
