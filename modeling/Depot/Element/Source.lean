import Depot.Disk.Basic
import Depot.Element.Backend
import Depot.MediaType
import Depot.Plugin.Descriptor
/-!
# Sources of content

Where the content of an element lives: in memory, in a file, in a byte backend under a locator, or
at a web address. A source knows what it is called, what type its content has, whether it may be
written, and the parameters it can be rebuilt from.
-/

namespace Depot

open Json

/-- Where content lives. -/
inductive Source where
  /-- In memory. -/
  | memory (content : Bytes) (contentType : Option String) (readOnly : Bool)
  /-- In a file; a content type given here wins over the one its name suggests. -/
  | file (path : String) (contentType : Option String) (readOnly : Bool)
  /-- In a backend, known by a name, under a locator. -/
  | backend (name : String) (ref : BackendRef) (locator : String) (contentType : Option String)
      (readOnly : Bool)
  /-- At a web address, to be fetched within so many seconds. -/
  | web (address : String) (timeout : UInt64)
deriving DecidableEq

namespace Source

/-- Nothing, in memory. -/
instance : Inhabited Source := ⟨.memory .empty none false⟩

/-! ### Names -/

/-- The implementation that keeps content in memory. -/
def memoryName : String := "MemoryElement"

/-- The implementation that keeps content in a file. -/
def fileName : String := "FileElement"

/-- The implementation that keeps content in a backend. -/
def backendName : String := "BackendElement"

/-- The implementation that fetches content. -/
def webName : String := "UrlElement"

/-! ### Views -/

/-- The name of the implementation. -/
def pluginName : Source → String
  | memory ..  => memoryName
  | file ..    => fileName
  | backend .. => backendName
  | web ..     => webName

/-- What the source is called in messages. -/
def locator : Source → String
  | memory content _ _       => s!"MemoryElement({content.size} bytes)"
  | file path _ _            => "file " ++ path
  | backend name _ locator .. => name ++ ":" ++ locator
  | web address _            => address

/-- The media type of the content, if it is known. -/
def contentType [MediaTypes] : Source → Option String
  | memory _ type _        => type
  | file path type _       => type.or (MediaType.ofPath? (.ofText path))
  | backend _ _ _ type _   => type
  | web ..                 => none

/-- Whether the content may be replaced. -/
def writable : Source → Bool
  | memory _ _ readOnly      => !readOnly
  | file _ _ readOnly        => !readOnly
  | backend _ _ _ _ readOnly => !readOnly
  | web ..                   => false

/-- The parameters that the source can be rebuilt from. Only a source in memory holds its
content. -/
def config : Source → Object
  | memory content type readOnly       =>
    [("bytes", .string (.ofList (Base64.encode content.toList))),
     ("content_type", .ofOption type), ("readonly", .bool readOnly)]
  | file path type readOnly            =>
    [("explicit_mimetype", .ofOption type), ("filepath", .string path),
     ("readonly", .bool readOnly)]
  | backend name _ locator type readOnly =>
    [("backend", .string name), ("content_type", .ofOption type), ("locator", .string locator),
     ("readonly", .bool readOnly)]
  | web address timeout                =>
    [("timeout_secs", .number (.ofUInt64 timeout)), ("url_address", .string address)]

/-- The descriptor that rebuilds the source. -/
def descriptor (s : Source) : Descriptor := .selecting s.pluginName s.config

/-! ### Content -/

/-- The content, as the disk and the backends have it. -/
def content (d : Disk) (backends : List Backend) (s : Source) : Except ElementError Bytes :=
  match s with
  | memory content _ _        => .ok content
  | file path _ _             =>
    (d.contentAt (.ofText path)).mapError fun f => .retrieval s.locator (.disk f)
  | backend _ ref locator _ _ =>
    match (backends.getD ref .empty).read locator with
    | .ok (some content) => .ok content
    | .ok none           => .error (.retrieval s.locator .noContent)
    | .error e           => .error e
  | web ..                    => .error (.retrieval s.locator .noWeb)

/-! ### Accepted types -/

/-- Whether the type of the content is known and among those accepted. -/
def hasType [MediaTypes] (s : Source) (accepted : List String) : Bool :=
  match s.contentType with
  | some type => accepted.contains type
  | none      => false

/-- Fails unless the type of the content is known and among those accepted. -/
def checkType [MediaTypes] (s : Source) (accepted : List String) : Except ElementError Unit :=
  if s.hasType accepted then .ok ()
  else .error (.invalidContentType s.locator s.contentType accepted)

end Source

end Depot
