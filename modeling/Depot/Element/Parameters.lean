import Depot.Element.Address
/-!
# Sources from parameters

How each kind of source is built from an object of parameters, and the parameters it has unless
others are given.
-/

namespace Depot

open Json

/-- Byte backends by the name that configurations give them. -/
abbrev BackendNames := Dict String BackendRef

/-- Why parameters build no source. -/
inductive ParameterError where
  /-- A value is neither a text nor null. -/
  | notText (key : String) (found : Value)
  /-- Content is given neither as a text nor as null. -/
  | contentNotText (found : Value)
  | base64 (e : Base64.Error)
  /-- A parameter that must be there is missing, null or empty. -/
  | required (key : String)
  /-- A value is no natural number below 2^64. -/
  | notCount (key : String)
  /-- No backend has the name. -/
  | unknownBackend (name : String)
  /-- A web address is malformed. -/
  | address (e : ElementError)

/-- What a backend is called where one is missing. -/
def backendType : String := "alloc::sync::Arc<dyn dataprov_element::backend::ByteBackend>"

/-- The wording of a fault. -/
def ParameterError.message : ParameterError → String
  | .notText k v        => Text.quote k ++ " must be a string or null, got " ++ v.text
  | .contentNotText v   => "\"bytes\" must be base64 text or null, got " ++ v.text
  | .base64 e           => e.message
  | .required k         => Text.quote k ++ " is required"
  | .notCount k         => Text.quote k ++ " must be a non-negative integer"
  | .unknownBackend n   => (ConfigError.missingCollaborator backendType n).message
  | .address e          => e.message

namespace Parameters

/-- A text that may be missing or null. -/
def text? (o : Object) (key : String) : Except ParameterError (Option String) :=
  match Assoc.get? key o with
  | none | some .null => .ok none
  | some (.string s)  => .ok (some s)
  | some other        => .error (.notText key other)

/-- A text that must be there and hold something. -/
def fullText (o : Object) (key : String) : Except ParameterError String := do
  match ← text? o key with
  | some s => if s = "" then throw (.required key) else return s
  | none   => throw (.required key)

/-- A truth value; anything else means no. -/
def flag (o : Object) (key : String) : Bool := ((Assoc.get? key o).bind Value.bool?).getD false

/-- Content in base64; nothing if it is missing or null. -/
def content (o : Object) (key : String) : Except ParameterError Bytes :=
  match Assoc.get? key o with
  | none | some .null => .ok .empty
  | some (.string s)  => (Source.readBase64 s.toList).mapError .base64
  | some other        => .error (.contentNotText other)

/-- A number of seconds; the default if it is missing or null. -/
def seconds (o : Object) (key : String) (default : UInt64) : Except ParameterError UInt64 :=
  match Assoc.get? key o with
  | none | some .null => .ok default
  | some v            =>
    match v.nat? with
    | some n => .ok (.ofNat n)
    | none   => .error (.notCount key)

end Parameters

namespace Source

open Parameters

/-- The name of the backend that is there without being asked for. -/
def defaultBackend : String := "memory"

/-! ### Defaults -/

/-- Parameters of a source in memory. -/
def memoryDefaults : Object :=
  [("bytes", .null), ("content_type", .null), ("readonly", .bool false)]

/-- Parameters of a source in a file. -/
def fileDefaults : Object :=
  [("explicit_mimetype", .null), ("filepath", .null), ("readonly", .bool false)]

/-- Parameters of a source in a backend. -/
def backendDefaults : Object :=
  [("backend", .string defaultBackend), ("content_type", .null), ("locator", .null),
   ("readonly", .bool false)]

/-- Parameters of a source at a web address. -/
def webDefaults : Object :=
  [("timeout_secs", .number (.ofUInt64 defaultTimeout)), ("url_address", .null)]

/-! ### Building -/

/-- Builds a source in memory. -/
def memoryOfConfig (o : Object) : Except ParameterError Source := do
  let content ← Parameters.content o "bytes"
  let type ← text? o "content_type"
  return .memory content type (flag o "readonly")

/-- Builds a source in a file. -/
def fileOfConfig (o : Object) : Except ParameterError Source := do
  let path ← fullText o "filepath"
  let type ← text? o "explicit_mimetype"
  return .file path type (flag o "readonly")

/-- Builds a source in a backend. -/
def backendOfConfig (backends : BackendNames) (o : Object) : Except ParameterError Source := do
  let name := (← text? o "backend").getD defaultBackend
  let locator ← fullText o "locator"
  match backends.get? name with
  | none     => throw (.unknownBackend name)
  | some ref =>
    let type ← text? o "content_type"
    return .backend name ref locator type (flag o "readonly")

/-- Builds a source at a web address. -/
def webOfConfig (o : Object) : Except ParameterError Source := do
  match ← text? o "url_address" with
  | none         => throw (.required "url_address")
  | some address =>
    let timeout ← seconds o "timeout_secs" defaultTimeout
    match ofWebAddress address with
    | .ok (.web full _) => return .web full timeout
    | .ok other         => return other
    | .error e          => throw (.address e)

end Source

end Depot
