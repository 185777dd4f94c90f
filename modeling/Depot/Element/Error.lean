import Depot.Disk.Fault
import Depot.Text.Base64
import Depot.Text.Quoted
/-!
# Faults of elements

Why an operation on an element fails, and why an address names none.
-/

namespace Depot

/-- Why content cannot be read or written. -/
inductive Trouble where
  | disk (fault : Disk.Fault)
  /-- Nothing is stored under the locator. -/
  | noContent
  /-- There is no file to hand out. -/
  | noFile
  /-- Web addresses cannot be fetched. -/
  | noWeb
  /-- A reason in other words. -/
  | other (reason : String)
deriving DecidableEq

/-- The wording of a trouble. -/
def Trouble.message : Trouble → String
  | .disk f  => f.message
  | .noContent => "no content at locator"
  | .noFile    => "file does not exist"
  | .noWeb     => "HTTP support not compiled in (enable the \x60http\x60 feature)"
  | .other s   => s

/-- Why an address names no element. -/
inductive AddressFlaw where
  | emptyBase64
  | base64 (e : Base64.Error)
  | dataNotBase64
  | malformedData
  | notInline
  | notFile
  | relativePath
  | notWeb
  | missingHost
  | blank
  /-- No resolver accepts it, each for its own reason. -/
  | refused (reasons : List (String × String))
deriving DecidableEq

/-- The wording of a flaw. -/
def AddressFlaw.message : AddressFlaw → String
  | .emptyBase64   => "no base64 data after scheme"
  | .base64 e      => e.message
  | .dataNotBase64 => "data URI is not base64 encoded"
  | .malformedData => "malformed data URI"
  | .notInline     => "not a base64:// or data: URI"
  | .notFile       => "not a file:// URI"
  | .relativePath  => "file URIs require an absolute path"
  | .notWeb        => "not an http:// or https:// URI"
  | .missingHost   => "missing host"
  | .blank         => "whitespace in address"
  | .refused []    => "no resolvers available"
  | .refused rs    => "; ".intercalate (rs.map fun (name, reason) => name ++ ": " ++ reason)

/-- Why an operation on an element fails. -/
inductive ElementError where
  /-- The content cannot be had. -/
  | retrieval (locator : String) (trouble : Trouble)
  /-- The content cannot be written. -/
  | store (locator : String) (trouble : Trouble)
  | readOnly (locator : String)
  | invalidAddress (address : String) (flaw : AddressFlaw)
  /-- The content type is not among those accepted. -/
  | invalidContentType (locator : String) (found : Option String) (accepted : List String)
  /-- A temporary file cannot be made. -/
  | temporary (path : String) (fault : Disk.Fault)
deriving DecidableEq

/-- The wording of a fault. -/
def ElementError.message : ElementError → String
  | .retrieval l t            => "failed to retrieve " ++ l ++ ": " ++ t.message
  | .store l t                => "failed to store " ++ l ++ ": " ++ t.message
  | .readOnly l               => l ++ " is read-only"
  | .invalidAddress a flaw    => "invalid URI " ++ Text.quote a ++ ": " ++ flaw.message
  | .invalidContentType l f a =>
    l ++ " has content type " ++ Text.quoteOption f ++ "; expected one of " ++ Text.quoteList a
  | .temporary p f            => "temporary file " ++ p ++ ": " ++ f.message

end Depot
