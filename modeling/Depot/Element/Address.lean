import Depot.Element.Source
import Depot.Text.Basic
/-!
# Addresses of elements

An address names an element by a text: content written out in base64, a file, or a web page. Each
kind has its own form; a list of resolvers is asked in order, and the first that accepts an address
decides.
-/

namespace Depot

open Text

namespace Source

/-! ### Content in memory -/

/-- What comes before content written out in base64. -/
def base64Scheme : List Char := "base64://".toList

/-- What comes before a media type and content. -/
def dataScheme : List Char := "data:".toList

/-- What stands between a media type and content written out in base64. -/
def base64Marker : List Char := ";base64,".toList

/-- The standard symbol that a symbol of the alphabet for addresses stands for. -/
def standardSymbol (c : Char) : Char := if c = '-' then '+' else if c = '_' then '/' else c

/-- Reads base64 in the standard alphabet, the one for addresses, or both mixed; blanks around it
do not matter. -/
def readBase64 (cs : List Char) : Except Base64.Error Bytes :=
  (Base64.decode (Text.utf8 ((Text.trim cs).map standardSymbol))).map fun bytes => ⟨bytes.toArray⟩

/-- A text of letters, digits and the marks of media types. -/
def isTypeLike (cs : List Char) : Bool :=
  cs ≠ [] && cs.all fun c => c.isAlphanum || ['/', '_', '-', '+', '.'].contains c

/-- Content in memory: nothing, `base64://` and content, or `data:`, a media type, `;base64,` and
content. -/
def ofInlineAddress (address : String) : Except ElementError Source :=
  let cs := address.toList
  let refuse (flaw : AddressFlaw) := Except.error (.invalidAddress address flaw)
  if cs = [] then
    .ok (.memory .empty none false)
  else
    match afterFront base64Scheme cs with
    | some encoded =>
      if encoded = [] then refuse .emptyBase64
      else
        match readBase64 encoded with
        | .ok content => .ok (.memory content none false)
        | .error e    => refuse (.base64 e)
    | none =>
      match afterFront dataScheme cs with
      | none      => refuse .notInline
      | some rest =>
        match splitAtMark base64Marker rest with
        | none                 => refuse .dataNotBase64
        | some (type, encoded) =>
          if isTypeLike type = false ∨ encoded = [] then refuse .malformedData
          else
            match readBase64 encoded with
            | .ok content => .ok (.memory content (some (.ofList type)) false)
            | .error e    => refuse (.base64 e)

/-! ### Files -/

/-- What comes before the path of a file. -/
def fileScheme : List Char := "file://".toList

/-- A file: `file://` and an absolute path. -/
def ofFileAddress (address : String) : Except ElementError Source :=
  match afterFront fileScheme address.toList with
  | none      => .error (.invalidAddress address .notFile)
  | some path =>
    if path.head? = some '/' then .ok (.file (.ofList path) none false)
    else .error (.invalidAddress address .relativePath)

/-! ### Web pages -/

/-- What comes before a plain web address. -/
def httpScheme : List Char := "http://".toList

/-- What comes before a secure web address. -/
def httpsScheme : List Char := "https://".toList

/-- Seconds to wait for a web page. -/
def defaultTimeout : UInt64 := 30

/-- What follows the scheme of a web address. -/
def afterWebScheme (cs : List Char) : Option (List Char) :=
  (afterFront httpsScheme cs).or (afterFront httpScheme cs)

/-- Whether a character ends the host in a web address. -/
def endsHost (c : Char) : Bool := ['/', '?', '#'].contains c

/-- A web page at an address with a scheme; it needs a host, and no blank may stand anywhere. -/
def ofFullWebAddress (address : String) : Except ElementError Source :=
  let rest := (afterWebScheme address.toList).getD address.toList
  if rest.takeWhile (fun c => !endsHost c) = [] then
    .error (.invalidAddress address .missingHost)
  else if address.toList.any Text.isBlank then
    .error (.invalidAddress address .blank)
  else
    .ok (.web address defaultTimeout)

/-- A web page; without a scheme the plain one is meant. -/
def ofWebAddress (address : String) : Except ElementError Source :=
  if (afterWebScheme address.toList).isSome then ofFullWebAddress address
  else ofFullWebAddress (.ofList (httpScheme ++ address.toList))

/-- A web page whose scheme is given. -/
def ofSchemedWebAddress (address : String) : Except ElementError Source :=
  if (afterWebScheme address.toList).isSome then ofWebAddress address
  else .error (.invalidAddress address .notWeb)

end Source

/-! ### Resolvers -/

/-- One way of reading addresses. -/
structure Resolver where
  name : String
  read : String → Except ElementError Source

namespace Resolver

/-- Content in memory. -/
def memory : Resolver := ⟨Source.memoryName, Source.ofInlineAddress⟩

/-- Files. -/
def file : Resolver := ⟨Source.fileName, Source.ofFileAddress⟩

/-- Web pages. -/
def web : Resolver := ⟨Source.webName, Source.ofSchemedWebAddress⟩

/-- The resolvers asked unless others are given. Web pages cannot be fetched, so they are left
out. -/
def builtin : List Resolver := [memory, file]

/-- Asks resolvers in order, with the reasons of those that have refused the address so far. A
fault that is no refusal ends the search. -/
def resolveFrom (address : String) (reasons : List (String × String)) :
    List Resolver → Except ElementError Source
  | []      => .error (.invalidAddress address (.refused reasons))
  | r :: rs =>
    match r.read address with
    | .ok s                           => .ok s
    | .error (.invalidAddress _ flaw) =>
      resolveFrom address (reasons ++ [(r.name, flaw.message)]) rs
    | .error e                        => .error e

/-- Asks resolvers in order; the first to accept the address decides. -/
def resolve (resolvers : List Resolver) (address : String) : Except ElementError Source :=
  resolveFrom address [] resolvers

end Resolver

end Depot
