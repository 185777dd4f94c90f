import Depot.Disk.Path
/-!
# Media types

Which media type the extension of a file name stands for, and which extensions there are for a media
type, is for a library to say. Files with content of a media type are given a suffix by it.
-/

namespace Depot

/-- What is known of media types. -/
class MediaTypes where
  /-- The media type of files with an extension. -/
  ofExtension? : String → Option String
  /-- The extensions of files of a media type. -/
  extensions? : String → Option (List String)

namespace MediaType

variable [MediaTypes]

/-- The media type that the name of a file suggests. -/
def ofPath? (p : Disk.Path) : Option String := p.extension?.bind MediaTypes.ofExtension?

/-- The extensions that files with pictures of one kind may have. -/
def jpegExtensions : List String := ["jpg", "jpe", "jfif"]

/-- The suffix for content of a media type: of its extensions the first, but the most common one for
pictures that may have several; none for an unknown type. -/
def suffix (type : String) : String :=
  match MediaTypes.extensions? type with
  | none    => ""
  | some es =>
    if es.any jpegExtensions.contains then ".jpg"
    else
      match es.head? with
      | some e => "." ++ e
      | none   => ""

end MediaType

end Depot
