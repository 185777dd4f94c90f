import Depot.MediaType
import Depot.Text.Basic
/-!
# Common media types

The media types that files usually have. Less common ones are not known.
-/

namespace Depot.MediaTypes

/-- Media types by extension. -/
def extensionTable : List (String × String) :=
  [("txt", "text/plain"), ("c", "text/plain"), ("gif", "image/gif"), ("css", "text/css"),
   ("pdf", "application/pdf"), ("tar", "application/x-tar"), ("svg", "image/svg+xml"),
   ("mp4", "video/mp4"), ("toml", "text/x-toml"), ("ico", "image/x-icon"),
   ("wasm", "application/wasm"), ("png", "image/png"), ("json", "application/json"),
   ("js", "text/javascript"), ("zip", "application/zip"), ("csv", "text/csv"),
   ("webp", "image/webp"), ("wav", "audio/wav"), ("yaml", "text/x-yaml"), ("bmp", "image/bmp"),
   ("mov", "video/quicktime"), ("jpg", "image/jpeg"), ("jpeg", "image/jpeg"),
   ("jpe", "image/jpeg"), ("jfif", "image/jpeg"), ("html", "text/html"), ("htm", "text/html"),
   ("xml", "text/xml"), ("gz", "application/gzip"), ("md", "text/markdown"),
   ("mp3", "audio/mpeg"), ("bin", "application/octet-stream"), ("rs", "text/x-rust"),
   ("tif", "image/tiff"), ("tiff", "image/tiff")]

/-- Extensions by media type. A star stands for every type of its kind. -/
def typeTable : List (String × List String) :=
  [("text/plain", ["asm"]), ("image/png", ["png"]),
   ("image/jpeg", ["jfif", "jpe", "jpeg", "jpg"]), ("image/*", ["jpg"]),
   ("text/*", ["appcache"]), ("audio/*", ["aac"]), ("application/json", ["json"]),
   ("image/gif", ["gif"]), ("application/pdf", ["pdf"]), ("text/html", ["htm"]),
   ("text/css", ["css"]), ("application/zip", ["zip"]), ("image/svg+xml", ["svg"]),
   ("audio/mpeg", ["m2a"]), ("video/mp4", ["mp4"]), ("text/csv", ["csv"]),
   ("image/tiff", ["tif"]), ("application/octet-stream", ["aaf"]), ("image/webp", ["webp"]),
   ("application/xml", ["asa"]), ("video/quicktime", ["mov"]), ("application/gzip", ["gz"]),
   ("text/markdown", ["markdown"]), ("application/wasm", ["wasm"]), ("image/bmp", ["bmp"]),
   ("image/x-icon", ["ico"])]

/-- Letters of the ASCII alphabet in lower case. -/
def lower (cs : List Char) : List Char := cs.map Char.toLower

/-- Case does not matter, nor do blanks around a media type and what follows a semicolon in it. A
star before the slash stands for any type. -/
scoped instance common : MediaTypes where
  ofExtension? e := extensionTable.lookup (.ofList (lower e.toList))
  extensions? type :=
    let cs := lower ((Text.trim type.toList).takeWhile (· ≠ ';'))
    if ['*', '/'].isPrefixOf cs then some ["jpg"] else typeTable.lookup (.ofList cs)

end Depot.MediaTypes
