/-!
# Faults of the disk

Why an operation on the disk fails, and how the fault is worded.
-/

namespace Depot.Disk

/-- Why an operation on the disk fails. -/
inductive Fault where
  | notFound
  | busy
  | alreadyExists
  | notDirectory
  | isDirectory
  | nameTooLong
  | tooManyLinks
  /-- A name holds the NUL character. -/
  | nulInName
  /-- The content read as text is not UTF-8. -/
  | notText
  /-- An empty path was to be made absolute. -/
  | emptyPath
deriving DecidableEq, Repr

/-- The wording of a fault. -/
def Fault.message : Fault → String
  | .notFound      => "No such file or directory (os error 2)"
  | .busy          => "Device or resource busy (os error 16)"
  | .alreadyExists => "File exists (os error 17)"
  | .notDirectory  => "Not a directory (os error 20)"
  | .isDirectory   => "Is a directory (os error 21)"
  | .nameTooLong   => "File name too long (os error 36)"
  | .tooManyLinks  => "Too many levels of symbolic links (os error 40)"
  | .nulInName     => "file name contained an unexpected NUL byte"
  | .notText       => "stream did not contain valid UTF-8"
  | .emptyPath     => "cannot make an empty path absolute"

end Depot.Disk
