import Depot.Plugin.Error
import Depot.Store.Error
import Depot.Checksum
/-!
# Faults of data sets
-/

namespace Depot

/-- What is wrong with the storage of a data set. -/
inductive StorageTrouble where
  /-- The number of pieces a digest is split into is out of range. -/
  | chunkOutOfRange (chunk : Nat)
  /-- A digest is too short for its pieces. -/
  | cannotSplit (digest : String) (chunk : Nat)
  /-- A file holds no JSON object. -/
  | fileNotObject
  /-- A file holds an object that is no descriptor. -/
  | fileNotDescriptor (e : ConfigError)
  /-- The content of the cache element is no JSON object. -/
  | notTable
  /-- An entry is an object that is no descriptor. -/
  | malformedEntry (key : ElementKey) (e : ConfigError)
  /-- An entry of the cache element is no object. -/
  | entryNotObject (key : ElementKey) (found : Json.Value)
  /-- A value in the store is no object. -/
  | valueNotObject (key : ElementKey) (found : Json.Value)

/-- The wording of a trouble. -/
def StorageTrouble.message : StorageTrouble → String
  | .chunkOutOfRange n   => s!"sha1_chunk must be between 1 and 40, got {n}"
  | .cannotSplit d n     => s!"cannot split digest {d} into {n} segments"
  | .fileNotObject       => "not a descriptor: not a JSON object"
  | .fileNotDescriptor e => e.message
  | .notTable            => "cache element does not hold a data set table: not a JSON object"
  | .malformedEntry k e  => "entry " ++ k ++ ": " ++ e.message
  | .entryNotObject k v  => "entry " ++ k ++ ": expected a descriptor, got " ++ v.text
  | .valueNotObject k v  => "entry " ++ k ++ " is not a descriptor: " ++ v.text

/-- Why an operation on a data set fails. -/
inductive SetError where
  | keyNotFound (key : ElementKey)
  | readOnly (set : String)
  | storage (set : String) (trouble : StorageTrouble)
  /-- A file with a descriptor, or a directory for such files, cannot be read or written. -/
  | io (path : String) (fault : Disk.Fault)
  | element (e : ElementError)
  | store (e : StoreError)
  /-- A descriptor cannot be turned into an element. -/
  | plugin (e : PluginError)

/-- The wording of a fault. -/
def SetError.message : SetError → String
  | .keyNotFound k => "no element with key " ++ k
  | .readOnly s    => s ++ " is read-only"
  | .storage s t   => s ++ " storage error: " ++ t.message
  | .io p f        => p ++ ": " ++ f.message
  | .element e     => e.message
  | .store e       => e.message
  | .plugin e      => e.message

end Depot
