import Depot.Element.Error
import Depot.Key
/-!
# Faults of key-value stores
-/

namespace Depot

/-- Why the table of a store cannot be had. -/
inductive TableTrouble where
  | timeout
  /-- The content of the cache element is no table. -/
  | notTable
deriving DecidableEq

/-- The wording of a trouble. -/
def TableTrouble.message : TableTrouble → String
  | .timeout  => "timeout"
  | .notTable =>
    "cache element does not hold a key-value table: not a JSON list of keys and values"

/-- Why an operation on a store fails. -/
inductive StoreError where
  | keyNotFound (key : Key)
  | readOnly (store : String)
  /-- The table cannot be had. -/
  | table (store : String) (trouble : TableTrouble)
  /-- The cache element fails. -/
  | element (e : ElementError)
deriving DecidableEq

/-- The wording of a fault. -/
def StoreError.message : StoreError → String
  | .keyNotFound k => "key not found: " ++ k.display
  | .readOnly s    => s ++ " is read-only"
  | .table s t     => s ++ " backend error: " ++ t.message
  | .element e     => e.message

end Depot
