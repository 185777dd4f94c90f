import Depot.Assoc
/-!
# Finite maps

A `Dict` is a finite map held as its entries in ascending key order. Two maps with the same
look-ups are equal.
-/

namespace Depot

universe u v

/-- A finite map: its entries, with strictly ascending keys. -/
structure Dict (κ : Type u) (ν : Type v) [Ord κ] where
  /-- The entries in key order. -/
  entries : List (κ × ν)
  /-- The keys ascend strictly, so no key occurs twice. -/
  ordered : Assoc.Ordered entries := by exact Assoc.ordered_nil

namespace Dict

variable {κ : Type u} {ν : Type v} [Ord κ]

instance [DecidableEq κ] [DecidableEq ν] : DecidableEq (Dict κ ν) := fun a b =>
  if h : a.entries = b.entries then
    .isTrue (by cases a; cases b; simp_all)
  else
    .isFalse fun hab => h (hab ▸ rfl)

/-- The map without entries. -/
def empty : Dict κ ν := { entries := [] }

instance : EmptyCollection (Dict κ ν) := ⟨empty⟩
instance : Inhabited (Dict κ ν) := ⟨empty⟩

/-- The value under a key. -/
def get? (d : Dict κ ν) (k : κ) : Option ν := Assoc.get? k d.entries

/-- Whether a key has a value. -/
def contains (d : Dict κ ν) (k : κ) : Bool := (d.get? k).isSome

/-- Number of entries. -/
def size (d : Dict κ ν) : Nat := d.entries.length

/-- The keys, ascending. -/
def keys (d : Dict κ ν) : List κ := d.entries.map (·.1)

/-- The values, in the order of their keys. -/
def values (d : Dict κ ν) : List ν := d.entries.map (·.2)

/-- Drops the entry under a key, if there is one. -/
def erase (d : Dict κ ν) (k : κ) : Dict κ ν where
  entries := Assoc.erase k d.entries
  ordered := Assoc.ordered_erase d.ordered

/-- The entries that satisfy `p`. -/
def filter (p : κ → ν → Bool) (d : Dict κ ν) : Dict κ ν where
  entries := d.entries.filter fun e => p e.1 e.2
  ordered := d.ordered.sublist List.filter_sublist

variable [Std.TransOrd κ] [Std.LawfulEqOrd κ]

/-- Sets the value under a key. -/
def insert (d : Dict κ ν) (k : κ) (v : ν) : Dict κ ν where
  entries := Assoc.insert k v d.entries
  ordered := Assoc.ordered_insert d.ordered

/-- Sets several values from left to right: of two under one key the later one stays. -/
def insertAll (d : Dict κ ν) (new : List (κ × ν)) : Dict κ ν where
  entries := Assoc.insertAll d.entries new
  ordered := Assoc.ordered_insertAll d.ordered

/-- The map of a list of entries in any order; the last entry under a key stays. -/
def ofList (kvs : List (κ × ν)) : Dict κ ν := (empty : Dict κ ν).insertAll kvs

/-! ### Look-ups -/

variable [DecidableEq κ] {d : Dict κ ν} {k k' : κ} {v : ν}

omit [Std.TransOrd κ] [Std.LawfulEqOrd κ] [DecidableEq κ] in
@[simp] theorem get?_empty : (empty : Dict κ ν).get? k = none := rfl

theorem get?_insert : (d.insert k v).get? k' = if k' = k then some v else d.get? k' :=
  Assoc.get?_insert

omit [Std.TransOrd κ] in
theorem get?_erase : (d.erase k).get? k' = if k' = k then none else d.get? k' :=
  Assoc.get?_erase

end Dict

end Depot
