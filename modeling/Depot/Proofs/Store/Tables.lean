import Depot.Proofs.Json.Compact
import Depot.Proofs.Json.Integers
import Depot.Store.Table
/-!
# Tables are read back

A table is read back from its written form exactly if no value in it is nested too deeply. The form
wraps each value in the list of entries and in its entry, so that a value may be two containers
less deep in a table than on its own.
-/

namespace Depot

open Json

/-! ### Keys -/

namespace Key

theorem byte?_number (b : UInt8) : byte? (.number (.ofUInt64 b.toUInt64)) = some b := by
  have hnat : (Value.number (.ofUInt64 b.toUInt64)).nat? = some b.toNat := by
    rw [Value.nat?, Number.nat?_ofUInt64, UInt8.toNat_toUInt64]
  unfold byte?
  rw [hnat]
  show (if b.toNat < 256 then some (UInt8.ofNat b.toNat) else none) = _
  rw [if_pos b.toNat_lt, UInt8.ofNat_toNat]

theorem mapM_byte? (bs : List UInt8) :
    (bs.map fun b => Value.number (.ofUInt64 b.toUInt64)).mapM byte? = some bs := by
  induction bs with
  | nil => rfl
  | cons b bs ih =>
    rw [List.map_cons, List.mapM_cons, byte?_number, ih]
    rfl

/-- A key is read back from its JSON form. -/
theorem ofJson?_toJson (k : Key) : ofJson? k.toJson = some k := by
  cases k with
  | int n =>
    show (Number.ofInt64 n).int64?.map int = _
    rw [Number.int64?_ofInt64]
    rfl
  | text s => rfl
  | bytes bs =>
    show ((bs.map fun b => Value.number (.ofUInt64 b.toUInt64)).mapM byte?).map bytes = _
    rw [mapM_byte?]
    rfl

theorem integral_bytes (bs : List UInt8) :
    Value.IntegralItems (bs.map fun b => Value.number (.ofUInt64 b.toUInt64)) := by
  induction bs with
  | nil => trivial
  | cons b bs ih => exact ⟨trivial, ih⟩

theorem legible_toJson (k : Key) : k.toJson.Legible := by
  apply Value.legible_of_integral
  cases k with
  | int n => exact ⟨trivial, trivial⟩
  | text s => exact ⟨trivial, trivial⟩
  | bytes bs => exact ⟨integral_bytes bs, trivial⟩

theorem depthItems_bytes (bs : List UInt8) :
    Value.depthItems (bs.map fun b => Value.number (.ofUInt64 b.toUInt64)) = 0 := by
  induction bs with
  | nil => rfl
  | cons b bs ih =>
    rw [List.map_cons, Value.depthItems, ih]
    rfl

theorem depth_toJson (k : Key) : k.toJson.depth ≤ 2 := by
  cases k with
  | int n => exact Nat.le_succ 1
  | text s => exact Nat.le_succ 1
  | bytes bs =>
    show max (Value.depthItems _ + 1) 0 + 1 ≤ 2
    rw [depthItems_bytes]
    exact Nat.le_refl 2

end Key

/-! ### Tables -/

namespace Table

variable {t : Table} {e : Key × Value} {es : List (Key × Value)}

/-- A value that has the form of every value there is: its members stand in key order, and the text
of its numbers gives them back. -/
structure Storable (v : Value) : Prop where
  ordered : v.Ordered
  legible : v.Legible

/-- How deeply a value in a table may be nested. -/
def maxDepth : Nat := 125

theorem storable_of_integral {v : Value} (ho : v.Ordered) (hi : v.Integral) : Storable v :=
  ⟨ho, Value.legible_of_integral v hi⟩

theorem entryOfJson?_entryToJson (h : e.2.Ordered) : entryOfJson? (entryToJson e) = some e := by
  show (Key.ofJson? e.1.toJson).map (fun k => (k, e.2.sorted)) = _
  rw [Key.ofJson?_toJson, Value.sorted_of_ordered _ h]
  rfl

theorem mapM_entryOfJson? (h : ∀ e ∈ es, e.2.Ordered) :
    (es.map entryToJson).mapM entryOfJson? = some es := by
  induction es with
  | nil => rfl
  | cons e es ih =>
    rw [List.map_cons, List.mapM_cons, entryOfJson?_entryToJson (h e List.mem_cons_self),
      ih fun e he => h e (List.mem_cons_of_mem _ he)]
    rfl

theorem legible_entries (h : ∀ e ∈ es, e.2.Legible) :
    Value.LegibleItems (es.map entryToJson) := by
  induction es with
  | nil => trivial
  | cons e es ih =>
    exact ⟨⟨e.1.legible_toJson, h e List.mem_cons_self, trivial⟩,
      ih fun e he => h e (List.mem_cons_of_mem _ he)⟩

/-- The entries of a table can be read if its values can be read two containers deeper. -/
theorem depth_entries : (Value.array (es.map entryToJson)).depth ≤ Reading.maxDepth ↔
    ∀ e ∈ es, e.2.depth ≤ maxDepth := by
  unfold Reading.maxDepth maxDepth
  rw [Value.depth]
  induction es with
  | nil => simp [Value.depthItems]
  | cons e es ih =>
    have hkey := e.1.depth_toJson
    have hentry : (entryToJson e).depth = max e.1.toJson.depth e.2.depth + 1 := by
      unfold entryToJson
      rw [Value.depth, Value.depthItems, Value.depthItems, Value.depthItems, Nat.max_zero]
    rw [List.map_cons, Value.depthItems, hentry, List.forall_mem_cons, ← ih]
    omega

theorem size_encode_ne_zero (t : Table) : t.encode.size ≠ 0 := by
  apply Value.size_text_ne_zero
  rw [Value.write]
  exact List.cons_ne_nil _ _

/-- A table is read back from its written form exactly if no value is nested too deeply. -/
theorem decode?_encode (h : ∀ e ∈ t.entries, Storable e.2) :
    decode? t.encode = if ∀ e ∈ t.entries, e.2.depth ≤ maxDepth then some t else none := by
  unfold decode? encode
  have hlegible : (Value.array (t.entries.map entryToJson)).Legible :=
    legible_entries fun e he => (h e he).legible
  rw [Value.verbatimBytes?_text hlegible]
  split
  · next hd =>
    rw [if_pos (depth_entries.1 hd)]
    show ((t.entries.map entryToJson).mapM entryOfJson?).bind _ = _
    rw [mapM_entryOfJson? fun e he => (h e he).ordered]
    exact congrArg some t.ofList_entries
  · next hd =>
    rw [if_neg (mt depth_entries.2 hd)]
    rfl

end Table

end Depot
