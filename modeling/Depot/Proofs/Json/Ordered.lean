import Depot.Json.Value
import Depot.Proofs.FiniteMap
/-!
# Members in key order

Sorting brings the members of every object into key order, and leaves alone what is in key order
already. So it can be decided of a value whether all its members stand in key order.
-/

namespace Depot.Json

namespace Value

variable {v : Value} {vs : List Value} {ms : List (String × Value)}

theorem orderedItems_iff : OrderedItems vs ↔ ∀ v ∈ vs, v.Ordered := by
  induction vs with
  | nil => simp [OrderedItems]
  | cons v vs ih => simp [OrderedItems, ih]

theorem orderedMembers_iff : OrderedMembers ms ↔ ∀ m ∈ ms, m.2.Ordered := by
  induction ms with
  | nil => simp [OrderedMembers]
  | cons m ms ih => simp [OrderedMembers, ih]

mutual

/-- Members in key order stay where they are. -/
theorem sorted_of_ordered (v : Value) (h : v.Ordered) : v.sorted = v := by
  match v with
  | .null | .bool _ | .number _ | .string _ => rfl
  | .array items => rw [sorted, sortedItems_of_ordered items h]
  | .object members =>
    rw [sorted, sortedMembers_of_ordered members h.2, Assoc.ofEntries_of_ordered h.1]

theorem sortedItems_of_ordered (vs : List Value) (h : OrderedItems vs) : sortedItems vs = vs := by
  match vs with
  | [] => rfl
  | v :: vs => rw [sortedItems, sorted_of_ordered v h.1, sortedItems_of_ordered vs h.2]

theorem sortedMembers_of_ordered (ms : List (String × Value)) (h : OrderedMembers ms) :
    sortedMembers ms = ms := by
  match ms with
  | [] => rfl
  | (k, v) :: ms => rw [sortedMembers, sorted_of_ordered v h.1, sortedMembers_of_ordered ms h.2]

end

mutual

/-- Sorting brings all members into key order. -/
theorem ordered_sorted (v : Value) : v.sorted.Ordered := by
  match v with
  | .null | .bool _ | .number _ | .string _ => trivial
  | .array items => exact orderedItems_sorted items
  | .object members =>
    constructor
    · exact Assoc.ordered_insertAll Assoc.ordered_nil
    · rw [orderedMembers_iff]
      intro m hm
      exact orderedMembers_iff.1 (orderedMembers_sorted members) m (Assoc.mem_of_mem_ofEntries hm)

theorem orderedItems_sorted (vs : List Value) : OrderedItems (sortedItems vs) := by
  match vs with
  | [] => trivial
  | v :: vs => exact ⟨ordered_sorted v, orderedItems_sorted vs⟩

theorem orderedMembers_sorted (ms : List (String × Value)) :
    OrderedMembers (sortedMembers ms) := by
  match ms with
  | [] => trivial
  | (_, v) :: ms => exact ⟨ordered_sorted v, orderedMembers_sorted ms⟩

end

/-- The members of a value stand in key order exactly if sorting changes nothing. -/
theorem sorted_eq_self_iff : v.sorted = v ↔ v.Ordered := by
  constructor
  · intro h
    rw [← h]
    exact ordered_sorted v
  · exact sorted_of_ordered v

instance : DecidablePred Ordered := fun _ => decidable_of_iff _ sorted_eq_self_iff

end Value

instance : DecidablePred Object.Ordered :=
  fun o => inferInstanceAs (Decidable (Value.object o).Ordered)

end Depot.Json
