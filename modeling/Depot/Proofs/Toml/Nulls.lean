import Depot.Proofs.Config.FlatForms
import Depot.Toml.Printer
/-!
# Dropping nulls

A value from which nulls have been dropped has at every path what the value has there, if members
that are null are overlooked. Nulls among the items of an array stay.
-/

namespace Depot

open Json

namespace Json.Value

/-! ### Paths -/

/-- A step into a value: to the member under a key, or to an item. -/
inductive Step where
  | key (k : String)
  | item (i : Nat)

/-- What stands at the end of a path into a value. -/
def at? : List Step → Value → Option Value
  | [], v                  => some v
  | .key k :: p, .object o => (Assoc.get? k o).bind (at? p)
  | .item i :: p, .array vs => vs[i]?.bind (at? p)
  | _ :: _, _              => none

/-- What stands at the end of a path, if members that are null are overlooked. -/
def atNonNull? : List Step → Value → Option Value
  | [], v                  => some v
  | .key k :: p, .object o => ((Assoc.get? k o).filter (· ≠ .null)).bind (atNonNull? p)
  | .item i :: p, .array vs => vs[i]?.bind (atNonNull? p)
  | _ :: _, _              => none

/-- A value without what stands inside it. -/
def outline : Value → Value
  | .array _  => .array []
  | .object _ => .object []
  | v         => v

/-- `w` is `v` without the members that are null, at every depth. -/
def SameButNulls (v w : Value) : Prop :=
  ∀ p, (at? p w).map outline = (atNonNull? p v).map outline

end Json.Value

namespace Toml

open Json.Value

variable {v : Value} {o : Object} {k : String}

/-! ### Members and items -/

theorem dropNullMembers_cons (k : String) (v : Value) (o : Object) :
    dropNullMembers ((k, v) :: o) =
      if v = .null then dropNullMembers o else (k, dropNulls v) :: dropNullMembers o := by
  cases v <;> rfl

theorem dropNullItems_eq (vs : List Value) : dropNullItems vs = vs.map dropNulls := by
  induction vs with
  | nil => rfl
  | cons v vs ih => rw [dropNullItems, ih, List.map_cons]

theorem mem_dropNullMembers {m : String × Value} (h : m ∈ dropNullMembers o) :
    ∃ v, (m.1, v) ∈ o ∧ m.2 = dropNulls v := by
  induction o with
  | nil => cases h
  | cons m' o ih =>
    obtain ⟨k, v⟩ := m'
    rw [dropNullMembers_cons] at h
    split at h
    · obtain ⟨v', hm, hv'⟩ := ih h
      exact ⟨v', List.mem_cons_of_mem _ hm, hv'⟩
    · rcases List.mem_cons.1 h with rfl | h
      · exact ⟨v, List.mem_cons_self, rfl⟩
      · obtain ⟨v', hm, hv'⟩ := ih h
        exact ⟨v', List.mem_cons_of_mem _ hm, hv'⟩

theorem ordered_dropNullMembers (ho : Assoc.Ordered o) : Assoc.Ordered (dropNullMembers o) := by
  induction o with
  | nil => exact ho
  | cons m o ih =>
    obtain ⟨k, v⟩ := m
    obtain ⟨hlt, ho⟩ := Assoc.ordered_cons.1 ho
    rw [dropNullMembers_cons]
    split
    · exact ih ho
    · refine Assoc.ordered_cons.2 ⟨fun m hm => ?_, ih ho⟩
      obtain ⟨v', hm', -⟩ := mem_dropNullMembers hm
      exact hlt (m.1, v') hm'

/-- A member that is not null stays, without the nulls in it. -/
theorem get?_dropNullMembers (ho : Assoc.Ordered o) (k : String) :
    Assoc.get? k (dropNullMembers o) =
      ((Assoc.get? k o).filter (· ≠ .null)).map dropNulls := by
  induction o with
  | nil => rfl
  | cons m o ih =>
    obtain ⟨k', v⟩ := m
    have ih := ih (Assoc.ordered_cons.1 ho).2
    rw [dropNullMembers_cons, Assoc.get?_cons]
    by_cases hk : k = k'
    · subst hk
      rw [if_pos rfl]
      split
      · next hv =>
        rw [ih, Config.get?_of_before ho, hv]
        rfl
      · next hv =>
        rw [Assoc.get?_cons, if_pos rfl]
        simp [Option.filter, hv]
    · rw [if_neg hk, ← ih]
      split
      · rfl
      · rw [Assoc.get?_cons, if_neg hk]

/-! ### Values -/

theorem outline_dropNulls (v : Value) : (dropNulls v).outline = v.outline := by
  cases v <;> rfl

/-- Dropping nulls drops the members that are null, at every depth, and nothing else. -/
theorem sameButNulls_dropNulls (hv : v.Ordered) : SameButNulls v (dropNulls v) := by
  intro p
  induction p generalizing v with
  | nil =>
    show some (dropNulls v).outline = some v.outline
    rw [outline_dropNulls]
  | cons s p ih =>
    cases s with
    | key k =>
      cases v with
      | object o =>
        show ((Assoc.get? k (dropNullMembers o)).bind (at? p)).map outline =
          (((Assoc.get? k o).filter (· ≠ .null)).bind (atNonNull? p)).map outline
        rw [get?_dropNullMembers hv.1]
        cases hw : (Assoc.get? k o).filter (· ≠ .null) with
        | none => rfl
        | some w => exact ih (Config.ordered_of_get? hv.2 (Option.filter_eq_some_iff.1 hw).1)
      | null | bool _ | number _ | string _ | array _ => rfl
    | item i =>
      cases v with
      | array vs =>
        show ((dropNullItems vs)[i]?.bind (at? p)).map outline =
          (vs[i]?.bind (atNonNull? p)).map outline
        rw [dropNullItems_eq, List.getElem?_map]
        cases hw : vs[i]? with
        | none => rfl
        | some w => exact ih (Value.orderedItems_iff.1 hv w (List.mem_of_getElem? hw))
      | null | bool _ | number _ | string _ | object _ => rfl

end Toml

end Depot
