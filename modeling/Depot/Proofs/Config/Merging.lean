import Depot.Config.Merge
import Depot.Proofs.Json.Ordered
/-!
# Merging, key by key

Laying an overlay over a base goes key by key. So laying an object over itself changes nothing, and
with defaults laid over themselves nothing but the defaults is built from.
-/

namespace Depot.Config

open Json

variable {base overlay o : Object} {k : String}

theorem ordered_mergeMembers (h : Assoc.Ordered base) (overlay : List (String × Value)) :
    Assoc.Ordered (mergeMembers base overlay) := by
  induction overlay generalizing base with
  | nil => exact h
  | cons m ms ih => exact ih (Assoc.ordered_insert h)

/-- Under a key of the overlay stands what the overlay has there, laid over what the base has. All
other keys are those of the base. -/
theorem get?_mergeMembers (h : Assoc.Ordered overlay) (k : String) :
    Assoc.get? k (mergeMembers base overlay) =
      match Assoc.get? k overlay with
      | none   => Assoc.get? k base
      | some v => some (mergeValue (Assoc.get? k base) v) := by
  induction overlay generalizing base with
  | nil => rfl
  | cons m ms ih =>
    obtain ⟨k', v'⟩ := m
    obtain ⟨hlt, hms⟩ := Assoc.ordered_cons.1 h
    rw [mergeMembers, ih hms, Assoc.get?_insert, Assoc.get?_cons]
    by_cases hk : k = k'
    · subst hk
      cases hv : Assoc.get? k ms with
      | none => simp
      | some v =>
        have hkk := hlt _ (Assoc.mem_of_get? hv)
        simp at hkk
    · simp [hk]

theorem mergeMembers_self_of_forall (ho : Assoc.Ordered o)
    (h : ∀ m ∈ o, mergeValue (some m.2) m.2 = m.2) : mergeMembers o o = o := by
  apply Assoc.eq_of_get? (ordered_mergeMembers ho o) ho
  intro k
  rw [get?_mergeMembers ho]
  cases hv : Assoc.get? k o with
  | none => rfl
  | some v => exact congrArg some (h (k, v) (Assoc.mem_of_get? hv))

mutual

theorem mergeValue_self (v : Value) (h : v.Ordered) : mergeValue (some v) v = v := by
  match v with
  | .null | .bool _ | .number _ | .string _ | .array _ => rfl
  | .object ms =>
    rw [mergeValue, mergeMembers_self_of_forall h.1 (forall_mergeValue_self ms h.2)]

theorem forall_mergeValue_self (ms : List (String × Value)) (h : Value.OrderedMembers ms) :
    ∀ m ∈ ms, mergeValue (some m.2) m.2 = m.2 := by
  match ms with
  | [] => exact nofun
  | (_, v) :: ms =>
    exact List.forall_mem_cons.2 ⟨mergeValue_self v h.1, forall_mergeValue_self ms h.2⟩

end

/-- An object laid over itself stays as it is. -/
theorem merge_self (h : o.Ordered) : merge o o = o :=
  mergeMembers_self_of_forall h.1 (forall_mergeValue_self o h.2)

end Depot.Config
