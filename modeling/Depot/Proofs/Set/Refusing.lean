import Depot.Proofs.Set.Caching
import Depot.Proofs.Store.Memory
import Depot.Set.Basic
/-!
# Read-only sets

A set is read-only if what it is written to may not be changed, be it an element or a store. Such
sets refuse to remove anything, and no other set does.
-/

namespace Depot

open Depot.Action

variable {w : World} {k : ElementKey} {s : DataSet}

/-- A data set refuses to remove an element because it is read-only. -/
def DataSet.Refuses (w : World) (s : DataSet) (k : ElementKey) : Prop :=
  ∃ name, (DataSet.core.remove k ⟨s, w⟩).1 = .error (.readOnly name)

/-- Whether what a data set is written to may not be changed. -/
def DataSet.isReadOnly (w : World) : DataSet → Bool
  | .memory s    => s.cache.any fun c => !(w.source c).writable
  | .overStore s => (w.storeAt s.store).isReadOnly w
  | .tree _      => false

/-! ### Stores -/

theorem World.tableWithout_eq_error {k : Key} {t : Table} {x : StoreError}
    (h : tableWithout k t = .error x) : x = .keyNotFound k := by
  unfold tableWithout at h
  split at h <;> cases h
  rfl

/-- A store refuses to remove a value exactly if it is read-only. -/
theorem World.refused_iff {r : StoreRef} {k : Key} :
    (∃ name, ((w.storeAt r).remove k w).1 = .error (.readOnly name)) ↔
      (w.storeAt r).isReadOnly w = true := by
  rw [storeAt]
  cases (w.store r).kind with
  | memory cache =>
    show (∃ name, (mutate r (tableWithout k) w).1 = _) ↔ w.cacheIsReadOnly r = _
    rw [mutate_apply]
    cases w.cacheIsReadOnly r with
    | true => exact ⟨fun _ => rfl, fun _ => ⟨_, rfl⟩⟩
    | false =>
      rw [if_neg Bool.false_ne_true]
      cases ht : tableWithout k (w.store r).table with
      | error x =>
        cases tableWithout_eq_error ht
        simp
      | ok t =>
        cases w.cacheOf r with
        | none => simp
        | some e =>
          dsimp only
          rcases setBytes e t.encode w with ⟨_ | _, _⟩ <;> simp
  | plain readOnly down =>
    show (∃ name, (changePlain r (tableWithout k) w).1 = _) ↔ w.plainIsReadOnly r = _
    unfold changePlain ofStep
    dsimp only
    cases w.plainIsReadOnly r with
    | true => exact ⟨fun _ => rfl, fun _ => ⟨_, rfl⟩⟩
    | false =>
      rw [if_neg Bool.false_ne_true]
      cases hreach : w.reach r with
      | error x =>
        unfold reach at hreach
        split at hreach <;> cases hreach
        simp
      | ok t =>
        dsimp only
        cases ht : tableWithout k t with
        | error x =>
          cases tableWithout_eq_error ht
          simp [Except.map]
        | ok t' => simp [Except.map]

/-! ### Data sets -/

/-- A set in memory refuses to remove an element exactly if its cache element may not be written. -/
theorem MemorySet.refused_iff {m : MemorySet} :
    (∃ name, (MemorySet.core.remove k ⟨m, w⟩).1 = .error (.readOnly name)) ↔
      m.cache.any (fun c => !(w.source c).writable) = true := by
  show (∃ name, (removeKey World.setBytes k ⟨m, w⟩).1 = _) ↔ _
  cases hc : m.cache with
  | none =>
    have hremove : (removeKey World.setBytes k ⟨m, w⟩).1 =
        (find m.elements k).map fun _ => () := by
      obtain ⟨elements, cache⟩ := m
      cases hc
      unfold removeKey mutate
      rw [bind_apply, get_apply]
      dsimp only
      cases find elements k <;> rfl
    rw [hremove, find]
    cases m.elements.get? k <;> simp [Except.map]
  | some c =>
    rw [removeKey, mutate_of_cache hc, Option.any_some]
    cases hw : (w.source c).writable with
    | false => simp
    | true =>
      rw [if_pos rfl]
      dsimp only
      rw [find]
      cases m.elements.get? k with
      | none => simp [Except.map]
      | some r =>
        dsimp only [Except.map]
        rcases World.setBytes c (encode w (m.elements.erase k)) w with ⟨_ | _, _⟩ <;> simp

/-- A set over a store refuses to remove an element exactly if the store is read-only. -/
theorem StoreSet.refused_iff {o : StoreSet} :
    (∃ name, (StoreSet.core.remove k ⟨o, w⟩).1 = .error (.readOnly name)) ↔
      (w.storeAt o.store).isReadOnly w = true := by
  rw [← World.refused_iff (k := .text k)]
  show (∃ name, (((w.storeAt o.store).remove (.text k)).mapError (faultAt k) w).1 = _) ↔ _
  rw [mapError_apply]
  dsimp only
  rcases (((w.storeAt o.store).remove (.text k)) w).1 with (_ | _ | _ | _) | _ <;>
    simp [Except.mapError, faultAt, fault]

theorem TreeSet.not_refused {t : TreeSet} {name : String} :
    (TreeSet.core.remove k ⟨t, w⟩).1 ≠ .error (.readOnly name) := by
  show (removeKey deleteFile k ⟨t, w⟩).1 ≠ _
  unfold removeKey
  dsimp only
  cases t.entries.get? k with
  | none => simp
  | some e =>
    dsimp only
    rcases deleteBack deleteFile w.disk e.paths.reverse with ⟨d, _ | ⟨l, f⟩, ls⟩ <;> simp

/-- A data set refuses to remove an element exactly if it is read-only. -/
theorem DataSet.refuses_iff : s.Refuses w k ↔ s.isReadOnly w = true := by
  cases s with
  | memory m => exact MemorySet.refused_iff
  | overStore o => exact StoreSet.refused_iff
  | tree t => exact ⟨fun ⟨_, h⟩ => absurd h TreeSet.not_refused, nofun⟩

end Depot
