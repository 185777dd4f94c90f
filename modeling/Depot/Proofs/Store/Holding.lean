import Depot.Proofs.Store.Memory
import Depot.Proofs.World.Showing
/-!
# Stores that hold a table

A store whose operations may fail still holds a table. An operation that succeeds does what the
table does; one that fails may at most have done a part of what it was asked to do. Both kinds of
stores of the world are such stores, whether they are read-only, out of reach, or written to an
element that fails.
-/

namespace Depot

open Json Depot.Action

/-- A store that holds a table, as far as it is known which: what its operations come to, whether
they succeed or fail. That elements are asked for their keys or built makes no difference to it. -/
structure HoldsTable (kv : World → KeyValueStore World) (Is : Table → World → Prop) : Prop where
  quiet : ∀ {t w w'}, Is t w → w.Quiet w' → Is t w' ∧ kv w' = kv w
  keys : ∀ {t w x w'}, Is t w → (kv w).keys w = (x, w') →
    Is t w' ∧ ∀ ks, x = .ok ks → ks.Perm t.keys
  lookup : ∀ {t w x w'} k, Is t w → (kv w).lookup k w = (x, w') →
    Is t w' ∧ ∀ v, x = .ok v → v = t.get? k
  /-- If not all values are set, some of them may be. -/
  setMany : ∀ {t w x w'} es, Is t w → (kv w).setMany es w = (x, w') →
    ∃ es', es' ⊆ es ∧ Is (t.insertAll es') w' ∧ (x = .ok () → es' = es)
  /-- If the store fails otherwise than for a key that is missing, the value may be gone or not. -/
  remove : ∀ {t w x w'} k, Is t w → (kv w).remove k w = (x, w') →
    x = .ok () ∧ (t.get? k).isSome ∧ Is (t.erase k) w' ∨
    (∃ k', x = .error (.keyNotFound k')) ∧ t.get? k = none ∧ Is t w' ∨
    (∃ e, x = .error e ∧ ∀ k', e ≠ .keyNotFound k') ∧ (Is t w' ∨ Is (t.erase k) w')

/-! ### Values set one by one -/

namespace StoreCore

variable {σ : Type} {s : StoreCore σ} {Is : Table → σ → Prop} {st st' : σ} {t : Table}
  {es : List (Key × Value)} {x : Except StoreError Unit}

/-- A store that sets a value or leaves its table has set some of several values at least. -/
theorem setEach_some
    (hset : ∀ {t st x st'} k v, Is t st → s.set k v st = (x, st') →
      x = .ok () ∧ Is (t.insert k v) st' ∨ (∃ e, x = .error e) ∧ Is t st')
    (h : Is t st) (hx : s.setEach es st = (x, st')) :
    ∃ es', es' ⊆ es ∧ Is (t.insertAll es') st' ∧ (x = .ok () → es' = es) := by
  induction es generalizing t st with
  | nil =>
    cases hx
    exact ⟨[], List.Subset.refl _, h, fun _ => rfl⟩
  | cons e es ih =>
    obtain ⟨k, v⟩ := e
    rw [setEach, bind_apply] at hx
    cases hone : s.set k v st with
    | mk y st₁ =>
      rw [hone] at hx
      rcases hset k v h hone with ⟨rfl, h₁⟩ | ⟨⟨e, rfl⟩, h₁⟩
      · obtain ⟨es', hsub, h', hall⟩ := ih h₁ hx
        refine ⟨(k, v) :: es', List.cons_subset_cons _ hsub, h', fun hok => ?_⟩
        rw [hall hok]
      · -- Nothing is set after the first value that cannot be.
        cases hx
        exact ⟨[], List.nil_subset _, h₁, nofun⟩

theorem setMany_some
    (hset : ∀ {t st x st'} k v, Is t st → s.set k v st = (x, st') →
      x = .ok () ∧ Is (t.insert k v) st' ∨ (∃ e, x = .error e) ∧ Is t st')
    (h : Is t st) (hx : s.setMany es st = (x, st')) :
    ∃ es', es' ⊆ es ∧ Is (t.insertAll es') st' ∧ (x = .ok () → es' = es) := by
  unfold setMany ensureWritable at hx
  rw [bind_apply, ofView_apply] at hx
  cases hr : s.isReadOnly st with
  | true =>
    rw [hr] at hx
    cases hx
    exact ⟨[], List.nil_subset _, h, nofun⟩
  | false =>
    rw [hr] at hx
    exact setEach_some hset h hx

end StoreCore

namespace World

variable {w w' : World} {r : StoreRef} {t : Table} {k : Key} {v : Value}
  {change : Table → Except StoreError Table} {x : Except StoreError Unit}

/-! ### Stores of the world -/

/-- The store at a reference has a table. -/
def HasTable (r : StoreRef) (t : Table) (w : World) : Prop :=
  r < w.stores.length ∧ (w.store r).table = t

theorem HasTable.of_stores (h : HasTable r t w) (hw : w'.stores = w.stores) : HasTable r t w' := by
  unfold HasTable store at h ⊢
  rwa [hw]

theorem HasTable.putTable (h : HasTable r t w) (t' : Table) :
    HasTable r t' (World.putTable r t' w) :=
  ⟨by simpa using h.1, by rw [store_putTable h.1]⟩

/-- The table of a plain store can be had, unless the store is down. -/
theorem HasTable.reach (h : HasTable r t w) :
    w.reach r = .ok t ∨ w.reach r = .error (.table plainStoreName .timeout) := by
  unfold World.reach
  split
  · exact .inr rfl
  · exact .inl (congrArg Except.ok h.2)

/-- What a change of a table comes to: it is made, or the table refuses it, or the store fails for
another reason than a missing key. -/
inductive Changed (r : StoreRef) (change : Table → Except StoreError Table) (t : Table) :
    Except StoreError Unit × World → Prop
  | made {t' : Table} {w' : World} (ht : change t = .ok t') (h : HasTable r t' w') :
      Changed r change t (.ok (), w')
  | refused {e : StoreError} {w' : World} (ht : change t = .error e) (h : HasTable r t w') :
      Changed r change t (.error e, w')
  | failed {e : StoreError} {w' : World} (he : ∀ k, e ≠ .keyNotFound k) (h : HasTable r t w') :
      Changed r change t (.error e, w')

theorem changed_mutate (h : HasTable r t w) : Changed r change t (mutate r change w) := by
  have hcases := mutates r change w
  obtain rfl := h.2
  generalize mutate r change w = result at hcases ⊢
  cases hcases with
  | locked => exact .failed nofun h
  | refused ht => exact .refused ht h
  | made ht => exact .made ht (h.putTable _)
  | @unwritten t e f w' _ _ hw =>
    have hstores : (setBytes e t.encode w).2.stores = w.stores := rfl
    rw [hw] at hstores
    exact .failed nofun (h.of_stores hstores)
  | @written t e w' ht _ hw =>
    have hstores : (setBytes e t.encode w).2.stores = w.stores := rfl
    rw [hw] at hstores
    exact .made ht ((h.of_stores hstores).putTable t)

theorem changed_changePlain (h : HasTable r t w) : Changed r change t (changePlain r change w) := by
  rw [changePlain_apply]
  split
  · exact .failed nofun h
  · rcases h.reach with hreach | hreach
    · rw [hreach]
      dsimp only
      cases ht : change t with
      | error e => exact .refused ht h
      | ok next => exact .made ht (h.putTable next)
    · rw [hreach]
      exact .failed nofun h

theorem tableWithout_eq (k : Key) (t : Table) : tableWithout k t =
    match t.get? k with
    | some _ => .ok (t.erase k)
    | none   => .error (.keyNotFound k) := by
  unfold tableWithout Dict.contains
  cases t.get? k <;> rfl

/-- A store of the world does what its table does, or fails. -/
theorem storeAt_cases (h : HasTable r t w) :
    ((w.storeAt r).keys w = (.ok t.keys, w) ∨ ∃ e, (w.storeAt r).keys w = (.error e, w)) ∧
    (∀ k, (w.storeAt r).lookup k w = (.ok (t.get? k), w) ∨
      ∃ e, (w.storeAt r).lookup k w = (.error e, w)) ∧
    ∀ k, Changed r (tableWithout k) t ((w.storeAt r).remove k w) := by
  unfold storeAt
  split
  · obtain rfl := h.2
    exact ⟨.inl rfl, fun _ => .inl rfl, fun _ => changed_mutate h⟩
  · have hlook {α : Type} (f : Table → α) :
        ((w.reach r).map f, w) = (.ok (f t), w) ∨ ∃ e, ((w.reach r).map f, w) = (.error e, w) := by
      rcases h.reach with hreach | hreach
      · rw [hreach]
        exact .inl rfl
      · rw [hreach]
        exact .inr ⟨_, rfl⟩
    exact ⟨hlook _, fun _ => hlook _, fun _ => changed_changePlain h⟩

theorem setMany_storeAt {es : List (Key × Value)} (h : HasTable r t w)
    (hx : (w.storeAt r).setMany es w = (x, w')) :
    ∃ es', es' ⊆ es ∧ HasTable r (t.insertAll es') w' ∧ (x = .ok () → es' = es) := by
  unfold storeAt at hx
  split at hx
  · have hchanged : Changed r (fun t => .ok (t.insertAll es)) t _ := changed_mutate h
    rw [show mutate r (fun t => .ok (t.insertAll es)) w = _ from hx] at hchanged
    cases hchanged with
    | made ht h' =>
      cases ht
      exact ⟨es, List.Subset.refl _, h', fun _ => rfl⟩
    | refused ht => cases ht
    | failed _ h' =>
      refine ⟨[], List.nil_subset _, h', ?_⟩
      rintro ⟨⟩
  · refine StoreCore.setMany_some (fun {t w x w'} k v h hx => ?_) h hx
    have hchanged : Changed r (fun t => .ok (t.insert k v)) t _ := changed_changePlain h
    rw [show changePlain r (fun t => .ok (t.insert k v)) w = _ from hx] at hchanged
    cases hchanged with
    | made ht h' =>
      cases ht
      exact .inl ⟨rfl, h'⟩
    | refused ht => cases ht
    | failed _ h' => exact .inr ⟨⟨_, rfl⟩, h'⟩

/-- A store of the world holds its table. -/
theorem holdsTable_storeAt (r : StoreRef) : HoldsTable (fun w => w.storeAt r) (HasTable r) := by
  constructor
  case quiet =>
    intro t w w' h hw
    have hstore : w'.store r = w.store r := by
      unfold store
      rw [hw.stores]
    refine ⟨h.of_stores hw.stores, ?_⟩
    unfold storeAt
    rw [hstore]
  case keys =>
    intro t w x w' h hx
    rcases (storeAt_cases h).1 with hk | ⟨e, hk⟩
    · cases hk.symm.trans hx
      refine ⟨h, ?_⟩
      rintro _ ⟨⟩
      exact .refl _
    · cases hk.symm.trans hx
      exact ⟨h, nofun⟩
  case lookup =>
    intro t w x w' k h hx
    rcases (storeAt_cases h).2.1 k with hk | ⟨e, hk⟩
    · cases hk.symm.trans hx
      refine ⟨h, ?_⟩
      rintro _ ⟨⟩
      rfl
    · cases hk.symm.trans hx
      exact ⟨h, nofun⟩
  case setMany => exact fun es h hx => setMany_storeAt h hx
  case remove =>
    intro t w x w' k h hx
    have hchanged := (storeAt_cases h).2.2 k
    rw [hx, show tableWithout k = fun t => tableWithout k t from rfl] at hchanged
    cases hchanged with
    | made ht h' =>
      left
      rw [tableWithout_eq] at ht
      cases hk : t.get? k with
      | none =>
        rw [hk] at ht
        cases ht
      | some v =>
        rw [hk] at ht
        cases ht
        exact ⟨rfl, rfl, h'⟩
    | refused ht h' =>
      right
      left
      rw [tableWithout_eq] at ht
      -- The table refuses to remove only a key that it misses.
      cases hk : t.get? k with
      | none =>
        rw [hk] at ht
        cases ht
        exact ⟨⟨k, rfl⟩, rfl, h'⟩
      | some v =>
        rw [hk] at ht
        cases ht
    | failed he h' => exact .inr (.inr ⟨⟨_, rfl, he⟩, .inl h'⟩)

end World

end Depot
