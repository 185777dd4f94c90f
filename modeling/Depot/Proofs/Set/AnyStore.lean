import Depot.Proofs.Set.Requests
import Depot.Set.OverStore
/-!
# Sets over any store

What the operations of a set over a store come to, whatever the store answers. An operation that
uses one of the store which fails, fails with the same fault. The fault is never taken for a key
that is missing, so a store that cannot be had does not look like one that is empty.
-/

namespace Depot

namespace Action

variable {σ ε ε' α β : Type} {x : Action σ ε α} {f : α → Action σ ε β} {s s' : σ} {a : α} {e : ε}

theorem bind_of_ok (h : x s = (.ok a, s')) : (x >>= f) s = f a s' := by
  rw [bind_apply, h]

/-- A sequence fails with its first action. -/
theorem bind_fails (h : (x s).1 = .error e) : ((x >>= f) s).1 = .error e := by
  rw [bind_apply]
  revert h
  rcases x s with ⟨_ | _, _⟩
  · rintro ⟨⟩
    rfl
  · nofun

theorem map_fails {g : α → β} (h : (x s).1 = .error e) : ((g <$> x) s).1 = .error e := by
  rw [map_apply, h]
  rfl

theorem mapError_fails {g : ε → ε'} (h : (x s).1 = .error e) :
    (mapError g x s).1 = .error (g e) := by
  rw [mapError_apply, h]
  rfl

end Action

/-! ### Values set one by one -/

namespace StoreCore

open Depot.Action

variable {σ : Type} {c : StoreCore σ} {st st' : σ} {key : Key} {v : Json.Value} {e : StoreError}
  {es before after : List (Key × Json.Value)}

/-- Values that are set one by one cannot all be set if one of them cannot. -/
theorem setEach_error (hbefore : c.setEach before st = (.ok (), st'))
    (h : (c.set key v st').1 = .error e) :
    (c.setEach (before ++ (key, v) :: after) st).1 = .error e := by
  induction before generalizing st with
  | nil =>
    cases hbefore
    exact bind_fails h
  | cons x before ih =>
    obtain ⟨u, st₁, hset, hrest⟩ := bind_eq_ok.1 hbefore
    rw [List.cons_append, setEach, bind_of_ok hset]
    exact ih hrest

theorem setMany_of_readOnly (h : c.isReadOnly st = true) :
    (c.setMany es st).1 = .error (.readOnly c.name) := by
  apply bind_fails
  rw [ensureWritable, ofView_apply, h]
  rfl

theorem setMany_of_set (hw : c.isReadOnly st = false)
    (hbefore : c.setEach before st = (.ok (), st')) (h : (c.set key v st').1 = .error e) :
    (c.setMany (before ++ (key, v) :: after) st).1 = .error e := by
  have hwritable : c.ensureWritable st = (.ok (), st) := by
    rw [ensureWritable, ofView_apply, hw]
    rfl
  unfold setMany
  rw [bind_of_ok hwritable]
  exact setEach_error hbefore h

end StoreCore

/-- Puts a request to a data set and forgets the answer. -/
def SetRequest.run {σ : Type} (c : SetCore σ) : SetRequest → InWorld.Action σ Unit
  | addMany rs => c.addMany rs
  | remove k   => c.remove k
  | get k      => (fun _ => ()) <$> c.get k
  | has k      => (fun _ => ()) <$> c.has k
  | contains r => (fun _ => ()) <$> c.contains r
  | keys       => (fun _ => ()) <$> c.keys
  | count      => (fun _ => ()) <$> c.count
  | elements   => (fun _ => ()) <$> c.elements
  | isEmpty    => (fun _ => ()) <$> c.isEmpty

namespace StoreSet

open Depot.Action

variable {find : World → StoreRef → KeyValueStore World} {kv : KeyValueStore World}
  {s s' : InWorld StoreSet} {w w' : World} {p : Plugins} {k : ElementKey} {e : StoreError}
  {rs : List ElementRef} {es : List (Key × Json.Value)} {q : SetRequest}

/-! ### Operations on any store -/

theorem keysOf_apply : keysOf kv w =
    match kv.keys w with
    | (.ok ks, w')   =>
      (.ok ((ks.filterMap elementKey?).mergeSort fun a b => (compare a b).isLE), w')
    | (.error e, w') => (.error (fault e), w') := by
  unfold keysOf
  rw [bind_apply, mapError_apply]
  rcases kv.keys w with ⟨_ | _, _⟩ <;> rfl

theorem hasIn_apply : hasIn kv k w =
    match kv.lookup (.text k) w with
    | (.ok v, w')    => (.ok v.isSome, w')
    | (.error e, w') => (.error (fault e), w') := by
  unfold hasIn StoreCore.has
  rw [mapError_apply, bind_apply]
  rcases kv.lookup (.text k) w with ⟨_ | _, _⟩ <;> rfl

theorem getFrom_apply : getFrom kv p k w =
    match kv.lookup (.text k) w with
    | (.error e, w')     => (.error (fault e), w')
    | (.ok none, w')     => (.error (.keyNotFound k), w')
    | (.ok (some v), w') =>
      match descriptorOf k v with
      | .error x => (.error x, w')
      | .ok d    => ((p.element d w').1.mapError .plugin, (p.element d w').2) := by
  unfold getFrom descriptorIn
  rw [bind_apply, bind_apply, mapError_apply]
  rcases kv.lookup (.text k) w with ⟨e | _ | v, w'⟩
  · rfl
  · rfl
  · dsimp only [Except.mapError]
    rw [ofView_apply]
    cases descriptorOf k v <;> rfl

theorem removeFrom_apply : removeFrom kv k w =
    ((kv.remove (.text k) w).1.mapError (faultAt k), (kv.remove (.text k) w).2) := rfl

theorem addTo_apply : addTo kv rs w =
    match described rs w with
    | (.error x, w') => (.error x, w')
    | (.ok es, w')   => ((kv.setMany es w').1.mapError fault, (kv.setMany es w').2) := by
  unfold addTo
  rw [bind_apply]
  rcases described rs w with ⟨_ | _, _⟩ <;> rfl

/-! ### Any store in the place of one of the world -/

/-- Uses the store of the set, which is found in the world in some way. -/
def withFound {α : Type} (find : World → StoreRef → KeyValueStore World)
    (x : StoreSet → KeyValueStore World → World.Action SetError α) :
    InWorld.Action StoreSet α := do
  let s := (← get).set
  InWorld.onWorld fun w => x s (find w s.store) w

/-- A data set over a store that is found in the world in some way. -/
def coreOver (find : World → StoreRef → KeyValueStore World) : SetCore StoreSet where
  count := withFound find fun _ kv => List.length <$> keysOf kv
  keys := withFound find fun _ kv => keysOf kv
  has k := withFound find fun _ kv => hasIn kv k
  addMany rs := withFound find fun _ kv => addTo kv rs
  get k := withFound find fun s kv => getFrom kv s.plugins k
  remove k := withFound find fun _ kv => removeFrom kv k

/-- The stores of the world are found where they are. -/
theorem core_eq_coreOver : core = coreOver World.storeAt := rfl

/-! ### Faults of the store -/

/-- A fault of the store is none of a missing key for the set. -/
theorem fault_ne_keyNotFound (e : StoreError) (k : ElementKey) : fault e ≠ .keyNotFound k := by
  cases e <;> simp [fault]

/-- An operation of the store that a request comes to fails. Values that are set one by one fail if
the store is read-only, or when one of them cannot be set. -/
inductive Fails (find : World → StoreRef → KeyValueStore World) (s : InWorld StoreSet) :
    SetRequest → StoreError → Prop
  | keys {q : SetRequest} {e : StoreError}
      (hq : q = .keys ∨ q = .count ∨ q = .isEmpty ∨ q = .elements)
      (h : ((find s.world s.set.store).keys s.world).1 = .error e) : Fails find s q e
  | lookup {q : SetRequest} {k : ElementKey} {e : StoreError} (hq : q = .has k ∨ q = .get k)
      (h : ((find s.world s.set.store).lookup (.text k) s.world).1 = .error e) : Fails find s q e
  | contains {r : ElementRef} {k : ElementKey} {w : World} {e : StoreError}
      (hk : World.uuid r s.world = (.ok k, w))
      (h : ((find w s.set.store).lookup (.text k) w).1 = .error e) : Fails find s (.contains r) e
  | elements {before after : List ElementKey} {k : ElementKey} {rs : List ElementRef}
      {s₁ s₂ : InWorld StoreSet} {e : StoreError}
      (hks : (coreOver find).keys s = (.ok (before ++ k :: after), s₁))
      (hrs : (coreOver find).getMany before s₁ = (.ok rs, s₂))
      (h : ((find s₂.world s₂.set.store).lookup (.text k) s₂.world).1 = .error e) :
      Fails find s .elements e
  | setMany {rs : List ElementRef} {es : List (Key × Json.Value)} {w : World} {e : StoreError}
      (hes : described rs s.world = (.ok es, w))
      (h : ((find s.world s.set.store).setMany es w).1 = .error e) : Fails find s (.addMany rs) e
  | readOnly {rs : List ElementRef} {es : List (Key × Json.Value)} {w : World}
      (hes : described rs s.world = (.ok es, w))
      (heach : (find s.world s.set.store).setMany =
        (find s.world s.set.store).toStoreCore.setMany)
      (h : (find s.world s.set.store).isReadOnly w = true) :
      Fails find s (.addMany rs) (.readOnly (find s.world s.set.store).name)
  | set {rs : List ElementRef} {before after : List (Key × Json.Value)} {key : Key}
      {v : Json.Value} {w w₁ : World} {e : StoreError}
      (hes : described rs s.world = (.ok (before ++ (key, v) :: after), w))
      (heach : (find s.world s.set.store).setMany =
        (find s.world s.set.store).toStoreCore.setMany)
      (hw : (find s.world s.set.store).isReadOnly w = false)
      (hbefore : (find s.world s.set.store).setEach before w = (.ok (), w₁))
      (h : ((find s.world s.set.store).set key v w₁).1 = .error e) : Fails find s (.addMany rs) e
  | remove {k : ElementKey} {e : StoreError}
      (h : ((find s.world s.set.store).remove (.text k) s.world).1 = .error e)
      (hne : ∀ k', e ≠ .keyNotFound k') : Fails find s (.remove k) e

theorem keysOf_error (h : (kv.keys w).1 = .error e) : (keysOf kv w).1 = .error (fault e) :=
  bind_fails (mapError_fails h)

theorem hasIn_error (h : (kv.lookup (.text k) w).1 = .error e) :
    (hasIn kv k w).1 = .error (fault e) :=
  mapError_fails (bind_fails h)

theorem getFrom_error (h : (kv.lookup (.text k) w).1 = .error e) :
    (getFrom kv p k w).1 = .error (fault e) :=
  bind_fails (bind_fails (mapError_fails h))

theorem addTo_error (hes : described rs w = (.ok es, w')) (h : (kv.setMany es w').1 = .error e) :
    (addTo kv rs w).1 = .error (fault e) := by
  unfold addTo
  rw [bind_of_ok hes]
  exact mapError_fails h

theorem removeFrom_error (h : (kv.remove (.text k) w).1 = .error e)
    (hne : ∀ k', e ≠ .keyNotFound k') : (removeFrom kv k w).1 = .error (fault e) := by
  unfold removeFrom
  rw [mapError_apply, h]
  cases e with
  | keyNotFound k' => exact absurd rfl (hne k')
  | readOnly | table | element => rfl

/-- Several elements cannot be had if the store fails for one of them. -/
theorem getMany_error {before after : List ElementKey}
    (hrs : (coreOver find).getMany before s = (.ok rs, s'))
    (h : ((find s'.world s'.set.store).lookup (.text k) s'.world).1 = .error e) :
    ((coreOver find).getMany (before ++ k :: after) s).1 = .error (fault e) := by
  -- The elements before the one that fails are had first, each in the state the last one left.
  induction before generalizing s rs with
  | nil =>
    cases hrs
    exact bind_fails (getFrom_error h)
  | cons k' before ih =>
    obtain ⟨r, s₁, hget, hrest⟩ := bind_eq_ok.1 hrs
    obtain ⟨rs', s₂, hmany, hpure⟩ := bind_eq_ok.1 hrest
    cases hpure
    rw [List.cons_append, SetCore.getMany, bind_of_ok hget]
    exact bind_fails (ih hmany)

/-- A fault of the store is that of the set, whatever it is asked for. -/
theorem run_of_fails (h : Fails find s q e) : (q.run (coreOver find) s).1 = .error (fault e) := by
  cases h with
  | keys hq h =>
    rcases hq with rfl | rfl | rfl | rfl
    · exact map_fails (keysOf_error h)
    · exact map_fails (map_fails (keysOf_error h))
    · exact map_fails (bind_fails (map_fails (keysOf_error h)))
    · exact map_fails (bind_fails (keysOf_error h))
  | lookup hq h =>
    rcases hq with rfl | rfl
    · exact map_fails (hasIn_error h)
    · exact map_fails (getFrom_error h)
  | @contains r k w e hk h =>
    have huuid : InWorld.uuid r s = (.ok k, { s with world := w }) := by
      rw [InWorld.uuid, InWorld.onWorld_apply, mapError_apply, hk]
      rfl
    apply map_fails
    unfold SetCore.contains
    rw [bind_of_ok huuid]
    exact hasIn_error h
  | elements hks hrs h =>
    apply map_fails
    unfold SetCore.elements
    rw [bind_of_ok hks]
    exact getMany_error hrs h
  | setMany hes h => exact addTo_error hes h
  | readOnly hes heach h =>
    -- Without a batch of its own, the store is asked for one change after the other.
    apply addTo_error hes
    rw [heach]
    exact StoreCore.setMany_of_readOnly h
  | set hes heach hw hbefore h =>
    apply addTo_error hes
    rw [heach]
    exact StoreCore.setMany_of_set hw hbefore h
  | remove h hne => exact removeFrom_error h hne

end StoreSet

end Depot
