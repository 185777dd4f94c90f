import Depot.Proofs.Rebuilding.Elements
import Depot.Proofs.Set.AnyStore
import Depot.Proofs.Set.Kinds
import Depot.Proofs.Store.Holding
/-!
# Texts among the keys of a store

A set over a store that holds a table sees the texts among the keys of the table and nothing else,
whatever the values are. What it does changes no value under another kind of key. A store that fails
is not taken for one without a value.
-/

namespace Depot

namespace Action

variable {σ ε α β : Type} {I : σ → Prop} {x : Action σ ε α} {f : α → Action σ ε β}

/-- An action leaves a property of the state true. -/
def Keeps (I : σ → Prop) (x : Action σ ε α) : Prop := ∀ s, I s → I (x s).2

theorem keeps_pure (a : α) : Keeps I (pure a : Action σ ε α) := fun _ => id

theorem Keeps.map (h : Keeps I x) (g : α → β) : Keeps I (g <$> x) := by
  intro s hs
  rw [map_apply]
  exact h s hs

theorem Keeps.bind (h : Keeps I x) (hf : ∀ a, Keeps I (f a)) : Keeps I (x >>= f) := by
  intro s hs
  have hx := h s hs
  rw [bind_apply]
  revert hx
  rcases x s with ⟨_ | a, s'⟩
  · exact id
  · exact hf a s'

end Action

/-- The set and the world after several requests. -/
def SetRequest.after {σ : Type} (c : SetCore σ) (qs : List SetRequest) (s : InWorld σ) :
    InWorld σ :=
  qs.foldl (fun s q => (q.run c s).2) s

namespace StoreSet

open Depot.Action

variable {find : World → StoreRef → KeyValueStore World} {kv : KeyValueStore World}
  {Is : Table → World → Prop} {s : InWorld StoreSet} {w w' : World} {t t' : Table} {p : Plugins}
  {k : ElementKey} {v : Json.Value} {rs : List ElementRef} {es : List (Key × Json.Value)}

/-! ### Texts and other keys -/

/-- The values under keys that are no texts are the same. -/
def OthersKept (t t' : Table) : Prop := ∀ key, (∀ k, key ≠ .text k) → t'.get? key = t.get? key

namespace OthersKept

theorem refl (t : Table) : OthersKept t t := fun _ _ => rfl

theorem trans {t'' : Table} (h : OthersKept t t') (h' : OthersKept t' t'') : OthersKept t t'' :=
  fun key hkey => (h' key hkey).trans (h key hkey)

theorem erase (t : Table) (k : ElementKey) : OthersKept t (t.erase (.text k)) := by
  intro key hkey
  rw [Dict.get?_erase, if_neg (hkey k)]

theorem insertAll (h : ∀ e ∈ es, ∃ k, e.1 = .text k) : OthersKept t (t.insertAll es) := by
  induction es generalizing t with
  | nil => exact .refl t
  | cons e es ih =>
    obtain ⟨⟨k, hk⟩, hes⟩ := List.forall_mem_cons.1 h
    refine trans (fun key hkey => ?_) (ih (t := t.insert e.1 e.2) hes)
    rw [Dict.get?_insert, if_neg]
    rw [hk]
    exact hkey k

end OthersKept

/-- Elements are described under texts. -/
theorem text_of_described (h : described rs w = (.ok es, w')) : ∀ e ∈ es, ∃ k, e.1 = .text k := by
  induction rs generalizing w es with
  | nil =>
    cases h
    exact fun e he => absurd he List.not_mem_nil
  | cons r rs ih =>
    rw [described] at h
    obtain ⟨k, w₁, -, h⟩ := bind_eq_ok.1 h
    obtain ⟨w₂, w₂', -, h⟩ := bind_eq_ok.1 h
    obtain ⟨es', w₃, hes, h⟩ := bind_eq_ok.1 h
    cases h
    intro e he
    rcases List.mem_cons.1 he with rfl | he
    · exact ⟨k, rfl⟩
    · exact ih hes e he

/-- The store has a table with the same values as another under keys that are no texts. -/
def Spared (Is : Table → World → Prop) (t : Table) (w : World) : Prop :=
  ∃ t', Is t' w ∧ OthersKept t t'

section

variable {kv : World → KeyValueStore World} (h : HoldsTable kv Is) (hw : Spared Is t w)

include h hw

theorem Spared.quiet (hq : w.Quiet w') : Spared Is t w' := by
  obtain ⟨t', ht, hk⟩ := hw
  exact ⟨t', (h.quiet ht hq).1, hk⟩

theorem spared_keysOf : Spared Is t (keysOf (kv w) w).2 := by
  obtain ⟨t', ht, hk⟩ := hw
  rw [keysOf_apply]
  cases hx : (kv w).keys w with
  | mk x w' => cases x <;> exact ⟨t', (h.keys ht hx).1, hk⟩

theorem spared_hasIn : Spared Is t (hasIn (kv w) k w).2 := by
  obtain ⟨t', ht, hk⟩ := hw
  rw [hasIn_apply]
  cases hx : (kv w).lookup (.text k) w with
  | mk x w' => cases x <;> exact ⟨t', (h.lookup _ ht hx).1, hk⟩

theorem spared_getFrom : Spared Is t (getFrom (kv w) p k w).2 := by
  obtain ⟨t', ht, hk⟩ := hw
  rw [getFrom_apply]
  cases hx : (kv w).lookup (.text k) w with
  | mk x w' =>
    have hw' : Spared Is t w' := ⟨t', (h.lookup _ ht hx).1, hk⟩
    rcases x with e | _ | v
    · exact hw'
    · exact hw'
    · dsimp only
      cases descriptorOf k v with
      | error x => exact hw'
      | ok d =>
        obtain ⟨y, hy⟩ := p.element_steady d
        dsimp only
        rw [hy]
        cases y with
        | error e => exact hw'
        | ok src => exact hw'.quiet h (.grown .newElement)

theorem spared_removeFrom : Spared Is t (removeFrom (kv w) k w).2 := by
  obtain ⟨t', ht, hk⟩ := hw
  rw [removeFrom_apply]
  have herased := hk.trans (.erase t' k)
  cases hx : (kv w).remove (.text k) w with
  | mk x w' =>
    rcases h.remove _ ht hx with ⟨-, -, h'⟩ | ⟨-, -, h'⟩ | ⟨-, h' | h'⟩
    · exact ⟨_, h', herased⟩
    · exact ⟨_, h', hk⟩
    · exact ⟨_, h', hk⟩
    · exact ⟨_, h', herased⟩

theorem spared_addTo : Spared Is t (addTo (kv w) rs w).2 := by
  have hquiet : w.Quiet (described rs w).2 := described_rel .refl .trans .uuid rs w
  rw [addTo_apply]
  cases hes : described rs w with
  | mk x w₁ =>
    rw [hes] at hquiet
    cases x with
    | error e => exact hw.quiet h hquiet
    | ok es =>
      -- The store is found before the elements are asked for their keys, and is the same after it.
      obtain ⟨t', ht, hk⟩ := hw
      obtain ⟨ht₁, hfound⟩ := h.quiet ht hquiet
      dsimp only
      cases hx : (kv w).setMany es w₁ with
      | mk y w' =>
        rw [← hfound] at hx
        obtain ⟨es', hsub, h', -⟩ := h.setMany es ht₁ hx
        refine ⟨_, h', hk.trans (.insertAll fun e he => ?_)⟩
        exact text_of_described hes e (hsub he)

end

/-! ### Requests one after the other -/

section

variable {o : StoreSet} (h : HoldsTable (fun w => find w o.store) Is)

/-- A set over a store whose values under keys that are no texts are as they were. -/
def Sparing (Is : Table → World → Prop) (o : StoreSet) (t : Table) (s : InWorld StoreSet) : Prop :=
  s.set = o ∧ Spared Is t s.world

theorem keeps_withFound {α : Type} {x : StoreSet → KeyValueStore World → World.Action SetError α}
    (hx : ∀ w, Spared Is t w → Spared Is t (x o (find w o.store) w).2) :
    Keeps (Sparing Is o t) (withFound find x) := by
  rintro s ⟨rfl, hs⟩
  exact ⟨rfl, hx s.world hs⟩

include h

theorem keeps_uuid (r : ElementRef) : Keeps (Sparing Is o t) (InWorld.uuid r) := by
  rintro s ⟨rfl, hs⟩
  exact ⟨rfl, hs.quiet h (.uuid r s.world)⟩

theorem keeps_keys : Keeps (Sparing Is o t) (coreOver find).keys :=
  keeps_withFound fun _ hw => spared_keysOf h hw

theorem keeps_get (k : ElementKey) : Keeps (Sparing Is o t) ((coreOver find).get k) :=
  keeps_withFound fun _ hw => spared_getFrom h hw

theorem keeps_getMany (ks : List ElementKey) :
    Keeps (Sparing Is o t) ((coreOver find).getMany ks) := by
  induction ks with
  | nil => exact keeps_pure _
  | cons k ks ih => exact (keeps_get h k).bind fun r => ih.bind fun rs => keeps_pure _

theorem keeps_count : Keeps (Sparing Is o t) (coreOver find).count := by
  apply keeps_withFound
  intro w hw
  rw [map_apply]
  exact spared_keysOf h hw

/-- No request changes a value under a key that is no text. -/
theorem keeps_run (q : SetRequest) : Keeps (Sparing Is o t) (q.run (coreOver find)) := by
  have hhas (k : ElementKey) : Keeps (Sparing Is o t) ((coreOver find).has k) :=
    keeps_withFound fun _ hw => spared_hasIn h hw
  cases q with
  | addMany rs => exact keeps_withFound fun _ hw => spared_addTo h hw
  | remove k => exact keeps_withFound fun _ hw => spared_removeFrom h hw
  | get k => exact (keeps_get h k).map _
  | has k => exact (hhas k).map _
  | contains r => exact Keeps.map ((keeps_uuid h r).bind hhas) _
  | keys => exact (keeps_keys h).map _
  | count => exact (keeps_count h).map _
  | elements => exact Keeps.map ((keeps_keys h).bind (keeps_getMany h)) _
  | isEmpty => exact Keeps.map ((keeps_count h).bind fun n => keeps_pure _) _

/-- Requests one after the other change no value under a key that is no text. -/
theorem sparing_after (qs : List SetRequest) {s : InWorld StoreSet} (hs : Sparing Is o t s) :
    Sparing Is o t (SetRequest.after (coreOver find) qs s) := by
  induction qs generalizing s with
  | nil => exact hs
  | cons q qs ih => exact ih (keeps_run h q s hs)

end

/-! ### What the set shows -/

/-- A value describes an element that can be built. -/
def Describes (p : Plugins) (k : ElementKey) (v : Json.Value) : Prop :=
  ∃ d src, descriptorOf k v = .ok d ∧ p.Builds d src

/-- What is had for a key under which the store has a value or none: an element if the value
describes one. If it does not, the storage or the plugins are at fault. -/
inductive Gets (p : Plugins) (k : ElementKey) :
    Option Json.Value → Except SetError ElementRef → Prop
  | missing : Gets p k none (.error (.keyNotFound k))
  | built {v : Json.Value} {r : ElementRef} (h : Describes p k v) : Gets p k (some v) (.ok r)
  | malformed {v : Json.Value} {trouble : StorageTrouble} (h : ¬Describes p k v) :
      Gets p k (some v) (.error (.storage pluginName trouble))
  | unbuilt {v : Json.Value} {x : PluginError} (h : ¬Describes p k v) :
      Gets p k (some v) (.error (.plugin x))

theorem Gets.missing_iff {v : Option Json.Value} {x : Except SetError ElementRef}
    (h : Gets p k v x) : x = .error (.keyNotFound k) ↔ v = none := by
  cases h <;> simp

theorem descriptorOf_error {x : SetError} (h : descriptorOf k v = .error x) :
    ∃ trouble, x = .storage pluginName trouble := by
  unfold descriptorOf at h
  split at h
  · rcases hd : Descriptor.ofObject Plugins.elementContract _ with e | d
    · rw [hd] at h
      cases h
      exact ⟨_, rfl⟩
    · rw [hd] at h
      cases h
  · cases h
    exact ⟨_, rfl⟩

/-- If the store answers, its answer decides. -/
theorem gets_getFrom {v : Option Json.Value} (h : (kv.lookup (.text k) w).1 = .ok v) :
    Gets p k v (getFrom kv p k w).1 := by
  rw [getFrom_apply]
  rcases hx : kv.lookup (.text k) w with ⟨x, w'⟩
  rw [hx] at h
  cases h
  cases v with
  | none => exact .missing
  | some v =>
    dsimp only
    cases hd : descriptorOf k v with
    | error x =>
      obtain ⟨trouble, rfl⟩ := descriptorOf_error hd
      refine .malformed ?_
      rintro ⟨d, src, hd', -⟩
      cases hd.symm.trans hd'
    | ok d =>
      -- Whether an element can be built does not depend on the world.
      obtain ⟨y, hy⟩ := p.element_steady d
      dsimp only
      rw [hy]
      cases y with
      | ok src => exact .built ⟨d, src, hd, hy⟩
      | error e =>
        refine .unbuilt ?_
        rintro ⟨d', src, hd', hb⟩
        cases hd.symm.trans hd'
        cases (hy w').symm.trans (hb w')

/-- What a set over a store with a table shows, as far as the store does not fail: the texts among
the keys of the table. -/
structure ShowsTexts (find : World → StoreRef → KeyValueStore World) (t : Table)
    (s : InWorld StoreSet) : Prop where
  keys : ((coreOver find).keys s).1 =
    (((find s.world s.set.store).keys s.world).1.map fun _ => texts t).mapError fault
  count : ((coreOver find).count s).1 =
    (((find s.world s.set.store).keys s.world).1.map fun _ => (texts t).length).mapError fault
  has : ∀ k, ((coreOver find).has k s).1 =
    (((find s.world s.set.store).lookup (.text k) s.world).1.map fun _ =>
      (texts t).contains k).mapError fault
  get : ∀ k v, ((find s.world s.set.store).lookup (.text k) s.world).1 = .ok v →
    (((coreOver find).get k s).1 = .error (.keyNotFound k) ↔ k ∉ texts t) ∧
      Gets s.set.plugins k (t.get? (.text k)) ((coreOver find).get k s).1
  /-- Unless the removal fails otherwise than for a key that is missing. -/
  remove : ∀ k, (∀ e, ((find s.world s.set.store).remove (.text k) s.world).1 = .error e →
      ∃ k', e = .keyNotFound k') →
    (((coreOver find).remove k s).1 = .error (.keyNotFound k) ↔ k ∉ texts t) ∧
      (((coreOver find).remove k s).1 = .ok () ↔ k ∈ texts t)

/-- A set over a store with a table shows the texts among the keys of the table. -/
theorem showsTexts (h : HoldsTable (fun w => find w s.set.store) Is) (ht : Is t s.world) :
    ShowsTexts find t s := by
  -- The keys that are no texts are left out before those that are left are put in order.
  have hkeys : (keysOf (find s.world s.set.store) s.world).1 =
      (((find s.world s.set.store).keys s.world).1.map fun _ => texts t).mapError fault := by
    rw [keysOf_apply]
    rcases hx : (find s.world s.set.store).keys s.world with ⟨e | ks, w'⟩
    · rfl
    · exact congrArg Except.ok (mergeSort_texts ((h.keys ht hx).2 ks rfl))
  constructor
  case keys => exact hkeys
  case count =>
    show ((List.length <$> keysOf (find s.world s.set.store)) s.world).1 = _
    rw [map_apply, hkeys]
    cases ((find s.world s.set.store).keys s.world).1 <;> rfl
  case has =>
    intro k
    show (hasIn (find s.world s.set.store) k s.world).1 = _
    rw [hasIn_apply]
    rcases hx : (find s.world s.set.store).lookup (.text k) s.world with ⟨e | v, w'⟩
    · rfl
    · rw [(h.lookup _ ht hx).2 v rfl]
      refine congrArg Except.ok (Bool.eq_iff_iff.2 ?_)
      rw [List.contains_iff_mem, mem_texts]
  case get =>
    intro k v hv
    obtain rfl := (h.lookup (.text k) ht rfl).2 v hv
    have hgets : Gets s.set.plugins k (t.get? (.text k)) ((coreOver find).get k s).1 :=
      gets_getFrom hv
    refine ⟨?_, hgets⟩
    rw [hgets.missing_iff, mem_texts]
    cases t.get? (.text k) <;> simp
  case remove =>
    intro k hk
    show ((removeFrom _ k s.world).1 = _ ↔ _) ∧ ((removeFrom _ k s.world).1 = _ ↔ _)
    rw [removeFrom_apply, mem_texts]
    -- The key is removed, it is missing, or the store fails, and then not for a missing key.
    rcases h.remove (.text k) ht rfl with ⟨hx, hsome, -⟩ | ⟨⟨k', hx⟩, hnone, -⟩ | ⟨⟨e, hx, he⟩, -⟩
    · rw [hx]
      simp [Except.mapError, hsome]
    · rw [hx]
      simp [Except.mapError, hnone, faultAt]
    · obtain ⟨k', rfl⟩ := hk e hx
      exact absurd rfl (he k')

/-! ### Texts and nothing else -/

/-- A set over any store that holds a table sees the texts among its keys and nothing else, and no
requests change a value under a key that is no text. A store that fails is never taken for one
without a value: whatever the store, a request that comes to an operation that fails has the same
fault. The stores of the world hold tables, and a set over a store is one over a store of the
world. -/
theorem texts_only (h : HoldsTable (fun w => find w s.set.store) Is) (ht : Is t s.world) :
    (∀ qs, ∃ t',
      let s' := SetRequest.after (coreOver find) qs s
      Is t' s'.world ∧ OthersKept t t' ∧
        (texts t').Pairwise (compare · · = .lt) ∧
        (∀ k, k ∈ texts t' ↔ (t'.get? (.text k)).isSome) ∧ ShowsTexts find t' s') ∧
    (∀ (find : World → StoreRef → KeyValueStore World) (s : InWorld StoreSet) (q : SetRequest)
      (e : StoreError), Fails find s q e →
      (q.run (coreOver find) s).1 = .error (fault e) ∧ (∀ k, fault e ≠ .keyNotFound k) ∧
        ∀ name, e = .readOnly name → fault e = .readOnly (pluginName ++ " over " ++ name)) ∧
    core = coreOver World.storeAt ∧
    ∀ r, HoldsTable (fun w => w.storeAt r) (World.HasTable r) := by
  refine ⟨fun qs => ?_, fun find s q e he => ?_, core_eq_coreOver, World.holdsTable_storeAt⟩
  · obtain ⟨hset, t', ht', hkept⟩ := sparing_after h qs ⟨rfl, t, ht, .refl t⟩
    rw [← hset] at h
    exact ⟨t', ht', hkept, pairwise_texts, fun k => mem_texts, showsTexts h ht'⟩
  · refine ⟨run_of_fails he, fault_ne_keyNotFound e, ?_⟩
    rintro name rfl
    rfl

/-- A store in memory has a number and two texts as keys, and the value under one of the texts is
removed. A plain store is down. -/
theorem texts_only_mixed :
    let p : Plugins := { backends := .empty }
    let t : Table := .ofList [(.int 7, .null), (.text "b", .null), (.text "a", .bool true)]
    let w : World :=
      { World.ofDisk (.fresh ["work"] "tmp") with
        stores :=
          [{ kind := .memory none, table := t }, { kind := .plain false true, table := t }] }
    let s : InWorld StoreSet := { set := { store := 0, plugins := p }, world := w }
    let s' := SetRequest.after core [.remove "b"] s
    (s'.world.store 0).table.get? (.int 7) = some .null ∧
      (core.keys s').1 = .ok ["a"] ∧ (core.get "b" s').1 = .error (.keyNotFound "b") ∧
      (SetRequest.count.run core { set := { store := 1, plugins := p }, world := w }).1 =
        .error (.store (.table World.plainStoreName .timeout)) := by
  intro p t w s s'
  obtain ⟨hqs, hfails, -, -⟩ :=
    texts_only (s := s) (World.holdsTable_storeAt 0) ⟨Nat.two_pos, rfl⟩
  obtain ⟨t', ⟨-, ht'⟩, hkept, -, -, hshows⟩ := hqs [.remove "b"]
  have htexts : texts t' = ["a"] := by
    rw [← ht']
    decide +kernel
  refine ⟨?_, ?_, ?_, ?_⟩
  · -- The number stays, although the set does not show it.
    have hsame := hkept (.int 7) nofun
    rw [← ht'] at hsame
    exact hsame.trans (by decide +kernel)
  · rw [← htexts]
    exact hshows.keys
  · refine (hshows.get "b" none (by decide +kernel)).1.2 ?_
    rw [htexts]
    decide
  · exact (hfails World.storeAt { set := { store := 1, plugins := p }, world := w } .count
      (.table World.plainStoreName .timeout) (.keys (.inr (.inl rfl)) rfl)).1

end StoreSet

end Depot
