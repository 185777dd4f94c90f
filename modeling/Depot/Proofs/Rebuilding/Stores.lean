import Depot.Proofs.Rebuilding.Elements
import Depot.Proofs.Store.Reopening
/-!
# Stores built again

A store that a descriptor has been built as is in memory, over no element or over one that holds its
table. Its own descriptor leads to a store over an element with the same source, so with the same
table.
-/

namespace Depot

open Json Depot.Action

/-- Two stores, each in its world, show the same: their name and parameters, whether they may be
changed, and the keys and values that they hold. -/
structure SameStore (w : World) (r : StoreRef) (w' : World) (r' : StoreRef) : Prop where
  name : (w'.storeAt r').name = (w.storeAt r).name
  config : w'.storeConfig r' = w.storeConfig r
  isReadOnly : (w'.storeAt r').isReadOnly w' = (w.storeAt r).isReadOnly w
  keys : ((w'.storeAt r').keys w').1 = ((w.storeAt r).keys w).1
  lookup : ∀ k, ((w'.storeAt r').lookup k w').1 = ((w.storeAt r).lookup k w).1

variable {p : Plugins} {d : Descriptor} {w w' w₂ : World} {r r' : StoreRef} {e : ElementRef}
  {cs : Option Source} {t : Table} {o : Object} {cache : Option ElementRef}

/-! ### What elements hold -/

/-- A table is what a source holds; without a source it is empty. -/
def World.Holds (w : World) (t : Table) : Option Source → Prop
  | none   => t = .empty
  | some s => ∃ b, s.content w.disk w.backends = .ok b ∧ tableIn b = some t

theorem World.SameContents.holds (hw : w.SameContents w') (h : w.Holds t cs) : w'.Holds t cs := by
  cases cs with
  | none => exact h
  | some s =>
    obtain ⟨b, hb, ht⟩ := h
    refine ⟨b, ?_, ht⟩
    rw [hw.disk, hw.backends]
    exact hb

/-- A world with a new element, if there is a source for one. -/
def World.withCache (w : World) (cs : Option Source) : World :=
  { w with elements := w.elements ++ (cs.map .ofSource).toList }

theorem World.grown_withCache (w : World) (cs : Option Source) : w.Grown (w.withCache cs) :=
  ⟨_, rfl⟩

section

variable {s : Source}

theorem World.lt_withCache : w.elements.length < (w.withCache (some s)).elements.length := by
  simp [withCache]

theorem World.source_withCache : (w.withCache (some s)).source w.elements.length = s :=
  source_newElement

/-- The new element has the content of its source. -/
theorem World.contentOf_withCache :
    (w.withCache (some s)).contentOf w.elements.length = s.content w.disk w.backends := by
  show ((w.withCache (some s)).source w.elements.length).content w.disk w.backends = _
  rw [source_withCache]

end

theorem Plugins.newCache_apply (cs : Option Source) (w : World) :
    newCache cs w = (.ok (cs.map fun _ => w.elements.length), w.withCache cs) := by
  cases cs with
  | none =>
    show (Except.ok none, w) = _
    simp [World.withCache]
  | some s => rfl

namespace World

theorem loadTable_eq_ok (he : e < w.elements.length) :
    loadTable e w = (.ok t, w') ↔ w.Holds t (some (w.source e)) ∧ w' = w := by
  rw [loadTable_apply he]
  constructor
  · intro h
    cases hb : w.contentOf e with
    | error x =>
      rw [hb] at h
      cases h
    | ok b =>
      rw [hb] at h
      dsimp only at h
      cases ht : tableIn b with
      | none =>
        rw [ht] at h
        cases h
      | some t' =>
        rw [ht] at h
        cases h
        exact ⟨⟨b, hb, ht⟩, rfl⟩
  · rintro ⟨⟨b, hb, ht⟩, rfl⟩
    have hcontent : w'.contentOf e = .ok b := hb
    rw [hcontent]
    dsimp only
    rw [ht]

/-- A world with a new store in memory. -/
def withStoreOver (w : World) (cache : Option ElementRef) (t : Table) : World :=
  { w with stores := w.stores ++ [⟨.memory cache, t⟩] }

theorem openStore_eq_ok (he : e < w.elements.length) : openStore e w = (.ok r, w') ↔
    ∃ t, w.Holds t (some (w.source e)) ∧ r = w.stores.length ∧ w' = w.withStoreOver (some e) t := by
  unfold openStore
  rw [bind_eq_ok]
  constructor
  · rintro ⟨t, w₁, hload, hnew⟩
    obtain ⟨ht, rfl⟩ := (loadTable_eq_ok he).1 hload
    cases hnew
    exact ⟨t, ht, rfl, rfl⟩
  · rintro ⟨t, ht, rfl, rfl⟩
    exact ⟨t, w, (loadTable_eq_ok he).2 ⟨ht, rfl⟩, rfl⟩

end World

/-! ### Stores over what elements hold -/

/-- A store is in memory, over an element with a source if there is one, and has a table. -/
structure StoreOf (w : World) (r : StoreRef) (cs : Option Source) (t : Table) : Prop where
  cache : ∃ cache, (w.store r).kind = .memory cache ∧ cache.map w.source = cs
  table : (w.store r).table = t

namespace StoreOf

theorem storeAt (h : StoreOf w r cs t) : w.storeAt r = World.memoryStore r := by
  obtain ⟨cache, hkind, -⟩ := h.cache
  rw [World.storeAt, hkind]

theorem config (h : StoreOf w r cs t) :
    w.storeConfig r = [("cache_element", Plugins.cacheValue cs)] := by
  obtain ⟨cache, hkind, rfl⟩ := h.cache
  rw [World.storeConfig, hkind]
  cases cache <;> rfl

theorem descriptor (h : StoreOf w r cs t) : w.storeDescriptor r =
    .selecting World.memoryStoreName [("cache_element", Plugins.cacheValue cs)] := by
  rw [World.storeDescriptor, h.storeAt, h.config]
  rfl

theorem isReadOnly (h : StoreOf w r cs t) :
    (w.storeAt r).isReadOnly w = cs.any fun s => !s.writable := by
  rw [h.storeAt]
  obtain ⟨cache, hkind, rfl⟩ := h.cache
  show w.cacheIsReadOnly r = _
  rw [World.cacheIsReadOnly, World.cacheOf, hkind]
  cases cache <;> rfl

theorem keys (h : StoreOf w r cs t) : ((w.storeAt r).keys w).1 = .ok t.keys := by
  rw [h.storeAt, ← h.table]
  rfl

theorem lookup (h : StoreOf w r cs t) (k : Key) :
    ((w.storeAt r).lookup k w).1 = .ok (t.get? k) := by
  rw [h.storeAt, ← h.table]
  rfl

/-- Stores over elements with the same source and with the same table show the same. -/
theorem sameStore (h : StoreOf w r cs t) (h' : StoreOf w' r' cs t) : SameStore w r w' r' := by
  constructor
  case name => rw [h.storeAt, h'.storeAt]; rfl
  case config => rw [h.config, h'.config]
  case isReadOnly => rw [h.isReadOnly, h'.isReadOnly]
  case keys => rw [h.keys, h'.keys]
  case lookup =>
    intro k
    rw [h.lookup, h'.lookup]

end StoreOf

namespace World

theorem map_source_withCache (w : World) (cs : Option Source) :
    (cs.map fun _ => w.elements.length).map (w.withCache cs).source = cs := by
  cases cs with
  | none => rfl
  | some s => exact congrArg some source_withCache

theorem storeOf_withStoreOver (hcs : cache.map w.source = cs) :
    StoreOf (w.withStoreOver cache t) w.stores.length cs t := by
  have hstore : (w.withStoreOver cache t).store w.stores.length = ⟨.memory cache, t⟩ := by
    simp [store, withStoreOver]
  constructor
  · rw [hstore]
    exact ⟨cache, rfl, hcs⟩
  · rw [hstore]

end World

/-! ### Building stores -/

namespace Plugins

/-- A store is built from an optional element exactly if there is a table in it. -/
theorem memoryStoreOf_eq_ok (ho : p.element? (Assoc.get? "cache_element" o) w = newCache cs w) :
    p.memoryStoreOf o w = (.ok r, w') ↔ ∃ t, w.Holds t cs ∧ r = w.stores.length ∧
      w' = (w.withCache cs).withStoreOver (cs.map fun _ => w.elements.length) t := by
  unfold memoryStoreOf
  rw [bind_apply, mapError_apply, ho, newCache_apply]
  cases cs with
  | none =>
    constructor
    · intro h
      cases h
      exact ⟨.empty, rfl, rfl, rfl⟩
    · rintro ⟨t, rfl, rfl, rfl⟩
      rfl
  | some s =>
    have he := World.lt_withCache (w := w) (s := s)
    have hsame := World.SameContents.grown (w.grown_withCache (some s))
    show mapError StoreError.message (World.openStore w.elements.length)
      (w.withCache (some s)) = _ ↔ _
    rw [mapError_eq_ok, World.openStore_eq_ok he, World.source_withCache]
    constructor
    · rintro ⟨t, ht, rfl, rfl⟩
      exact ⟨t, hsame.symm.holds ht, rfl, rfl⟩
    · rintro ⟨t, ht, rfl, rfl⟩
      exact ⟨t, hsame.holds ht, rfl, rfl⟩

theorem mem_judged_stores {g : Registration (Constructor StoreRef)}
    (hg : (g, none) ∈ p.stores.judged) :
    g = ⟨World.memoryStoreName, .usable, memoryStoreDefaults, p.memoryStoreOf⟩ := by
  rw [judged_stores] at hg
  simp only [stores, List.map_cons, List.map_nil, List.mem_singleton] at hg
  exact congrArg Prod.fst hg

/-- A descriptor is built as a store over what an optional source holds. -/
theorem store_eq_ok (h : p.store d w = (.ok r, w')) : ∃ cs t, (∀ s ∈ cs, p.Accepts s) ∧
    w.Holds t cs ∧ StoreOf w' r cs t ∧ w.SameContents w' := by
  obtain ⟨g, params, hg, hbuilt⟩ := Registry.resolve_eq_ok h
  cases mem_judged_stores hg
  have hbuilt : p.memoryStoreOf (Config.merge memoryStoreDefaults params) w = (.ok r, w') := hbuilt
  obtain ⟨cs, hcs, ho⟩ := exists_newCache hbuilt
  obtain ⟨t, ht, rfl, rfl⟩ := (memoryStoreOf_eq_ok ho).1 hbuilt
  exact ⟨cs, t, hcs, ht, World.storeOf_withStoreOver (w.map_source_withCache cs), ⟨rfl, rfl⟩⟩

/-- The descriptor of such a store builds one over the same. -/
theorem store_selecting (hcs : ∀ s ∈ cs, p.Accepts s) (ht : w.Holds t cs) :
    ∃ r w', p.store (.selecting World.memoryStoreName [("cache_element", cacheValue cs)]) w =
      (.ok r, w') ∧ StoreOf w' r cs t ∧ w.SameContents w' := by
  refine ⟨_, _, ?_, World.storeOf_withStoreOver (w.map_source_withCache cs), ⟨rfl, rfl⟩⟩
  refine Registry.resolve_selecting (g := p.stores)
    (r := ⟨World.memoryStoreName, .usable, memoryStoreDefaults, p.memoryStoreOf⟩) ?_ rfl ?_
  · rw [judged_stores]
    exact List.mem_singleton_self _
  · have hmerge : Config.merge memoryStoreDefaults [("cache_element", cacheValue cs)] =
        [("cache_element", cacheValue cs)] := merge_cacheValue cs
    refine (memoryStoreOf_eq_ok ?_).2 ⟨t, ht, rfl, rfl⟩
    rw [hmerge]
    exact element?_cacheValue hcs w

theorem restorable_cacheValue (hcs : ∀ s ∈ cs, p.Accepts s) :
    Config.Restorable (cacheValue cs) := by
  cases cs with
  | none => exact Descriptor.restorable_empty
  | some s => exact (restorable_descriptor (hcs s rfl)).toValue

/-- Parameters of one name are given back if the value is. -/
theorem restorable_singleton {key : String} {v : Value} (hk : Config.isSegment key = true)
    (hv : Config.Restorable v) : Config.Restorable (.object [(key, v)]) :=
  ⟨⟨List.pairwise_singleton _ _, hv.ordered, trivial⟩, hk, hv.portable, trivial⟩

theorem StoreOf.restorable (hcs : ∀ s ∈ cs, p.Accepts s) (h : StoreOf w r cs t) :
    (w.storeDescriptor r).Restorable := by
  rw [h.descriptor]
  exact .selecting (by decide) (by decide)
    (restorable_singleton (by decide) (restorable_cacheValue hcs))

/-- The descriptor of a store builds a store that shows the same. -/
theorem store_rebuilt (h : p.store d w = (.ok r, w')) (hw : w'.SameContents w₂) :
    (w'.storeDescriptor r).Restorable ∧ ∃ r₂ w₃,
      p.store (w'.storeDescriptor r) w₂ = (.ok r₂, w₃) ∧ SameStore w' r w₃ r₂ := by
  obtain ⟨cs, t, hcs, ht, hstore, hsame⟩ := store_eq_ok h
  obtain ⟨r₂, w₃, hbuilt, hstore₂, -⟩ := store_selecting hcs ((hsame.trans hw).holds ht)
  refine ⟨StoreOf.restorable hcs hstore, r₂, w₃, ?_, hstore.sameStore hstore₂⟩
  rw [hstore.descriptor]
  exact hbuilt

end Plugins

end Depot
