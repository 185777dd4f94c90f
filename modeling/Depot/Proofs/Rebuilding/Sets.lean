import Depot.Proofs.Json.Integers
import Depot.Proofs.Rebuilding.Stores
import Depot.Proofs.Set.AnyStore
import Depot.Proofs.Set.Refusing
import Depot.Proofs.Set.Rescanning
/-!
# Data sets built again

The descriptor of a data set leads to one of the same kind: over an element with the same source,
over a store with the same table, or at the same root. Where files and contents are as before it has
the same keys, and under each of them an element that shows the same.
-/

namespace Depot

open Json Depot.Action
open MemorySet (Tells Has Alike)

/-- Two attempts to find an element, each in its world, end with the same fault or with elements
that show the same. -/
inductive SameFound [MediaTypes] (w w' : World) :
    Except SetError ElementRef → Except SetError ElementRef → Prop
  | found {r r' : ElementRef} : SameElement w r w' r' → SameFound w w' (.ok r) (.ok r')
  | failed (e : SetError) : SameFound w w' (.error e) (.error e)

/-- Two data sets, each in its world, show the same: their name and parameters, whether they are
read-only, their keys, and what they have under each key. -/
structure SameSet [MediaTypes] (w : World) (s : DataSet) (w' : World) (s' : DataSet) : Prop where
  pluginName : s'.pluginName = s.pluginName
  config : s'.config w' = s.config w
  refuses : ∀ k, s'.Refuses w' k ↔ s.Refuses w k
  keys : (DataSet.core.keys ⟨s', w'⟩).1 = (DataSet.core.keys ⟨s, w⟩).1
  get : ∀ k, SameFound (DataSet.core.get k ⟨s, w⟩).2.world (DataSet.core.get k ⟨s', w'⟩).2.world
    (DataSet.core.get k ⟨s, w⟩).1 (DataSet.core.get k ⟨s', w'⟩).1

variable {p : Plugins} {d : Descriptor} {w w' w₂ : World} {r r' : StoreRef} {k : ElementKey}
  {cs : Option Source} {t : Table} {o : Object} {s s' : DataSet} {m m' : MemorySet}
  {ss : List (ElementKey × Source)}

/-! ### In memory -/

namespace MemorySet

/-- A set in memory is over an element with a source, if there is one, and has elements with some
sources. -/
structure SetOf (w : World) (m : MemorySet) (cs : Option Source)
    (ss : List (ElementKey × Source)) : Prop where
  cache : m.cache.map w.source = cs
  elements : ∃ es, m.elements = .ofList es ∧
    List.Forall₂ (fun s e => e.1 = s.1 ∧ Has w s.2 e.2) ss es

/-- The elements that the content of a source tells; none without a source. -/
def TellsOf (p : Plugins) (w : World) (ss : List (ElementKey × Source)) : Option Source → Prop
  | none   => ss = []
  | some s => ∃ b, s.content w.disk w.backends = .ok b ∧ Tells p b ss

theorem TellsOf.same (h : TellsOf p w ss cs) (hw : w.SameContents w') : TellsOf p w' ss cs := by
  cases cs with
  | none => exact h
  | some s =>
    obtain ⟨b, hb, hss⟩ := h
    refine ⟨b, ?_, hss⟩
    rw [hw.disk, hw.backends]
    exact hb

namespace SetOf

theorem ofNone : SetOf w .empty none [] := ⟨rfl, [], rfl, .nil⟩

/-- The cache element is the new one, and the elements have been built after it. -/
theorem ofSome {src : Source} {es : List (ElementKey × ElementRef)}
    (hw : (w.withCache (some src)).Grown w')
    (hes : List.Forall₂ (fun s e => e.1 = s.1 ∧ Has w' s.2 e.2) ss es) :
    SetOf w' ⟨.ofList es, some w.elements.length⟩ (some src) ss := by
  refine ⟨?_, es, rfl, hes⟩
  exact congrArg some ((hw.gains.source World.lt_withCache).trans World.source_withCache)

theorem config (h : SetOf w m cs ss) :
    m.config w = [("cache_element", Plugins.cacheValue cs)] := by
  obtain ⟨rfl, -⟩ := h
  rw [MemorySet.config]
  cases m.cache <;> rfl

theorem isReadOnly (h : SetOf w m cs ss) :
    (DataSet.memory m).isReadOnly w = cs.any fun s => !s.writable := by
  obtain ⟨rfl, -⟩ := h
  show m.cache.any _ = _
  rw [Option.any_map]

theorem sameSet [MediaTypes] (h : SetOf w m cs ss) (h' : SetOf w' m' cs ss)
    (hw : w.SameContents w') :
    SameSet w (.memory m) w' (.memory m') := by
  obtain ⟨es, hes, hhas⟩ := h.elements
  obtain ⟨es', hes', hhas'⟩ := h'.elements
  have halike : Alike w m.elements w' m'.elements := by
    rw [hes, hes']
    exact alike_of_tells hhas hhas'
  constructor
  case pluginName => rfl
  case config =>
    show m'.config w' = m.config w
    rw [h.config, h'.config]
  case refuses =>
    intro k
    rw [DataSet.refuses_iff, DataSet.refuses_iff, h.isReadOnly, h'.isReadOnly]
  case keys => exact congrArg Except.ok halike.keys
  case get =>
    intro k
    have hk := halike k
    show SameFound w w' (find m.elements k) (find m'.elements k)
    unfold find
    generalize m.elements.get? k = found at hk ⊢
    generalize m'.elements.get? k = found' at hk ⊢
    cases hk with
    | none => exact .failed _
    | some hr => exact .found (hw.sameElement hr.2)

end SetOf

end MemorySet

/-! ### Over stores -/

namespace StoreSet

theorem keysOf_of_storeOf (h : StoreOf w r cs t) : (keysOf (w.storeAt r) w).1 =
    .ok ((t.keys.filterMap elementKey?).mergeSort fun a b => (compare a b).isLE) := by
  rw [h.storeAt, ← h.table]
  rfl

/-- An element is built from its descriptor in the table. -/
theorem getFrom_of_storeOf (h : StoreOf w r cs t) : getFrom (w.storeAt r) p k w =
    match t.get? (.text k) with
    | none   => (.error (.keyNotFound k), w)
    | some v =>
      match descriptorOf k v with
      | .error e => (.error e, w)
      | .ok d    => ((p.element d w).1.mapError .plugin, (p.element d w).2) := by
  have hlookup : (w.storeAt r).lookup (.text k) w = (.ok (t.get? (.text k)), w) := by
    rw [h.storeAt, ← h.table]
    rfl
  rw [getFrom_apply, hlookup]
  cases t.get? (.text k) <;> rfl

/-- A descriptor builds elements that show the same, or it fails in the same way. -/
theorem sameFound_element [MediaTypes] (d : Descriptor) (hw : w.SameContents w') :
    SameFound (p.element d w).2 (p.element d w').2 ((p.element d w).1.mapError .plugin)
      ((p.element d w').1.mapError .plugin) := by
  obtain ⟨x, hx⟩ := p.element_steady d
  rw [hx w, hx w']
  cases x with
  | error e => exact .failed _
  | ok s =>
    refine .found (World.SameContents.sameElement ⟨hw.disk, hw.backends⟩ ?_)
    exact World.source_newElement.trans World.source_newElement.symm

/-- Sets over stores with the same table, over elements with the same source, show the same. -/
theorem sameSet [MediaTypes] (h : StoreOf w r cs t) (h' : StoreOf w' r' cs t)
    (hw : w.SameContents w') :
    SameSet w (.overStore ⟨r, p⟩) w' (.overStore ⟨r', p⟩) := by
  have hstore := h.sameStore h'
  constructor
  case pluginName => rfl
  case config =>
    show [("kvstore", (w'.storeDescriptor r').toValue)] =
      [("kvstore", (w.storeDescriptor r).toValue)]
    rw [h.descriptor, h'.descriptor]
  case refuses =>
    intro k
    rw [DataSet.refuses_iff, DataSet.refuses_iff]
    exact Bool.coe_iff_coe.2 hstore.isReadOnly
  case keys =>
    show (keysOf (w'.storeAt r') w').1 = (keysOf (w.storeAt r) w).1
    rw [keysOf_of_storeOf h, keysOf_of_storeOf h']
  case get =>
    intro k
    show SameFound (getFrom (w.storeAt r) p k w).2 (getFrom (w'.storeAt r') p k w').2
      (getFrom (w.storeAt r) p k w).1 (getFrom (w'.storeAt r') p k w').1
    rw [getFrom_of_storeOf h, getFrom_of_storeOf h']
    cases t.get? (.text k) with
    | none => exact .failed _
    | some v =>
      dsimp only
      cases descriptorOf k v with
      | error e => exact .failed _
      | ok d => exact sameFound_element d hw

end StoreSet

/-! ### In directory trees -/

namespace TreeSet

/-- Sets at one root with the same entries show the same. -/
theorem sameSet [MediaTypes] {t : TreeSet} {entries : Dict ElementKey TreeEntry}
    (h : SameEntries w t.entries w' entries) (hw : w.SameContents w') :
    SameSet w (.tree t) w' (.tree { t with entries := entries }) := by
  constructor
  case pluginName => rfl
  case config => rfl
  case refuses =>
    intro k
    rw [DataSet.refuses_iff, DataSet.refuses_iff]
    exact Iff.rfl
  case keys =>
    refine congrArg Except.ok (Dict.keys_congr fun k => ?_)
    have hk := h k
    generalize t.entries.get? k = found at hk ⊢
    generalize entries.get? k = found' at hk ⊢
    cases hk <;> rfl
  case get =>
    intro k
    have hk := h k
    show SameFound w w' (t.find k) (find { t with entries := entries } k)
    unfold find
    dsimp only
    generalize t.entries.get? k = found at hk ⊢
    generalize entries.get? k = found' at hk ⊢
    cases hk with
    | none => exact .failed _
    | some he =>
      obtain ⟨-, s, hs, hs'⟩ := he
      exact .found (hw.sameElement (hs'.2.trans hs.2.symm))

end TreeSet

/-! ### Building sets -/

namespace Plugins

theorem memorySetOf_none (ho : p.element? (Assoc.get? "cache_element" o) w = newCache none w) :
    p.memorySetOf o w = (.ok (.memory .empty), w) := by
  unfold memorySetOf
  rw [bind_apply, mapError_apply, ho]
  rfl

theorem memorySetOf_some {src : Source}
    (ho : p.element? (Assoc.get? "cache_element" o) w = newCache (some src) w) :
    p.memorySetOf o w = (.ok s, w') ↔
      ∃ es, MemorySet.load p w.elements.length (w.withCache (some src)) = (.ok es, w') ∧
        s = .memory ⟨es, some w.elements.length⟩ := by
  unfold memorySetOf
  rw [bind_apply, mapError_apply, ho, newCache_apply]
  show (DataSet.memory <$> mapError SetError.message (MemorySet.openCached p w.elements.length))
    (w.withCache (some src)) = _ ↔ _
  constructor
  · intro h
    obtain ⟨m, hm, rfl⟩ := map_eq_ok.1 h
    obtain ⟨es, w₁, hload, hset⟩ := bind_eq_ok.1 (mapError_eq_ok.1 hm)
    cases hset
    exact ⟨es, hload, rfl⟩
  · rintro ⟨es, hload, rfl⟩
    exact map_eq_ok.2 ⟨_, mapError_eq_ok.2 (bind_eq_ok.2 ⟨es, w', hload, rfl⟩), rfl⟩

/-- A set in memory has the elements that the content of its source tells. -/
theorem memorySetOf_eq_ok (ho : p.element? (Assoc.get? "cache_element" o) w = newCache cs w)
    (h : p.memorySetOf o w = (.ok s, w')) : ∃ m ss, s = .memory m ∧ MemorySet.TellsOf p w ss cs ∧
      MemorySet.SetOf w' m cs ss ∧ w.SameContents w' := by
  cases cs with
  | none =>
    rw [memorySetOf_none ho] at h
    cases h
    exact ⟨_, [], rfl, rfl, .ofNone, .refl w⟩
  | some src =>
    obtain ⟨es, hload, rfl⟩ := (memorySetOf_some ho).1 h
    obtain ⟨b, ss, hb, hss⟩ := MemorySet.tells_of_load World.lt_withCache hload
    obtain ⟨es', w₁, hload', hgrown, hes⟩ := MemorySet.load_of_tells World.lt_withCache hb hss
    cases hload.symm.trans hload'
    rw [World.contentOf_withCache] at hb
    exact ⟨_, ss, rfl, ⟨b, hb, hss⟩, .ofSome hgrown hes,
      .trans (.grown (w.grown_withCache _)) (.grown hgrown)⟩

theorem memorySetOf_ok (ho : p.element? (Assoc.get? "cache_element" o) w = newCache cs w)
    (h : MemorySet.TellsOf p w ss cs) : ∃ m w', p.memorySetOf o w = (.ok (.memory m), w') ∧
      MemorySet.SetOf w' m cs ss ∧ w.SameContents w' := by
  cases cs with
  | none =>
    subst h
    rw [memorySetOf_none ho]
    exact ⟨_, w, rfl, .ofNone, .refl w⟩
  | some src =>
    obtain ⟨b, hb, hss⟩ := h
    rw [← World.contentOf_withCache] at hb
    obtain ⟨es, w₁, hload, hgrown, hes⟩ := MemorySet.load_of_tells World.lt_withCache hb hss
    exact ⟨_, w₁, (memorySetOf_some ho).2 ⟨_, hload, rfl⟩, .ofSome hgrown hes,
      .trans (.grown (w.grown_withCache _)) (.grown hgrown)⟩

/-- A set over a store is built if the store is. -/
theorem storeSetOf_eq_ok (h : p.storeSetOf o w = (.ok s, w')) :
    ∃ d r, s = .overStore ⟨r, p⟩ ∧ p.store d w = (.ok r, w') := by
  obtain ⟨found, w₁, hfound, hset⟩ := bind_eq_ok.1 h
  have hfound := mapError_eq_ok.1 hfound
  unfold store? Registry.resolveOptional at hfound
  cases hd : Descriptor.ofOptional p.stores.contract (Assoc.get? "kvstore" o) with
  | error e =>
    rw [hd] at hfound
    cases hfound
  | ok selected =>
    rw [hd] at hfound
    cases selected with
    | none =>
      cases hfound
      cases hset
    | some d =>
      obtain ⟨r, hr, rfl⟩ := map_eq_ok.1 hfound
      cases hset
      exact ⟨d, r, rfl, hr⟩

theorem storeSetOf_ok (hd : d.Restorable) (ho : Assoc.get? "kvstore" o = some d.toValue)
    (hs : d.selected.isSome = true) (h : p.store d w = (.ok r, w')) :
    p.storeSetOf o w = (.ok (.overStore ⟨r, p⟩), w') := by
  have hof : Descriptor.ofOptional p.stores.contract (some d.toValue) = .ok (some d) := by
    show (Descriptor.ofObject p.stores.contract d.toObject >>= _) = _
    rw [hd.ofObject]
    show Except.ok (if d.selected.isSome then some d else none) = _
    rw [if_pos hs]
  have hstore : p.store? (some d.toValue) w = (.ok (some r), w') := by
    unfold store? Registry.resolveOptional
    rw [hof]
    exact map_eq_ok.2 ⟨r, h, rfl⟩
  unfold storeSetOf
  rw [ho]
  exact bind_eq_ok.2 ⟨some r, w', mapError_eq_ok.2 hstore, rfl⟩

/-- The descriptor of a store leaves nothing to the default. -/
theorem merge_storeValue (cs : Option Source) :
    Config.merge storeSetDefaults [("kvstore", (Descriptor.selecting World.memoryStoreName
      [("cache_element", cacheValue cs)]).toValue)] =
    [("kvstore", (Descriptor.selecting World.memoryStoreName
      [("cache_element", cacheValue cs)]).toValue)] := by
  have hmerge := merge_cacheValue cs
  unfold Config.merge at hmerge ⊢
  rw [Descriptor.toValue, Descriptor.toObject_selecting (by decide)]
  show [("kvstore", Value.object (Config.mergeMembers
    (Descriptor.selecting World.memoryStoreName memoryStoreDefaults).toObject
    [(World.memoryStoreName, .object [("cache_element", cacheValue cs)]),
      (typeKey, .string World.memoryStoreName)]))] = _
  rw [Descriptor.toObject_selecting (by decide)]
  show [("kvstore", Value.object [(World.memoryStoreName, .object (Config.mergeMembers
    memoryStoreDefaults [("cache_element", cacheValue cs)])),
      (typeKey, .string World.memoryStoreName)])] = _
  rw [memoryStoreDefaults, hmerge]

theorem treeSetOf_eq_ok (h : p.treeSetOf o w = (.ok s, w')) :
    ∃ q chunk t, s = .tree t ∧ TreeSet.openAt p q chunk w = (.ok t, w') := by
  obtain ⟨q, w₁, hq, hrest⟩ := bind_eq_ok.1 h
  obtain ⟨-, rfl⟩ := ofView_eq_ok.1 hq
  obtain ⟨chunk, w₂, hc, hopen⟩ := bind_eq_ok.1 hrest
  obtain ⟨-, rfl⟩ := ofView_eq_ok.1 hc
  obtain ⟨t, ht, rfl⟩ := map_eq_ok.1 hopen
  exact ⟨q, chunk, t, rfl, mapError_eq_ok.1 ht⟩

theorem rootOf_config (t : TreeSet) : rootOf t.config = .ok (TreeSet.pathText t.root) := by
  have hget : Assoc.get? "root_directory" t.config = some (.string (TreeSet.pathText t.root)) := rfl
  have hne : TreeSet.pathText t.root ≠ "" := by
    simp [TreeSet.pathText, Disk.Path.text, Disk.Path.ofLocation, ← String.toList_inj]
  unfold rootOf
  rw [hget]
  exact if_neg hne

theorem chunkOf_config {t : TreeSet} (h : t.chunk ≤ TreeSet.maxChunk) :
    chunkOf t.config = .ok t.chunk := by
  have hget : Assoc.get? "sha1_chunk" t.config =
      some (.number (.ofUInt64 (.ofNat t.chunk))) := rfl
  have hword : (UInt64.ofNat t.chunk).toNat = t.chunk := by
    unfold TreeSet.maxChunk at h
    rw [UInt64.toNat_ofNat', Nat.mod_eq_of_lt (by omega)]
  unfold chunkOf
  rw [hget]
  dsimp only
  rw [Value.nat?, Number.nat?_ofUInt64, hword]

/-- A set in a directory tree is built from its parameters as it is opened at its root. -/
theorem treeSetOf_config {t t' : TreeSet} (hc : t.chunk ≤ TreeSet.maxChunk)
    (h : TreeSet.openAt p (TreeSet.pathText t.root) t.chunk w = (.ok t', w')) :
    p.treeSetOf t.config w = (.ok (.tree t'), w') := by
  refine bind_eq_ok.2 ⟨_, w, ofView_eq_ok.2 ⟨rootOf_config t, rfl⟩, ?_⟩
  refine bind_eq_ok.2 ⟨_, w, ofView_eq_ok.2 ⟨chunkOf_config hc, rfl⟩, ?_⟩
  exact map_eq_ok.2 ⟨t', mapError_eq_ok.2 h, rfl⟩

/-! ### What descriptors of sets build -/

/-- The descriptor of a set is given back by a flat configuration, and it builds a set that shows
the same. -/
def Rebuilds [MediaTypes] (p : Plugins) (w : World) (s : DataSet) (w' : World) : Prop :=
  (s.descriptor w).Restorable ∧ ∃ s' w'',
    p.set (s.descriptor w) w' = (.ok s', w'') ∧ SameSet w s w'' s'

/-- So it is if the implementation builds such a set from its parameters. -/
theorem rebuilds_of_construct [MediaTypes] {g : Registration (Constructor DataSet)}
    {params : Object} (hg : g ∈ p.sets.registrations) (hname : g.name = s.pluginName)
    (hp : s.config w = params) (hrestorable : Config.Restorable (.object params))
    (h : g.construct (Config.merge g.defaults params) w' = (.ok s', w₂))
    (hsame : SameSet w s w₂ s') : p.Rebuilds w s w' := by
  have hnames : ∀ name ∈ [MemorySet.pluginName, StoreSet.pluginName, TreeSet.pluginName],
      compare name typeKey = .lt ∧ Config.isSegment name = true := by decide
  have hjudged : (g, none) ∈ p.sets.judged := by
    rw [judged_sets]
    exact List.mem_map_of_mem hg
  simp only [sets, List.mem_cons, List.not_mem_nil, or_false] at hg
  obtain ⟨hbefore, hsegment⟩ := hnames g.name (by rcases hg with rfl | rfl | rfl <;> simp)
  have husable : g.usability = .usable := by
    rcases hg with rfl | rfl | rfl <;> rfl
  have hdescriptor : s.descriptor w = .selecting g.name params := by
    rw [DataSet.descriptor, hname, hp]
  unfold Rebuilds
  rw [hdescriptor]
  exact ⟨.selecting hbefore hsegment hrestorable, s', w₂,
    Registry.resolve_selecting hjudged husable h, hsame⟩

theorem memorySet_rebuilt [MediaTypes] (h : p.memorySetOf o w = (.ok s, w'))
    (hw : w'.SameContents w₂) :
    p.Rebuilds w' s w₂ := by
  obtain ⟨cs, hcs, ho⟩ := exists_newCache h
  obtain ⟨m, ss, rfl, hss, hset, hsame⟩ := memorySetOf_eq_ok ho h
  obtain ⟨m₂, w₃, hbuilt, hset₂, hsame₂⟩ :=
    memorySetOf_ok (o := [("cache_element", cacheValue cs)]) (element?_cacheValue hcs w₂)
      (hss.same (hsame.trans hw))
  refine rebuilds_of_construct
    (g := ⟨MemorySet.pluginName, .usable, memorySetDefaults, p.memorySetOf⟩) (by simp [sets]) rfl
    hset.config (restorable_singleton (by decide) (restorable_cacheValue hcs)) ?_
    (hset.sameSet hset₂ (hw.trans hsame₂))
  rw [memorySetDefaults, merge_cacheValue]
  exact hbuilt

theorem storeSet_rebuilt [MediaTypes] (h : p.storeSetOf o w = (.ok s, w'))
    (hw : w'.SameContents w₂) :
    p.Rebuilds w' s w₂ := by
  obtain ⟨d, r, rfl, hr⟩ := storeSetOf_eq_ok h
  obtain ⟨cs, t, hcs, ht, hstore, hsame⟩ := store_eq_ok hr
  obtain ⟨r₂, w₃, hbuilt, hstore₂, hsame₂⟩ := store_selecting hcs ((hsame.trans hw).holds ht)
  have hd := StoreOf.restorable hcs hstore
  have hconfig : (DataSet.overStore ⟨r, p⟩).config w' =
      [("kvstore", (w'.storeDescriptor r).toValue)] := rfl
  rw [hstore.descriptor] at hd hconfig
  refine rebuilds_of_construct
    (g := ⟨StoreSet.pluginName, .usable, storeSetDefaults, p.storeSetOf⟩) (by simp [sets]) rfl
    hconfig (restorable_singleton (by decide) hd.toValue) ?_
    (StoreSet.sameSet hstore hstore₂ (hw.trans hsame₂))
  rw [merge_storeValue]
  exact storeSetOf_ok hd rfl rfl hbuilt

theorem treeSet_rebuilt [MediaTypes] (hd : w.disk.Proper) (hn : w.disk.Named)
    (h : p.treeSetOf o w = (.ok s, w')) (hw : w'.SameContents w₂) : p.Rebuilds w' s w₂ := by
  obtain ⟨q, chunk, t, rfl, hopen⟩ := treeSetOf_eq_ok h
  obtain ⟨hchunk, rfl, -⟩ := TreeSet.scan_of_openAt hd.toTree hopen
  obtain ⟨entries, w₃, hagain, hgrown, hsame⟩ := TreeSet.openAt_again hd hn hopen hw.disk
  have hrestorable : Config.Restorable (.object t.config) := by
    have hkeys : compare "root_directory" "sha1_chunk" = .lt := by decide
    refine ⟨⟨?_, trivial, trivial, trivial⟩, by decide, trivial, by decide, trivial, trivial⟩
    simp [TreeSet.config, Assoc.Ordered, hkeys]
  exact rebuilds_of_construct
    (g := ⟨TreeSet.pluginName, .usable, treeSetDefaults, p.treeSetOf⟩) (by simp [sets]) rfl
    rfl hrestorable (treeSetOf_config hchunk.2 hagain)
    (TreeSet.sameSet hsame (hw.trans (.grown hgrown)))

/-- The descriptor of a set builds a set that shows the same. -/
theorem set_rebuilt [MediaTypes] (hd : w.disk.Proper) (hn : w.disk.Named)
    (h : p.set d w = (.ok s, w')) (hw : w'.SameContents w₂) : p.Rebuilds w' s w₂ := by
  obtain ⟨g, params, hg, hbuilt⟩ := Registry.resolve_eq_ok h
  rw [judged_sets, sets] at hg
  simp only [List.map_cons, List.map_nil, List.mem_cons, List.not_mem_nil, or_false,
    Prod.mk.injEq, and_true] at hg
  rcases hg with rfl | rfl | rfl
  · exact memorySet_rebuilt hbuilt hw
  · exact storeSet_rebuilt hbuilt hw
  · exact treeSet_rebuilt hd hn hbuilt hw

end Plugins

end Depot
