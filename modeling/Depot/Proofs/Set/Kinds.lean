import Depot.Proofs.Set.AnyStore
import Depot.Proofs.Set.Changing
import Depot.Proofs.Set.Simulation
import Depot.Proofs.Store.Memory
/-!
# The kinds of data sets are maps

A set in memory, with or without a cache element, a set over a store in memory and a set in a
directory tree are all finite maps from keys to elements, each in its own way: the map itself, a
table of descriptors, or a tree of files.
-/

namespace Depot

open Depot.Action SetRequest

variable {o : Pool} {p : Plugins} {m m' : SetMap} {w w' : World} {k : ElementKey}
  {r c : ElementRef} {rs : List ElementRef} {q : StoreRef} {fallible : Prop}

/-! ### Cache elements -/

namespace World

/-- An element that can be written. -/
def CanWrite (w : World) (c : ElementRef) : Prop :=
  c < w.elements.length ∧ (w.source c).writable = true

theorem CanWrite.quiet (h : w.CanWrite c) (hw : w.Quiet w') : w'.CanWrite c := by
  refine ⟨Nat.lt_of_lt_of_le h.1 hw.gains.length, ?_⟩
  rw [hw.gains.source h.1]
  exact h.2

theorem CanWrite.setBytes (h : w.CanWrite c) (content : Bytes) :
    (World.setBytes c content w).2.CanWrite c := by
  unfold World.setBytes
  rw [onElement_apply]
  refine ⟨by simpa using h.1, ?_⟩
  unfold source
  rw [element_putScene h.1]
  exact (Element.setBytes_around content (w.scene c)).1.trans h.2

theorem CanWrite.fault {e : ElementError} (h : w.CanWrite c) (content : Bytes)
    (he : (World.setBytes c content w).1 = .error e) : ∃ l t, e = .store l t := by
  unfold World.setBytes at he
  rw [onElement_apply] at he
  exact Element.setBytes_fault content h.2 he

end World

/-! ### In memory -/

namespace MemorySet

variable {s : InWorld MemorySet}

/-- A set in memory is the map of its elements. Its cache element, if it has one, can be written,
which may fail. -/
structure Is (fallible : Prop) (m : SetMap) (s : InWorld MemorySet) : Prop where
  elements : s.set.elements = m
  cache : ∀ c, s.set.cache = some c → fallible ∧ s.world.CanWrite c

theorem Is.quiet (hs : Is fallible m s) (hw : s.world.Quiet w) :
    Is fallible m { s with world := w } := by
  refine ⟨hs.elements, fun c hc => ?_⟩
  obtain ⟨hfallible, hwrite⟩ := hs.cache c hc
  exact ⟨hfallible, hwrite.quiet hw⟩

theorem keyed_of_in [MediaTypes] (ho : o.In p s.world) (hrs : ∀ r ∈ rs, r ∈ o.elements) :
    ∃ w, keyed rs s = (.ok (o.entries rs), { s with world := w }) ∧ s.world.Quiet w := by
  induction rs generalizing s with
  | nil => exact ⟨s.world, rfl, .refl _⟩
  | cons r rs ih =>
    have hw := World.Quiet.uuid r s.world
    obtain ⟨w, hall, hw'⟩ := ih (s := { s with world := (World.uuid r s.world).2 })
      (ho.quiet hw) fun r' hr' => hrs r' (List.mem_cons_of_mem _ hr')
    refine ⟨w, ?_, hw.trans hw'⟩
    unfold keyed
    rw [bind_apply, InWorld.uuid_of_shows (ho r (hrs r List.mem_cons_self)).1]
    dsimp only
    rw [bind_apply, hall]
    rfl

theorem mutate_apply
    (change : Dict ElementKey ElementRef → Except SetError (Dict ElementKey ElementRef))
    (hs : Is fallible m s) : mutate World.setBytes change s =
      match change m with
      | .error e => (.error e, s)
      | .ok next =>
        match s.set.cache with
        | none   => (.ok (), { s with set.elements := next })
        | some c =>
          match World.setBytes c (encode s.world next) s.world with
          | (.error e, w) => (.error (.element e), { s with world := w })
          | (.ok _, w)    => (.ok (), { set := { s.set with elements := next }, world := w }) := by
  obtain ⟨⟨elements, cache⟩, w⟩ := s
  obtain ⟨rfl, hcache⟩ := hs
  unfold mutate
  rw [bind_apply, get_apply]
  dsimp only at hcache ⊢
  cases cache with
  | none => cases change elements <;> rfl
  | some c =>
    dsimp only
    rw [(hcache c rfl).2.2]
    cases change elements with
    | error e => rfl
    | ok next =>
      simp only [Bool.not_true, Bool.false_eq_true, if_false]
      rw [bind_apply]
      rw [InWorld.onWorld_apply, mapError_apply]
      dsimp only
      rcases World.setBytes c (encode w next) w with ⟨_ | _, _⟩ <;> rfl

theorem mutate_makes [MediaTypes]
    {change : Dict ElementKey ElementRef → Except SetError (Dict ElementKey ElementRef)}
    (hs : Is fallible m s) (ho : o.In p s.world) (hc : change m = .ok m') :
    Makes (Is fallible) o p fallible m' (mutate World.setBytes change s) := by
  rw [mutate_apply change hs, hc]
  obtain ⟨⟨elements, cache⟩, w⟩ := s
  obtain ⟨rfl, hcache⟩ := hs
  dsimp only at hcache ho ⊢
  cases cache with
  | none => exact .inl ⟨rfl, ⟨rfl, nofun⟩, fun _ => ho⟩
  | some c =>
    obtain ⟨hfallible, hwrite⟩ := hcache c rfl
    have hafter := hwrite.setBytes (encode w m')
    have hfault := fun e => hwrite.fault (e := e) (encode w m')
    have hin := ho.setBytes (c := c) (encode w m')
    dsimp only
    revert hafter hfault hin
    rcases World.setBytes c (encode w m') w with ⟨e | x, w'⟩
    · -- The cache element could not be written: the elements are those of before.
      intro _ hfault _
      obtain ⟨l, t, rfl⟩ := hfault e rfl
      exact .inr ⟨hfallible, _, rfl, rfl⟩
    · intro hafter _ hin
      refine .inl ⟨rfl, ⟨rfl, ?_⟩, hin⟩
      rintro _ ⟨⟩
      exact ⟨hfallible, hafter⟩

/-- A set in memory does what the map does. -/
theorem simulates [MediaTypes] (o : Pool) (p : Plugins) (fallible : Prop) :
    core.Simulates o p false fallible (Is fallible) := by
  constructor
  case quiet =>
    intro m s w hs hw
    exact hs.quiet hw
  case count =>
    rintro m s ⟨rfl, -⟩
    rfl
  case keys =>
    rintro m s ⟨rfl, -⟩
    rfl
  case has =>
    rintro m s k ⟨rfl, -⟩
    rfl
  case missing =>
    intro m s k hs hk
    constructor
    · show (find s.set.elements k, s) = _
      rw [hs.elements, find, hk]
    · show removeKey World.setBytes k s = _
      rw [removeKey, mutate_apply _ hs, find, hk]
      rfl
  case get =>
    intro m s k r hs ho hk hr
    refine ⟨r, s.world, ?_, .refl _, (ho r hr).1⟩
    show (find s.set.elements k, s) = _
    rw [hs.elements, find, hk]
  case remove =>
    intro m s k r hs ho hk
    apply mutate_makes hs ho
    rw [find, hk]
    rfl
  case addMany =>
    intro m s rs hs ho hrs _
    obtain ⟨w, hkeyed, hw⟩ := keyed_of_in ho hrs
    show Makes (Is fallible) o p fallible _ (addMany World.setBytes rs s)
    rw [addMany, bind_apply, hkeyed]
    exact mutate_makes (hs.quiet hw) (ho.quiet hw) rfl

end MemorySet

/-! ### Over a store -/

theorem Key.compare_text (a b : String) : compare (Key.text a) (Key.text b) = compare a b := by
  rw [Key.compare_eq]
  cases h : compare a b <;> simp [Key.rank, Key.intPart, Key.textPart, Key.bytesPart, h]

namespace StoreSet

variable {s : InWorld StoreSet} {t : Table} {cache : Option ElementRef}

/-- The value that a table has for an element. -/
def valueOf (o : Pool) (r : ElementRef) : Json.Value := (o.source r).descriptor.toValue

/-- A table has values for the elements of a map, and for no other texts. -/
def Lists (o : Pool) (m : SetMap) (t : Table) : Prop :=
  ∀ k, t.get? (.text k) = (m.get? k).map (valueOf o)

theorem Lists.insertAll (h : Lists o m t) (rs : List ElementRef) :
    Lists o (m.insertAll (o.entries rs))
      (t.insertAll (rs.map fun r => (.text (o.look r).key, valueOf o r))) := by
  induction rs generalizing m t with
  | nil => exact h
  | cons r rs ih =>
    apply ih (m := m.insert (o.look r).key r) (t := t.insert (.text (o.look r).key) (valueOf o r))
    intro k
    rw [Dict.get?_insert, Dict.get?_insert, h k]
    simp only [Key.text.injEq]
    split <;> rfl

theorem Lists.erase (h : Lists o m t) (k : ElementKey) :
    Lists o (m.erase k) (t.erase (.text k)) := by
  intro k'
  rw [Dict.get?_erase, Dict.get?_erase, h k']
  simp only [Key.text.injEq]
  split <;> rfl

/-- The texts among the keys of a table, in their order. -/
def texts (t : Table) : List ElementKey := t.keys.filterMap elementKey?

theorem pairwise_texts : (texts t).Pairwise (compare · · = .lt) := by
  refine List.Pairwise.filterMap _ (fun a b hab x hx y hy => ?_) t.pairwise_keys
  cases a with
  | text a =>
    cases b with
    | text b =>
      cases hx
      cases hy
      rwa [← Key.compare_text]
    | int | bytes => cases hy
  | int | bytes => cases hx

theorem mem_texts : k ∈ texts t ↔ (t.get? (.text k)).isSome := by
  rw [← Dict.mem_keys, texts, List.mem_filterMap]
  constructor
  · rintro ⟨a, ha, hk⟩
    cases a with
    | text a =>
      cases hk
      exact ha
    | int | bytes => cases hk
  · exact fun hk => ⟨_, hk, rfl⟩

/-- However the keys of a table are listed, the texts among them are the same when they are put in
order. -/
theorem mergeSort_texts {ks : List Key} (h : ks.Perm t.keys) :
    (ks.filterMap elementKey?).mergeSort (fun a b => (compare a b).isLE) = texts t := by
  have hsorted : ((ks.filterMap elementKey?).mergeSort
      fun a b => (compare a b).isLE).Pairwise fun a b => (compare a b).isLE = true := by
    apply List.pairwise_mergeSort
    · exact fun a b c => Std.TransCmp.isLE_trans
    · intro a b
      have hswap : compare a b = (compare b a).swap := Std.OrientedCmp.eq_swap
      rw [hswap]
      cases compare b a <;> rfl
  -- Two sorted lists with the same members are the same, since no two keys are of one rank.
  refine List.Perm.eq_of_pairwise (fun a b _ _ hab hba => ?_) hsorted
    (pairwise_texts.imp fun {a b} hab => ?_) ?_
  · exact Std.LawfulEqCmp.eq_of_compare (Std.OrientedCmp.isLE_antisymm hab hba)
  · rw [hab]
    rfl
  · exact (List.mergeSort_perm _ _).trans (h.filterMap _)

/-- The texts among the keys of a table are the keys of the map, in the same order. -/
theorem Lists.texts_eq (h : Lists o m t) : texts t = m.keys := by
  apply eq_of_ascending pairwise_texts m.pairwise_keys
  intro k
  rw [mem_texts, h k, Dict.mem_keys, Option.isSome_map]

/-- A set over a store in memory is the map whose elements the table describes. The cache element of
the store, if it has one, can be written, which may fail. -/
structure Is (fallible : Prop) (o : Pool) (p : Plugins) (m : SetMap) (s : InWorld StoreSet) :
    Prop where
  plugins : s.set.plugins = p
  store : s.set.store < s.world.stores.length
  kind : ∃ cache, (s.world.store s.set.store).kind = .memory cache ∧
    ∀ c, cache = some c → fallible ∧ s.world.CanWrite c
  table : Lists o m (s.world.store s.set.store).table

theorem Is.quiet (hs : Is fallible o p m s) (hw : s.world.Quiet w) :
    Is fallible o p m { s with world := w } := by
  obtain ⟨hp, hstore, ⟨cache, hkind, hcache⟩, htable⟩ := hs
  have heq : w.store s.set.store = s.world.store s.set.store := by
    unfold World.store
    rw [hw.stores]
  refine ⟨hp, ?_, ⟨cache, ?_, fun c hc => ?_⟩, ?_⟩
  · show s.set.store < w.stores.length
    rw [hw.stores]
    exact hstore
  · show (w.store s.set.store).kind = _
    rw [heq]
    exact hkind
  · obtain ⟨hfallible, hwrite⟩ := hcache c hc
    exact ⟨hfallible, hwrite.quiet hw⟩
  · show Lists o m (w.store s.set.store).table
    rw [heq]
    exact htable

theorem withStore_apply {α : Type} (x : StoreSet → KeyValueStore World → World.Action SetError α)
    (hs : Is fallible o p m s) : withStore x s =
      ((x s.set (World.memoryStore s.set.store) s.world).1,
        { s with world := (x s.set (World.memoryStore s.set.store) s.world).2 }) := by
  obtain ⟨cache, hkind, -⟩ := hs.kind
  have hat : s.world.storeAt s.set.store = World.memoryStore s.set.store := by
    unfold World.storeAt
    rw [hkind]
  unfold withStore
  rw [bind_apply, get_apply]
  dsimp only
  rw [InWorld.onWorld_apply, World.withStore, hat]

theorem Is.writable (hs : Is fallible o p m s) : s.world.cacheIsReadOnly s.set.store = false := by
  obtain ⟨cache, hkind, hcache⟩ := hs.kind
  unfold World.cacheIsReadOnly World.cacheOf
  rw [hkind]
  cases cache with
  | none => rfl
  | some c =>
    dsimp only
    rw [(hcache c rfl).2.2]
    rfl

/-- A change that the table allows is made, or the cache element cannot be written. -/
theorem mutate_makes [MediaTypes] (change : Table → Except StoreError Table)
    {f : StoreError → SetError} (hs : Is fallible o p m s) (ho : o.In p s.world)
    (hc : change (s.world.store s.set.store).table = .ok t) (ht : Lists o m' t)
    (hf : ∀ e, f (.element e) = .store (.element e)) :
    Makes (Is fallible o p) o p fallible m'
      (((World.mutate s.set.store change).mapError f s.world).1,
        { s with world := ((World.mutate s.set.store change).mapError f s.world).2 }) := by
  have hwritable := hs.writable
  obtain ⟨⟨q, plugins⟩, w⟩ := s
  obtain ⟨rfl, hstore, ⟨cache, hkind, hcache⟩, -⟩ := hs
  dsimp only at hstore hkind hcache hc ho hwritable ⊢
  have hcacheOf : w.cacheOf q = cache := by
    unfold World.cacheOf
    rw [hkind]
  -- With the new table the store lists the new map, whatever has been done to the cache element.
  have hput {w' : World} (hstore' : q < w'.stores.length)
      (hkind' : (w'.store q).kind = .memory cache)
      (hcache' : ∀ c, cache = some c → fallible ∧ w'.CanWrite c) :
      Is fallible o plugins m' { set := ⟨q, plugins⟩, world := World.putTable q t w' } := by
    refine ⟨rfl, by simpa using hstore', ⟨cache, ?_, fun c hc => ?_⟩, ?_⟩
    · dsimp only
      rw [World.store_putTable hstore']
      exact hkind'
    · exact hcache' c hc
    · dsimp only
      rw [World.store_putTable hstore']
      exact ht
  rw [mapError_apply, World.mutate_apply, hwritable, hc, hcacheOf]
  dsimp only
  rw [if_neg (by simp)]
  cases cache with
  | none => exact .inl ⟨rfl, hput hstore hkind nofun, fun hw => ho.elsewhere rfl hw⟩
  | some c =>
    obtain ⟨hfallible, hwrite⟩ := hcache c rfl
    have hafter := hwrite.setBytes t.encode
    have hfault := fun e => hwrite.fault (e := e) t.encode
    have hin := ho.setBytes (c := c) t.encode
    have hstores : (World.setBytes c t.encode w).2.stores = w.stores := rfl
    dsimp only
    revert hafter hfault hin hstores
    rcases World.setBytes c t.encode w with ⟨e | x, w'⟩
    · -- The cache element could not be written: the table is that of before.
      intro _ hfault _ _
      obtain ⟨l, t, rfl⟩ := hfault e rfl
      refine .inr ⟨hfallible, _, rfl, ?_⟩
      rw [hf]
      rfl
    · intro hafter _ hin hstores
      dsimp only at hafter hin hstores ⊢
      have hsame : w'.store q = w.store q := by
        unfold World.store
        rw [hstores]
      refine .inl ⟨rfl, hput (by rwa [hstores]) (by rwa [hsame]) ?_, fun hw => ?_⟩
      · rintro _ ⟨⟩
        exact ⟨hfallible, hafter⟩
      · exact (hin hw).elsewhere rfl hw

/-- A world is related to the one after elements are described, if it is to the one after an element
is asked for its key. -/
theorem described_rel {R : World → World → Prop} (hrefl : ∀ w, R w w)
    (htrans : ∀ {w w' w''}, R w w' → R w' w'' → R w w'') (huuid : ∀ r w, R w (World.uuid r w).2)
    (rs : List ElementRef) (w : World) : R w (described rs w).2 := by
  induction rs generalizing w with
  | nil => exact hrefl w
  | cons r rs ih =>
    have hw := huuid r w
    rw [described, bind_apply, mapError_apply]
    revert hw
    rcases World.uuid r w with ⟨e | k, w₁⟩
    · exact id
    · intro hw
      have hrest := htrans hw (ih w₁)
      revert hrest
      dsimp only [Except.mapError]
      rw [bind_apply, get_apply]
      dsimp only
      rw [bind_apply]
      rcases described rs w₁ with ⟨_ | _, w₂⟩ <;> exact id

theorem described_of_in [MediaTypes] (ho : o.In p w) (hrs : ∀ r ∈ rs, r ∈ o.elements) :
    ∃ w', described rs w =
      (.ok (rs.map fun r => (.text (o.look r).key, valueOf o r)), w') ∧ w.Quiet w' := by
  induction rs generalizing w with
  | nil => exact ⟨w, rfl, .refl _⟩
  | cons r rs ih =>
    obtain ⟨hv, hs, -⟩ := ho r (hrs r List.mem_cons_self)
    have hw := World.Quiet.uuid r w
    obtain ⟨w', hall, hw'⟩ := ih (ho.quiet hw) fun r' hr' => hrs r' (List.mem_cons_of_mem _ hr')
    refine ⟨w', ?_, hw.trans hw'⟩
    unfold described
    rw [bind_apply, mapError_apply, hv.uuid_eq_ok]
    dsimp only [Except.mapError]
    rw [bind_apply, get_apply]
    dsimp only
    rw [bind_apply, hall, hw.gains.source hv.lt, hs]
    rfl

namespace Is

theorem keysOf_eq (hs : Is fallible o p m s) :
    keysOf (World.memoryStore s.set.store) s.world = (.ok m.keys, s.world) := by
  rw [keysOf_apply]
  show (Except.ok _, s.world) = _
  rw [mergeSort_texts (List.Perm.refl _), hs.table.texts_eq]

theorem lookup_eq (hs : Is fallible o p m s) (k : ElementKey) :
    (World.memoryStore s.set.store).lookup (.text k) s.world =
      (.ok ((m.get? k).map (valueOf o)), s.world) := by
  rw [World.lookup_memoryStore, hs.table]

theorem tableWithout_eq (hs : Is fallible o p m s) (k : ElementKey) :
    World.tableWithout (.text k) (s.world.store s.set.store).table =
      if m.contains k then .ok ((s.world.store s.set.store).table.erase (.text k))
      else .error (.keyNotFound (.text k)) := by
  unfold World.tableWithout Dict.contains
  rw [hs.table, Option.isSome_map]

/-- What the store misses is the text of a key, which the set takes for the key itself. -/
theorem removeFrom_missing (hs : Is fallible o p m s) (hk : m.get? k = none) :
    removeFrom (World.memoryStore s.set.store) k s.world =
      (.error (.keyNotFound k), s.world) := by
  have hwithout := hs.tableWithout_eq k
  rw [Dict.contains, hk] at hwithout
  show (World.mutate s.set.store (World.tableWithout (.text k))).mapError (faultAt k) s.world = _
  rw [mapError_apply, World.mutate_apply, hs.writable, hwithout]
  rfl

end Is

/-- A set over a store in memory does what the map does. -/
theorem simulates [MediaTypes] (o : Pool) (p : Plugins) (fallible : Prop) :
    core.Simulates o p false fallible (Is fallible o p) := by
  constructor
  case quiet =>
    intro m s w hs hw
    exact hs.quiet hw
  case count =>
    intro m s hs
    show withStore (fun _ kv => List.length <$> keysOf kv) s = _
    rw [withStore_apply _ hs, map_apply, hs.keysOf_eq]
    exact congrArg (fun n => (Except.ok n, s)) m.length_keys
  case keys =>
    intro m s hs
    show withStore (fun _ kv => keysOf kv) s = _
    rw [withStore_apply _ hs, hs.keysOf_eq]
  case has =>
    intro m s k hs
    show withStore (fun _ kv => hasIn kv k) s = _
    rw [withStore_apply _ hs, hasIn_apply, hs.lookup_eq]
    unfold Dict.contains
    cases m.get? k <;> rfl
  case missing =>
    intro m s k hs hk
    constructor
    · show withStore (fun s kv => getFrom kv s.plugins k) s = _
      rw [withStore_apply _ hs, getFrom_apply, hs.lookup_eq, hk]
      rfl
    · show withStore (fun _ kv => removeFrom kv k) s = _
      rw [withStore_apply _ hs, hs.removeFrom_missing hk]
  case get =>
    intro m s k r hs ho hk hr
    obtain ⟨hv, hsource, hb⟩ := ho r hr
    -- What is stored is the descriptor of the element, from which a new one is built.
    have hdescriptor : descriptorOf k (valueOf o r) = .ok (o.source r).descriptor := by
      show (Descriptor.ofObject Plugins.elementContract
        (o.source r).descriptor.toObject).mapError _ = _
      rw [Source.ofObject_descriptor]
      rfl
    refine ⟨s.world.elements.length, _, ?_, .grown .newElement, hv.newElement hsource⟩
    show withStore (fun s kv => getFrom kv s.plugins k) s = _
    rw [withStore_apply _ hs, getFrom_apply, hs.lookup_eq, hk, hs.plugins]
    dsimp only [Option.map_some]
    rw [hdescriptor]
    dsimp only
    rw [hb.builds s.world]
    rfl
  case remove =>
    intro m s k r hs ho hk
    have hwithout := hs.tableWithout_eq k
    rw [Dict.contains, hk] at hwithout
    show Makes (Is fallible o p) o p fallible _ (withStore (fun _ kv => removeFrom kv k) s)
    rw [withStore_apply _ hs]
    exact mutate_makes _ hs ho hwithout (hs.table.erase k) fun _ => rfl
  case addMany =>
    intro m s rs hs ho hrs _
    obtain ⟨w, hall, hw⟩ := described_of_in ho hrs
    have hs' := hs.quiet hw
    show Makes (Is fallible o p) o p fallible _ (withStore (fun _ kv => addTo kv rs) s)
    rw [withStore_apply _ hs]
    unfold addTo
    rw [bind_apply, hall]
    exact mutate_makes (fun t => .ok (t.insertAll _)) hs' (ho.quiet hw) rfl
      (hs'.table.insertAll rs) fun _ => rfl

end StoreSet

/-! ### In a directory tree -/

namespace TreeSet

variable {s : InWorld TreeSet} {l : Disk.Location} {b : Bytes}

/-- A set in a directory tree is the map of the elements of its entries. -/
structure Is (p : Plugins) (m : SetMap) (s : InWorld TreeSet) : Prop where
  plugins : s.set.plugins = p
  chunk : 0 < s.set.chunk ∧ s.set.chunk ≤ maxChunk
  inStep : InStep s.set s.world
  element : ∀ k, (s.set.entries.get? k).map (·.element) = m.get? k

theorem Is.isSome (hs : Is p m s) (k : ElementKey) :
    (s.set.entries.get? k).isSome = (m.get? k).isSome := by
  rw [← hs.element k, Option.isSome_map]

theorem Is.keys (hs : Is p m s) : s.set.entries.keys = m.keys := Dict.keys_congr hs.isSome

theorem elements_writeFile : (writeFile l b w).2.elements = w.elements := by
  rw [writeFile_apply]
  split
  · rfl
  · split <;> rfl

theorem writeFile_fault {e : SetError} (h : (writeFile l b w).1 = .error e) :
    e.isFault = true := by
  rw [writeFile_apply] at h
  split at h
  · cases h
    rfl
  · split at h
    · cases h
      rfl
    · cases h

/-- An element is added under its key, or its file cannot be written. -/
theorem addOne_makes [MediaTypes] (hs : Is p m s) (ho : o.In p s.world) (hr : r ∈ o.elements) :
    Makes (Is p) o p True (m.insert (o.look r).key r) (addOne r s) := by
  obtain ⟨hv, hsource, hb⟩ := ho r hr
  have hbuild : s.set.plugins.Buildable (s.world.source r) := by rwa [hsource, hs.plugins]
  -- The set stays in step with the disk whether the file is written or not.
  have hin := (addOne_becomes hs.inStep hv.lt hbuild).1.inStep
  have hquiet := ho.quiet (.uuid r s.world)
  -- There is a place for the key, as it is a digest and is cut evenly.
  obtain ⟨names, hnames⟩ := DescriptorFile.exists_place (k := (o.look r).key)
    (o.look r).isKey.length hs.chunk.1 hs.chunk.2
  have hplace : s.set.placeOf (o.look r).key (o.look r).key = .ok (s.set.root ++ names) := by
    unfold placeOf
    rw [hnames]
  have helements := elements_writeFile (l := s.set.root ++ names)
    (b := ((World.uuid r s.world).2.source r).descriptor.toValue.prettyText.toUTF8)
    (w := (World.uuid r s.world).2)
  have hfault := fun e => writeFile_fault (e := e) (l := s.set.root ++ names)
    (b := ((World.uuid r s.world).2.source r).descriptor.toValue.prettyText.toUTF8)
    (w := (World.uuid r s.world).2)
  rw [addOne_apply, hv.uuid_eq_ok] at hin ⊢
  dsimp only at hin ⊢
  rw [hplace] at hin ⊢
  dsimp only at hin ⊢
  revert hin helements hfault
  rcases writeFile (s.set.root ++ names)
    ((World.uuid r s.world).2.source r).descriptor.toValue.prettyText.toUTF8
    (World.uuid r s.world).2 with ⟨e | x, w⟩
  · intro _ _ hfault
    exact .inr ⟨trivial, e, rfl, hfault e rfl⟩
  · intro hin helements _
    refine .inl ⟨rfl, ⟨hs.plugins, hs.chunk, hin, fun k => ?_⟩, fun hw => ?_⟩
    · dsimp only
      rw [Dict.get?_insert, Dict.get?_insert, ← hs.element k]
      split <;> rfl
    · exact hquiet.elsewhere helements hw

/-- Elements are added one after the other, as long as their content is steady. -/
theorem addEach_makes [MediaTypes] (hs : Is p m s) (ho : o.In p s.world)
    (hrs : ∀ r ∈ rs, r ∈ o.elements)
    (hsteady : ∀ rs', rs' <+: rs → o.Steady (addEach rs' s).2.world) :
    Makes (Is p) o p True (m.insertAll (o.entries rs)) (addEach rs s) := by
  induction rs generalizing m s with
  | nil => exact .inl ⟨rfl, hs, fun _ => ho⟩
  | cons r rs ih =>
    have hone := addOne_makes hs ho (hrs r List.mem_cons_self)
    have hcons (rs' : List ElementRef) : addEach (r :: rs') s = _ := addEach_cons
    rw [addEach_cons]
    revert hone hcons
    rcases addOne r s with ⟨e | x, s₁⟩
    · rintro (⟨hok, -⟩ | ⟨-, e', he, hf⟩) _
      · cases hok
      · cases he
        exact .inr ⟨trivial, e, rfl, hf⟩
    · rintro (⟨-, hs₁, hin₁⟩ | ⟨-, e', he, -⟩) hcons
      · have hafter (rs' : List ElementRef) (hp : rs' <+: rs) :
            o.Steady (addEach rs' s₁).2.world := by
          have := hsteady (r :: rs') (List.cons_prefix_cons.2 ⟨rfl, hp⟩)
          rwa [hcons] at this
        exact ih hs₁ (hin₁ (hafter [] List.nil_prefix))
          (fun r hr => hrs r (List.mem_cons_of_mem _ hr)) hafter
      · cases he

/-- A removal that succeeds drops the entry, and changes nothing but the disk besides. -/
theorem removeKey_ok {delete : Deletion} (h : (removeKey delete k s).1 = .ok ()) :
    ∃ d, (removeKey delete k s).2 =
      { set := { s.set with entries := s.set.entries.erase k },
        world := { s.world with disk := d } } := by
  unfold removeKey at h ⊢
  split at h
  · cases h
  · split at h
    · exact ⟨_, rfl⟩
    · cases h

/-- A set in a directory tree does what the map does, as long as the content of the elements is
steady after each that is added. -/
theorem simulates [MediaTypes] (o : Pool) (p : Plugins) : core.Simulates o p true True (Is p) := by
  constructor
  case quiet =>
    intro m s w hs hw
    exact ⟨hs.plugins, hs.chunk, hs.inStep.mono hw.gains hw.disk, hs.element⟩
  case count =>
    intro m s hs
    show (Except.ok s.set.entries.size, s) = _
    rw [← Dict.length_keys, hs.keys, Dict.length_keys]
  case keys =>
    intro m s hs
    show (Except.ok s.set.entries.keys, s) = _
    rw [hs.keys]
  case has =>
    intro m s k hs
    exact congrArg (fun b => (Except.ok b, s)) (hs.isSome k)
  case missing =>
    intro m s k hs hk
    have hnone : s.set.entries.get? k = none := by
      have := hs.element k
      rwa [hk, Option.map_eq_none_iff] at this
    constructor
    · show (s.set.find k, s) = _
      rw [find, hnone]
    · show removeKey deleteFile k s = _
      rw [removeKey, hnone]
  case get =>
    intro m s k r hs ho hk hr
    have hsome := hs.element k
    rw [hk, Option.map_eq_some_iff] at hsome
    obtain ⟨e, he, rfl⟩ := hsome
    refine ⟨e.element, s.world, ?_, .refl _, (ho _ hr).1⟩
    show (s.set.find k, s) = _
    rw [find, he]
  case remove =>
    intro m s k r hs ho hk
    obtain ⟨hb, -, hresult⟩ := removeKey_becomes hs.inStep k
    rw [hs.isSome, hk] at hresult
    -- All files for the key could be deleted, and its entry goes with them.
    obtain ⟨d, hd⟩ := removeKey_ok hresult
    have hin := hb.inStep
    show Makes (Is p) o p True _ (removeKey deleteFile k s)
    refine .inl ⟨hresult, ?_, fun hw => ?_⟩
    · rw [hd] at hin ⊢
      refine ⟨hs.plugins, hs.chunk, hin, fun k' => ?_⟩
      dsimp only
      rw [Dict.get?_erase, Dict.get?_erase, ← hs.element k']
      split <;> rfl
    · rw [hd] at hw ⊢
      exact ho.elsewhere rfl hw
  case addMany =>
    intro m s rs hs ho hrs hsteady
    apply addEach_makes hs ho hrs
    intro rs' hp
    exact hsteady rs' ((List.mem_inits _ _).2 hp)

end TreeSet

end Depot
