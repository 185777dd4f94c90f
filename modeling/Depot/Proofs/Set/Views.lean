import Depot.Proofs.Rebuilding.Sets
/-!
# What can be seen of a set

How many elements a set has, their keys, and the element under each key. This depends on nothing but
the set and the sources of elements, and for a set over a store on the table of the store. What can
be seen of a set that is opened depends besides on what it is opened on: the content of a cache
element, or the files below a root.
-/

namespace Depot

open Json Depot.Action

/-! ### Worlds with the same sources -/

namespace World

variable {w w' w'' : World} {c : ElementRef}

/-- Two worlds have as many elements, with the same sources. -/
def SameSources (w w' : World) : Prop :=
  w'.elements.map (·.source) = w.elements.map (·.source)

namespace SameSources

theorem refl (w : World) : w.SameSources w := rfl

theorem trans (h : w.SameSources w') (h' : w'.SameSources w'') : w.SameSources w'' :=
  Eq.trans h' h

theorem length (h : w.SameSources w') : w'.elements.length = w.elements.length := by
  simpa using congrArg List.length h

theorem source (h : w.SameSources w') (r : ElementRef) : w'.source r = w.source r := by
  have hget (w : World) :
      w.source r = ((w.elements.map (·.source))[r]?).getD (default : Element).source := by
    rw [World.source, element, List.getD_eq_getElem?_getD, List.getElem?_map]
    cases w.elements[r]? <;> rfl
  rw [hget, hget, h]

/-- The same new element in both worlds. -/
theorem newElement (h : w.SameSources w') (s : Source) :
    SameSources { w with elements := w.elements ++ [.ofSource s] }
      { w' with elements := w'.elements ++ [.ofSource s] } := by
  unfold SameSources at h ⊢
  rw [List.map_append, List.map_append, h]

theorem of_elements (h : w'.elements = w.elements) : w.SameSources w' := by
  rw [SameSources, h]

end SameSources

theorem Recalls.sameSources (h : w.Recalls w') : w.SameSources w' := by
  apply List.ext_getElem
  · simp [h.length]
  · intro r hr' hr
    rw [List.length_map] at hr hr'
    rw [List.getElem_map, List.getElem_map, element_eq hr, element_eq hr']
    exact h.source r

/-- Another world has the same sources and stores, and the content of an element is as it was; where
there is none, none has come. -/
structure Spares (w : World) (cache : Option ElementRef) (w' : World) : Prop where
  sources : w.SameSources w'
  stores : w'.stores = w.stores
  content : ∀ c ∈ cache, (w'.contentOf c).toOption = (w.contentOf c).toOption

namespace Spares

variable {cache : Option ElementRef}

theorem refl (w : World) : w.Spares cache w := ⟨.refl w, rfl, fun _ _ => rfl⟩

theorem trans (h : w.Spares cache w') (h' : w'.Spares cache w'') : w.Spares cache w'' :=
  ⟨h.sources.trans h'.sources, h'.stores.trans h.stores,
    fun c hc => (h'.content c hc).trans (h.content c hc)⟩

/-- An element that is spared has the same content, or none. -/
theorem contentOf (h : w.Spares cache w') (hc : c ∈ cache) :
    (∃ b, w.contentOf c = .ok b ∧ w'.contentOf c = .ok b) ∨
      ∃ e e', w.contentOf c = .error e ∧ w'.contentOf c = .error e' := by
  have hcontent := h.content c hc
  cases hb : w.contentOf c with
  | error e =>
    rw [hb] at hcontent
    cases hb' : w'.contentOf c with
    | error e' => exact .inr ⟨e, e', rfl, rfl⟩
    | ok b =>
      rw [hb'] at hcontent
      cases hcontent
  | ok b =>
    rw [hb] at hcontent
    cases hb' : w'.contentOf c with
    | error e' =>
      rw [hb'] at hcontent
      cases hcontent
    | ok b' =>
      rw [hb'] at hcontent
      cases hcontent
      exact .inl ⟨b, rfl, rfl⟩

end Spares

theorem Recalls.spares {cache : Option ElementRef} (h : w.Recalls w') : w.Spares cache w' :=
  ⟨h.sameSources, h.stores, fun c _ => by rw [h.contentOf]⟩

end World

/-- Two runs of an action end alike: both fail, or both give the same, in worlds with the same
sources. -/
inductive EndAlike {ε α : Type} : Except ε α × World → Except ε α × World → Prop
  | ok {a : α} {w w' : World} (hw : w.SameSources w') : EndAlike (.ok a, w) (.ok a, w')
  | error {e e' : ε} {w w' : World} : EndAlike (.error e, w) (.error e', w')

namespace EndAlike

variable {ε ε' α β : Type} {w w' : World} {s : Source}

theorem newElement (hw : w.SameSources w') :
    EndAlike ((World.newElement s : World.Action ε ElementRef) w) (World.newElement s w') := by
  rw [World.newElement_apply, World.newElement_apply, hw.length]
  exact .ok (hw.newElement s)

/-- An element is built alike in worlds with the same sources. -/
theorem element (p : Plugins) (d : Descriptor) (hw : w.SameSources w') :
    EndAlike (p.element d w) (p.element d w') := by
  obtain ⟨x, hx⟩ := p.element_steady d
  rw [hx, hx]
  cases x with
  | error e => exact .error
  | ok s => exact .newElement hw

theorem mapError {f : ε → ε'} {x : World.Action ε α} (h : EndAlike (x w) (x w')) :
    EndAlike (Action.mapError f x w) (Action.mapError f x w') := by
  rw [mapError_apply, mapError_apply]
  generalize x w = y at h
  generalize x w' = y' at h
  cases h with
  | ok hw => exact .ok hw
  | error => exact .error

theorem bind {x : World.Action ε α} {f : α → World.Action ε β} (h : EndAlike (x w) (x w'))
    (hf : ∀ a v v', v.SameSources v' → EndAlike (f a v) (f a v')) :
    EndAlike ((x >>= f) w) ((x >>= f) w') := by
  rw [bind_apply, bind_apply]
  generalize x w = y at h
  generalize x w' = y' at h
  cases h with
  | ok hw => exact hf _ _ _ hw
  | error => exact .error

end EndAlike

/-! ### What can be seen of a set -/

/-- How many elements there are, their keys, and under each key the element and its source. -/
structure View where
  count : Except SetError Nat
  keys : Except SetError (List ElementKey)
  element : ElementKey → Except SetError (ElementRef × Source)

namespace DataSet

/-- What can be seen of a set. -/
def view (s : InWorld DataSet) : View where
  count := (core.count s).1
  keys := (core.keys s).1
  element k := (core.get k s).1.map fun r => (r, (core.get k s).2.world.source r)

/-- Opens a set on what another has written: over its cache element, over a new store on the cache
element of its store, or at a path to its root. There is nothing to be opened without a cache
element. -/
def reopen (p : Plugins) (q : String) (s : InWorld DataSet) :
    Option (World.Action SetError DataSet) :=
  match s.set with
  | .memory m    => m.cache.map fun c => .memory <$> MemorySet.openCached p c
  | .overStore o => (s.world.cacheOf o.store).map fun c =>
    (fun r => .overStore { store := r, plugins := p }) <$> (World.openStore c).mapError .store
  | .tree t      => some (.tree <$> TreeSet.openAt p q t.chunk)

/-- What can be seen of a set that is opened; nothing if this fails. -/
def viewOpened (x : World.Action SetError DataSet) (w : World) : Option View :=
  match x w with
  | (.ok s, w')   => some (view { set := s, world := w' })
  | (.error _, _) => none

/-- What can be seen of a set that is opened on what another has written. -/
def viewReopened (p : Plugins) (q : String) (s : InWorld DataSet) : Option View :=
  (reopen p q s).bind (viewOpened · s.world)

end DataSet

variable {p : Plugins} {w w' : World} {q : String} {m : MemorySet} {t : TreeSet} {c : ElementRef}

open DataSet

/-- Sets that are opened alike look the same, if they do so in worlds with the same sources. -/
theorem EndAlike.viewOpened {σ : Type} {wrap : σ → DataSet} {x : World.Action SetError σ}
    (h : EndAlike (x w) (x w'))
    (hv : ∀ a {v v'}, v.SameSources v' → view ⟨wrap a, v'⟩ = view ⟨wrap a, v⟩) :
    DataSet.viewOpened (wrap <$> x) w' = DataSet.viewOpened (wrap <$> x) w := by
  unfold DataSet.viewOpened
  rw [map_apply, map_apply]
  generalize x w = y at h
  generalize x w' = y' at h
  cases h with
  | ok hw => exact congrArg some (hv _ hw)
  | error => rfl

/-- A set in memory looks the same in worlds with the same sources. -/
theorem view_memory (hw : w.SameSources w') : view ⟨.memory m, w'⟩ = view ⟨.memory m, w⟩ := by
  have hsource : w'.source = w.source := funext hw.source
  show View.mk _ _ (fun k => (MemorySet.find m.elements k).map fun r => (r, w'.source r)) =
    View.mk _ _ fun k => (MemorySet.find m.elements k).map fun r => (r, w.source r)
  rw [hsource]
  rfl

theorem view_tree (hw : w.SameSources w') : view ⟨.tree t, w'⟩ = view ⟨.tree t, w⟩ := by
  have hsource : w'.source = w.source := funext hw.source
  show View.mk _ _ (fun k => (t.find k).map fun r => (r, w'.source r)) =
    View.mk _ _ fun k => (t.find k).map fun r => (r, w.source r)
  rw [hsource]
  rfl

/-- A set over a store looks the same over stores with the same table in worlds with the same
sources. -/
theorem view_overStore {r r' : StoreRef} {cs cs' : Option Source} {t : Table}
    (h : StoreOf w r cs t) (h' : StoreOf w' r' cs' t) (hw : w.SameSources w') :
    view ⟨.overStore ⟨r', p⟩, w'⟩ = view ⟨.overStore ⟨r, p⟩, w⟩ := by
  have hkeys : (StoreSet.keysOf (w'.storeAt r') w').1 = (StoreSet.keysOf (w.storeAt r) w).1 := by
    rw [StoreSet.keysOf_of_storeOf h, StoreSet.keysOf_of_storeOf h']
  have hcount : ((List.length <$> StoreSet.keysOf (w'.storeAt r')) w').1 =
      ((List.length <$> StoreSet.keysOf (w.storeAt r)) w).1 := by
    rw [map_apply, map_apply]
    exact congrArg (Except.map _) hkeys
  -- A new element has the same place in both worlds, and the source that the table describes.
  have hget (k : ElementKey) :
      (StoreSet.getFrom (w'.storeAt r') p k w').1.map
          (fun e => (e, (StoreSet.getFrom (w'.storeAt r') p k w').2.source e)) =
        (StoreSet.getFrom (w.storeAt r) p k w).1.map
          fun e => (e, (StoreSet.getFrom (w.storeAt r) p k w).2.source e) := by
    rw [StoreSet.getFrom_of_storeOf h, StoreSet.getFrom_of_storeOf h']
    cases t.get? (.text k) with
    | none => rfl
    | some v =>
      dsimp only
      cases StoreSet.descriptorOf k v with
      | error e => rfl
      | ok d =>
        obtain ⟨x, hx⟩ := p.element_steady d
        dsimp only
        rw [hx, hx]
        cases x with
        | error e => rfl
        | ok src =>
          dsimp only
          rw [World.newElement_apply, World.newElement_apply]
          dsimp only [Except.mapError, Except.map]
          rw [(hw.newElement src).source, hw.length]
  show View.mk _ _ _ = View.mk _ _ _
  congr 1
  exact funext hget

/-! ### In memory -/

namespace MemorySet

variable {name : String} {acc : Dict ElementKey ElementRef} {j : Object}

/-- Entries are loaded alike in worlds with the same sources. -/
theorem loadEntries_alike (hw : w.SameSources w') :
    EndAlike (loadEntries p name acc j w) (loadEntries p name acc j w') := by
  induction j generalizing acc w w' with
  | nil => exact .ok hw
  | cons entry j ih =>
    obtain ⟨k, v⟩ := entry
    cases v with
    | object o =>
      rw [loadEntries]
      cases Descriptor.ofObject Plugins.elementContract o with
      | error e => exact .error
      | ok d => exact (EndAlike.element p d hw).mapError.bind fun r v v' hv => ih hv
    | null | bool _ | number _ | string _ | array _ =>
      rw [loadEntries]
      · exact .error
      · intro o ho
        cases ho

/-- A set is opened alike over a cache element that is spared. -/
theorem openCached_alike (hc : c < w.elements.length) (hw : w.Spares (some c) w') :
    EndAlike (openCached p c w) (openCached p c w') := by
  have hc' : c < w'.elements.length := by rwa [hw.sources.length]
  refine EndAlike.bind ?_ fun m v v' hv => .ok hv
  rw [load_apply hc, load_apply hc', hw.sources.source]
  obtain ⟨b, hb, hb'⟩ | ⟨e, e', hb, hb'⟩ := hw.contentOf rfl
  · rw [hb, hb']
    dsimp only
    split
    · exact .ok hw.sources
    · cases Object.ofBytes? b with
      | none => exact .error
      | some j => exact loadEntries_alike hw.sources
  · rw [hb, hb']
    exact .error

end MemorySet

/-! ### Over stores -/

/-- A set over a new store on a cache element that is spared looks the same. -/
theorem StoreSet.viewOpened_openStore (hc : c < w.elements.length) (hw : w.Spares (some c) w') :
    viewOpened ((fun r => .overStore ⟨r, p⟩) <$> (World.openStore c).mapError .store) w' =
      viewOpened ((fun r => .overStore ⟨r, p⟩) <$> (World.openStore c).mapError .store) w := by
  have hc' : c < w'.elements.length := by rwa [hw.sources.length]
  have hcontent := hw.content c rfl
  have hopen (v : World) (hv : c < v.elements.length) :
      viewOpened ((fun r => .overStore ⟨r, p⟩) <$> (World.openStore c).mapError .store) v =
        ((v.contentOf c).toOption.bind World.tableIn).map fun t =>
          view ⟨.overStore ⟨v.stores.length, p⟩, v.withStoreOver (some c) t⟩ := by
    unfold viewOpened World.openStore
    rw [map_apply, mapError_apply, bind_apply, World.loadTable_apply hv]
    cases v.contentOf c with
    | error e => rfl
    | ok b =>
      dsimp only [Except.toOption, Option.bind]
      cases World.tableIn b <;> rfl
  rw [hopen w hc, hopen w' hc', hcontent]
  refine congrArg (Option.map · _) (funext fun t => ?_)
  have hsources : (w.withStoreOver (some c) t).SameSources (w'.withStoreOver (some c) t) :=
    hw.sources
  exact view_overStore (World.storeOf_withStoreOver rfl) (World.storeOf_withStoreOver rfl) hsources

/-! ### In directory trees -/

namespace TreeSet

variable {root l : Disk.Location} {ls : List Disk.Location} {chunk : Nat}
  {entries : Dict ElementKey TreeEntry}

/-- Files with the same content are scanned alike in worlds with the same sources. -/
theorem scanFiles_alike (hw : w.SameSources w')
    (hls : ∀ l ∈ ls, w'.disk.contentAt (.ofLocation l) = w.disk.contentAt (.ofLocation l)) :
    EndAlike (scanFiles p entries ls w) (scanFiles p entries ls w') := by
  induction ls generalizing entries w w' with
  | nil => exact .ok hw
  | cons l ls ih =>
    obtain ⟨hl, hls⟩ := List.forall_mem_cons.1 hls
    rw [scanFiles_cons, scanFiles_cons]
    cases keyAt? l with
    | none => exact ih hw hls
    | some k =>
      dsimp only
      cases entries.get? k with
      | some entry => exact ih hw hls
      | none =>
        obtain ⟨x, hx⟩ := loadFile_steady p l (w.disk.contentAt (.ofLocation l))
        dsimp only
        rw [hx w rfl, hx w' hl]
        cases x with
        | error e => exact .error
        | ok s =>
          dsimp only
          rw [World.newElement_apply, World.newElement_apply]
          dsimp only
          rw [hw.length]
          exact ih (hw.newElement s) hls

/-- A set is opened alike at a directory without links before and after directories are made. -/
theorem openAt_alike (hd : w.disk.Proper) (hq : w.disk.locate (.ofText q) = .ok root)
    (hr : w.disk.node? root = some .dir) (hl : w.disk.NoLinks root) (hb : w.disk.Built w'.disk)
    (hw : w.SameSources w') : EndAlike (openAt p q chunk w) (openAt p q chunk w') := by
  have hq' := Disk.locate_of_keepsWays hb.toExtends.keepsWays hq hr
  have hr' := hb.toExtends.node hr
  have hwalk : w'.disk.walk root = w.disk.walk root := by
    apply Disk.walk_congr hr hl hr' (hl.built hb)
    intro l
    unfold Disk.FileBelow
    simp only [hb.node?_file]
  have hscan : EndAlike (scan p root w) (scan p root w') := by
    rw [scan_apply, scan_apply, hwalk]
    apply scanFiles_alike hw
    intro l hmem
    obtain ⟨b, hfile⟩ := file_of_mem_walk hr hl hmem
    rw [Disk.contentAt_ofLocation hd hfile,
      Disk.contentAt_ofLocation (hd.built hb) (hb.node?_file.2 hfile)]
  rw [openAt_apply, openAt_apply, Disk.makeDirs_of_isDir (Disk.isDir_eq_true.2 ⟨_, hq, hr⟩),
    Disk.makeDirs_of_isDir (Disk.isDir_eq_true.2 ⟨_, hq', hr'⟩)]
  split
  · exact .error
  · dsimp only
    rw [hq, hq']
    dsimp only
    generalize scan p root w = y at hscan ⊢
    generalize scan p root w' = y' at hscan ⊢
    cases hscan with
    | ok hv => exact .ok hv
    | error => exact .error

end TreeSet

end Depot
