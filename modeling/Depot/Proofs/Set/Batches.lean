import Depot.Proofs.Set.Interchange
import Depot.Proofs.Set.Views
/-!
# Batches that fail

To add several elements, a set in memory and a set over a store in memory ask all of them for their
keys first, and what they change they write before they change it. If such a batch fails, nothing
can be seen of it, neither in the set nor in one that is opened on what the set has written. A set
in a directory tree goes from element to element: if it fails at one, what stands before this one
has been added, and nothing else.
-/

namespace Depot

open Depot.Action DataSet

variable {p : Plugins} {w w' : World} {q : String} {s : InWorld DataSet} {m m' : MemorySet}
  {o o' : StoreSet} {t t' : TreeSet} {c r : ElementRef} {rs : List ElementRef} {e : SetError}

/-! ### Content that cannot be replaced -/

/-- An attempt to replace the content of an element that fails spares it. -/
theorem World.spares_of_setBytes {content : Bytes} {x : ElementError} (ht : w.disk.Tree)
    (hc : c < w.elements.length) (h : setBytes c content w = (.error x, w')) :
    w.Spares (some c) w' := by
  unfold setBytes at h
  rw [onElement_apply] at h
  rcases hs : Element.setBytes content (w.scene c) with ⟨y, sc⟩
  rw [hs] at h
  obtain ⟨rfl, rfl⟩ := Prod.mk.inj h
  rcases Element.setBytes_error ht hs with ⟨rfl, -⟩ | ⟨⟨d, -, rfl⟩, hno, hno'⟩
  · rw [putScene_scene hc]
    exact .refl w
  · have hw : putScene c { w.scene c with disk := d } w = { w with disk := d } :=
      congrArg (fun v : World => { v with disk := d }) (putScene_scene hc)
    refine ⟨?_, rfl, ?_⟩
    · rw [hw]
      exact .of_elements rfl
    · rintro _ ⟨⟩
      rw [contentOf, contentOf, scene_putScene hc, Result.toOption_eq_none hno,
        Result.toOption_eq_none hno']

/-! ### In memory -/

namespace MemorySet

variable {s s' : InWorld MemorySet}
  {change : Dict ElementKey ElementRef → Except SetError (Dict ElementKey ElementRef)}

/-- A change that fails leaves the elements as they are and spares the cache element. -/
theorem mutate_error (ht : s.world.disk.Tree) (hc : ∀ c ∈ s.set.cache, c < s.world.elements.length)
    (h : mutate World.setBytes change s = (.error e, s')) :
    s'.set = s.set ∧ s.world.Spares s.set.cache s'.world := by
  have hm := mutates World.setBytes change s
  rw [h] at hm
  cases hm with
  | locked => exact ⟨rfl, .refl _⟩
  | refused => exact ⟨rfl, .refl _⟩
  | unwritten _ hcache hw =>
    rw [hcache]
    exact ⟨rfl, World.spares_of_setBytes ht (hc _ hcache) hw⟩

/-- A batch that fails does so when a key is asked for, or when all keys are known and the elements
are written. -/
theorem addMany_error (ht : s.world.disk.Tree)
    (hc : ∀ c ∈ s.set.cache, c < s.world.elements.length)
    (h : core.addMany rs s = (.error e, s')) :
    s'.set = s.set ∧ s.world.Spares s.set.cache s'.world := by
  obtain ⟨w, hkeyed, hw, -⟩ := keyed_recalls rs s
  have happly := (addMany_apply World.setBytes rs s).symm.trans h
  revert hkeyed happly
  rcases keyed rs s with ⟨x | es, _⟩
  · rintro ⟨⟩ ⟨⟩
    exact ⟨rfl, hw.spares⟩
  · rintro ⟨⟩ happly
    have ht' : w.disk.Tree := by rwa [hw.disk]
    obtain ⟨hset, hspares⟩ := mutate_error ht' (by rwa [hw.length]) happly
    exact ⟨hset, hw.spares.trans hspares⟩

/-- Nothing can be seen of a batch that fails. -/
theorem addMany_unseen (ht : w.disk.Tree) (hc : ∀ c ∈ m.cache, c < w.elements.length)
    (h : core.addMany rs ⟨m, w⟩ = (.error e, ⟨m', w'⟩)) :
    view ⟨.memory m', w'⟩ = view ⟨.memory m, w⟩ ∧
      viewReopened p q ⟨.memory m', w'⟩ = viewReopened p q ⟨.memory m, w⟩ := by
  obtain ⟨rfl, hspares⟩ := addMany_error ht hc h
  refine ⟨view_memory hspares.sources, ?_⟩
  unfold viewReopened reopen
  dsimp only at hspares ⊢
  cases hcache : m'.cache with
  | none => rfl
  | some c =>
    rw [hcache] at hspares
    exact (openCached_alike (hc c hcache) hspares).viewOpened fun _ => view_memory

end MemorySet

/-! ### Over stores -/

namespace World

variable {x : StoreError} {f : Table → Except StoreError Table}

/-- A change of a store that fails spares its cache element. -/
theorem mutate_error {q : StoreRef} (ht : w.disk.Tree)
    (hc : ∀ c ∈ w.cacheOf q, c < w.elements.length) (h : mutate q f w = (.error x, w')) :
    w.Spares (w.cacheOf q) w' := by
  have hm := mutates q f w
  rw [h] at hm
  cases hm with
  | locked => exact .refl _
  | refused => exact .refl _
  | unwritten _ hcache hw =>
    rw [hcache]
    exact spares_of_setBytes ht (hc _ hcache) hw

end World

namespace StoreSet

variable {s s' : InWorld StoreSet}

theorem described_recalls (rs : List ElementRef) (w : World) : w.Recalls (described rs w).2 :=
  described_rel .refl .trans World.recalls_uuid rs w

/-- A batch that fails does so when a key is asked for, or when all keys are known and the store is
changed. -/
theorem addMany_error {cache : Option ElementRef} (ht : s.world.disk.Tree)
    (hkind : (s.world.store s.set.store).kind = .memory cache)
    (hc : ∀ c ∈ cache, c < s.world.elements.length)
    (h : core.addMany rs s = (.error e, s')) :
    s'.set = s.set ∧ s.world.Spares cache s'.world := by
  have hat : s.world.storeAt s.set.store = World.memoryStore s.set.store := by
    rw [World.storeAt, hkind]
  have hw := described_recalls rs s.world
  have happly : ((addTo (s.world.storeAt s.set.store) rs s.world).1,
      { s with world := (addTo (s.world.storeAt s.set.store) rs s.world).2 }) = (.error e, s') := h
  obtain ⟨herror, rfl⟩ := Prod.mk.inj happly
  refine ⟨rfl, ?_⟩
  revert herror
  rw [hat, addTo, bind_apply]
  revert hw
  dsimp only
  rcases described rs s.world with ⟨x | es, w⟩
  · exact fun hw _ => hw.spares
  · intro hw
    dsimp only
    rw [mapError_apply]
    have hcache : w.cacheOf s.set.store = cache := by
      rw [World.cacheOf, World.store, hw.stores]
      unfold World.store at hkind
      rw [hkind]
    have ht' : w.disk.Tree := by rwa [hw.disk]
    -- All keys are known, so it is the change of the store that has failed.
    have hfail {x : StoreError} (hx : ((World.memoryStore s.set.store).setMany es w).1 = .error x) :
        w.Spares cache ((World.memoryStore s.set.store).setMany es w).2 := by
      rw [← hcache]
      exact World.mutate_error ht' (by rwa [hcache, hw.length]) (Prod.ext hx rfl)
    intro herror
    cases hx : ((World.memoryStore s.set.store).setMany es w).1 with
    | error x => exact hw.spares.trans (hfail hx)
    | ok u =>
      rw [hx] at herror
      cases herror

/-- Nothing can be seen of a batch that fails. -/
theorem addMany_unseen {cache : Option ElementRef} (ht : w.disk.Tree)
    (hkind : (w.store o.store).kind = .memory cache) (hc : ∀ c ∈ cache, c < w.elements.length)
    (h : core.addMany rs ⟨o, w⟩ = (.error e, ⟨o', w'⟩)) :
    view ⟨.overStore o', w'⟩ = view ⟨.overStore o, w⟩ ∧
      viewReopened p q ⟨.overStore o', w'⟩ = viewReopened p q ⟨.overStore o, w⟩ := by
  obtain ⟨rfl, hspares⟩ := addMany_error ht hkind hc h
  have hstore : w'.store o'.store = w.store o'.store := by
    rw [World.store, World.store, hspares.stores]
  have hcacheOf : w.cacheOf o'.store = cache := by
    rw [World.cacheOf, hkind]
  have hcacheOf' : w'.cacheOf o'.store = cache := by
    rw [World.cacheOf, hstore, hkind]
  constructor
  · have hof : StoreOf w o'.store (cache.map w.source) (w.store o'.store).table :=
      ⟨⟨cache, hkind, rfl⟩, rfl⟩
    have hof' : StoreOf w' o'.store (cache.map w'.source) (w.store o'.store).table := by
      rw [← hstore] at hkind ⊢
      exact ⟨⟨cache, hkind, rfl⟩, rfl⟩
    exact view_overStore hof hof' hspares.sources
  · unfold viewReopened reopen
    dsimp only
    rw [hcacheOf, hcacheOf']
    cases cache with
    | none => rfl
    | some c => exact viewOpened_openStore (hc c rfl) hspares

end StoreSet

/-! ### In directory trees -/

namespace TreeSet

variable {root l : Disk.Location} {ls : List Disk.Location} {d : Disk} {b : Bytes}
  {s s' : InWorld TreeSet} {u : Unit}

/-- A place below a directory, under names that lead down. -/
def Below (root l : Disk.Location) : Prop :=
  ∃ names, l = root ++ names ∧ ∀ s ∈ names, s ≠ "." ∧ s ≠ ".."

/-- A set is at a directory without links, and the files that it knows of have places below it. -/
structure Placed (t : TreeSet) (w : World) : Prop where
  proper : w.disk.Proper
  root : w.disk.node? t.root = some .dir
  noLinks : w.disk.NoLinks t.root
  below : ∀ k, ∀ l ∈ pathsIn t.entries k, Below t.root l

theorem InStep.placed (h : InStep t w) : Placed t w := by
  refine ⟨h.proper, h.root, h.noLinks, fun k l hl => ?_⟩
  obtain ⟨⟨⟨names, rfl⟩, b, hb⟩, -⟩ := h.mem_pathsIn.1 hl
  refine ⟨names, rfl, fun s hs => ?_⟩
  have hname := (h.proper.name_of_mem (Disk.ne_none_of_node? hb) hs).1
  exact ⟨hname.1, hname.2.1⟩

/-- Files below a directory without links are deleted, and no way is lost. -/
theorem deleteAll_below (hd : d.Proper) (hr : d.node? root = some .dir) (hl : d.NoLinks root)
    (hls : ∀ l ∈ ls, Below root l) : (deleteAll ls d).Proper ∧ (deleteAll ls d).NoLinks root ∧
      d.KeepsWays (deleteAll ls d) := by
  induction ls generalizing d with
  | nil => exact ⟨hd, hl, .refl d⟩
  | cons l ls ih =>
    obtain ⟨⟨names, rfl, hnames⟩, hrest⟩ := List.forall_mem_cons.1 hls
    have hstep : deleteAll ((root ++ names) :: ls) d =
        deleteAll ls ((deleteFile d (root ++ names)).toOption.getD d) := rfl
    rw [hstep]
    cases hdelete : deleteFile d (root ++ names) with
    | error f => exact ih hd hr hl hrest
    | ok d' =>
      obtain ⟨b, hb, rfl⟩ := Disk.removeFile_ofLocation_eq_ok hd hr hl hnames hdelete
      have hne : root ++ names ≠ [] := Disk.ne_nil_of_node? (d := d) (by simp [hb])
      have hways : d.KeepsWays (d.drop (root ++ names)) :=
        (Disk.SameBut.drop hne).keepsWays fun n hn => ⟨b, Option.some.inj (hn.symm.trans hb)⟩
      obtain ⟨hproper, hlinks, hways'⟩ := ih (hd.drop hb) (hways.node hr nofun) (hl.drop hne) hrest
      exact ⟨hproper, hlinks, hways.trans hways'⟩

/-- An element that has been added leaves the set in its place, and no way is lost. -/
theorem addOne_placed (h : Placed s.set s.world) (hok : addOne r s = (.ok u, s')) :
    Placed s'.set s'.world ∧ s'.set.root = s.set.root ∧
      s.world.disk.KeepsWays s'.world.disk := by
  have hadds := adds r s
  rw [hok] at hadds
  cases hadds with
  | @added k _ w _ hk hl hw =>
    obtain ⟨names, hnames, rfl⟩ := placeOf_eq_ok hl
    have hsteps := (World.isKey_of_uuid (congrArg Prod.fst hk)).not_step hnames
    have hdisk := (World.recalls_uuid r s.world).disk
    rw [hk] at hdisk
    dsimp only at hdisk
    obtain ⟨d, hbuilt, ⟨f, hf⟩ | ⟨d', hwritten, hd', hl', hways, -, -⟩⟩ := writeFile_cases
      (w.source r).descriptor.toValue.prettyText.toUTF8 (by rw [hdisk]; exact h.proper)
      (by rw [hdisk]; exact h.root) (by rw [hdisk]; exact h.noLinks) hsteps
    · rw [hf] at hw
      cases hw
    · rw [hwritten] at hw
      cases hw
      rw [hdisk] at hbuilt
      -- The file is written, and the others for its key are deleted, all below the root.
      have hkept := hbuilt.toExtends.keepsWays.trans hways
      obtain ⟨hproper, hlinks, hdeleted⟩ := deleteAll_below hd' (hkept.node h.root nofun) hl'
        fun l hl => h.below k l (List.mem_of_mem_filter hl)
      have hall := hkept.trans hdeleted
      refine ⟨⟨hproper, hall.node h.root nofun, hlinks, fun k' l hl => ?_⟩, rfl, hall⟩
      rw [pathsIn_insert] at hl
      split at hl
      · rw [List.mem_singleton.1 hl]
        exact ⟨names, rfl, hsteps⟩
      · exact h.below k' l hl

/-- If an element cannot be added, directories have been made at most. -/
theorem addOne_error (ht : s.world.disk.Tree) (h : addOne r s = (.error e, s')) :
    s'.set = s.set ∧ s.world.SameSources s'.world ∧ s.world.disk.Built s'.world.disk := by
  have hrecalls := World.recalls_uuid r s.world
  have hsame {w : World} (hw : s.world.Recalls w) :
      s.world.SameSources w ∧ s.world.disk.Built w.disk := by
    rw [hw.disk]
    exact ⟨hw.sameSources, .refl⟩
  have hadds := adds r s
  rw [h] at hadds
  cases hadds with
  | unkeyed hk =>
    rw [hk] at hrecalls
    exact ⟨rfl, hsame hrecalls⟩
  | misplaced hk _ =>
    rw [hk] at hrecalls
    exact ⟨rfl, hsame hrecalls⟩
  | @unwritten _ _ _ w _ hk _ hw =>
    rw [hk] at hrecalls
    have ht' : w.disk.Tree := by rwa [hrecalls.disk]
    obtain ⟨d, hb, rfl⟩ := writeFile_error ht' hw
    rw [hrecalls.disk] at hb
    exact ⟨rfl, hrecalls.sameSources.trans (.of_elements rfl), hb⟩

theorem addEach_placed (h : Placed s.set s.world) (hok : addEach rs s = (.ok u, s')) :
    Placed s'.set s'.world ∧ s'.set.root = s.set.root ∧
      s.world.disk.KeepsWays s'.world.disk := by
  induction rs generalizing s with
  | nil =>
    cases hok
    exact ⟨h, rfl, .refl _⟩
  | cons r rs ih =>
    rw [addEach_cons] at hok
    rcases hone : addOne r s with ⟨e | x, s₁⟩
    · rw [hone] at hok
      cases hok
    · rw [hone] at hok
      obtain ⟨h₁, hroot₁, hways₁⟩ := addOne_placed h hone
      obtain ⟨h', hroot, hways⟩ := ih h₁ hok
      exact ⟨h', hroot.trans hroot₁, hways₁.trans hways⟩

/-- A batch that fails does so at one of its elements, after those before it have been added. -/
theorem addEach_error (h : addEach rs s = (.error e, s')) :
    ∃ done r rest s₁, rs = done ++ r :: rest ∧ addEach done s = (.ok (), s₁) ∧
      addOne r s₁ = (.error e, s') := by
  induction rs generalizing s with
  | nil => cases h
  | cons r rs ih =>
    rw [addEach_cons] at h
    rcases hone : addOne r s with ⟨x | x, s₁⟩
    · rw [hone] at h
      cases h
      exact ⟨[], r, rs, s, rfl, rfl, hone⟩
    · rw [hone] at h
      obtain ⟨done, r', rest, s₂, rfl, hdone, hfails⟩ := ih h
      refine ⟨r :: done, r', rest, s₂, rfl, ?_, hfails⟩
      rw [addEach_cons, hone]
      exact hdone

/-- Of a batch that fails everything before the element that it fails at can be seen, and nothing
else. -/
theorem addMany_seen (h : Placed t w) (hq : w.disk.locate (.ofText q) = .ok t.root)
    (hfail : core.addMany rs ⟨t, w⟩ = (.error e, ⟨t', w'⟩)) :
    ∃ done r rest t₁ w₁, rs = done ++ r :: rest ∧ core.addMany done ⟨t, w⟩ = (.ok (), ⟨t₁, w₁⟩) ∧
      core.add r ⟨t₁, w₁⟩ = (.error e, ⟨t', w'⟩) ∧ view ⟨.tree t', w'⟩ = view ⟨.tree t₁, w₁⟩ ∧
      viewReopened p q ⟨.tree t', w'⟩ = viewReopened p q ⟨.tree t₁, w₁⟩ := by
  obtain ⟨done, r, rest, ⟨t₁, w₁⟩, rfl, hdone, hone⟩ := addEach_error hfail
  obtain ⟨h₁, hroot, hways⟩ := addEach_placed h hdone
  obtain ⟨rfl, hsources, hbuilt⟩ := addOne_error h₁.proper.toTree hone
  have hq₁ : w₁.disk.locate (.ofText q) = .ok t'.root := by
    rw [hroot]
    exact Disk.locate_of_keepsWays hways hq h.root
  refine ⟨done, r, rest, t', w₁, rfl, hdone, ?_, view_tree hsources,
    (openAt_alike h₁.proper hq₁ h₁.root h₁.noLinks hbuilt hsources).viewOpened fun _ => view_tree⟩
  show addEach [r] _ = _
  rw [addEach_cons, hone]

end TreeSet

/-! ### Any set -/

/-- The cache element of a set is there, or that of its store, which is in memory; or the set is at
a directory without links that a path leads to. -/
def DataSet.Stands (q : String) (s : InWorld DataSet) : Prop :=
  s.world.disk.Tree ∧
    match s.set with
    | .memory m    => ∀ c ∈ m.cache, c < s.world.elements.length
    | .overStore o => ∃ cache, (s.world.store o.store).kind = .memory cache ∧
      ∀ c ∈ cache, c < s.world.elements.length
    | .tree t      => t.Placed s.world ∧ s.world.disk.locate (.ofText q) = .ok t.root

/-- After a batch that fails, a set in memory and a set over a store in memory look as before, and
so does a set that is opened on what they have written, wherever in the batch the fault is. With a
set in a directory tree it is as if the batch had ended before the element that it fails at. -/
theorem failed_batch (hs : Stands q s) (hfail : (core.addMany rs s).1 = .error e) :
    let s' := (core.addMany rs s).2
    (s.set.addsStepwise = false → view s' = view s ∧ viewReopened p q s' = viewReopened p q s) ∧
    (s.set.addsStepwise = true → ∃ done r rest s₁, rs = done ++ r :: rest ∧
      core.addMany done s = (.ok (), s₁) ∧ core.add r s₁ = (.error e, s') ∧
      view s' = view s₁ ∧ viewReopened p q s' = viewReopened p q s₁) := by
  obtain ⟨set, w⟩ := s
  obtain ⟨ht, hs⟩ := hs
  cases set with
  | memory m =>
    rcases hadd : MemorySet.core.addMany rs ⟨m, w⟩ with ⟨x, m', w'⟩
    have happly : core.addMany rs ⟨.memory m, w⟩ = (x, ⟨.memory m', w'⟩) := onKind_of_eq hadd
    rw [happly] at hfail ⊢
    cases hfail
    exact ⟨fun _ => MemorySet.addMany_unseen ht hs hadd, nofun⟩
  | overStore o =>
    obtain ⟨cache, hkind, hc⟩ := hs
    rcases hadd : StoreSet.core.addMany rs ⟨o, w⟩ with ⟨x, o', w'⟩
    have happly : core.addMany rs ⟨.overStore o, w⟩ = (x, ⟨.overStore o', w'⟩) :=
      onKind_of_eq hadd
    rw [happly] at hfail ⊢
    cases hfail
    exact ⟨fun _ => StoreSet.addMany_unseen ht hkind hc hadd, nofun⟩
  | tree t =>
    obtain ⟨hplaced, hq⟩ := hs
    rcases hadd : TreeSet.core.addMany rs ⟨t, w⟩ with ⟨x, t', w'⟩
    have happly : core.addMany rs ⟨.tree t, w⟩ = (x, ⟨.tree t', w'⟩) := onKind_of_eq hadd
    rw [happly] at hfail ⊢
    cases hfail
    refine ⟨nofun, fun _ => ?_⟩
    obtain ⟨done, r, rest, t₁, w₁, hrs, hdone, hone, hview, hreopened⟩ :=
      TreeSet.addMany_seen (p := p) hplaced hq hadd
    exact ⟨done, r, rest, ⟨.tree t₁, w₁⟩, hrs, onKind_of_eq hdone, onKind_of_eq hone, hview,
      hreopened⟩

namespace Batches

/-- An element in memory and one on a locator without content. -/
def missing : World where
  disk := .fresh ["work"] "tmp"
  backends := [.empty]
  elements := [.ofSource (.memory "x".toUTF8 none false),
    .ofSource (.backend "memory" 0 "missing" none false)]
  stores := []

/-- A set in a new directory. -/
def inTree : InWorld DataSet where
  set := .tree { root := ["work", "set"], chunk := 10, plugins := { backends := .empty },
                 entries := .empty }
  world := { missing with disk := missing.disk.put ["work", "set"] .dir }

end Batches

open Batches

theorem Batches.stands_inTree : Stands "set" inTree := by
  have ho : TreeSet.openAt { backends := .empty } "set" 10 missing =
    (.ok { root := ["work", "set"], chunk := 10, plugins := { backends := .empty },
           entries := .empty }, inTree.world) := rfl
  have hl : missing.disk.NoLinks ["work", "set"] := by
    intro ss q hq
    have hq' : (Disk.fresh ["work"] "tmp").node? (["work", "set"] ++ ss) = some (.link q) := hq
    rw [Disk.node?_fresh] at hq'
    split at hq' <;> cases hq'
  obtain ⟨-, -, hin, hq, -⟩ := TreeSet.openAt_eq_ok Disk.Proper.fresh hl ho
  exact ⟨hin.proper.toTree, hin.placed, hq⟩

/-- A batch that fails at its first element, in memory and in a tree. -/
theorem failed_batch_missing :
    let s : InWorld DataSet := { set := .memory .empty, world := missing }
    view (core.addMany [1, 0] s).2 = view s ∧
      ∃ done r rest s₁, [1, 0] = done ++ r :: rest ∧ core.addMany done inTree = (.ok (), s₁) ∧
        view (core.addMany [1, 0] inTree).2 = view s₁ := by
  intro s
  have hs : Stands "set" s := ⟨Disk.tree_fresh, nofun⟩
  have hfail : ∃ e, (core.addMany [1, 0] s).1 = .error e := ⟨_, rfl⟩
  have hfail' : ∃ e, (core.addMany [1, 0] inTree).1 = .error e := ⟨_, rfl⟩
  obtain ⟨e, he⟩ := hfail
  obtain ⟨e', he'⟩ := hfail'
  obtain ⟨hview, -⟩ := (failed_batch (p := { backends := .empty }) hs he).1 rfl
  obtain ⟨done, r, rest, s₁, hrs, hdone, -, hview', -⟩ :=
    (failed_batch (p := { backends := .empty }) stands_inTree he').2 rfl
  exact ⟨hview, done, r, rest, s₁, hrs, hdone, hview'⟩

/-- A set in a tree has added the element before the one that the batch fails at. -/
theorem failed_batch_seen :
    (core.addMany [0, 1] inTree).1.toOption = none ∧ (view inTree).count.toOption = some 0 ∧
      (view (core.addMany [0, 1] inTree).2).count.toOption = some 1 := by
  decide +kernel

end Depot
