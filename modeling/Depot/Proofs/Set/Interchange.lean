import Depot.MediaType.Common
import Depot.Proofs.Set.Kinds
import Depot.Proofs.Set.TreeRuns
/-!
# Data sets are interchangeable

Data sets of all kinds that begin without elements give the same answers to the same requests: those
of a finite map from keys to the elements added last. The content of the elements must not change
while the requests are made. There must be no fault when a file or a cache element is written.
-/

namespace Depot

open Depot.Action SetRequest

variable {p : Plugins} {s s' : InWorld DataSet} {qs : List SetRequest} {pool : List ElementRef}
  {look : ElementRef → Look} {stepwise : Bool} {o : Pool} {m : SetMap}
  {fallible : Prop} {Is : SetMap → InWorld DataSet → Prop}

/-! ### Runs of a set that is a map -/

/-- The elements of a pool have their content in every state that requests lead to. -/
def StaysSteady [MediaTypes] (pool : List ElementRef) (look : ElementRef → Look) (stepwise : Bool) :
    List SetRequest → InWorld DataSet → Prop
  | [], _      => True
  | q :: qs, s =>
    (∀ s' ∈ q.passes stepwise s, ∀ r ∈ pool, s'.world.contentOf r = .ok (look r).bytes) ∧
      StaysSteady pool look stepwise qs (q.ask s).2

instance decidableStaysSteady [MediaTypes] : (qs : List SetRequest) → (s : InWorld DataSet) →
    Decidable (StaysSteady pool look stepwise qs s)
  | [], _      => .isTrue trivial
  | q :: qs, s =>
    have := decidableStaysSteady qs (q.ask s).2
    inferInstanceAs (Decidable (_ ∧ _))

/-- A set that is a map gives the answers of the map as long as there is no fault. -/
theorem answers_simulate [MediaTypes] (h : DataSet.core.Simulates o p stepwise fallible Is)
    (hs : Is m s) (ho : o.In p s.world) (hm : m.Among o)
    (hqs : ∀ q ∈ qs, ∀ r ∈ q.named, r ∈ o.elements)
    (hsteady : StaysSteady o.elements o.look stepwise qs s)
    (hfault : fallible → ∀ e, .error e ∈ answers qs s → e.isFault = false) :
    answers qs s = mapAnswers o.look qs m := by
  induction qs generalizing s m with
  | nil => rfl
  | cons q qs ih =>
    rw [answers] at hfault ⊢
    rw [mapAnswers]
    obtain ⟨hanswer, hs', ho', hm'⟩ := ask_simulates h hs ho hm (hqs q List.mem_cons_self)
      hsteady.1
      fun hf e he => hfault hf e (List.mem_cons.2 (.inl he.symm))
    rw [hanswer]
    congr 1
    apply ih hs' ho' hm' (fun q' hq' => hqs q' (List.mem_cons_of_mem _ hq')) hsteady.2
    intro hf e he
    exact hfault hf e (List.mem_cons_of_mem _ he)

/-- The map that requests lead to holds elements of the pool, under their keys. -/
theorem among_mapAfter (hm : m.Among o) (hqs : ∀ q ∈ qs, ∀ r ∈ q.named, r ∈ o.elements) :
    (mapAfter o.look qs m).Among o := by
  induction qs generalizing m with
  | nil => exact hm
  | cons q qs ih =>
    apply ih
    · have hq := hqs q List.mem_cons_self
      cases q with
      | addMany rs => exact hm.insertAll hq
      | remove k =>
        dsimp only [onMap]
        split
        · exact hm.erase k
        · exact hm
      | get k =>
        dsimp only [onMap]
        split <;> exact hm
      | _ => exact hm
    · intro q' hq'
      exact hqs q' (List.mem_cons_of_mem _ hq')

/-! ### Sets without elements -/

/-- Sets of all kinds that have no elements, and whose cache element can be written if they or their
stores have one. -/
inductive Empty (p : Plugins) : InWorld DataSet → Prop
  | memory {w : World} {cache : Option ElementRef} (hc : ∀ c, cache = some c → w.CanWrite c) :
      Empty p { set := .memory { elements := .empty, cache }, world := w }
  | overStore {w : World} {q : StoreRef} {cache : Option ElementRef} (hq : q < w.stores.length)
      (hk : (w.store q).kind = .memory cache) (hc : ∀ c, cache = some c → w.CanWrite c)
      (ht : ∀ k, (w.store q).table.get? (.text k) = none) :
      Empty p { set := .overStore { store := q, plugins := p }, world := w }
  | tree {w w' : World} {t : TreeSet} {root : String} {chunk : Nat} (hd : w.disk.Proper)
      (hl : w.disk.NoLinks t.root) (hf : ∀ l, w.disk.FileBelow t.root l → TreeSet.keyAt? l = none)
      (ho : TreeSet.openAt p root chunk w = (.ok t, w')) :
      Empty p { set := .tree t, world := w' }

/-- Whether a set changes the disk with every element that it adds. -/
def DataSet.addsStepwise : DataSet → Bool
  | .tree _ => true
  | _       => false

/-- Whether there can be a fault while a set is changed. Such a set has files, or it has a cache
element, or the store under it has one. -/
def DataSet.mayFault (w : World) : DataSet → Bool
  | .memory s    => s.cache.isSome
  | .overStore s => (w.cacheOf s.store).isSome
  | .tree _      => true

/-- A set without elements is the empty map. -/
theorem Empty.simulates [MediaTypes] (h : Empty p s) (o : Pool) :
    ∃ Is : SetMap → InWorld DataSet → Prop,
    DataSet.core.Simulates o p s.set.addsStepwise (s.set.mayFault s.world) Is ∧ Is .empty s := by
  cases h with
  | memory hc =>
    refine ⟨_, (MemorySet.simulates o p _).wrapped wraps_memory, _, rfl, rfl, fun c h => ?_⟩
    exact ⟨Option.isSome_of_eq_some h, hc c h⟩
  | @overStore w q cache hq hk hc ht =>
    refine ⟨_, (StoreSet.simulates o p _).wrapped wraps_overStore, _, rfl, rfl, hq,
      ⟨_, hk, fun c h => ⟨?_, hc c h⟩⟩, ht⟩
    show (w.cacheOf q).isSome = true
    rw [World.cacheOf, hk]
    exact Option.isSome_of_eq_some h
  | @tree w w' t root chunk hd hl hf ho =>
    obtain ⟨hp, hchunk, hin, -, hbuilt⟩ := TreeSet.openAt_eq_ok hd hl ho
    have hfault : ((DataSet.tree t).mayFault w' = true) = True := eq_true rfl
    rw [hfault]
    refine ⟨_, (TreeSet.simulates o p).wrapped wraps_tree, t, rfl, hp, hchunk, hin, fun k => ?_⟩
    show (t.entries.get? k).map (·.element) = none
    cases he : t.entries.get? k with
    | none => rfl
    | some e =>
      -- An entry would have files, and a file for its key would have been there before the set.
      obtain ⟨l, ls, -, hl, -⟩ := hin.read he
      have hmem : l ∈ TreeSet.pathsIn t.entries k := by
        rw [TreeSet.pathsIn, he]
        show l ∈ e.paths
        rw [hl]
        exact List.mem_cons_self
      obtain ⟨⟨hroot, b, hb⟩, hk⟩ := hin.mem_pathsIn.1 hmem
      rw [hf l ⟨hroot, b, hbuilt.node?_file.1 hb⟩] at hk
      cases hk

/-- A set without elements is asked for something, and nothing disturbs this: the elements of the
pool look as they should and can be built again, their content stays the same, and if there can be
a fault then there is none. -/
structure Undisturbed [MediaTypes] (p : Plugins) (pool : List ElementRef) (look : ElementRef → Look)
    (qs : List SetRequest) (s : InWorld DataSet) : Prop where
  start : Empty p s
  looks : ∀ r ∈ pool, s.world.Shows (look r) r ∧ p.Buildable (s.world.source r)
  steady : StaysSteady pool look s.set.addsStepwise qs s
  faultless : s.set.mayFault s.world = true → ∀ e, .error e ∈ answers qs s → e.isFault = false

theorem Undisturbed.answers_eq [MediaTypes] (h : Undisturbed p pool look qs s)
    (hqs : ∀ q ∈ qs, ∀ r ∈ q.named, r ∈ pool) : answers qs s = mapAnswers look qs .empty := by
  obtain ⟨Is, hsim, hs⟩ := h.start.simulates { elements := pool, look, source := s.world.source }
  apply answers_simulate hsim hs
  · intro r hr
    obtain ⟨hv, hb⟩ := h.looks r hr
    exact ⟨hv, rfl, hb⟩
  · intro k r hk
    cases hk
  · exact hqs
  · exact h.steady
  · exact h.faultless

/-- Sets of all kinds that begin without elements give the answers of one finite map, and so the
same answers. The map lists its keys in strictly ascending order, as many as it has elements; its
elements are those of the pool, and each is kept under its own key. -/
theorem sets_interchangeable [MediaTypes] (h : Undisturbed p pool look qs s)
    (hqs : ∀ q ∈ qs, ∀ r ∈ q.named, r ∈ pool) :
    answers qs s = mapAnswers look qs .empty ∧
    (∀ s', Undisturbed p pool look qs s' → answers qs s' = answers qs s) ∧
    ∀ qs', qs' <+: qs →
      let m := mapAfter look qs' .empty
      m.keys.Pairwise (compare · · = .lt) ∧ m.size = m.keys.length ∧
        (∀ k, m.contains k = true ↔ k ∈ m.keys) ∧
        ∀ k r, m.get? k = some r → r ∈ pool ∧ (look r).key = k := by
  refine ⟨h.answers_eq hqs, fun s' h' => ?_, fun qs' hp => ?_⟩
  · rw [h'.answers_eq hqs, h.answers_eq hqs]
  · refine ⟨Dict.pairwise_keys, Dict.length_keys.symm, fun k => Dict.mem_keys.symm, ?_⟩
    have hqs' : ∀ q ∈ qs', ∀ r ∈ q.named, r ∈ pool := by
      intro q hq
      exact hqs q (hp.subset hq)
    exact among_mapAfter (o := { elements := pool, look, source := s.world.source })
      (fun k r hk => by cases hk) hqs'

/-- A world with two empty elements in memory and an empty store in memory. -/
def World.sample : World :=
  { World.ofDisk (.fresh ["work"] "tmp") with
    elements := [.ofSource (.memory .empty none false), .ofSource (.memory .empty none false)]
    stores := [{ kind := .memory none, table := .empty }] }

open MediaTypes in
/-- A set in memory with a cache element, one over a store and one in a new directory, to which an
element is added. -/
theorem sets_interchangeable_sample :
    let p : Plugins := { backends := .empty }
    let w' : World := { World.sample with disk := World.sample.disk.put ["work", "set"] .dir }
    let inMemory : InWorld DataSet :=
      { set := .memory { elements := .empty, cache := some 1 }, world := .sample }
    let overStore : InWorld DataSet :=
      { set := .overStore { store := 0, plugins := p }, world := .sample }
    let inTree : InWorld DataSet :=
      { set := .tree { root := ["work", "set"], chunk := 3, plugins := p, entries := .empty }
        world := w' }
    let qs : List SetRequest := [.remove "", .addMany [0], .count]
    answers qs overStore = answers qs inMemory ∧ answers qs inTree = answers qs inMemory ∧
      answers qs inMemory = [.error (.keyNotFound ""), .ok .done, .ok (.number 1)] := by
  intro p w' inMemory overStore inTree qs
  let look : ElementRef → Look := fun _ => ⟨.empty, none, true⟩
  have hqs : ∀ q ∈ qs, ∀ r ∈ q.named, r ∈ [0] := by decide
  have hbuild : p.Buildable (.memory .empty none false) := ⟨_, Plugins.builds_descriptor trivial⟩
  have hlooks {d : Disk} {w : World} (hw : w = { World.sample with disk := d }) :
      ∀ r ∈ [0], w.Shows (look r) r ∧ p.Buildable (w.source r) := by
    intro r hr
    rw [hw, List.mem_singleton.1 hr]
    refine ⟨⟨⟨Nat.two_pos, rfl, ?_⟩, rfl, rfl⟩, hbuild⟩
    rintro k ⟨c, hc, -⟩
    cases hc
  have hfaultless {s : InWorld DataSet}
      (h : (answers qs s).all (fun y => match y with
        | .ok _    => true
        | .error e => !e.isFault) = true) : ∀ e, .error e ∈ answers qs s → e.isFault = false := by
    intro e he
    simpa using List.all_eq_true.1 h _ he
  have hmemory : Undisturbed p [0] look qs inMemory := by
    refine ⟨.memory ?_, hlooks rfl, by decide +kernel, fun _ => hfaultless (by decide +kernel)⟩
    rintro c ⟨⟩
    exact ⟨by decide, rfl⟩
  have hstore : Undisturbed p [0] look qs overStore := by
    exact ⟨.overStore Nat.one_pos rfl nofun fun _ => rfl, hlooks rfl, by decide +kernel, nofun⟩
  have htree : Undisturbed p [0] look qs inTree := by
    have hopen : TreeSet.openAt p "set" 3 .sample = (.ok _, w') := rfl
    refine ⟨.tree Disk.Proper.fresh ?_ ?_ hopen, hlooks rfl, by decide +kernel,
      fun _ => hfaultless (by decide +kernel)⟩
    · -- A new disk has no links.
      intro ss q hq
      have hq' : (Disk.fresh ["work"] "tmp").node? (["work", "set"] ++ ss) = some (.link q) := hq
      rw [Disk.node?_fresh] at hq'
      split at hq' <;> cases hq'
    · -- It has no files either.
      rintro l ⟨-, b, hb⟩
      have hb' : (Disk.fresh ["work"] "tmp").node? l = some (.file b) := hb
      rw [Disk.node?_fresh] at hb'
      split at hb' <;> cases hb'
  obtain ⟨hanswers, hsame, -⟩ := sets_interchangeable hmemory hqs
  exact ⟨hsame _ hstore, hsame _ htree, hanswers⟩

end Depot
