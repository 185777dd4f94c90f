import Depot.MediaType.Common
import Depot.Proofs.Set.Caching
import Depot.Proofs.Set.Kinds
import Depot.Proofs.World.Memos
/-!
# What elements are filed under

A data set files an element under the key that it has from the handle. The handle remembers the key
of the content that it has seen, until the content is replaced through the handle itself. Content
that has been replaced through another handle, or in a file by somebody else, is therefore filed
under the key of content that the handle has had before.
-/

namespace Depot

open Depot.Action

/-! ### Changes of one set -/

namespace MemorySet

variable {s : InWorld MemorySet}
  {change : Dict ElementKey ElementRef → Except SetError (Dict ElementKey ElementRef)}

/-- A change of the elements may replace the content of the cache element. If it succeeds, the
elements that come next are there. -/
theorem mutate_keeps : s.world.Keeps (mutate World.setBytes change s).2.world ∧
    ((mutate World.setBytes change s).1 = .ok () →
      change s.set.elements = .ok (mutate World.setBytes change s).2.set.elements) := by
  have hm := mutates World.setBytes change s
  generalize mutate World.setBytes change s = result at hm ⊢
  cases hm with
  | locked => exact ⟨.refl _, nofun⟩
  | refused => exact ⟨.refl _, nofun⟩
  | made hnext => exact ⟨.refl _, fun _ => hnext⟩
  | @unwritten next c _ _ _ _ hw =>
    have hkeeps := World.Keeps.setBytes c (encode s.world next) s.world
    rw [hw] at hkeeps
    exact ⟨hkeeps, nofun⟩
  | @written next c _ hnext _ hw =>
    have hkeeps := World.Keeps.setBytes c (encode s.world next) s.world
    rw [hw] at hkeeps
    exact ⟨hkeeps, fun _ => hnext⟩

theorem add_apply (r : ElementRef) (s : InWorld MemorySet) : core.addMany [r] s =
    match World.uuid r s.world with
    | (.error e, w) => (.error (.element e), { s with world := w })
    | (.ok k, w)    =>
      mutate World.setBytes (fun elements => .ok (elements.insert k r)) { s with world := w } := by
  have huuid : InWorld.uuid r s = ((World.uuid r s.world).1.mapError .element,
      { s with world := (World.uuid r s.world).2 }) := rfl
  rw [show core.addMany [r] s = _ from addMany_apply World.setBytes [r] s, keyed, bind_apply, huuid]
  rcases World.uuid r s.world with ⟨e | k, w⟩ <;> rfl

/-- The element is asked for its key, and if all goes well filed under it. -/
theorem add_keeps (r : ElementRef) (s : InWorld MemorySet) :
    s.world.Follows (core.addMany [r] s).2.world ∧ ((core.addMany [r] s).1 = .ok () →
      ∃ k, (World.uuid r s.world).1 = .ok k ∧
        (core.addMany [r] s).2.set.elements = s.set.elements.insert k r) := by
  have hfollows := World.follows_uuid r s.world
  rw [add_apply]
  revert hfollows
  rcases World.uuid r s.world with ⟨e | k, w⟩
  · exact fun hfollows => ⟨hfollows, nofun⟩
  · intro hfollows
    obtain ⟨hkeeps, hdone⟩ :=
      @mutate_keeps { s with world := w } fun elements => .ok (elements.insert k r)
    exact ⟨hfollows.keeps hkeeps, fun hok => ⟨k, rfl, (Except.ok.inj (hdone hok)).symm⟩⟩

end MemorySet

namespace World

variable {w : World} {q : StoreRef} {f : Table → Except StoreError Table}

/-- A change of a store in memory may replace the content of its cache element. If it succeeds, the
table that comes next is there. -/
theorem mutate_keeps : w.Keeps (mutate q f w).2 ∧ ((mutate q f w).1 = .ok () →
    q < w.stores.length →
      f (w.store q).table = .ok ((mutate q f w).2.store q).table) := by
  have hm := mutates q f w
  generalize mutate q f w = result at hm ⊢
  cases hm with
  | locked => exact ⟨.refl _, nofun⟩
  | refused => exact ⟨.refl _, nofun⟩
  | made ht =>
    refine ⟨.of_elements rfl, fun _ hq => ?_⟩
    rw [store_putTable hq]
    exact ht
  | @unwritten t e _ _ _ _ hw =>
    have hkeeps := Keeps.setBytes e t.encode w
    rw [hw] at hkeeps
    exact ⟨hkeeps, nofun⟩
  | @written t e w' ht _ hw =>
    have hkeeps := Keeps.setBytes e t.encode w
    have hstores : (setBytes e t.encode w).2.stores = w.stores := rfl
    rw [hw] at hkeeps hstores
    refine ⟨hkeeps.trans (.of_elements rfl), fun _ hq => ?_⟩
    rw [store_putTable (by rwa [hstores])]
    exact ht

/-- A change of a plain store changes nothing but its table. -/
theorem changePlain_keeps : w.Keeps (changePlain q f w).2 ∧
    ((changePlain q f w).1 = .ok () → q < w.stores.length →
      f (w.store q).table = .ok ((changePlain q f w).2.store q).table) := by
  have hreach (t : Table) (ht : w.reach q = .ok t) : t = (w.store q).table := by
    unfold reach at ht
    split at ht
    · cases ht
    · exact (Except.ok.inj ht).symm
  rw [changePlain_apply]
  split
  · exact ⟨.refl _, nofun⟩
  · cases ht : w.reach q with
    | error e => exact ⟨.refl _, nofun⟩
    | ok t =>
      dsimp only
      rw [hreach t ht]
      cases f (w.store q).table with
      | error e => exact ⟨.refl _, nofun⟩
      | ok next => exact ⟨.of_elements rfl, fun _ hq => by rw [store_putTable hq]⟩

/-- A plain store sets one value as its own operation does. -/
theorem setMany_plainStore (k : Key) (v : Json.Value) :
    (plainStore q).setMany [(k, v)] w = changePlain q (fun t => .ok (t.insert k v)) w := by
  have hwritable : (plainStore q).ensureWritable w =
      (if w.plainIsReadOnly q then .error (.readOnly plainStoreName) else .ok (), w) := rfl
  have hset : (plainStore q).set k v w = changePlain q (fun t => .ok (t.insert k v)) w := rfl
  show ((plainStore q).ensureWritable >>= fun _ => (plainStore q).setEach [(k, v)]) w = _
  rw [bind_apply, hwritable]
  by_cases hr : w.plainIsReadOnly q = true
  · rw [if_pos hr, changePlain_apply, if_pos hr]
  · rw [if_neg hr]
    dsimp only
    rw [StoreCore.setEach, bind_apply, hset]
    rcases changePlain q (fun t => .ok (t.insert k v)) w with ⟨_ | _, _⟩ <;> rfl

/-- One value is set in a store of any kind. -/
theorem setMany_keeps (k : Key) (v : Json.Value) (q : StoreRef) (w : World) :
    w.Keeps ((w.storeAt q).setMany [(k, v)] w).2 ∧
      (((w.storeAt q).setMany [(k, v)] w).1 = .ok () → q < w.stores.length →
        (((w.storeAt q).setMany [(k, v)] w).2.store q).table =
          (w.store q).table.insert k v) := by
  unfold storeAt
  cases (w.store q).kind with
  | memory cache =>
    obtain ⟨hkeeps, hdone⟩ :=
      mutate_keeps (w := w) (q := q) (f := fun t => .ok (t.insertAll [(k, v)]))
    exact ⟨hkeeps, fun hok hq => (Except.ok.inj (hdone hok hq)).symm⟩
  | plain readOnly down =>
    obtain ⟨hkeeps, hdone⟩ := changePlain_keeps (w := w) (q := q) (f := fun t => .ok (t.insert k v))
    dsimp only
    rw [setMany_plainStore]
    exact ⟨hkeeps, fun hok hq => (Except.ok.inj (hdone hok hq)).symm⟩

theorem remove_keeps (k : Key) (q : StoreRef) (w : World) :
    w.Keeps ((w.storeAt q).remove k w).2 := by
  unfold storeAt
  cases (w.store q).kind with
  | memory cache => exact mutate_keeps.1
  | plain readOnly down => exact changePlain_keeps.1

end World

namespace StoreSet

variable {s : InWorld StoreSet}

theorem add_apply (r : ElementRef) (s : InWorld StoreSet) : core.addMany [r] s =
    match World.uuid r s.world with
    | (.error e, w) => (.error (.element e), { s with world := w })
    | (.ok k, w)    =>
      let (result, w') := (s.world.storeAt s.set.store).setMany
        [(.text k, (w.source r).descriptor.toValue)] w
      (result.mapError fault, { s with world := w' }) := by
  have happly : core.addMany [r] s = ((addTo (s.world.storeAt s.set.store) [r] s.world).1,
      { s with world := (addTo (s.world.storeAt s.set.store) [r] s.world).2 }) := rfl
  rw [happly, addTo, bind_apply, described, bind_apply, mapError_apply]
  rcases World.uuid r s.world with ⟨e | k, w⟩ <;> rfl

/-- The element is asked for its key, and if all goes well filed under it, as far as the store is
there. -/
theorem add_keeps (r : ElementRef) (s : InWorld StoreSet) :
    s.world.Follows (core.addMany [r] s).2.world ∧ ((core.addMany [r] s).1 = .ok () →
      s.set.store < s.world.stores.length →
        ∃ k, (World.uuid r s.world).1 = .ok k ∧ (core.addMany [r] s).2.set = s.set ∧
          ((core.addMany [r] s).2.world.store s.set.store).table =
            (s.world.store s.set.store).table.insert (.text k)
              (s.world.source r).descriptor.toValue) := by
  have hfollows := World.follows_uuid r s.world
  have hrecalls := World.recalls_uuid r s.world
  rw [add_apply]
  revert hfollows hrecalls
  rcases World.uuid r s.world with ⟨e | k, w⟩
  · exact fun hfollows _ => ⟨hfollows, fun hok => by cases hok⟩
  · intro hfollows hrecalls
    dsimp only at hfollows hrecalls ⊢
    have hstore : w.store s.set.store = s.world.store s.set.store := by
      rw [World.store, World.store, hrecalls.stores]
    have hat : s.world.storeAt s.set.store = w.storeAt s.set.store := by
      rw [World.storeAt, World.storeAt, hstore]
    obtain ⟨hkeeps, hdone⟩ := World.setMany_keeps (.text k) (w.source r).descriptor.toValue
      s.set.store w
    rw [hstore, hrecalls.stores] at hdone
    rw [hat, ← hrecalls.source r]
    revert hkeeps hdone
    rcases (w.storeAt s.set.store).setMany [(.text k, (w.source r).descriptor.toValue)] w
      with ⟨e | x, w'⟩
    · exact fun hkeeps _ => ⟨hfollows.keeps hkeeps, fun hok => by cases hok⟩
    · exact fun hkeeps hdone => ⟨hfollows.keeps hkeeps, fun _ hq => ⟨k, rfl, rfl, hdone rfl hq⟩⟩

end StoreSet

namespace TreeSet

variable {s : InWorld TreeSet}

theorem addOne_keeps (r : ElementRef) (s : InWorld TreeSet) :
    s.world.Follows (addOne r s).2.world ∧ ((addOne r s).1 = .ok () →
      ∃ k l, (World.uuid r s.world).1 = .ok k ∧ s.set.placeOf k k = .ok l ∧
        (addOne r s).2.set.entries = s.set.entries.insert k { paths := [l], element := r }) := by
  have hfollows := World.follows_uuid r s.world
  have hadds := adds r s
  generalize addOne r s = result at hadds ⊢
  cases hadds with
  | unkeyed hk =>
    rw [hk] at hfollows
    exact ⟨hfollows, nofun⟩
  | misplaced hk _ =>
    rw [hk] at hfollows
    exact ⟨hfollows, nofun⟩
  | @unwritten k l _ w w' hk _ hw =>
    have helements : w'.elements = w.elements :=
      (congrArg (·.2.elements) hw).symm.trans elements_writeFile
    rw [hk] at hfollows
    exact ⟨hfollows.keeps (.of_elements helements), nofun⟩
  | @added k l w w' hk hl hw =>
    have helements : w'.elements = w.elements :=
      (congrArg (·.2.elements) hw).symm.trans elements_writeFile
    rw [hk] at hfollows ⊢
    exact ⟨hfollows.keeps (.of_elements helements), fun _ => ⟨k, l, rfl, hl, rfl⟩⟩

theorem removeKey_keeps (delete : Deletion) (k : ElementKey) (s : InWorld TreeSet) :
    s.world.Keeps (removeKey delete k s).2.world := by
  unfold removeKey
  split
  · exact .refl _
  · split <;> exact .of_elements rfl

end TreeSet

/-! ### Adding one element to a set of any kind -/

/-- A set has an element under a key, and everything else is as before. -/
def Filed (s : InWorld DataSet) (r : ElementRef) (k : ElementKey) (s' : InWorld DataSet) : Prop :=
  match s.set, s'.set with
  | .memory m, .memory m'       => m'.elements = m.elements.insert k r
  | .overStore o, .overStore o' =>
    o' = o ∧ (s'.world.store o.store).table =
      (s.world.store o.store).table.insert (.text k) (s.world.source r).descriptor.toValue
  | .tree t, .tree t'           =>
    ∃ l, t.placeOf k k = .ok l ∧ t'.entries = t.entries.insert k { paths := [l], element := r }
  | _, _                        => False

namespace DataSet

variable {s : InWorld DataSet} {r : ElementRef}

/-- What a set does when an element is added: the key is asked for, and if all goes well the element
is filed under this key. -/
theorem add_keeps (r : ElementRef) (s : InWorld DataSet) :
    s.world.Follows (core.add r s).2.world ∧ ((core.add r s).1 = .ok () →
      (∀ o, s.set = .overStore o → o.store < s.world.stores.length) →
        ∃ k, (World.uuid r s.world).1 = .ok k ∧ Filed s r k (core.add r s).2) := by
  obtain ⟨set, w⟩ := s
  cases set with
  | memory m =>
    obtain ⟨hfollows, hdone⟩ := MemorySet.add_keeps r ⟨m, w⟩
    exact ⟨hfollows, fun hok _ => hdone hok⟩
  | overStore o =>
    obtain ⟨hfollows, hdone⟩ := StoreSet.add_keeps r ⟨o, w⟩
    refine ⟨hfollows, fun hok hstore => ?_⟩
    obtain ⟨k, hk, hset, htable⟩ := hdone hok (hstore o rfl)
    exact ⟨k, hk, hset, htable⟩
  | tree t =>
    obtain ⟨hfollows, hdone⟩ := TreeSet.addOne_keeps r ⟨t, w⟩
    have heach : TreeSet.addEach [r] ⟨t, w⟩ = TreeSet.addOne r ⟨t, w⟩ := by
      rw [TreeSet.addEach_cons]
      rcases TreeSet.addOne r ⟨t, w⟩ with ⟨_ | _, _⟩ <;> rfl
    rw [← heach] at hfollows hdone
    refine ⟨hfollows, fun hok _ => ?_⟩
    obtain ⟨k, l, hk, hl, hentries⟩ := hdone hok
    exact ⟨k, hk, l, hl, hentries⟩

/-- Removing a key asks no element for anything. -/
theorem keeps_remove (k : ElementKey) (s : InWorld DataSet) :
    s.world.Keeps (core.remove k s).2.world := by
  obtain ⟨set, w⟩ := s
  cases set with
  | memory m =>
    exact (@MemorySet.mutate_keeps ⟨m, w⟩ fun elements =>
      (MemorySet.find elements k).map fun _ => elements.erase k).1
  | overStore o => exact World.remove_keeps (.text k) o.store w
  | tree t => exact TreeSet.removeKey_keeps TreeSet.deleteFile k ⟨t, w⟩

end DataSet

/-! ### Runs -/

namespace Filing

/-- What can happen to a data set and to handles, of which several may lead to the same content. -/
inductive Event where
  /-- A new handle. -/
  | new (source : Source)
  | read (r : ElementRef)
  | checksum (r : ElementRef) (a : Algorithm)
  | setBytes (r : ElementRef) (content : Bytes)
  | delete (r : ElementRef)
  | writeTemp (r : ElementRef) (dir : Option String)
  | clean (r : ElementRef)
  /-- An element is added to the data set. -/
  | add (r : ElementRef)
  | remove (k : ElementKey)
  /-- Somebody else changes the disk and the backends. -/
  | elsewhere (disk : Disk) (backends : List Backend)

/-- The world after something that has been asked of an element. -/
def ask {α : Type} (r : ElementRef) (x : Element.Action α) (s : InWorld DataSet) :
    InWorld DataSet := { s with world := (World.onElement r x s.world).2 }

/-- The set and the world after an event, whether what was asked for has succeeded or not. -/
def Event.after [MediaTypes] (e : Event) (s : InWorld DataSet) : InWorld DataSet :=
  match e with
  | new source              =>
    { s with world := ((World.newElement source : World.Action Empty ElementRef) s.world).2 }
  | read r                  => ask r Element.read s
  | checksum r a            => ask r (Element.checksum a) s
  | setBytes r content      => ask r (Element.setBytes content) s
  | delete r                => ask r Element.delete s
  | writeTemp r dir         => ask r (Element.writeTemp dir) s
  | clean r                 => ask r Element.clean s
  | add r                   => (DataSet.core.add r s).2
  | remove k                => (DataSet.core.remove k s).2
  | elsewhere disk backends => { s with world := { s.world with disk, backends } }

/-- The set and the world after several events. -/
def afterAll [MediaTypes] (es : List Event) (s : InWorld DataSet) : InWorld DataSet :=
  es.foldl (fun s e => e.after s) s

variable {s : InWorld DataSet} {r : ElementRef} {b : Bytes} {es : List Event} {e : Event}

/-- What an element remembers follows its content whatever happens. -/
theorem Event.follows [MediaTypes] (e : Event) (s : InWorld DataSet) :
    s.world.Follows (e.after s).world := by
  cases e with
  | new source => exact (World.Keeps.newElement source).follows
  | read r => exact (World.Keeps.onElement (x := Element.read) (fun _ => .refl _) r s.world).follows
  | checksum r a => exact World.follows_checksum a r s.world
  | setBytes r content => exact (World.Keeps.setBytes r content s.world).follows
  | delete r => exact (World.Keeps.onElement Element.keeps_delete r s.world).follows
  | writeTemp r dir =>
    exact (World.Keeps.onElement (Element.keeps_writeTemp dir) r s.world).follows
  | clean r => exact (World.Keeps.onElement Element.keeps_clean r s.world).follows
  | add r => exact (DataSet.add_keeps r s).1
  | remove k => exact (DataSet.keeps_remove k s).follows
  | elsewhere disk backends => exact (World.Keeps.of_elements rfl).follows

/-- How often the content of an element has been changed through the element. -/
def changes (r : ElementRef) (s : InWorld DataSet) : Nat := (s.world.element r).cache.generation

/-- In a run an element has had some content, and has not been used to change its content since. -/
def HasHad [MediaTypes] (s : InWorld DataSet) (es : List Event) (r : ElementRef) (b : Bytes) :
    Prop :=
  ∃ earlier, earlier <+: es ∧ (afterAll earlier s).world.contentOf r = .ok b ∧
    ∀ es', earlier <+: es' → es' <+: es → changes r (afterAll es' s) = changes r (afterAll es s)

theorem afterAll_concat [MediaTypes] : afterAll (es ++ [e]) s = e.after (afterAll es s) := by
  simp [afterAll]

theorem HasHad.now [MediaTypes] (h : (afterAll es s).world.contentOf r = .ok b) :
    HasHad s es r b := by
  refine ⟨es, List.prefix_rfl, h, fun es' hes hes' => ?_⟩
  rw [hes'.eq_of_length_le hes.length_le]

/-- Content that an element has had it has had one event later, unless the event changes it through
the element. -/
theorem HasHad.concat [MediaTypes] (h : HasHad s es r b)
    (hc : changes r (afterAll (es ++ [e]) s) = changes r (afterAll es s)) :
    HasHad s (es ++ [e]) r b := by
  obtain ⟨earlier, hes, hb, hsame⟩ := h
  refine ⟨earlier, hes.trans (List.prefix_append _ _), hb, fun es' h h' => ?_⟩
  rcases List.prefix_concat_iff.1 h' with rfl | h'
  · rfl
  · rw [hc]
    exact hsame es' h h'

/-- What an element remembers is the checksum of content that it has had. -/
theorem hasHad_of_remembered [MediaTypes] {k : Checksum}
    (hnew : ∀ r, (s.world.element r).cache.checksum? .identity = none)
    (h : ((afterAll es s).world.element r).cache.checksum? .identity = some k) :
    ∃ b, HasHad s es r b ∧ k = .ofBytes .identity b := by
  induction es using List.reverseRecOn generalizing k with
  | nil =>
    have hnone := hnew r
    rw [show afterAll [] s = s from rfl, hnone] at h
    cases h
  | append_singleton es e ih =>
    have hfollows := e.follows (afterAll es s) r
    rw [← afterAll_concat] at hfollows
    rcases hfollows with (⟨hc, hk⟩ | ⟨-, hk⟩) | ⟨hc, b, hb, hk⟩
    · obtain ⟨b, hhad, hb⟩ := ih (hk ▸ h)
      exact ⟨b, hhad.concat hc, hb⟩
    · rw [hk] at h
      cases h
    · rw [hk] at h
      exact ⟨b, (HasHad.now hb).concat hc, (Option.some.inj h).symm⟩

/-- The key of an element is that of content that it has had. -/
theorem hasHad_of_uuid [MediaTypes] {k : ElementKey}
    (hnew : ∀ r, (s.world.element r).cache.checksum? .identity = none)
    (h : (World.uuid r (afterAll es s).world).1 = .ok k) :
    ∃ b, HasHad s es r b ∧ k = (Checksum.ofBytes .identity b).elementKey := by
  obtain ⟨c, hc, rfl⟩ := World.checksum_of_uuid h
  rw [Element.checksum_apply] at hc
  cases hk : ((afterAll es s).world.scene r).cache.checksum? .identity with
  | some c' =>
    rw [hk] at hc
    obtain ⟨b, hb, hcb⟩ := hasHad_of_remembered hnew hk
    cases hc
    exact ⟨b, hb, by rw [hcb]⟩
  | none =>
    rw [hk] at hc
    cases hb : Element.contentIn ((afterAll es s).world.scene r) with
    | error e =>
      rw [hb] at hc
      cases hc
    | ok b =>
      rw [hb] at hc
      cases hc
      exact ⟨b, HasHad.now hb, rfl⟩

/-- An element that is added after whatever has happened to new handles is filed under the key of
content that it has had since its content was last changed through it. If its content has been the
same all that time, whatever other handles there are, this is the key of its content now. -/
theorem filed_under_content [MediaTypes] (hnew : ∀ e ∈ s.world.elements, e.cache.checksums = [])
    (hstore : ∀ o, (afterAll es s).set = .overStore o →
      o.store < (afterAll es s).world.stores.length)
    (hadd : (DataSet.core.add r (afterAll es s)).1 = .ok ()) :
    ∃ b, HasHad s es r b ∧
      Filed (afterAll es s) r (Checksum.ofBytes .identity b).elementKey
        (DataSet.core.add r (afterAll es s)).2 ∧
      ((∀ es', es' <+: es → changes r (afterAll es' s) = changes r (afterAll es s) →
        (afterAll es' s).world.contentOf r = (afterAll es s).world.contentOf r) →
          (afterAll es s).world.contentOf r = .ok b) := by
  have hnone (r : ElementRef) : (s.world.element r).cache.checksum? .identity = none := by
    refine ContentCache.checksum?_of_nil ?_
    by_cases hr : r < s.world.elements.length
    · rw [← World.element_eq hr]
      exact hnew _ (List.getElem_mem hr)
    · rw [World.element, List.getD_eq_getElem?_getD, List.getElem?_eq_none (Nat.le_of_not_lt hr)]
      rfl
  obtain ⟨k, hk, hfiled⟩ := (DataSet.add_keeps r (afterAll es s)).2 hadd hstore
  obtain ⟨b, hb, rfl⟩ := hasHad_of_uuid hnone hk
  refine ⟨b, hb, hfiled, fun hsteady => ?_⟩
  obtain ⟨earlier, hes, hcontent, hsame⟩ := hb
  rw [← hsteady earlier hes (hsame earlier List.prefix_rfl hes), hcontent]

/-- A world with two handles to the content of one locator. -/
def twoHandles : InWorld DataSet where
  set := .memory .empty
  world := { World.ofDisk (.fresh ["work"] "tmp") with
    backends := [{ Backend.empty with entries := .ofList [("x", "old".toUTF8)] }]
    elements := List.replicate 2 (.ofSource (.backend "memory" 0 "x" none false)) }

open MediaTypes in
/-- Content that has been replaced through the handle itself is filed under its own key. -/
theorem filed_under_new_content :
    let s := afterAll [.checksum 0 .identity, .setBytes 0 "new".toUTF8] twoHandles
    (DataSet.core.add 0 s).1 = .ok () ∧
      Filed s 0 (Checksum.ofBytes .identity "new".toUTF8).elementKey
        (DataSet.core.add 0 s).2 := by
  have hold : ∀ e ∈ twoHandles.world.elements, e.cache.checksums = [] := by
    intro e he
    rw [List.eq_of_mem_replicate he]
    rfl
  have hadd : (DataSet.core.add 0 (afterAll [.checksum 0 .identity, .setBytes 0 "new".toUTF8]
      twoHandles)).1 = .ok () := rfl
  have hnew : ((afterAll [.checksum 0 .identity, .setBytes 0 "new".toUTF8]
      twoHandles).world.contentOf 0).toOption = some "new".toUTF8 := by decide +kernel
  obtain ⟨b, -, hfiled, hsteady⟩ := filed_under_content hold (by nofun) hadd
  have hb := hsteady fun es' hes hc => by
    rw [← List.mem_inits] at hes
    simp only [List.inits, List.map_cons, List.map_nil, List.mem_cons, List.not_mem_nil,
      or_false] at hes
    rcases hes with rfl | rfl | rfl
    · exact absurd hc (by decide +kernel)
    · exact absurd hc (by decide +kernel)
    · rfl
  rw [hb] at hnew
  cases hnew
  exact ⟨hadd, hfiled⟩

open MediaTypes in
/-- Content that has been replaced through another handle is filed under the key of the old
content. -/
theorem filed_under_old_content :
    let s := afterAll [.checksum 0 .identity, .setBytes 1 "new".toUTF8] twoHandles
    let key (b : Bytes) := (Checksum.ofBytes .identity b).elementKey
    (s.world.contentOf 0).toOption = some "new".toUTF8 ∧
      (DataSet.core.add 0 s).1.toOption = some () ∧
      (DataSet.core.keys (DataSet.core.add 0 s).2).1.toOption = some [key "old".toUTF8] ∧
      key "old".toUTF8 ≠ key "new".toUTF8 := by
  decide +kernel

end Filing

end Depot
