import Mathlib.Logic.Relation
import Depot.Proofs.Element.Storing
import Depot.Proofs.Set.Loading
/-!
# Runs of a set in memory with a cache element

Every change of a set is written to its cache element before it is made, so that the set can be
loaded again from there with the same keys and the same elements. Writing may fail at any time. A
change that fails, be it because it cannot be written, has changed neither the set nor the cache
element, and a set whose cache element may not be written never changes.
-/

namespace Depot.MemorySet

open Depot.Action

variable {p : Plugins} {w w' : World} {c r : ElementRef} {s s' : InWorld MemorySet}
  {m : Dict ElementKey ElementRef} {t : MemorySet} {write : Writing}
  {change : Dict ElementKey ElementRef → Except SetError (Dict ElementKey ElementRef)}

/-! ### Changes -/

/-- What can be asked of a set so that it changes. -/
inductive Change where
  | addMany (rs : List ElementRef)
  | remove (k : ElementKey)

namespace Change

/-- Makes a change. -/
def make (write : Writing) : Change → InWorld.Action MemorySet Unit
  | addMany rs => MemorySet.addMany write rs
  | remove k   => removeKey write k

/-- The elements that a change names. -/
def named : Change → List ElementRef
  | addMany rs => rs
  | remove _   => []

end Change

/-- An element that is there and can be built again from its descriptor. -/
def Rebuilds (p : Plugins) (w : World) (r : ElementRef) : Prop :=
  r < w.elements.length ∧ p.Buildable (w.source r)

/-- A set over a cache element that has content and remembers nothing wrong, and whose elements can
all be built again. -/
structure IsCached (p : Plugins) (c : ElementRef) (s : InWorld MemorySet) : Prop where
  cache : s.set.cache = some c
  element : c < s.world.elements.length
  faithful : Element.Faithful (s.world.scene c)
  based : Element.Based (s.world.scene c)
  content : ∃ b, s.world.contentOf c = .ok b
  elements : ∀ k r, s.set.elements.get? k = some r → Rebuilds p s.world r

/-! ### Asking for keys -/

theorem based_of_recalls (h : w.Recalls w') (hb : Element.Based (w.scene c)) :
    Element.Based (w'.scene c) := by
  intro name ref locator type readOnly hs
  have hs' : w.source c = .backend name ref locator type readOnly := (h.source c).symm.trans hs
  have hlt := hb name ref locator type readOnly hs'
  show ref < w'.backends.length
  rw [h.backends]
  exact hlt

theorem faithful_uuid (hc : c < w.elements.length) (hf : Element.Faithful (w.scene c))
    (r : ElementRef) : Element.Faithful ((World.uuid r w).2.scene c) := by
  have hw := World.recalls_uuid r w
  rw [World.uuid_eq] at hw ⊢
  dsimp only at hw ⊢
  by_cases hr : c = r
  · subst hr
    rw [World.scene_putScene hc]
    exact hf.checksum _
  · rw [hw.scene (World.element_putScene_of_ne hr)]
    exact hf

/-- Asking elements for their keys leaves the set as it is, and nothing in the world changes but
what elements remember. -/
theorem keyed_recalls (rs : List ElementRef) (s : InWorld MemorySet) :
    ∃ w, (keyed rs s).2 = { s with world := w } ∧ s.world.Recalls w ∧
      (∀ c, c < s.world.elements.length → Element.Faithful (s.world.scene c) →
        Element.Faithful (w.scene c)) ∧
      ∀ es, (keyed rs s).1 = .ok es → es.map (·.2) = rs := by
  induction rs generalizing s with
  | nil =>
    refine ⟨s.world, rfl, .refl _, fun _ _ hf => hf, fun es hes => ?_⟩
    cases hes
    rfl
  | cons r rs ih =>
    have hw := World.recalls_uuid r s.world
    obtain ⟨w, hsame, hw', hf', hrs⟩ := ih { s with world := (World.uuid r s.world).2 }
    have huuid : InWorld.uuid r s = ((World.uuid r s.world).1.mapError .element,
        { s with world := (World.uuid r s.world).2 }) := rfl
    unfold keyed
    rw [bind_apply, huuid]
    cases hk : (World.uuid r s.world).1 with
    | error e =>
      refine ⟨_, rfl, hw, fun c hc hf => faithful_uuid hc hf r, nofun⟩
    | ok k =>
      dsimp only [Except.mapError]
      rw [bind_apply]
      refine ⟨w, ?_, hw.trans hw', fun c hc hf => ?_, fun es hes => ?_⟩
      · rw [← hsame]
        rcases keyed rs _ with ⟨_ | _, _⟩ <;> rfl
      · refine hf' c ?_ (faithful_uuid hc hf r)
        rw [hw.length]
        exact hc
      · revert hrs hes
        rcases keyed rs _ with ⟨_ | es', _⟩
        · exact fun _ hes => nomatch hes
        · intro hrs hes
          cases hes
          rw [List.map_cons, hrs es' rfl]

/-- Worlds in which only what elements remember differs are the same to a set. -/
theorem IsCached.recalls (h : IsCached p c s) (hw : s.world.Recalls w)
    (hf : Element.Faithful (w.scene c)) : IsCached p c { s with world := w } := by
  refine ⟨h.cache, ?_, hf, based_of_recalls hw h.based, ?_, fun k r hr => ?_⟩
  · rw [hw.length]
    exact h.element
  · rw [hw.contentOf]
    exact h.content
  · obtain ⟨hlt, hb⟩ := h.elements k r hr
    refine ⟨by rw [hw.length]; exact hlt, ?_⟩
    rw [hw.source]
    exact hb

/-! ### Writing -/

/-- A set over a cache element refuses every change if the element may not be written. Otherwise the
elements that come next are written to it, and only then they take their place. -/
theorem mutate_of_cache (hc : s.set.cache = some c) : mutate write change s =
    if (s.world.source c).writable = true then
      match change s.set.elements with
      | .error e => (.error e, s)
      | .ok next =>
        match write c (encode s.world next) s.world with
        | (.error e, w) => (.error (.element e), { s with world := w })
        | (.ok _, w)    => (.ok (), { set := { s.set with elements := next }, world := w })
    else (.error (.readOnly (describe (s.world.source c).locator)), s) := by
  obtain ⟨⟨elements, cache⟩, w⟩ := s
  dsimp only at hc ⊢
  subst hc
  unfold mutate
  rw [bind_apply, get_apply]
  dsimp only
  cases (w.source c).writable with
  | false => rfl
  | true =>
    cases change elements with
    | error e => rfl
    | ok next =>
      simp only [Bool.not_true, Bool.false_eq_true, if_false, if_true]
      rw [bind_apply, InWorld.onWorld_apply, mapError_apply]
      dsimp only
      rcases write c (encode w next) w with ⟨_ | _, _⟩ <;> rfl

/-- What a change comes to: the cache element may not be written, or the elements refuse the change;
it is made where nothing is to be written; or the elements that come next are written to the cache
element, which may fail. -/
inductive Mutates (write : Writing)
    (change : Dict ElementKey ElementRef → Except SetError (Dict ElementKey ElementRef))
    (s : InWorld MemorySet) : Except SetError Unit × InWorld MemorySet → Prop
  | locked {c : ElementRef} (hc : s.set.cache = some c)
      (hr : ¬ (s.world.source c).writable = true) :
      Mutates write change s (.error (.readOnly (describe (s.world.source c).locator)), s)
  | refused {e : SetError} (hnext : change s.set.elements = .error e) :
      Mutates write change s (.error e, s)
  | made {next : Dict ElementKey ElementRef} (hnext : change s.set.elements = .ok next)
      (hc : s.set.cache = none) : Mutates write change s (.ok (), { s with set.elements := next })
  | unwritten {next : Dict ElementKey ElementRef} {c : ElementRef} {e : ElementError} {w : World}
      (hnext : change s.set.elements = .ok next) (hc : s.set.cache = some c)
      (hw : write c (encode s.world next) s.world = (.error e, w)) :
      Mutates write change s (.error (.element e), { s with world := w })
  | written {next : Dict ElementKey ElementRef} {c : ElementRef} {w : World}
      (hnext : change s.set.elements = .ok next) (hc : s.set.cache = some c)
      (hw : write c (encode s.world next) s.world = (.ok (), w)) :
      Mutates write change s (.ok (), { set := { s.set with elements := next }, world := w })

theorem mutates (write : Writing)
    (change : Dict ElementKey ElementRef → Except SetError (Dict ElementKey ElementRef))
    (s : InWorld MemorySet) : Mutates write change s (mutate write change s) := by
  cases hc : s.set.cache with
  | none =>
    obtain ⟨⟨elements, cache⟩, w⟩ := s
    dsimp only at hc
    subst hc
    have happly : mutate write change ⟨⟨elements, none⟩, w⟩ = match change elements with
        | .error e => (.error e, ⟨⟨elements, none⟩, w⟩)
        | .ok next => (.ok (), ⟨⟨next, none⟩, w⟩) := by
      unfold mutate
      rw [bind_apply, get_apply]
      dsimp only
      cases change elements <;> rfl
    rw [happly]
    cases hnext : change elements with
    | error e => exact .refused hnext
    | ok next => exact .made hnext rfl
  | some c =>
    rw [mutate_of_cache hc]
    split
    · cases hnext : change s.set.elements with
      | error e => exact .refused hnext
      | ok next =>
        dsimp only
        cases hw : write c (encode s.world next) s.world with
        | mk result w =>
          cases result with
          | error e => exact .unwritten hnext hc hw
          | ok u => exact .written hnext hc hw
    · next hr => exact .locked hc hr

/-- Where writing to the cache element succeeds, it holds the new content. The sources of other
elements stay the same, and its own is one that can be built again if it was. -/
theorem setBytes_of_cached (h : IsCached p c s) (hw : (s.world.source c).writable = true)
    {content : Bytes} (hr : World.setBytes c content s.world = (.ok (), w)) :
    w.contentOf c = .ok content ∧ w.elements.length = s.world.elements.length ∧
      Element.Faithful (w.scene c) ∧ Element.Based (w.scene c) ∧
      (w.source c).writable = true ∧ (∀ r, r ≠ c → w.source r = s.world.source r) ∧
      (w.contentOf c = s.world.contentOf c → w.source c = s.world.source c) ∧
      (p.Buildable (s.world.source c) → p.Buildable (w.source c)) := by
  obtain ⟨b, hb⟩ := h.content
  have hfaithful := h.faithful.setBytes content
  have haround := Element.setBytes_around content (s.world.scene c)
  have hsame := Element.source_setBytes (s := s.world.scene c) content hb
  have hkind := (Element.store_source content (s.world.scene c)).2
  rw [← Element.around_setBytes content hw] at hkind
  unfold World.setBytes at hr
  rw [World.onElement_apply] at hr
  rcases hsc : Element.setBytes content (s.world.scene c) with ⟨e | ⟨⟩, sc⟩
  · rw [hsc] at hr
    cases hr
  rw [hsc] at hr hfaithful haround hsame hkind
  dsimp only at hr hfaithful haround hsame hkind
  cases hr
  -- Content that could be read before can be read again, and is the new one.
  have hread := Element.contentIn_of_setBytes h.faithful h.based hb hsc
  have hscene : (World.putScene c sc s.world).scene c = sc := World.scene_putScene h.element
  have hcontent : (World.putScene c sc s.world).contentOf c = .ok content := by
    unfold World.contentOf
    rw [hscene]
    exact hread
  have hsource : (World.putScene c sc s.world).source c = sc.around.source := by
    unfold World.source
    rw [World.element_putScene h.element]
  refine ⟨hcontent, World.length_elements_putScene, ?_, ?_, ?_, fun r hr => ?_, fun heq => ?_,
    fun hbuild => ?_⟩
  · rw [hscene]
    exact hfaithful
  · rw [hscene]
    exact haround.2.1 h.based
  · rw [hsource]
    exact haround.1.trans hw
  · unfold World.source
    rw [World.element_putScene_of_ne hr]
  · rw [hsource]
    refine hsame ?_
    rw [hread, ← hcontent, heq]
    exact hb
  · rw [hsource]
    -- Only a source in memory is replaced, by another one in memory.
    rcases hkind with hsource' | ⟨old, type, readOnly, -, hsource'⟩
    · rw [hsource']
      exact hbuild
    · rw [hsource']
      exact ⟨_, Plugins.builds_descriptor trivial⟩

/-! ### Writing that fails -/

/-- Nothing has happened to a set and its cache element. -/
def Untouched (c : ElementRef) (s s' : InWorld MemorySet) : Prop :=
  s'.set = s.set ∧ s'.world.contentOf c = s.world.contentOf c

theorem Untouched.trans {s'' : InWorld MemorySet} (h : Untouched c s s')
    (h' : Untouched c s' s'') : Untouched c s s'' := ⟨h'.1.trans h.1, h'.2.trans h.2⟩

/-- What an attempt to write to an element may do that fails: the element keeps its content and
remembers nothing wrong. -/
structure Attempted (c : ElementRef) (w w' : World) : Prop where
  length : w'.elements.length = w.elements.length
  sources : ∀ r, w'.source r = w.source r
  content : w'.contentOf c = w.contentOf c
  faithful : Element.Faithful (w.scene c) → Element.Faithful (w'.scene c)
  based : Element.Based (w.scene c) → Element.Based (w'.scene c)

theorem Attempted.refl (c : ElementRef) (w : World) : Attempted c w w :=
  ⟨rfl, fun _ => rfl, rfl, id, id⟩

/-- A way of writing that writes to an element, or fails for whatever reason and leaves the element
its content: content is replaced by what is finished, or not at all. -/
def Writing.Fallible (write : Writing) (c : ElementRef) : Prop :=
  ∀ content w, write c content w = World.setBytes c content w ∨
    ∃ e w', write c content w = (.error e, w') ∧ Attempted c w w'

theorem fallible_setBytes (c : ElementRef) : Writing.Fallible World.setBytes c :=
  fun _ _ => .inl rfl

/-- Where writing to the cache element fails, its backend has refused it and nothing has happened.
-/
theorem IsCached.attempted_setBytes (h : IsCached p c s) {content : Bytes} {e : ElementError}
    (hr : World.setBytes c content s.world = (.error e, w)) : Attempted c s.world w := by
  obtain ⟨b, hb⟩ := h.content
  unfold World.setBytes at hr
  rw [World.onElement_apply] at hr
  rcases hsc : Element.setBytes content (s.world.scene c) with ⟨x, sc⟩
  rw [hsc] at hr
  obtain ⟨rfl, rfl⟩ := Prod.mk.inj hr
  rcases Element.setBytes_error h.faithful.tree hsc with ⟨rfl, -⟩ | ⟨-, hno, -⟩
  · rw [World.putScene_scene h.element]
    exact .refl c s.world
  · exact absurd hb (hno b)

/-- The new content is written, or the attempt fails. -/
theorem IsCached.write_cases (h : IsCached p c s) (hwrite : write.Fallible c) (content : Bytes) :
    (∃ w, write c content s.world = (.ok (), w) ∧
      World.setBytes c content s.world = (.ok (), w)) ∨
    ∃ e w, write c content s.world = (.error e, w) ∧ Attempted c s.world w := by
  rcases hwrite content s.world with hset | hfails
  · rw [hset]
    rcases hr : World.setBytes c content s.world with ⟨e | ⟨⟩, w⟩
    · exact .inr ⟨e, w, rfl, h.attempted_setBytes hr⟩
    · exact .inl ⟨w, rfl, rfl⟩
  · exact .inr hfails

theorem IsCached.attempted (h : IsCached p c s) (hw : Attempted c s.world w) :
    IsCached p c { s with world := w } := by
  refine ⟨h.cache, ?_, hw.faithful h.faithful, hw.based h.based, ?_, fun k r hr => ?_⟩
  · rw [hw.length]
    exact h.element
  · rw [hw.content]
    exact h.content
  · obtain ⟨hlt, hb⟩ := h.elements k r hr
    refine ⟨by rw [hw.length]; exact hlt, ?_⟩
    rw [hw.sources]
    exact hb

/-- What becomes of a change: it fails and nothing has happened, or the cache element holds the set
as it is now. -/
inductive Written (p : Plugins) (c : ElementRef) (s : InWorld MemorySet) :
    Except SetError Unit × InWorld MemorySet → Prop
  | failed {s' : InWorld MemorySet} (e : SetError) (untouched : Untouched c s s') :
      Written p c s (.error e, s')
  | written {s' : InWorld MemorySet} (writable : (s.world.source c).writable = true)
      (content : s'.world.contentOf c = .ok (encode s.world s'.set.elements))
      (sources : ∀ r, s'.world.contentOf r = s.world.contentOf r →
        s'.world.source r = s.world.source r) : Written p c s (.ok (), s')

/-- What comes next is written to the cache element before it takes the place of what is there:
every change leaves a set over a cache element, as writable as before, also where it cannot be
written. -/
theorem IsCached.mutate (h : IsCached p c s) (hwrite : write.Fallible c)
    (hnext : ∀ next, change s.set.elements = .ok next → ∀ k r, next.get? k = some r →
      Rebuilds p s.world r) :
    IsCached p c (mutate write change s).2 ∧ Written p c s (mutate write change s) ∧
      ((mutate write change s).2.world.source c).writable = (s.world.source c).writable := by
  rw [mutate_of_cache h.cache]
  split
  · next hw =>
    cases hchange : change s.set.elements with
    | error e => exact ⟨h, .failed e ⟨rfl, rfl⟩, rfl⟩
    | ok next =>
      dsimp only
      rcases h.write_cases hwrite (encode s.world next) with
        ⟨w, hok, hset⟩ | ⟨e, w, hfails, hattempted⟩
      · -- The content of the cache element is replaced.
        obtain ⟨hcontent, hlength, hfaithful, hbased, hw', hothers, hsame, hbuild⟩ :=
          setBytes_of_cached h hw hset
        rw [hok]
        refine ⟨⟨h.cache, ?_, hfaithful, hbased, ⟨_, hcontent⟩, fun k r hr => ?_⟩,
          .written hw hcontent fun r hr => ?_, hw'.trans hw.symm⟩
        · rw [hlength]
          exact h.element
        · obtain ⟨hlt, hb⟩ := hnext next hchange k r hr
          refine ⟨by rw [hlength]; exact hlt, ?_⟩
          by_cases hrc : r = c
          · subst hrc
            exact hbuild hb
          · dsimp only
            rw [hothers r hrc]
            exact hb
        · by_cases hrc : r = c
          · subst hrc
            exact hsame hr
          · exact hothers r hrc
      · -- The elements that would have come next are given up.
        rw [hfails]
        exact ⟨h.attempted hattempted, .failed _ ⟨rfl, hattempted.content⟩,
          congrArg Source.writable (hattempted.sources c)⟩
  · exact ⟨h, .failed _ ⟨rfl, rfl⟩, rfl⟩

theorem addMany_apply (write : Writing) (rs : List ElementRef) (s : InWorld MemorySet) :
    addMany write rs s = match keyed rs s with
      | (.ok es, s')   => MemorySet.mutate write (fun elements => .ok (elements.insertAll es)) s'
      | (.error e, s') => (.error e, s') := by
  unfold addMany
  rw [bind_apply]
  rcases keyed rs s with ⟨_ | _, _⟩ <;> rfl

/-- A change asks elements for their keys at most before it writes and makes what comes next. -/
theorem IsCached.make (h : IsCached p c s) (hwrite : write.Fallible c) {q : Change}
    (hq : ∀ r ∈ q.named, Rebuilds p s.world r) : ∃ w, s.world.Recalls w ∧
      IsCached p c (q.make write s).2 ∧ Written p c { s with world := w } (q.make write s) ∧
      ((q.make write s).2.world.source c).writable = (s.world.source c).writable := by
  cases q with
  | remove k =>
    -- What stays in the map has been in it.
    refine ⟨s.world, .refl _, h.mutate hwrite fun next hnext k' r hr => ?_⟩
    unfold find at hnext
    cases hk : s.set.elements.get? k with
    | none =>
      rw [hk] at hnext
      cases hnext
    | some r' =>
      rw [hk] at hnext
      cases hnext
      rw [Dict.get?_erase] at hr
      split at hr
      · cases hr
      · exact h.elements k' r hr
  | addMany rs =>
    -- Finding the keys changes the world only in what is remembered, whether it succeeds or not.
    obtain ⟨w, hsame, hw, hf, hrs⟩ := keyed_recalls rs s
    have h' := h.recalls hw (hf c h.element h.faithful)
    show ∃ w, _ ∧ IsCached p c (addMany write rs s).2 ∧ Written p c _ (addMany write rs s) ∧
      ((addMany write rs s).2.world.source c).writable = _
    refine ⟨w, hw, ?_⟩
    rw [addMany_apply, ← hw.source c]
    revert hsame hrs
    rcases keyed rs s with ⟨e | es, s'⟩
    · rintro rfl -
      exact ⟨h', .failed e ⟨rfl, rfl⟩, rfl⟩
    · rintro rfl hrs
      refine h'.mutate hwrite fun next hnext k r hr => ?_
      cases hnext
      rcases Dict.mem_of_get?_insertAll hr with hm | hm
      · have hmem : r ∈ rs := by
          rw [← hrs es rfl]
          exact List.mem_map_of_mem hm
        obtain ⟨hlt, hb⟩ := hq r hmem
        refine ⟨by rw [hw.length]; exact hlt, ?_⟩
        dsimp only
        rw [hw.source]
        exact hb
      · exact h'.elements k r hm

/-! ### Loading again -/

theorem encode_congr (h : ∀ k r, m.get? k = some r → w'.source r = w.source r) :
    encode w' m = encode w m := by
  unfold encode
  have hentries : (m.entries.map fun e => (e.1, (w'.source e.2).descriptor.toValue)) =
      m.entries.map fun e => (e.1, (w.source e.2).descriptor.toValue) := by
    apply List.map_congr_left
    intro e he
    rw [h e.1 e.2 (Dict.get?_of_mem he)]
  exact congrArg (fun o => (Json.Value.object o).text.toUTF8) hentries

/-- A set can be opened over the cache element of another. It has the same keys, and under each of
them an element with the same source and the same content. -/
def Reopens (p : Plugins) (c : ElementRef) (s : InWorld MemorySet) : Prop :=
  ∃ m w, openCached p c s.world = (.ok { elements := m, cache := some c }, w) ∧
    m.keys = s.set.elements.keys ∧ ∀ k r, s.set.elements.get? k = some r →
      ∃ r', m.get? k = some r' ∧ w.source r' = s.world.source r ∧
        w.contentOf r' = s.world.contentOf r

theorem openCached_apply : openCached p c w =
    match load p c w with
    | (.error e, w') => (.error e, w')
    | (.ok m, w')    => (.ok { elements := m, cache := some c }, w') := by
  unfold openCached
  rw [bind_apply]
  rcases load p c w with ⟨_ | _, _⟩ <;> rfl

/-- A set that is written to its cache element can be opened again. -/
theorem IsCached.reopens (h : IsCached p c s)
    (hb : s.world.contentOf c = .ok (encode s.world s.set.elements)) : Reopens p c s := by
  have htells := tells_encode fun k r hr => (h.elements k r hr).2
  obtain ⟨es, w, hload, hw, hes⟩ := load_of_tells h.element hb htells
  have halike := alike_of_sources hes
  refine ⟨.ofList es, w, ?_, halike.keys, fun k r hr => ?_⟩
  · rw [openCached_apply, hload]
  · obtain ⟨r', hr', -, hsource⟩ := halike.get? hr
    have hlt := (h.elements k r hr).1
    refine ⟨r', hr', hsource, ?_⟩
    rw [← hw.contentOf hlt]
    apply World.contentOf_congr
    rw [hsource, hw.gains.source hlt]

/-- A set that has been opened over a cache element is one over a cache element. -/
theorem isCached_of_openCached (hc : c < w.elements.length) (hf : Element.Faithful (w.scene c))
    (hb : Element.Based (w.scene c)) (h : openCached p c w = (.ok t, w')) :
    IsCached p c { set := t, world := w' } ∧ w.Grown w' := by
  rw [openCached_apply] at h
  rcases hload : load p c w with ⟨e | m, w₁⟩
  · rw [hload] at h
    cases h
  · rw [hload] at h
    cases h
    obtain ⟨b, ss, hcontent, htells⟩ := tells_of_load hc hload
    obtain ⟨es, w₂, hload', hw, hes⟩ := load_of_tells hc hcontent htells
    rw [hload] at hload'
    cases hload'
    have hscene : w'.scene c = w.scene c := by
      have helement := hw.element hc
      obtain ⟨new, rfl⟩ := hw
      unfold World.scene World.source
      rw [helement]
    refine ⟨⟨rfl, Nat.lt_of_lt_of_le hc hw.gains.length, ?_, ?_, ⟨b, ?_⟩, fun k r hr => ?_⟩, hw⟩
    · dsimp only
      rw [hscene]
      exact hf
    · dsimp only
      rw [hscene]
      exact hb
    · exact (hw.contentOf hc).trans hcontent
    · rcases Dict.mem_of_get?_insertAll hr with hm | hm
      · exact buildable_of_has (buildable_of_tells htells) hes _ hm
      · cases hm

/-! ### Runs -/

/-- What may happen to the world besides: the elements of the set keep their sources, and the cache
element keeps its content and remembers nothing wrong. -/
structure Elsewhere (c : ElementRef) (s : InWorld MemorySet) (w : World) : Prop where
  length : s.world.elements.length ≤ w.elements.length
  sources : ∀ k r, s.set.elements.get? k = some r → w.source r = s.world.source r
  writable : (w.source c).writable = (s.world.source c).writable
  content : w.contentOf c = s.world.contentOf c
  faithful : Element.Faithful (w.scene c)
  based : Element.Based (w.scene c)

/-- What can happen to a set over a cache element that nobody else writes. Writing may fail in any
step. -/
inductive Step (p : Plugins) (c : ElementRef) : InWorld MemorySet → InWorld MemorySet → Prop
  | change {s : InWorld MemorySet} {write : Writing} (hwrite : write.Fallible c) (q : Change) :
      (∀ r ∈ q.named, Rebuilds p s.world r) → Step p c s (q.make write s).2
  | elsewhere {s : InWorld MemorySet} {w : World} : Elsewhere c s w →
      Step p c s { s with world := w }

/-- A change that fails, or is made on a set that may not be changed, has not happened. -/
theorem Written.untouched {x : Except SetError Unit × InWorld MemorySet} (hw : s.world.Recalls w)
    (h : Written p c { s with world := w } x)
    (hx : (∃ e, x.1 = .error e) ∨ (s.world.source c).writable = false) : Untouched c s x.2 := by
  cases h with
  | failed e huntouched => exact ⟨huntouched.1, huntouched.2.trans (hw.contentOf c)⟩
  | written writable =>
    rcases hx with ⟨e, he⟩ | hx
    · cases he
    · dsimp only at writable
      rw [hw.source, hx] at writable
      cases writable

/-- Every step leaves a set over a cache element, as writable as before; if it may not be changed,
it is not. -/
theorem Step.isCached (h : Step p c s s') (hs : IsCached p c s) : IsCached p c s' ∧
    (s'.world.source c).writable = (s.world.source c).writable ∧
      ((s.world.source c).writable = false → Untouched c s s') := by
  cases h with
  | change hwrite q hq =>
    obtain ⟨w, hw, hs', hwritten, hwritable⟩ := hs.make hwrite hq
    exact ⟨hs', hwritable, fun hro => hwritten.untouched hw (.inr hro)⟩
  | elsewhere he =>
    refine ⟨⟨hs.cache, Nat.lt_of_lt_of_le hs.element he.length, he.faithful, he.based, ?_,
      fun k r hr => ?_⟩, he.writable, fun _ => ⟨rfl, he.content⟩⟩
    · dsimp only
      rw [he.content]
      exact hs.content
    · obtain ⟨hlt, hb⟩ := hs.elements k r hr
      refine ⟨Nat.lt_of_lt_of_le hlt he.length, ?_⟩
      dsimp only
      rw [he.sources k r hr]
      exact hb

theorem isCached_of_steps (h : Relation.ReflTransGen (Step p c) s s') (hs : IsCached p c s) :
    IsCached p c s' ∧ (s'.world.source c).writable = (s.world.source c).writable ∧
      ((s.world.source c).writable = false → Untouched c s s') := by
  induction h with
  | refl => exact ⟨hs, rfl, fun _ => ⟨rfl, rfl⟩⟩
  | tail _ hstep ih =>
    obtain ⟨hcached, hwritable, huntouched⟩ := ih
    obtain ⟨hcached', hwritable', huntouched'⟩ := hstep.isCached hcached
    exact ⟨hcached', hwritable'.trans hwritable, fun hro =>
      (huntouched hro).trans (huntouched' (hwritable.trans hro))⟩

/-- In every state that comes about after a set has been opened over a cache element, and for every
change of it, however writing fails now or has failed before: if the change succeeds and the
elements of the set keep their content, the cache element holds the set, and a set opened over it
has the same keys with elements of the same implementations, parameters and contents; if it fails,
neither the set nor the cache element has changed; and if the cache element may not be written,
neither ever changes. -/
theorem written_through (hc : c < w.elements.length) (hf : Element.Faithful (w.scene c))
    (hb : Element.Based (w.scene c)) (ho : openCached p c w = (.ok t, w'))
    (hrun : Relation.ReflTransGen (Step p c) { set := t, world := w' } s)
    (hwrite : write.Fallible c) (q : Change) (hq : ∀ r ∈ q.named, Rebuilds p s.world r) :
    let s' := (q.make write s).2
    ((q.make write s).1 = .ok () →
      (∀ k r, s'.set.elements.get? k = some r → s'.world.contentOf r = s.world.contentOf r) →
      s'.world.contentOf c = .ok (encode s'.world s'.set.elements) ∧ Reopens p c s') ∧
    (∀ e, (q.make write s).1 = .error e → Untouched c s s') ∧
    ((w.source c).writable = false →
      Untouched c { set := t, world := w } s ∧ Untouched c { set := t, world := w } s') := by
  intro s'
  obtain ⟨hopened, hgrown⟩ := isCached_of_openCached hc hf hb ho
  obtain ⟨hs, hwritable, huntouched⟩ := isCached_of_steps hrun hopened
  obtain ⟨w₁, hw₁, hs', hwritten, -⟩ := hs.make hwrite hq
  refine ⟨fun hok hsteady => ?_, fun e he => hwritten.untouched hw₁ (.inl ⟨e, he⟩), fun hro => ?_⟩
  · -- What has been written was encoded before the write, but the elements are described as before.
    have hcontent : s'.world.contentOf c = .ok (encode s'.world s'.set.elements) := by
      have hwritten' : Written p c { s with world := w₁ } (.ok (), s') := by
        rw [← hok]
        exact hwritten
      cases hwritten' with
      | written _ hcontent hsources =>
        rw [hcontent]
        congr 1
        refine (encode_congr fun k r hr => hsources r ?_).symm
        rw [hsteady k r hr]
        exact (hw₁.contentOf r).symm
    exact ⟨hcontent, hs'.reopens hcontent⟩
  · -- A cache element that may not be written when the set is opened never may.
    have hopen : Untouched c { set := t, world := w } { set := t, world := w' } :=
      ⟨rfl, hgrown.contentOf hc⟩
    have hro' : (w'.source c).writable = false := by
      rw [hgrown.gains.source hc]
      exact hro
    have hrun' := hopen.trans (huntouched hro')
    exact ⟨hrun', hrun'.trans (hwritten.untouched hw₁ (.inr (hwritable.trans hro')))⟩

/-- An element in memory is added to a set that is written to another one, once in vain and then
again. -/
theorem written_through_memory :
    let w : World := { World.ofDisk (.fresh ["work"] "tmp") with
      elements := [.ofSource (.memory .empty none false), .ofSource (.memory .empty none false)] }
    let p : Plugins := { backends := .empty }
    let full : Writing := fun _ _ w => (.error (.store "" (.other "full")), w)
    let s : InWorld MemorySet := { set := { elements := .empty, cache := some 0 }, world := w }
    let s₁ := ((Change.addMany [1]).make full s).2
    let s₂ := ((Change.addMany [1]).make World.setBytes s₁).2
    Untouched 0 s s₁ ∧ s₂.set.elements.size = 1 ∧ Reopens p 0 s₂ := by
  intro w p full s s₁ s₂
  have ho : openCached p 0 w = (.ok s.set, w) := rfl
  have hbuild : p.Buildable (.memory .empty none false) := ⟨_, Plugins.builds_descriptor trivial⟩
  have hq (s : InWorld MemorySet) (hs : 1 < s.world.elements.length)
      (hsource : s.world.source 1 = .memory .empty none false) :
      ∀ r ∈ (Change.addMany [1]).named, Rebuilds p s.world r := by
    intro r hr
    rw [List.mem_singleton.1 hr]
    exact ⟨hs, hsource ▸ hbuild⟩
  have hfull : full.Fallible 0 := fun _ w => .inr ⟨_, w, rfl, .refl 0 w⟩
  have hfaithful : Element.Faithful (w.scene 0) := ⟨Disk.tree_fresh, .inl ⟨rfl, rfl⟩⟩
  have hq₀ := hq s (Nat.lt_succ_self 1) rfl
  -- The first attempt is a step of the run, although it fails.
  have hstep : Relation.ReflTransGen (Step p 0) { set := s.set, world := w } s₁ :=
    .single (.change hfull (.addMany [1]) hq₀)
  have hsource : s₁.world.source 1 = .memory .empty none false :=
    (World.recalls_uuid 1 w).source 1
  have hlength : s₁.world.elements.length = 2 := (World.recalls_uuid 1 w).length
  have hq₁ := hq s₁ (hlength ▸ Nat.lt_succ_self 1) hsource
  have hall := written_through (Nat.zero_lt_succ 1) hfaithful nofun ho hstep
    (fallible_setBytes 0) (.addMany [1]) hq₁
  refine ⟨(written_through (Nat.zero_lt_succ 1) hfaithful nofun ho .refl hfull (.addMany [1])
    hq₀).2.1 _ rfl, rfl, (hall.1 rfl fun k r hr => ?_).2⟩
  have hr' : (Dict.empty.insertAll [(((World.uuid 1 s₁.world).1.toOption).getD "", 1)]).get? k =
    some r := hr
  rcases Dict.mem_of_get?_insertAll hr' with hm | hm
  · have hr : r = 1 := congrArg Prod.snd (List.mem_singleton.1 hm)
    have hworld : ∃ sc, s₂.world = World.putScene 0 sc (World.uuid 1 s₁.world).2 := ⟨_, rfl⟩
    have hsource₂ : s₂.world.source 1 = .memory .empty none false := by
      obtain ⟨sc, hsc⟩ := hworld
      rw [hsc, World.source, World.element_putScene_of_ne (by decide)]
      exact ((World.recalls_uuid 1 s₁.world).source 1).trans hsource
    rw [hr]
    show (s₂.world.source 1).content s₂.world.disk s₂.world.backends =
      (s₁.world.source 1).content s₁.world.disk s₁.world.backends
    rw [hsource₂, hsource]
    rfl
  · cases hm

end Depot.MemorySet
