import Depot.Proofs.Element.Storing
import Depot.Proofs.Store.Requests
import Depot.Proofs.World.Identity
/-!
# Stores in memory are finite maps

A store in memory answers every request as the finite map that its table is. With a cache element
it writes every change through; a change that fails has changed nothing; and apart from faults of
the cache element nobody can tell it from a store without one.
-/

namespace Depot.World

open Depot.Action StoreRequest

variable {w w' : World} {r r' : StoreRef} {cache : Option ElementRef} {e : ElementRef}
  {q : StoreRequest} {t t' : Table} {b : Bytes}

/-! ### What requests do -/

/-- A change is refused by a store that is read-only and by the table; otherwise it is written to
the cache element, if there is one, and only then made. -/
theorem mutate_apply (change : Table → Except StoreError Table) : mutate r change w =
    if w.cacheIsReadOnly r then (.error (.readOnly memoryStoreName), w)
    else
      match change (w.store r).table with
      | .error x => (.error x, w)
      | .ok t    =>
        match w.cacheOf r with
        | none   => (.ok (), putTable r t w)
        | some e =>
          match setBytes e t.encode w with
          | (.error x, w') => (.error (.element x), w')
          | (.ok _, w')    => (.ok (), putTable r t w') := by
  unfold mutate
  rw [bind_apply, get_apply]
  dsimp only
  cases w.cacheIsReadOnly r with
  | true => rfl
  | false =>
    cases change (w.store r).table with
    | error x => rfl
    | ok t =>
      cases w.cacheOf r with
      | none => rfl
      | some e =>
        simp only [Bool.false_eq_true, if_false]
        show ((setBytes e t.encode).mapError StoreError.element >>= fun _ =>
          modify (putTable r t)) w = _
        rw [bind_apply, mapError_apply]
        rcases setBytes e t.encode w with ⟨_ | _, _⟩ <;> rfl

/-- What a change comes to: the store is read-only, or the table refuses the change; it is made
where nothing is to be written; or the table that comes next is written to the cache element, which
may fail. -/
inductive Mutates (r : StoreRef) (change : Table → Except StoreError Table) (w : World) :
    Except StoreError Unit × World → Prop
  | locked (hr : w.cacheIsReadOnly r = true) :
      Mutates r change w (.error (.readOnly memoryStoreName), w)
  | refused {x : StoreError} (ht : change (w.store r).table = .error x) :
      Mutates r change w (.error x, w)
  | made {t : Table} (ht : change (w.store r).table = .ok t) (hc : w.cacheOf r = none) :
      Mutates r change w (.ok (), putTable r t w)
  | unwritten {t : Table} {e : ElementRef} {x : ElementError} {w' : World}
      (ht : change (w.store r).table = .ok t) (hc : w.cacheOf r = some e)
      (hw : setBytes e t.encode w = (.error x, w')) : Mutates r change w (.error (.element x), w')
  | written {t : Table} {e : ElementRef} {w' : World} (ht : change (w.store r).table = .ok t)
      (hc : w.cacheOf r = some e) (hw : setBytes e t.encode w = (.ok (), w')) :
      Mutates r change w (.ok (), putTable r t w')

theorem mutates (r : StoreRef) (change : Table → Except StoreError Table) (w : World) :
    Mutates r change w (mutate r change w) := by
  rw [mutate_apply]
  split
  · next hr => exact .locked hr
  · cases ht : change (w.store r).table with
    | error x => exact .refused ht
    | ok t =>
      dsimp only
      cases hc : w.cacheOf r with
      | none => exact .made ht hc
      | some e =>
        dsimp only
        cases hw : setBytes e t.encode w with
        | mk result w' =>
          cases result with
          | error x => exact .unwritten ht hc hw
          | ok u => exact .written ht hc hw

theorem lookup_memoryStore (k : Key) :
    (memoryStore r).lookup k w = (.ok ((w.store r).table.get? k), w) := rfl

theorem get_memoryStore (k : Key) :
    (memoryStore r).get k w = (valueIn (w.store r).table.get? k, w) := by
  unfold StoreCore.get valueIn
  rw [bind_apply, lookup_memoryStore]
  dsimp only
  cases (w.store r).table.get? k <;> rfl

theorem getMany_memoryStore (ks : List Key) : (memoryStore r).getMany ks w =
    (ks.mapM (valueIn (w.store r).table.get?), w) := by
  induction ks with
  | nil => rfl
  | cons k ks ih =>
    rw [StoreCore.getMany, bind_apply, get_memoryStore, List.mapM_cons]
    cases valueIn (w.store r).table.get? k with
    | error x => rfl
    | ok v =>
      dsimp only
      rw [bind_apply, ih]
      cases ks.mapM (valueIn (w.store r).table.get?) <;> rfl

/-- A request for a change is one for a change of the table; every other is answered from the
table and changes nothing. -/
theorem ask_memoryStore (q : StoreRequest) : q.ask (memoryStore r) w =
    match q.change? with
    | some change => ((mutate r change w).1.map fun _ => .done, (mutate r change w).2)
    | none        => (q.look (w.store r).table, w) := by
  cases q with
  | set | setMany | remove | removeMany | clear => exact map_apply ..
  | count | keys | lookup => exact map_apply ..
  | has k =>
    show (StoreAnswer.truth <$> (memoryStore r).has k) w = _
    unfold StoreCore.has
    rw [map_apply, bind_apply, lookup_memoryStore]
    rfl
  | get k =>
    show (StoreAnswer.value <$> (memoryStore r).get k) w = _
    rw [map_apply, get_memoryStore]
    rfl
  | getOr k default =>
    show (StoreAnswer.value <$> (memoryStore r).getOr k default) w = _
    unfold StoreCore.getOr
    rw [map_apply, bind_apply, lookup_memoryStore]
    rfl
  | getMany ks =>
    show (StoreAnswer.values <$> (memoryStore r).getMany ks) w = _
    rw [map_apply, getMany_memoryStore]
    rfl
  | values =>
    show (StoreAnswer.values <$> (memoryStore r).values) w = _
    have hkeys : (memoryStore r).keys w = (.ok (w.store r).table.keys, w) := rfl
    unfold StoreCore.values
    rw [map_apply, bind_apply, hkeys]
    dsimp only
    rw [getMany_memoryStore]
    rfl

/-! ### One request -/

/-- A store in memory; what its cache element remembers, if it has one, is right. -/
structure IsMemoryStore (w : World) (r : StoreRef) (cache : Option ElementRef) : Prop where
  store : r < w.stores.length
  kind : (w.store r).kind = .memory cache
  element : ∀ e, cache = some e → e < w.elements.length ∧ Element.Faithful (w.scene e) ∧
    Element.Based (w.scene e)

theorem IsMemoryStore.cacheOf (h : IsMemoryStore w r cache) : w.cacheOf r = cache := by
  unfold World.cacheOf
  rw [h.kind]

theorem IsMemoryStore.cacheIsReadOnly (h : IsMemoryStore w r cache) :
    w.cacheIsReadOnly r = cache.elim false fun e => !(w.source e).writable := by
  unfold World.cacheIsReadOnly
  rw [h.cacheOf]
  cases cache <;> rfl

/-- The table that a content is. -/
def tableIn (b : Bytes) : Option Table := if b.size = 0 then some .empty else Table.decode? b

theorem loadTable_apply (he : e < w.elements.length) : loadTable e w =
    match w.contentOf e with
    | .error x => (.error (.element x), w)
    | .ok b    =>
      match tableIn b with
      | some t => (.ok t, w)
      | none   => (.error (.table (w.source e).locator .notTable), w) := by
  unfold loadTable
  rw [bind_apply, mapError_apply, read_apply he]
  cases w.contentOf e with
  | error x => rfl
  | ok b =>
    dsimp only [Except.mapError]
    unfold tableIn
    split
    · rfl
    · cases Table.decode? b <;> rfl

/-- A store that has been opened over an element is written to it, and the element has content. -/
theorem isMemoryStore_openStore (he : e < w.elements.length) (hf : Element.Faithful (w.scene e))
    (hb : Element.Based (w.scene e)) (h : openStore e w = (.ok r, w')) :
    IsMemoryStore w' r (some e) ∧ ∃ b, contentOf w' e = .ok b := by
  unfold openStore at h
  rw [bind_apply, loadTable_apply he] at h
  cases hc : contentOf w e with
  | error x =>
    rw [hc] at h
    cases h
  | ok b =>
    rw [hc] at h
    dsimp only at h
    cases ht : tableIn b with
    | none =>
      rw [ht] at h
      cases h
    | some t =>
      rw [ht] at h
      cases h
      refine ⟨⟨by simp, ?_, fun e' he' => ?_⟩, b, hc⟩
      · simp [World.store]
      · cases he'
        exact ⟨he, hf, hb⟩

/-- What becomes of a request. -/
inductive Outcome (w w' : World) (r : StoreRef) (cache : Option ElementRef) (q : StoreRequest) :
    Except StoreError StoreAnswer → Prop
  /-- A change is asked of a store that is read-only. -/
  | refused : q.isChange = true → w.cacheIsReadOnly r = true → w' = w →
      Outcome w w' r cache q (.error (.readOnly memoryStoreName))
  /-- No change is asked for, or the table refuses it; nothing changes. -/
  | answered :
      q.isChange = false ∨
        w.cacheIsReadOnly r = false ∧ (∃ f, (q.onTable (w.store r).table).1 = .error f) →
      w' = w → (q.onTable (w.store r).table).2 = (w.store r).table →
      Outcome w w' r cache q (q.onTable (w.store r).table).1
  /-- The table changes, and the new one is written to the cache element. -/
  | changed : q.isChange = true → w.cacheIsReadOnly r = false →
      q.onTable (w.store r).table = (.ok .done, (w'.store r).table) →
      (∀ e b, cache = some e → contentOf w e = .ok b →
        contentOf w' e = .ok (w'.store r).table.encode) → Outcome w w' r cache q (.ok .done)
  /-- The cache element cannot be written and keeps its content; it has none, or its backend refuses
  the new one. -/
  | unwritten {e x next} : cache = some e → w.cacheIsReadOnly r = false →
      q.onTable (w.store r).table = (.ok .done, next) → (w'.store r).table = (w.store r).table →
      (contentOf w' e).toOption = (contentOf w e).toOption →
      ((∀ b, contentOf w e ≠ .ok b) ∨ Element.Refuses (w.scene e) next.encode x) →
      Outcome w w' r cache q (.error (.element x))

theorem IsMemoryStore.putTable (h : IsMemoryStore w r cache) (t : Table) :
    IsMemoryStore (putTable r t w) r cache :=
  ⟨by simpa using h.store, by rw [store_putTable h.store]; exact h.kind, fun e he => by
    simpa using h.element e he⟩

/-- Writing to the cache element leaves a store in memory, as writable as before. -/
theorem IsMemoryStore.setBytes (h : IsMemoryStore w r (some e)) (content : Bytes) :
    IsMemoryStore (setBytes e content w).2 r (some e) ∧
      ((setBytes e content w).2.source e).writable = (w.source e).writable ∧
      ∀ c x, Element.Refuses ((setBytes e content w).2.scene e) c x →
        Element.Refuses (w.scene e) c x := by
  obtain ⟨he, hf, hb⟩ := h.element e rfl
  have haround := Element.setBytes_around content (w.scene e)
  unfold World.setBytes
  rw [onElement_apply]
  refine ⟨⟨h.store, h.kind, fun e' he' => ?_⟩, ?_, ?_⟩
  · cases he'
    rw [scene_putScene he]
    exact ⟨by simpa using he, hf.setBytes content, haround.2.1 hb⟩
  · unfold source
    rw [element_putScene he]
    exact haround.1
  · rw [scene_putScene he]
    exact haround.2.2

/-- An attempt to write the cache element that fails leaves it the content that it has, if it has
any; if it has some, its backend has refused the new one. After an attempt that succeeds, content
that was there before is the new one. -/
theorem setBytes_contentOf (h : IsMemoryStore w r (some e)) (hw : (w.source e).writable = true)
    (content : Bytes) :
    match World.setBytes e content w with
    | (.error x, w') => (contentOf w' e).toOption = (contentOf w e).toOption ∧
      ((∀ b, contentOf w e ≠ .ok b) ∨ Element.Refuses (w.scene e) content x)
    | (.ok _, w')    => ∀ b, contentOf w e = .ok b → contentOf w' e = .ok content := by
  obtain ⟨he, hf, hbased⟩ := h.element e rfl
  unfold World.setBytes contentOf
  rw [onElement_apply]
  rcases hr : Element.setBytes content (w.scene e) with ⟨x | ⟨⟩, s'⟩
  · dsimp only
    rw [scene_putScene he]
    rcases Element.setBytes_error hf.tree hr with ⟨rfl, hro | hrefuses⟩ | ⟨-, hno, hno'⟩
    · exact absurd (hw.symm.trans hro) (by decide)
    · exact ⟨rfl, .inr hrefuses⟩
    · exact ⟨(Result.toOption_eq_none hno').trans (Result.toOption_eq_none hno).symm, .inl hno⟩
  · intro b hb
    dsimp only
    rw [scene_putScene he]
    exact Element.contentIn_of_setBytes hf hbased hb hr

/-- Every request has one of the outcomes, and leaves a store in memory, as writable as before. -/
theorem ask_outcome (h : IsMemoryStore w r cache) (q : StoreRequest) :
    Outcome w (q.ask (memoryStore r) w).2 r cache q (q.ask (memoryStore r) w).1 ∧
      IsMemoryStore (q.ask (memoryStore r) w).2 r cache ∧
      (q.ask (memoryStore r) w).2.cacheIsReadOnly r = w.cacheIsReadOnly r ∧
      ∀ e, cache = some e → ∀ c x, Element.Refuses ((q.ask (memoryStore r) w).2.scene e) c x →
        Element.Refuses (w.scene e) c x := by
  rw [ask_memoryStore]
  cases hq : q.change? with
  | none =>
    have hch : q.isChange = false := by rw [isChange_eq, hq]; rfl
    have hon := onTable_look (t := (w.store r).table) hq
    have : Outcome w w r cache q _ := .answered (.inl hch) rfl (by rw [hon])
    rw [hon] at this
    exact ⟨this, h, rfl, fun _ _ _ _ => id⟩
  | some change =>
    have hch : q.isChange = true := by rw [isChange_eq, hq]; rfl
    have hon := onTable_change (t := (w.store r).table) hq
    dsimp only
    -- A change is refused by the store, or by the table, or goes on to the cache element.
    rw [mutate_apply, h.cacheOf]
    cases hro : w.cacheIsReadOnly r with
    | true => exact ⟨.refused hch hro rfl, h, hro, fun _ _ _ _ => id⟩
    | false =>
      rw [if_neg (by simp)]
      cases ht : change (w.store r).table with
      | error x =>
        rw [ht] at hon
        have : Outcome w w r cache q _ := .answered (.inr ⟨hro, x, by rw [hon]⟩) rfl (by rw [hon])
        rw [hon] at this
        exact ⟨this, h, hro, fun _ _ _ _ => id⟩
      | ok t =>
        rw [ht] at hon
        dsimp only
        cases cache with
        | none =>
          refine ⟨.changed hch hro ?_ nofun, h.putTable t, ?_, nofun⟩
          · dsimp only
            rw [store_putTable h.store]
            exact hon
          · rw [(h.putTable t).cacheIsReadOnly]
            rfl
        | some e =>
          -- The next table is written before it is put in the place of this one.
          have hw : (w.source e).writable = true := by
            have := h.cacheIsReadOnly
            rw [hro] at this
            simpa using this
          obtain ⟨h', hw', hrefuses⟩ := h.setBytes t.encode
          have hread := setBytes_contentOf h hw t.encode
          have hstore : ((World.setBytes e t.encode w).2.store r).table = (w.store r).table := rfl
          revert h' hw' hrefuses hread hstore
          dsimp only
          rcases World.setBytes e t.encode w with ⟨x | ⟨⟩, w'⟩ <;>
            intro h' hw' hrefuses hread hstore
          · -- Writing has failed, and the table stays.
            refine ⟨.unwritten rfl hro hon hstore hread.1 hread.2, h', ?_, ?_⟩
            · rw [h'.cacheIsReadOnly]
              simp [hw', hw]
            · rintro e' ⟨⟩
              exact hrefuses
          · -- Writing has succeeded, and the table changes.
            refine ⟨.changed hch hro ?_ fun e' b he' hb => ?_, h'.putTable t, ?_, ?_⟩
            · dsimp only
              rw [store_putTable h'.store]
              exact hon
            · cases he'
              dsimp only
              rw [store_putTable h'.store]
              exact hread b hb
            · rw [(h'.putTable t).cacheIsReadOnly]
              simp [hw', hw]
            · rintro e' ⟨⟩
              exact hrefuses

end Depot.World
