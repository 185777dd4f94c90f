import Depot.Proofs.World.Growth
/-!
# What elements show

What can be seen of an element: its content, the type of the content, whether it may be written,
and its key. Asking for keys and building new elements changes nothing of this.
-/

namespace Depot

open Depot.Action

/-- What can be seen of an element besides its key. -/
structure Look where
  bytes : Bytes
  contentType : Option String
  writable : Bool

/-- The key under which data sets keep elements with this content. -/
def Look.key (v : Look) : ElementKey := (Checksum.ofBytes .identity v.bytes).elementKey

theorem Look.isKey (v : Look) : IsKey v.key := isKey_elementKey rfl

namespace World

variable {w w' w'' : World} {r r' : ElementRef} {v : Look} {b : Bytes} {s : Source} {k : ElementKey}

/-! ### Elements -/

/-- An element has this content, and a key that it remembers is the right one. -/
structure Gives (w : World) (b : Bytes) (r : ElementRef) : Prop where
  lt : r < w.elements.length
  content : w.contentOf r = .ok b
  memo : ∀ k, w.Knows r k → k = (Checksum.ofBytes .identity b).elementKey

/-- An element looks like this, and a key that it remembers is the right one. -/
structure Shows [MediaTypes] (w : World) (v : Look) (r : ElementRef) : Prop extends
    w.Gives v.bytes r where
  contentType : (w.source r).contentType = v.contentType
  writable : (w.source r).writable = v.writable

namespace Gives

theorem mono (h : w.Gives b r) (hlen : w.elements.length ≤ w'.elements.length)
    (hc : w'.contentOf r = .ok b)
    (hk : ∀ k, w'.Knows r k → w.Knows r k ∨ k = (Checksum.ofBytes .identity b).elementKey) :
    w'.Gives b r := by
  refine ⟨Nat.lt_of_lt_of_le h.lt hlen, hc, fun k hw => ?_⟩
  rcases hk k hw with hk | hk
  · exact h.memo k hk
  · exact hk

/-- The key of an element is that of its content. -/
theorem uuid_fst (h : w.Gives b r) :
    (World.uuid r w).1 = .ok (Checksum.ofBytes .identity b).elementKey := by
  rw [uuid_eq, Element.checksum_apply]
  cases hc : (w.scene r).cache.checksum? .identity with
  | some c => exact congrArg Except.ok (h.memo _ ⟨c, hc, rfl⟩)
  | none =>
    have hcontent : Element.contentIn (w.scene r) = .ok b := h.content
    dsimp only
    rw [hcontent]
    rfl

theorem knows_uuid (h : w.Gives b r) :
    (World.uuid r w).2.Knows r (Checksum.ofBytes .identity b).elementKey :=
  knows_of_uuid h.lt h.uuid_fst

theorem uuid_eq_ok (h : w.Gives b r) : World.uuid r w =
    (.ok (Checksum.ofBytes .identity b).elementKey, (World.uuid r w).2) :=
  Prod.ext h.uuid_fst rfl

/-- An element gives the same when some element has been asked for its key. -/
theorem uuid (h : w.Gives b r) (r' : ElementRef) : (World.uuid r' w).2.Gives b r := by
  have hw := recalls_uuid r' w
  refine h.mono (Nat.le_of_eq hw.length.symm) ?_ fun k hk => ?_
  · rw [hw.contentOf]
    exact h.content
  · by_cases hr : r = r'
    · subst hr
      exact .inr (hk.unique h.knows_uuid)
    · left
      apply hk.of_element_eq
      rw [uuid_eq]
      exact (element_putScene_of_ne hr).symm

theorem grown (h : w.Gives b r) (hw : w.Grown w') : w'.Gives b r := by
  refine h.mono hw.gains.length ?_ fun k hk => ?_
  · rw [hw.contentOf h.lt]
    exact h.content
  · exact .inl (hk.of_element_eq (hw.element h.lt).symm)

/-- A new element gives what an element with the same source does. -/
theorem newElement (h : w.Gives b r) (hs : w.source r = s) :
    ({ w with elements := w.elements ++ [.ofSource s] } : World).Gives b w.elements.length := by
  have hsource : ({ w with elements := w.elements ++ [.ofSource s] } : World).source
      w.elements.length = w.source r := by
    rw [source_newElement, hs]
  constructor
  · simp
  · rw [← h.content, ← Grown.newElement.contentOf h.lt]
    apply contentOf_congr
    rw [hsource, Grown.newElement.gains.source h.lt]
  · rintro k ⟨c, hc, -⟩
    rw [World.element, List.getD_eq_getElem?_getD, List.getElem?_append_right (Nat.le_refl _)] at hc
    simp [Element.ofSource, ContentCache.checksum?, ContentCache.empty] at hc

theorem read (h : w.Gives b r) : World.read r w = (.ok b, w) := by
  rw [read_apply h.lt, h.content]

end Gives

namespace Shows

variable [MediaTypes]

/-- What an element shows besides its content depends on its source only. -/
theorem of_source (h : w.Shows v r) (hgives : w'.Gives v.bytes r')
    (hs : w'.source r' = w.source r) : w'.Shows v r' := by
  refine ⟨hgives, ?_, ?_⟩
  · rw [hs, h.contentType]
  · rw [hs, h.writable]

theorem uuid_fst (h : w.Shows v r) : (World.uuid r w).1 = .ok v.key := h.toGives.uuid_fst

theorem uuid_eq_ok (h : w.Shows v r) : World.uuid r w = (.ok v.key, (World.uuid r w).2) :=
  h.toGives.uuid_eq_ok

/-- A new element shows what an element with the same source does. -/
theorem newElement (h : w.Shows v r) (hs : w.source r = s) :
    ({ w with elements := w.elements ++ [.ofSource s] } : World).Shows v w.elements.length :=
  h.of_source (h.toGives.newElement hs) (source_newElement.trans hs.symm)

end Shows

/-! ### Quiet changes -/

/-- Nothing has happened but that elements have been asked for their keys or built. -/
structure Quiet (w w' : World) : Prop where
  disk : w'.disk = w.disk
  stores : w'.stores = w.stores
  gains : w.Gains w'
  gives : ∀ b r, w.Gives b r → w'.Gives b r

namespace Quiet

theorem refl (w : World) : w.Quiet w := ⟨rfl, rfl, .refl w, fun _ _ => id⟩

theorem trans (h : w.Quiet w') (h' : w'.Quiet w'') : w.Quiet w'' :=
  ⟨h'.disk.trans h.disk, h'.stores.trans h.stores, h.gains.trans h'.gains,
    fun b r hb => h'.gives b r (h.gives b r hb)⟩

theorem uuid (r : ElementRef) (w : World) : w.Quiet (World.uuid r w).2 := by
  have hw := recalls_uuid r w
  exact ⟨hw.disk, hw.stores, hw.gains, fun b r' hb => hb.uuid r⟩

theorem grown (h : w.Grown w') : w.Quiet w' := by
  refine ⟨h.disk, ?_, h.gains, fun b r hb => hb.grown h⟩
  obtain ⟨new, rfl⟩ := h
  rfl

/-- Elements show the same. -/
theorem shows [MediaTypes] (h : w.Quiet w') (v : Look) (r : ElementRef) (hv : w.Shows v r) :
    w'.Shows v r :=
  hv.of_source (h.gives v.bytes r hv.toGives) (h.gains.source hv.lt)

end Quiet

end World

end Depot
