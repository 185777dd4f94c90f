import Depot.Proofs.World.Identity
/-!
# New elements

Most of what is done to the world only adds elements to it. The sources of those that are there
stay the same.
-/

namespace Depot.World

variable {w w' : World} {r : ElementRef} {s : Source}

/-- There may be new elements; the sources of the others are the same. -/
structure Gains (w w' : World) : Prop where
  length : w.elements.length ≤ w'.elements.length
  source : ∀ {r}, r < w.elements.length → w'.source r = w.source r

namespace Gains

theorem refl (w : World) : w.Gains w := ⟨Nat.le_refl _, fun _ => rfl⟩

theorem trans {w'' : World} (h : w.Gains w') (h' : w'.Gains w'') : w.Gains w'' := by
  constructor
  · exact Nat.le_trans h.length h'.length
  · intro r hr
    rw [h'.source (Nat.lt_of_lt_of_le hr h.length), h.source hr]

end Gains

theorem Recalls.gains (h : w.Recalls w') : w.Gains w' :=
  ⟨Nat.le_of_eq h.length.symm, fun _ => h.source _⟩

theorem newElement_apply {ε : Type} : (newElement s : Action ε ElementRef) w =
    (.ok w.elements.length, { w with elements := w.elements ++ [.ofSource s] }) := rfl

/-- There may be new elements; everything else is the same. -/
def Grown (w w' : World) : Prop := ∃ new, w' = { w with elements := w.elements ++ new }

namespace Grown

theorem refl (w : World) : w.Grown w := ⟨[], by simp⟩

theorem trans {w'' : World} (h : w.Grown w') (h' : w'.Grown w'') : w.Grown w'' := by
  obtain ⟨new, rfl⟩ := h
  obtain ⟨new', rfl⟩ := h'
  exact ⟨new ++ new', by simp⟩

theorem newElement : w.Grown { w with elements := w.elements ++ [.ofSource s] } := ⟨_, rfl⟩

theorem disk (h : w.Grown w') : w'.disk = w.disk := by
  obtain ⟨new, rfl⟩ := h
  rfl

theorem element (h : w.Grown w') (hr : r < w.elements.length) :
    w'.element r = w.element r := by
  obtain ⟨new, rfl⟩ := h
  simp only [World.element, List.getD_eq_getElem?_getD]
  rw [List.getElem?_append_left hr]

theorem gains (h : w.Grown w') : w.Gains w' := by
  constructor
  · obtain ⟨new, rfl⟩ := h
    simp
  · intro r hr
    rw [source, source, h.element hr]

theorem contentOf (h : w.Grown w') (hr : r < w.elements.length) :
    w'.contentOf r = w.contentOf r := by
  have hs := h.gains.source hr
  obtain ⟨new, rfl⟩ := h
  show (World.source _ r).content _ _ = (w.source r).content _ _
  rw [hs]
  rfl

end Grown

/-- Elements with one source have the same content. -/
theorem contentOf_congr {r' : ElementRef} (h : w.source r' = w.source r) :
    w.contentOf r' = w.contentOf r := by
  show (w.source r').content _ _ = (w.source r).content _ _
  rw [h]
  rfl

@[simp] theorem source_newElement :
    ({ w with elements := w.elements ++ [.ofSource s] } : World).source w.elements.length = s := by
  simp [source, element, Element.ofSource]

end Depot.World
