import Mathlib.Tactic.Common
import Depot.World.Stores
/-!
# Parts of the world

What an operation on one element or one table leaves as it is.
-/

namespace Depot.World

open Depot.Action

variable {w : World} {r r' : ElementRef} {s : Scene Element.Around} {q q' : StoreRef} {t : Table}
  {f : Table → Except StoreError Table}

theorem onElement_apply {ε α : Type} (x : Scene.Action Element.Around ε α) (w : World) :
    onElement r x w = ((x (w.scene r)).1, putScene r (x (w.scene r)).2 w) := rfl

/-! ### Elements -/

theorem element_putScene (hr : r < w.elements.length) :
    (putScene r s w).element r = { source := s.around.source, cache := s.cache } := by
  unfold element putScene
  dsimp only
  rw [List.getD_eq_getElem?_getD, List.getElem?_set_self hr]
  rfl

theorem element_putScene_of_ne (hr : r' ≠ r) : (putScene r s w).element r' = w.element r' := by
  unfold element putScene
  dsimp only
  rw [List.getD_eq_getElem?_getD, List.getElem?_set_ne hr.symm, ← List.getD_eq_getElem?_getD]

@[simp] theorem length_elements_putScene :
    (putScene r s w).elements.length = w.elements.length := List.length_set

@[simp] theorem disk_putScene : (putScene r s w).disk = s.disk := rfl

@[simp] theorem backends_putScene : (putScene r s w).backends = s.around.backends := rfl

/-- After an operation on an element its scene is the one the operation has left. -/
theorem scene_putScene (hr : r < w.elements.length) : (putScene r s w).scene r = s := by
  unfold scene source
  rw [element_putScene hr]
  rfl

theorem element_eq (hr : r < w.elements.length) : w.elements[r] = w.element r := by
  unfold element
  rw [List.getD_eq_getElem?_getD, List.getElem?_eq_getElem hr]
  rfl

/-- An operation that leaves the scene as it is leaves the world as it is. -/
theorem putScene_scene (hr : r < w.elements.length) : putScene r (w.scene r) w = w := by
  have hself : w.elements.set r { source := w.source r, cache := (w.element r).cache } =
      w.elements := by
    have : ({ source := w.source r, cache := (w.element r).cache } : Element) = w.elements[r] := by
      rw [element_eq hr]
      rfl
    rw [this, List.set_getElem_self]
  unfold putScene scene
  dsimp only
  rw [hself]

/-! ### Stores -/

@[simp] theorem store_putScene : (putScene r s w).store q = w.store q := rfl

@[simp] theorem length_stores_putScene : (putScene r s w).stores.length = w.stores.length := rfl

@[simp] theorem cacheOf_putScene : (putScene r s w).cacheOf q = w.cacheOf q := rfl

theorem store_putTable (hq : q < w.stores.length) :
    (putTable q t w).store q = { w.store q with table := t } := by
  unfold store putTable
  dsimp only
  rw [List.getD_eq_getElem?_getD, List.getD_eq_getElem?_getD, List.getElem?_modify_eq]
  rw [List.getElem?_eq_getElem hq]
  rfl

@[simp] theorem length_stores_putTable :
    (putTable q t w).stores.length = w.stores.length := List.length_modify _ _ _

@[simp] theorem scene_putTable : (putTable q t w).scene r = w.scene r := rfl

@[simp] theorem source_putTable : (putTable q t w).source r = w.source r := rfl

@[simp] theorem elements_putTable : (putTable q t w).elements = w.elements := rfl

/-- A change of a plain store is refused by the store or by its table, or made. -/
theorem changePlain_apply : changePlain q f w =
    if w.plainIsReadOnly q then (.error (.readOnly plainStoreName), w)
    else
      match w.reach q with
      | .error e => (.error e, w)
      | .ok t    =>
        match f t with
        | .error e => (.error e, w)
        | .ok next => (.ok (), putTable q next w) := by
  unfold changePlain ofStep
  dsimp only
  by_cases hr : w.plainIsReadOnly q = true
  · rw [if_pos hr, if_pos hr]
  · rw [if_neg hr, if_neg hr]
    cases w.reach q with
    | error e => rfl
    | ok t =>
      dsimp only
      cases f t <;> rfl

end Depot.World
