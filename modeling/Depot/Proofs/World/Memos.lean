import Depot.Proofs.Element.Storing
import Depot.Proofs.World.Growth
/-!
# What handles remember

An element remembers its key until its content is changed through the element itself. What happens
elsewhere to the same content does not reach its memory.
-/

namespace Depot

open Depot.Action

/-! ### Memory of one element -/

namespace ContentCache

variable {c c' c'' : ContentCache}

/-- The checksum that makes the key is remembered as before, or the content has changed since and it
is forgotten. -/
def Keeps (c c' : ContentCache) : Prop :=
  c'.generation = c.generation ∧ c'.checksum? .identity = c.checksum? .identity ∨
    c.generation < c'.generation ∧ c'.checksum? .identity = none

theorem Keeps.refl (c : ContentCache) : c.Keeps c := .inl ⟨rfl, rfl⟩

theorem Keeps.trans (h : c.Keeps c') (h' : c'.Keeps c'') : c.Keeps c'' := by
  rcases h with ⟨hg, hk⟩ | ⟨hg, hk⟩
  · rcases h' with ⟨hg', hk'⟩ | ⟨hg', hk'⟩
    · exact .inl ⟨hg'.trans hg, hk'.trans hk⟩
    · exact .inr ⟨hg ▸ hg', hk'⟩
  · rcases h' with ⟨hg', hk'⟩ | ⟨hg', hk'⟩
    · exact .inr ⟨hg' ▸ hg, hk'.trans hk⟩
    · exact .inr ⟨Nat.lt_trans hg hg', hk'⟩

theorem Keeps.renew (c : ContentCache) : c.Keeps c.renew := .inr ⟨Nat.lt_succ_self _, rfl⟩

/-- Temporary files do not matter to checksums. -/
theorem Keeps.of_eq (hg : c'.generation = c.generation) (hk : c'.checksums = c.checksums) :
    c.Keeps c' := by
  refine .inl ⟨hg, ?_⟩
  rw [checksum?, checksum?, hk]

end ContentCache

namespace Element

variable {s : Scene Around}

theorem keeps_setBytes (content : Bytes) (s : Scene Around) :
    s.cache.Keeps (setBytes content s).2.cache := by
  have hc := (store_source content s).1
  rw [setBytes_apply]
  split
  · revert hc
    rcases store content s with ⟨e | x, s'⟩
    · rintro hc
      exact .of_eq (congrArg _ hc) (congrArg _ hc)
    · rintro hc
      dsimp only at hc
      rw [← hc]
      exact .renew _
  · exact .refl _

theorem keeps_delete (s : Scene Around) : s.cache.Keeps (delete s).2.cache := by
  rcases delete_cases s with ⟨r, hr⟩ | ⟨name, ref, locator, type, r, b, -, -, hr⟩ <;> rw [hr]
  · exact .refl _
  · exact .renew _

theorem keeps_clean (s : Scene Around) : s.cache.Keeps (clean s).2.cache := .renew _

theorem keeps_serve (dir : Option Disk.Path) (suffix : String) (s : Scene Around) :
    s.cache.Keeps (serve dir suffix s).2.cache := by
  unfold serve
  split
  · exact .refl _
  · split
    · exact .refl _
    · split
      · exact .refl _
      · exact .of_eq rfl rfl

theorem keeps_writeTemp [MediaTypes] (dir : Option String) (s : Scene Around) :
    s.cache.Keeps (writeTemp dir s).2.cache := by
  rcases writeTemp_cases dir s with h | ⟨path, type, readOnly, -, h⟩ | ⟨e, h⟩ <;> rw [h]
  · have hd := Scene.enterDirs_disk dir s
    rw [writeTempFile_apply, writeTemp_scene_apply]
    revert hd
    rcases (dir.mapM Scene.enterDir : Scene.Action Around ElementError _) s with ⟨e | dir', s'⟩
    · rintro ⟨⟩
      exact .refl _
    · rintro ⟨⟩
      exact .trans (.of_eq rfl rfl) (keeps_serve ..)
  · rw [ownFile_apply]
    exact .refl _
  · exact .refl _

end Element

/-! ### Memory in the world -/

namespace World

variable {w w' w'' : World} {r : ElementRef} {s : Scene Element.Around}

theorem element_putScene_cases (r r' : ElementRef) (s : Scene Element.Around) (w : World) :
    r' = r ∧ r < w.elements.length ∧
        (putScene r s w).element r' = { source := s.around.source, cache := s.cache } ∨
      (putScene r s w).element r' = w.element r' := by
  by_cases hr : r' = r
  · subst hr
    by_cases hlt : r' < w.elements.length
    · exact .inl ⟨rfl, hlt, element_putScene hlt⟩
    · have hsame : (putScene r' s w).elements = w.elements :=
        List.set_eq_of_length_le (Nat.le_of_not_lt hlt)
      rw [element, element, hsame]
      exact .inr rfl
  · exact .inr (element_putScene_of_ne hr)

/-- Every element remembers its key as before, or has forgotten it with the content. -/
def Keeps (w w' : World) : Prop := ∀ r, (w.element r).cache.Keeps (w'.element r).cache

namespace Keeps

theorem refl (w : World) : w.Keeps w := fun _ => .refl _

theorem trans (h : w.Keeps w') (h' : w'.Keeps w'') : w.Keeps w'' := fun r => (h r).trans (h' r)

theorem of_elements (h : w'.elements = w.elements) : w.Keeps w' := by
  intro r
  rw [element, element, h]
  exact .refl _

theorem putScene (h : (w.element r).cache.Keeps s.cache) : w.Keeps (putScene r s w) := by
  intro r'
  rcases element_putScene_cases r r' s w with ⟨rfl, -, he⟩ | he <;> rw [he]
  · exact h
  · exact .refl _

theorem onElement {α : Type} {x : Scene.Action Element.Around ElementError α}
    (h : ∀ s : Scene Element.Around, s.cache.Keeps (x s).2.cache) (r : ElementRef) (w : World) :
    w.Keeps (World.onElement r x w).2 := putScene (h (w.scene r))

theorem setBytes (r : ElementRef) (content : Bytes) (w : World) :
    w.Keeps (World.setBytes r content w).2 := onElement (Element.keeps_setBytes content) r w

/-- A new element remembers nothing. -/
theorem newElement (source : Source) :
    w.Keeps { w with elements := w.elements ++ [.ofSource source] } := by
  intro r
  have hcache :
      (({ w with elements := w.elements ++ [.ofSource source] } : World).element r).cache =
        (w.element r).cache := by
    by_cases hr : r < w.elements.length
    · rw [Grown.newElement.element hr]
    · have hle := Nat.le_of_not_lt hr
      simp only [element, List.getD_eq_getElem?_getD, List.getElem?_append_right hle,
        List.getElem?_eq_none hle]
      cases r - w.elements.length <;> rfl
  rw [hcache]
  exact .refl _

end Keeps

/-- Every element remembers its key as before, or has forgotten it with the content, or remembers
the key of the content that it has had. -/
def Follows (w w' : World) : Prop :=
  ∀ r, (w.element r).cache.Keeps (w'.element r).cache ∨
    (w'.element r).cache.generation = (w.element r).cache.generation ∧
      ∃ b, w.contentOf r = .ok b ∧
        (w'.element r).cache.checksum? .identity = some (.ofBytes .identity b)

theorem Keeps.follows (h : w.Keeps w') : w.Follows w' := fun r => .inl (h r)

/-- What is remembered now is kept or forgotten later. -/
theorem Follows.keeps (h : w.Follows w') (h' : w'.Keeps w'') : w.Follows w'' := by
  intro r
  rcases h r with h | ⟨hg, b, hb, hk⟩
  · exact .inl (h.trans (h' r))
  · rcases h' r with ⟨hg', hk'⟩ | ⟨hg', hk'⟩
    · exact .inr ⟨hg'.trans hg, b, hb, hk'.trans hk⟩
    · exact .inl (.inr ⟨hg ▸ hg', hk'⟩)

/-- To ask for a checksum makes an element remember that of its content at most. -/
theorem follows_checksum (a : Algorithm) (r : ElementRef) (w : World) :
    w.Follows (onElement r (Element.checksum a) w).2 := by
  rw [onElement_apply, Element.checksum_apply]
  cases (w.scene r).cache.checksum? a with
  | some k => exact (Keeps.putScene (.refl _)).follows
  | none =>
    cases hb : Element.contentIn (w.scene r) with
    | error e => exact (Keeps.putScene (.refl _)).follows
    | ok b =>
      have hk := ContentCache.checksum?_remember (c := (w.scene r).cache) (a := .identity)
        (k := .ofBytes a b)
      intro r'
      rcases element_putScene_cases r r' { w.scene r with
          cache := (w.scene r).cache.remember (.ofBytes a b) } w with ⟨rfl, -, he⟩ | he
      · dsimp only
        rw [he]
        by_cases ha : .identity = a
        · subst ha
          exact .inr ⟨rfl, b, hb, hk.trans (if_pos rfl)⟩
        · exact .inl (.inl ⟨rfl, hk.trans (if_neg ha)⟩)
      · dsimp only
        rw [he]
        exact .inl (.refl _)

theorem follows_uuid (r : ElementRef) (w : World) : w.Follows (uuid r w).2 := by
  have h := follows_checksum .identity r w
  rw [onElement_apply] at h
  rwa [uuid_eq]

end World

end Depot
