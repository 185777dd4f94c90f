import Depot.Proofs.Element.Memory
import Depot.Proofs.Text.Hex
import Depot.Proofs.World.Parts
/-!
# The keys of elements

To ask for the key of an element changes nothing in the world but what the element remembers. A key
is forty hexadecimal digits.
-/

namespace Depot

open Depot.Action

/-! ### Keys -/

/-- The digits of keys. -/
def keyDigits : List Char := "0123456789abcdef".toList

/-- Forty hexadecimal digits. -/
structure IsKey (k : ElementKey) : Prop where
  length : k.toList.length = 40
  digits : ∀ c ∈ k.toList, c ∈ keyDigits

theorem mem_encode {bytes : List UInt8} {c : Char} (hc : c ∈ Hex.encode bytes) :
    c ∈ keyDigits := by
  rw [Hex.encode_eq_map] at hc
  obtain ⟨v, hv, rfl⟩ := List.mem_map.1 hc
  exact Hex.forall_half (P := fun v => Hex.digit v ∈ keyDigits) (by decide +kernel)
    (Hex.lt_of_mem_halves hv)

theorem isKey_elementKey {c : Checksum} (h : c.algorithm = .identity) : IsKey c.elementKey := by
  have htext : c.elementKey.toList = Hex.encode c.digest := String.toList_ofList
  constructor
  · rw [htext, Hex.length_encode, c.length_digest, h]
    rfl
  · intro x hx
    rw [htext] at hx
    exact mem_encode hx

namespace Element

variable {s : Scene Around} {a : Algorithm} {c : Checksum}

/-- A checksum has been remembered, or it is that of the content and is remembered now. -/
theorem checksum_cases (h : (checksum a s).1 = .ok c) :
    s.cache.checksum? a = some c ∧ (checksum a s).2 = s ∨
      ∃ b, c = .ofBytes a b ∧ (checksum a s).2.cache = s.cache.remember c := by
  rw [checksum_apply] at h ⊢
  cases hc : s.cache.checksum? a with
  | some c' =>
    rw [hc] at h
    cases h
    exact .inl ⟨rfl, rfl⟩
  | none =>
    rw [hc] at h
    cases hb : contentIn s with
    | error e =>
      rw [hb] at h
      cases h
    | ok b =>
      rw [hb] at h
      cases h
      exact .inr ⟨b, rfl, rfl⟩

theorem algorithm_of_checksum (h : (checksum a s).1 = .ok c) : c.algorithm = a := by
  rcases checksum_cases h with ⟨hc, -⟩ | ⟨b, rfl, -⟩
  · exact (algorithm_of_checksum? hc).2
  · rfl

theorem remembered_of_checksum (h : (checksum a s).1 = .ok c) :
    (checksum a s).2.cache.checksum? a = some c := by
  rcases checksum_cases h with ⟨hc, hs⟩ | ⟨b, rfl, hs⟩
  · rw [hs]
    exact hc
  · rw [hs]
    simp [ContentCache.checksum?, ContentCache.remember, Checksum.ofBytes]

end Element

namespace World

variable {w w' w'' : World} {r r' : ElementRef} {k : ElementKey}

/-! ### What elements remember -/

/-- The content of an element. -/
def contentOf (w : World) (r : ElementRef) : Except ElementError Bytes :=
  Element.contentIn (w.scene r)

/-- Reading an element does not change the world. -/
theorem read_apply (hr : r < w.elements.length) : read r w = (contentOf w r, w) := by
  unfold read
  rw [onElement_apply, Element.read_apply, putScene_scene hr]
  rfl

/-- Two worlds are the same but for what elements remember. -/
structure Recalls (w w' : World) : Prop where
  disk : w'.disk = w.disk
  backends : w'.backends = w.backends
  stores : w'.stores = w.stores
  length : w'.elements.length = w.elements.length
  source : ∀ r, w'.source r = w.source r

theorem Recalls.contentOf (h : w.Recalls w') (r : ElementRef) :
    w'.contentOf r = w.contentOf r := by
  show (w'.source r).content w'.disk w'.backends = _
  rw [h.source, h.disk, h.backends]
  rfl

theorem Recalls.refl (w : World) : w.Recalls w := ⟨rfl, rfl, rfl, rfl, fun _ => rfl⟩

theorem Recalls.trans (h : w.Recalls w') (h' : w'.Recalls w'') : w.Recalls w'' :=
  ⟨h'.disk.trans h.disk, h'.backends.trans h.backends, h'.stores.trans h.stores,
    h'.length.trans h.length, fun r => (h'.source r).trans (h.source r)⟩

/-- An element that remembers the same is in the same scene. -/
theorem Recalls.scene (h : w.Recalls w') (hr : w'.element r = w.element r) :
    w'.scene r = w.scene r := by
  unfold World.scene
  rw [hr, h.source, h.disk, h.backends]

theorem putScene_of_le {s : Scene Element.Around} (hr : w.elements.length ≤ r)
    (hd : s.disk = w.disk) (hb : s.around.backends = w.backends) : putScene r s w = w := by
  unfold putScene
  rw [hd, hb, List.set_eq_of_length_le hr]

/-- Putting back a scene with the same disk, backends and source changes what is remembered at
most. -/
theorem recalls_putScene {s : Scene Element.Around} (hd : s.disk = w.disk)
    (ha : s.around = (w.scene r).around) : w.Recalls (putScene r s w) := by
  have hb : s.around.backends = w.backends := by
    rw [ha]
    rfl
  refine ⟨hd, hb, rfl, length_elements_putScene, fun r' => ?_⟩
  by_cases hr : r' = r
  · subst hr
    by_cases hlt : r' < w.elements.length
    · unfold source
      rw [element_putScene hlt, ha]
      rfl
    · rw [putScene_of_le (Nat.le_of_not_lt hlt) hd hb]
  · unfold source
    rw [element_putScene_of_ne hr]

/-! ### Asking for keys -/

theorem uuid_eq (r : ElementRef) (w : World) : uuid r w =
    ((Element.checksum .identity (w.scene r)).1.map Checksum.elementKey,
      putScene r (Element.checksum .identity (w.scene r)).2 w) := by
  unfold uuid
  rw [onElement_apply, Element.uuid_apply]

theorem recalls_uuid (r : ElementRef) (w : World) : w.Recalls (uuid r w).2 := by
  obtain ⟨hd, ha⟩ := Element.checksum_around .identity (w.scene r)
  rw [uuid_eq]
  exact recalls_putScene hd ha

theorem checksum_of_uuid (h : (uuid r w).1 = .ok k) :
    ∃ c, (Element.checksum .identity (w.scene r)).1 = .ok c ∧ c.elementKey = k := by
  rw [uuid_eq] at h
  cases hc : (Element.checksum .identity (w.scene r)).1 with
  | error e =>
    rw [hc] at h
    cases h
  | ok c =>
    rw [hc] at h
    cases h
    exact ⟨c, rfl, rfl⟩

/-- Keys are made of identity checksums. -/
theorem isKey_of_uuid (h : (uuid r w).1 = .ok k) : IsKey k := by
  obtain ⟨c, hc, rfl⟩ := checksum_of_uuid h
  exact isKey_elementKey (Element.algorithm_of_checksum hc)

/-- An element remembers its key. -/
def Knows (w : World) (r : ElementRef) (k : ElementKey) : Prop :=
  ∃ c, (w.element r).cache.checksum? .identity = some c ∧ c.elementKey = k

namespace Knows

theorem unique {k' : ElementKey} (h : w.Knows r k) (h' : w.Knows r k') : k = k' := by
  obtain ⟨c, hc, rfl⟩ := h
  obtain ⟨c', hc', rfl⟩ := h'
  rw [hc] at hc'
  cases hc'
  rfl

theorem lt (h : w.Knows r k) : r < w.elements.length := by
  obtain ⟨c, hc, -⟩ := h
  by_contra hr
  have hdefault : w.element r = default := by
    unfold element
    rw [List.getD_eq_getElem?_getD, List.getElem?_eq_none (Nat.le_of_not_lt hr)]
    rfl
  rw [hdefault] at hc
  cases hc

/-- An element that remembers its key is not changed by being asked for it. -/
theorem uuid_eq (h : w.Knows r k) : uuid r w = (.ok k, w) := by
  have hr := h.lt
  obtain ⟨c, hc, rfl⟩ := h
  have hc' : (w.scene r).cache.checksum? .identity = some c := hc
  have happly := Element.checksum_apply .identity (w.scene r)
  rw [hc'] at happly
  rw [World.uuid_eq, happly]
  dsimp only
  rw [putScene_scene hr]
  rfl

theorem of_element_eq (h : w.Knows r k) (he : w'.element r = w.element r) : w'.Knows r k := by
  unfold Knows
  rwa [he]

/-- What is remembered is remembered when other keys are asked for. -/
theorem uuid (h : w.Knows r k) (r' : ElementRef) : (uuid r' w).2.Knows r k := by
  by_cases hr : r = r'
  · subst hr
    rwa [h.uuid_eq]
  · apply h.of_element_eq
    rw [World.uuid_eq]
    exact element_putScene_of_ne hr

end Knows

/-- An element that has been asked for its key remembers it. -/
theorem knows_of_uuid (hr : r < w.elements.length) (h : (uuid r w).1 = .ok k) :
    (uuid r w).2.Knows r k := by
  obtain ⟨c, hc, rfl⟩ := checksum_of_uuid h
  refine ⟨c, ?_, rfl⟩
  rw [uuid_eq, element_putScene hr]
  exact Element.remembered_of_checksum hc

/-- To ask for a key twice gives the same key and changes nothing more. -/
theorem uuid_again (h : (uuid r w).1 = .ok k) :
    uuid r (uuid r w).2 = (.ok k, (uuid r w).2) := by
  by_cases hr : r < w.elements.length
  · exact (knows_of_uuid hr h).uuid_eq
  · have hsame : (uuid r w).2 = w := by
      obtain ⟨hd, ha⟩ := Element.checksum_around .identity (w.scene r)
      rw [uuid_eq]
      exact putScene_of_le (Nat.le_of_not_lt hr) hd (by rw [ha]; rfl)
    rw [hsame]
    exact Prod.ext h hsame

end World

end Depot
