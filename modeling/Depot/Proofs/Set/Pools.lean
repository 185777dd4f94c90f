import Depot.Proofs.Element.Storing
import Depot.Proofs.Plugin.Sources
import Depot.Proofs.Set.Requests
/-!
# Elements with steady content

The elements that data sets are used with. They can be built through the plugin table, and their
content does not change. What sets ask of them changes nothing of what they look like.
-/

namespace Depot

open Depot.Action

/-- Some elements, what they look like, and where they have it from. -/
structure Pool where
  elements : List ElementRef
  look : ElementRef → Look
  source : ElementRef → Source

variable [MediaTypes] {o : Pool} {p : Plugins} {w w' : World} {r c : ElementRef}
  {rs : List ElementRef} {v : Look}

namespace Pool

/-- The elements of a pool are in the world as they should be, and can be built again. -/
def In (o : Pool) (p : Plugins) (w : World) : Prop :=
  ∀ r ∈ o.elements, w.Shows (o.look r) r ∧ w.source r = o.source r ∧ p.Buildable (o.source r)

/-- The elements of a pool have the content that they should have. -/
def Steady (o : Pool) (w : World) : Prop :=
  ∀ r ∈ o.elements, w.contentOf r = .ok (o.look r).bytes

namespace In

theorem quiet (h : o.In p w) (hw : w.Quiet w') : o.In p w' := by
  intro r hr
  obtain ⟨hv, hs, hb⟩ := h r hr
  refine ⟨hw.shows _ _ hv, ?_, hb⟩
  rw [hw.gains.source hv.lt, hs]

/-- Elements with steady content are as they should be after changes elsewhere. -/
theorem elsewhere (h : o.In p w) (he : w'.elements = w.elements) (hw : o.Steady w') :
    o.In p w' := by
  have heach (r : ElementRef) : w'.element r = w.element r := by
    unfold World.element
    rw [he]
  intro r hr
  obtain ⟨hv, hs, hb⟩ := h r hr
  have hsource : w'.source r = w.source r := by
    unfold World.source
    rw [heach]
  refine ⟨hv.of_source ?_ hsource, hsource.trans hs, hb⟩
  apply hv.mono (Nat.le_of_eq (by rw [he])) (hw r hr)
  intro k hk
  exact .inl (hk.of_element_eq (heach r).symm)

/-- Elements with steady content are as they should be after some element has been written, even
if it is one of them. -/
theorem setBytes (h : o.In p w) (content : Bytes) (hw : o.Steady (World.setBytes c content w).2) :
    o.In p (World.setBytes c content w).2 := by
  intro r hr
  obtain ⟨hv, hs, hb⟩ := h r hr
  have hcontent := hw r hr
  unfold World.setBytes at hcontent ⊢
  rw [World.onElement_apply] at hcontent ⊢
  dsimp only at hcontent ⊢
  have hlen : w.elements.length ≤ (World.putScene c
      (Element.setBytes content (w.scene c)).2 w).elements.length := by simp
  -- The element that is written has the content that it had, so it keeps its source and key.
  by_cases hrc : r = c
  · subst hrc
    have hcontent' := hcontent
    unfold World.contentOf at hcontent'
    rw [World.scene_putScene hv.lt] at hcontent'
    have hsame : (World.putScene r (Element.setBytes content (w.scene r)).2 w).source r =
        w.source r := by
      unfold World.source
      rw [World.element_putScene hv.lt]
      exact Element.source_setBytes content hv.content hcontent'
    refine ⟨hv.of_source (hv.mono hlen hcontent ?_) hsame, hsame.trans hs, hb⟩
    rintro k ⟨c, hc, rfl⟩
    rw [World.element_putScene hv.lt] at hc
    exact .inl ⟨c, Element.checksum?_setBytes content hc, rfl⟩
  · have hsame : (World.putScene c (Element.setBytes content (w.scene c)).2 w).element r =
        w.element r := World.element_putScene_of_ne hrc
    have hsource : (World.putScene c (Element.setBytes content (w.scene c)).2 w).source r =
        w.source r := by
      unfold World.source
      rw [hsame]
    refine ⟨hv.of_source (hv.mono hlen hcontent ?_) hsource, hsource.trans hs, hb⟩
    intro k hk
    exact .inl (hk.of_element_eq hsame.symm)

end In

/-- The keys and elements that are added. -/
def entries (o : Pool) (rs : List ElementRef) : List (ElementKey × ElementRef) :=
  rs.map fun r => ((o.look r).key, r)

end Pool

/-! ### Observations -/

namespace InWorld

variable {σ : Type} {s : InWorld σ} {vs : List Look}

theorem uuid_of_shows (h : s.world.Shows v r) :
    uuid r s = (.ok v.key, { s with world := (World.uuid r s.world).2 }) := by
  rw [uuid, onWorld_apply, mapError_apply, h.uuid_fst]
  rfl

theorem observe_of_shows (h : s.world.Shows v r) :
    ∃ w, observe r s = (.ok (v.key, v), { s with world := w }) ∧ s.world.Quiet w := by
  refine ⟨(World.uuid r s.world).2, ?_, .uuid r s.world⟩
  have hread : onWorld ((World.read r).mapError .element) s = (.ok v.bytes, s) := by
    rw [onWorld_apply, mapError_apply, h.read]
    rfl
  unfold observe
  rw [bind_apply, get_apply]
  dsimp only
  rw [bind_apply, hread]
  dsimp only
  rw [bind_apply, uuid_of_shows h]
  dsimp only
  rw [h.contentType, h.writable]
  rfl

theorem observeAll_of_shows (h : List.Forall₂ s.world.Shows vs rs) :
    ∃ w, observeAll rs s = (.ok (vs.map fun v => (v.key, v)), { s with world := w }) ∧
      s.world.Quiet w := by
  induction rs generalizing s vs with
  | nil =>
    cases h
    exact ⟨s.world, rfl, .refl _⟩
  | cons r rs ih =>
    cases h with
    | @cons v _ vs _ hv hvs =>
      obtain ⟨w, hone, hw⟩ := observe_of_shows hv
      obtain ⟨w', hall, hw'⟩ := ih (s := { s with world := w }) (hvs.imp fun v r => hw.shows v r)
      refine ⟨w', ?_, hw.trans hw'⟩
      unfold observeAll
      rw [bind_apply, hone]
      dsimp only
      rw [bind_apply, hall]
      rfl

end InWorld

end Depot
