import Depot.Proofs.Plugin.Forms
import Depot.Proofs.Plugin.Sources
/-!
# Descriptors in flat configurations

A descriptor that has a section for what it selects, with parameters that can be flattened, is
found again in a configuration that has been flattened and read back.
-/

namespace Depot

open Json Config

variable {d : Descriptor} {c : Configuration} {contract : String}

/-- A value that a flat configuration gives back: members stand in key order, and under keys that
can be segments. -/
structure Config.Restorable (v : Value) : Prop where
  ordered : v.Ordered
  portable : Portable v

namespace Descriptor

/-- A descriptor that has one section, for what it selects, with parameters that a flat
configuration gives back. -/
inductive Restorable : Descriptor → Prop
  | selecting {name : String} {params : Object} (before : compare name typeKey = .lt)
      (segment : isSegment name = true) (restorable : Config.Restorable (.object params)) :
      Restorable (.selecting name params)

theorem params?_selecting (name : String) (params : Object) (name' : String) :
    (selecting name params).params? name' = if name' = name then some params else none :=
  Dict.get?_insert

namespace Restorable

theorem plain (h : d.Restorable) : d.Plain := by
  cases h with
  | selecting hbefore =>
    refine (params?_selecting ..).trans (if_neg ?_)
    rintro rfl
    simp at hbefore

theorem ordered (h : d.Restorable) : d.Ordered := by
  intro name params hparams
  cases h with
  | selecting _ _ hrestorable =>
    rw [params?_selecting] at hparams
    split at hparams <;> cases hparams
    exact hrestorable.ordered

theorem keysFit (h : d.Restorable) : d.KeysFit := by
  intro name params hparams
  cases h with
  | selecting _ hsegment hrestorable =>
    rw [params?_selecting] at hparams
    split at hparams
    · next hname =>
      cases hparams
      have hkeys := portable_iff.1 hrestorable.portable
      simp only [isSegment_iff] at hsegment hkeys
      exact ⟨hname ▸ hsegment, hkeys⟩
    · cases hparams

/-- So a descriptor can be nested in the parameters of another. -/
theorem toValue (h : d.Restorable) : Config.Restorable d.toValue :=
  ⟨h.ordered.toObject h.plain, (portable_toObject_iff h.plain).2 h.keysFit⟩

/-- A descriptor is read back from its object. -/
theorem ofObject (h : d.Restorable) (contract : String) :
    Descriptor.ofObject contract d.toObject = .ok d :=
  h.plain.says_toObject.ofObject contract

end Restorable

theorem restorable_empty : Config.Restorable empty.toValue :=
  ⟨⟨List.pairwise_singleton _ _, trivial, trivial⟩, by decide, trivial, trivial⟩

end Descriptor

namespace Configuration

/-- Every section is a descriptor that a flat configuration gives back. -/
def Restorable (c : Configuration) : Prop :=
  ∀ e ∈ c.sections.entries, isSegment e.1 = true ∧ e.2.Restorable

/-- A configuration is read back from its flat form. -/
theorem Restorable.ofFlat (h : c.Restorable) :
    ∃ flat, c.toFlat = .ok flat ∧ ofFlat flat = .ok c := by
  have hp : c.Plain := fun e he => (h e he).2.plain
  have ho : c.Ordered := fun e he => (h e he).2.ordered
  obtain ⟨flat, hflat⟩ := (toFlat_ok_iff hp).2 fun e he =>
    ⟨isSegment_iff.1 (h e he).1, (h e he).2.keysFit⟩
  exact ⟨flat, hflat, ofFlat_toFlat hp ho hflat⟩

theorem restorable_insert (hk : isSegment contract = true) (hd : d.Restorable)
    (h : c.Restorable) : (c.insert contract d).Restorable := by
  intro e he
  rcases Assoc.mem_insert_imp he with rfl | he
  · exact ⟨hk, hd⟩
  · exact h e he

end Configuration

end Depot
