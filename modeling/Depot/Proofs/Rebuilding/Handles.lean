import Depot.MediaType.Common
import Depot.Proofs.Rebuilding.Sets
/-!
# Handles built again

Elements, stores and data sets are handles that descriptors are built as. The descriptor of a handle
builds one that shows the same, and it does so after it has stood in a flat configuration.
-/

namespace Depot

variable {p : Plugins} {d : Descriptor} {w : World} {c : Configuration} {contract : String}

/-! ### Through flat configurations -/

namespace Plugins

/-- The descriptors of the handles of a contract. -/
inductive Describes (p : Plugins) : String → Descriptor → Prop
  | element {d : Descriptor} {r : ElementRef} {w w' : World} (h : p.element d w = (.ok r, w')) :
      Describes p elementContract (w'.source r).descriptor
  | store {d : Descriptor} {r : StoreRef} {w w' : World} (h : p.store d w = (.ok r, w')) :
      Describes p storeContract (w'.storeDescriptor r)
  | set {d : Descriptor} {s : DataSet} {w w' : World} (proper : w.disk.Proper)
      (named : w.disk.Named) (h : p.set d w = (.ok s, w')) :
      Describes p setContract (s.descriptor w')

theorem Describes.restorable [MediaTypes] (h : p.Describes contract d) :
    Config.isSegment contract = true ∧ d.Restorable := by
  cases h with
  | element h => exact ⟨by decide, (element_rebuilt h (.refl _)).1⟩
  | store h => exact ⟨by decide, (store_rebuilt h (.refl _)).1⟩
  | set hd hn h => exact ⟨by decide, (set_rebuilt hd hn h (.refl _)).1⟩

end Plugins

namespace Configuration

/-- Every section is the descriptor of a handle of its contract. -/
def OfHandles (p : Plugins) (c : Configuration) : Prop :=
  ∀ e ∈ c.sections.entries, p.Describes e.1 e.2

theorem OfHandles.restorable [MediaTypes] (h : c.OfHandles p) : c.Restorable :=
  fun e he => (h e he).restorable

/-- A descriptor that is put in a configuration is there again after the configuration has been
flattened, which succeeds, and read back. -/
def Keeps (c : Configuration) (contract : String) (d : Descriptor) : Prop :=
  ∃ flat c', (c.insert contract d).toFlat = .ok flat ∧ ofFlat flat = .ok c' ∧
    c'.get? contract = some d

theorem OfHandles.keeps [MediaTypes] (h : c.OfHandles p) (hd : p.Describes contract d) :
    c.Keeps contract d := by
  obtain ⟨hsegment, hrestorable⟩ := hd.restorable
  obtain ⟨flat, hflat, hback⟩ :=
    (restorable_insert hsegment hrestorable h.restorable).ofFlat
  refine ⟨flat, _, hflat, hback, ?_⟩
  show (c.sections.insert contract d).get? contract = some d
  rw [Dict.get?_insert, if_pos rfl]

end Configuration

/-! ### All handles -/

/-- The descriptor of whatever a descriptor has been built as is found again in a configuration of
descriptors of handles that has been flattened and read back, and as long as the disk and the
backends stay the same it builds a handle that shows the same. -/
theorem Plugins.handles_rebuilt [MediaTypes] (hd : w.disk.Proper) (hn : w.disk.Named)
    (hc : c.OfHandles p) (d : Descriptor) :
    (∀ r w' w₂, p.element d w = (.ok r, w') → w'.SameContents w₂ →
      c.Keeps elementContract (w'.source r).descriptor ∧ ∃ r₂ w₃,
        p.element (w'.source r).descriptor w₂ = (.ok r₂, w₃) ∧ SameElement w' r w₃ r₂) ∧
    (∀ r w' w₂, p.store d w = (.ok r, w') → w'.SameContents w₂ →
      c.Keeps storeContract (w'.storeDescriptor r) ∧ ∃ r₂ w₃,
        p.store (w'.storeDescriptor r) w₂ = (.ok r₂, w₃) ∧ SameStore w' r w₃ r₂) ∧
    ∀ s w' w₂, p.set d w = (.ok s, w') → w'.SameContents w₂ →
      c.Keeps setContract (s.descriptor w') ∧ ∃ s₂ w₃,
        p.set (s.descriptor w') w₂ = (.ok s₂, w₃) ∧ SameSet w' s w₃ s₂ := by
  refine ⟨fun r w' w₂ h hw => ?_, fun r w' w₂ h hw => ?_, fun s w' w₂ h hw => ?_⟩
  · exact ⟨hc.keeps (.element h), (element_rebuilt h hw).2⟩
  · exact ⟨hc.keeps (.store h), (store_rebuilt h hw).2⟩
  · exact ⟨hc.keeps (.set hd hn h), (set_rebuilt hd hn h hw).2⟩

open MediaTypes in
/-- A data set in a new directory, beside an element in memory. -/
theorem Plugins.handles_rebuilt_tree :
    let p : Plugins := { backends := .empty }
    let w : World := .ofDisk (.fresh ["work"] "tmp")
    let d : Descriptor := .selecting TreeSet.pluginName [("root_directory", .string "set")]
    let e : Source := .memory .empty none false
    let c : Configuration := Configuration.empty.insert elementContract e.descriptor
    let t : TreeSet := { root := ["work", "set"], chunk := 10, plugins := p, entries := .empty }
    let w' : World := { w with disk := w.disk.put ["work", "set"] .dir }
    p.set d w = (.ok (.tree t), w') ∧ c.Keeps setContract ((DataSet.tree t).descriptor w') ∧
      ∃ s₂ w₃, p.set ((DataSet.tree t).descriptor w') w' = (.ok s₂, w₃) ∧
        SameSet w' (.tree t) w₃ s₂ := by
  intro p w d e c t w'
  have hbuilt : p.set d w = (.ok (.tree t), w') := by
    refine Registry.resolve_selecting
      (r := ⟨TreeSet.pluginName, .usable, treeSetDefaults, p.treeSetOf⟩) (g := p.sets) ?_ rfl rfl
    rw [judged_sets]
    simp [sets]
  have helement : p.element e.descriptor w = World.newElement e w :=
    builds_descriptor (s := e) trivial w
  have hc : c.OfHandles p := by
    intro x hx
    cases List.mem_singleton.1 hx
    exact .element helement
  exact ⟨hbuilt, (handles_rebuilt .fresh Disk.named_fresh hc d).2.2 _ _ w' hbuilt (.refl w')⟩

end Depot
