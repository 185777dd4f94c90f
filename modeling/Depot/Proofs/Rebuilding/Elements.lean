import Depot.Proofs.Plugin.Building
import Depot.Proofs.Plugin.Restoring
import Depot.Proofs.World.Growth
/-!
# Elements built again

What an element is built with does not depend on the world, and its descriptor leads to an element
that shows the same as long as the disk and the backends are the same. The same holds where the
descriptor stands among the parameters of something else, laid over a default that selects nothing.
-/

namespace Depot

open Json Depot.Action

/-- A descriptor leaves nothing to one that selects nothing. -/
theorem Descriptor.merge_empty {name : String} (h : compare name typeKey = .lt) (params : Object) :
    Config.merge Descriptor.empty.toObject (selecting name params).toObject =
      (selecting name params).toObject := by
  have hgt : compare typeKey name = .gt := Std.OrientedCmp.gt_of_lt h
  have hget : Assoc.get? name [(typeKey, Value.null)] = none := by
    rw [Assoc.get?, h]
    rfl
  have hinsert (v : Value) : Assoc.insert typeKey v
      [(name, .object params), (typeKey, .null)] = [(name, .object params), (typeKey, v)] := by
    rw [Assoc.insert, hgt]
    rfl
  rw [toObject_selecting h]
  show Config.mergeMembers [(typeKey, .null)]
    [(name, .object params), (typeKey, .string name)] = _
  rw [Config.mergeMembers, hget, Config.mergeValue, Assoc.insert, h, Config.mergeMembers]
  · exact hinsert _
  · intro o ho
    cases ho

/-! ### Elements that show the same -/

/-- Two elements, each in its world, show the same: their name and parameters, what reading them
gives, and what is known about the content. -/
structure SameElement [MediaTypes] (w : World) (r : ElementRef) (w' : World) (r' : ElementRef) :
    Prop where
  pluginName : (w'.source r').pluginName = (w.source r).pluginName
  config : (w'.source r').config = (w.source r).config
  content : (World.read r' w').1 = (World.read r w).1
  contentType : (w'.source r').contentType = (w.source r).contentType
  writable : (w'.source r').writable = (w.source r).writable
  locator : (w'.source r').locator = (w.source r).locator

/-- Nothing that elements read has changed. -/
structure World.SameContents (w w' : World) : Prop where
  disk : w'.disk = w.disk
  backends : w'.backends = w.backends

namespace World.SameContents

variable {w w' w'' : World} {r r' : ElementRef}

theorem refl (w : World) : w.SameContents w := ⟨rfl, rfl⟩

theorem trans (h : w.SameContents w') (h' : w'.SameContents w'') : w.SameContents w'' :=
  ⟨h'.disk.trans h.disk, h'.backends.trans h.backends⟩

theorem symm (h : w.SameContents w') : w'.SameContents w := ⟨h.disk.symm, h.backends.symm⟩

theorem grown (h : w.Grown w') : w.SameContents w' := by
  obtain ⟨new, rfl⟩ := h
  exact ⟨rfl, rfl⟩

/-- Elements with one source have the same content. -/
theorem contentOf (h : w.SameContents w') (hs : w'.source r' = w.source r) :
    w'.contentOf r' = w.contentOf r := by
  show (w'.source r').content w'.disk w'.backends = (w.source r).content w.disk w.backends
  rw [hs, h.disk, h.backends]

theorem sameElement [MediaTypes] (h : w.SameContents w') (hs : w'.source r' = w.source r) :
    SameElement w r w' r' := by
  constructor
  case content => exact h.contentOf hs
  all_goals rw [hs]

end World.SameContents

namespace Plugins

variable {p : Plugins} {d : Descriptor} {s : Source} {w w' : World} {r : ElementRef}
  {cache : Option ElementRef} {v : Option Value} {cs : Option Source}

/-! ### Elements -/

/-- Every implementation of elements builds them from a source that it reads off the parameters. -/
theorem exists_elementOf {g : Registration (Constructor ElementRef)}
    (hg : g ∈ p.elements.registrations) : ∃ build, g.construct = elementOf build := by
  simp only [elements, List.mem_cons, List.not_mem_nil, or_false] at hg
  rcases hg with rfl | rfl | rfl | rfl <;> exact ⟨_, rfl⟩

/-- What an element is built with, or why it is not built, does not depend on the world. -/
theorem element_steady (p : Plugins) (d : Descriptor) : ∃ x : Except PluginError Source,
    ∀ w, p.element d w = match x with
      | .ok s    => World.newElement s w
      | .error e => (.error e, w) := by
  have happly (w : World) := p.elements.resolve_apply d w
  cases hd : d.selection p.elements.contract with
  | error e =>
    refine ⟨.error (.config e), fun w => ?_⟩
    rw [element, happly, hd]
  | ok selected =>
    obtain ⟨name, params⟩ := selected
    cases hprepare : p.elements.prepare name params with
    | error e =>
      refine ⟨.error e, fun w => ?_⟩
      rw [element, happly, hd]
      dsimp only
      rw [hprepare]
    | ok prepared =>
      obtain ⟨g, config⟩ := prepared
      -- Every registration builds a source from its parameters first, and only then an element.
      have hg : g ∈ p.elements.registrations := by
        rw [← p.elements.map_fst_judged]
        exact List.mem_map_of_mem
          (List.mem_of_find?_eq_some (Registry.prepare_eq_ok.1 hprepare).1)
      obtain ⟨build, hbuild⟩ := exists_elementOf hg
      refine ⟨(build config).mapError fun e => .construction elementContract name e.message,
        fun w => ?_⟩
      rw [element, happly, hd]
      dsimp only
      rw [hprepare]
      dsimp only
      rw [hbuild]
      unfold elementOf
      cases build config <;> rfl

/-- The descriptor of a source that is accepted is given back by a flat configuration. -/
theorem restorable_descriptor (h : p.Accepts s) : s.descriptor.Restorable := by
  obtain ⟨ho, -⟩ := Source.config_plain h
  have hnames : ∀ name ∈ [Source.memoryName, Source.fileName, Source.backendName, Source.webName],
      Config.isSegment name = true := by decide
  have hkeys : ∀ key ∈ ["bytes", "content_type", "readonly", "explicit_mimetype", "filepath",
      "backend", "locator"], Config.isSegment key = true := by decide
  refine .selecting s.compare_pluginName ?_ ⟨ho, ?_⟩
  · apply hnames
    cases s <;> simp [Source.pluginName]
  · cases s with
    | web address timeout => exact absurd h id
    | memory content type readOnly | file path type readOnly
    | backend name ref locator type readOnly =>
      cases type <;>
        simp [Source.config, Config.Portable, Config.PortableMembers, Value.ofOption, hkeys]

/-- The descriptor of an element builds an element that shows the same. -/
theorem element_rebuilt [MediaTypes] {w₂ : World} (h : p.element d w = (.ok r, w'))
    (hw : w'.SameContents w₂) :
    (w'.source r).descriptor.Restorable ∧ ∃ r₂ w₃,
      p.element (w'.source r).descriptor w₂ = (.ok r₂, w₃) ∧ SameElement w' r w₃ r₂ := by
  obtain ⟨s, hs, ha⟩ := builds_of_element h
  rw [hs w, World.newElement_apply] at h
  cases h
  rw [World.source_newElement]
  refine ⟨restorable_descriptor ha, _, _, builds_descriptor ha w₂, ?_⟩
  refine (hw.trans (.grown .newElement)).sameElement ?_
  rw [World.source_newElement, World.source_newElement]

/-! ### Optional elements -/

/-- A new element, if there is a source for one. -/
def newCache : Option Source → World.Action PluginError (Option ElementRef)
  | none   => return none
  | some s => some <$> World.newElement s

/-- The descriptor of a source as a parameter; one that selects nothing if there is no source. -/
def cacheValue : Option Source → Value
  | none   => Descriptor.empty.toValue
  | some s => s.descriptor.toValue

/-- Where an optional descriptor is built, there is a source that can be built again, or none. -/
theorem element?_eq_ok (h : p.element? v w = (.ok cache, w')) :
    ∃ cs, (∀ s ∈ cs, p.Accepts s) ∧ newCache cs w = (.ok cache, w') := by
  unfold element? Registry.resolveOptional at h
  cases hd : Descriptor.ofOptional p.elements.contract v with
  | error e =>
    rw [hd] at h
    cases h
  | ok found =>
    rw [hd] at h
    cases found with
    | none => exact ⟨none, nofun, h⟩
    | some d =>
      obtain ⟨r, hr, rfl⟩ := map_eq_ok.1 h
      obtain ⟨s, hs, ha⟩ := builds_of_element hr
      refine ⟨some s, fun s' hs' => ?_, map_eq_ok.2 ⟨r, ?_, rfl⟩⟩
      · cases hs'
        exact ha
      · rw [← hs w]
        exact hr

/-- So there is where something has been built that begins with one. -/
theorem exists_newCache {α : Type} {f : Option ElementRef → World.Action String α} {a : α}
    (h : ((p.element? v).mapError PluginError.message >>= f) w = (.ok a, w')) :
    ∃ cs, (∀ s ∈ cs, p.Accepts s) ∧ p.element? v w = newCache cs w := by
  obtain ⟨cache, w₁, hcache, -⟩ := bind_eq_ok.1 h
  have hcache := mapError_eq_ok.1 hcache
  obtain ⟨cs, hcs, hnew⟩ := element?_eq_ok hcache
  exact ⟨cs, hcs, hcache.trans hnew.symm⟩

/-- The descriptor of a source leaves nothing to one that selects nothing. -/
theorem merge_cacheValue (cs : Option Source) :
    Config.merge [("cache_element", Descriptor.empty.toValue)] [("cache_element", cacheValue cs)] =
      [("cache_element", cacheValue cs)] := by
  cases cs with
  | none => rfl
  | some s =>
    show [("cache_element", Value.object
      (Config.merge Descriptor.empty.toObject s.descriptor.toObject))] = _
    rw [Source.descriptor, Descriptor.merge_empty s.compare_pluginName]
    rfl

/-- The descriptor of a source that is accepted builds an element with the source. -/
theorem element?_cacheValue (h : ∀ s ∈ cs, p.Accepts s) (w : World) :
    p.element? (some (cacheValue cs)) w = newCache cs w := by
  cases cs with
  | none => rfl
  | some s =>
    have hof : Descriptor.ofOptional elementContract (some s.descriptor.toValue) =
        .ok (some s.descriptor) := by
      show (Descriptor.ofObject elementContract s.descriptor.toObject >>= _) = _
      rw [s.ofObject_descriptor]
      rfl
    show Registry.resolveOptional p.elements (some s.descriptor.toValue) w = _
    unfold Registry.resolveOptional
    rw [show p.elements.contract = elementContract from rfl, hof]
    show (some <$> p.element s.descriptor : World.Action PluginError _) w = _
    rw [map_apply, builds_descriptor (h s rfl) w]
    rfl

end Plugins

end Depot
