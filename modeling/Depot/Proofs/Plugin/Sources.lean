import Depot.Proofs.Element.Parameters
import Depot.Proofs.FiniteMap
import Depot.Proofs.Json.RoundTrip
import Depot.Proofs.Text.Base64
/-!
# Elements from descriptors

An element that can be built from any descriptor is built from its own, be it handed over as it
is, as a JSON value, or as a text.
-/

namespace Depot

open Json

variable {p : Plugins} {d : Descriptor} {s : Source} {o params config : Object} {w w' : World}
  {r : ElementRef} {name : String}

/-! ### Descriptors -/

namespace Descriptor

theorem selection_selecting (name : String) (params : Object) (contract : String) :
    (selecting name params).selection contract = .ok (name, params) := by
  simp [selection, selecting, params?, Dict.get?_insert]

theorem toObject_selecting (h : compare name typeKey = .lt) :
    (selecting name params).toObject =
      [(name, .object params), (typeKey, .string name)] := by
  show Assoc.insert name (.object params) [(typeKey, Value.ofOption (some name))] = _
  rw [Assoc.insert, h]
  rfl

theorem readMember_section {contract : String} (h : name ≠ typeKey) :
    readMember contract d (name, .object params) = .ok (d.withParams name params) := by
  unfold readMember
  dsimp only
  rw [if_neg h]

/-- A descriptor with one section is read back from its object. -/
theorem ofObject_selecting (h : name ≠ typeKey) (contract : String) :
    ofObject contract [(name, .object params), (typeKey, .string name)] =
      .ok (selecting name params) := by
  unfold ofObject
  rw [List.foldlM_cons, readMember_section h]
  rfl

end Descriptor

/-! ### The implementations -/

/-- A flaw is one of a name and its defaults. -/
theorem Registration.flaw?_eq {κ : Type} {r : Registration κ} {earlier : List String} :
    r.flaw? earlier =
      ({ name := r.name, defaults := r.defaults, construct := () } : Registration Unit).flaw?
        earlier := rfl

namespace Plugins

/-- No implementation of elements has a flaw. -/
theorem judged_elements (p : Plugins) :
    p.elements.judged = p.elements.registrations.map fun r => (r, none) := by
  unfold Registry.judged elements
  simp only [Registry.judgeFrom, List.map_cons, List.map_nil, Registration.flaw?_eq]
  have h₁ : ({ name := Source.memoryName, defaults := Source.memoryDefaults, construct := () } :
      Registration Unit).flaw? [] = none := by decide +kernel
  have h₂ : ({ name := Source.fileName, defaults := Source.fileDefaults, construct := () } :
      Registration Unit).flaw? [Source.memoryName] = none := by decide +kernel
  have h₃ : ({ name := Source.backendName, defaults := Source.backendDefaults, construct := () } :
      Registration Unit).flaw? [Source.memoryName, Source.fileName] = none := by decide +kernel
  have h₄ : ({ name := Source.webName, defaults := Source.webDefaults, construct := () } :
      Registration Unit).flaw? [Source.memoryName, Source.fileName, Source.backendName] = none := by
    decide +kernel
  simp only [List.nil_append, List.cons_append, h₁, h₂, h₃, h₄]

/-- A descriptor builds elements with a source. -/
def Builds (p : Plugins) (d : Descriptor) (s : Source) : Prop :=
  ∀ w : World, p.element d w = World.newElement s w

/-- A source that elements can be built with. -/
def Buildable (p : Plugins) (s : Source) : Prop := ∃ d, p.Builds d s

/-- What a source must be like so that elements can be built with it. -/
def Accepts (p : Plugins) : Source → Prop
  | .memory ..                => True
  | .file path ..             => path ≠ ""
  | .backend name ref locator .. => locator ≠ "" ∧ p.backends.get? name = some ref
  | .web ..                   => False

end Plugins

namespace Source

open Parameters

/-! ### Parameters and back -/

/-- The parameters of a source leave nothing to the defaults. -/
theorem merge_config (content : Bytes) (path name locator : String) (ref : BackendRef)
    (type : Option String) (readOnly : Bool) :
    Config.merge memoryDefaults (Source.memory content type readOnly).config =
        (Source.memory content type readOnly).config ∧
      Config.merge fileDefaults (Source.file path type readOnly).config =
        (Source.file path type readOnly).config ∧
      Config.merge backendDefaults (Source.backend name ref locator type readOnly).config =
        (Source.backend name ref locator type readOnly).config := by
  cases type <;> exact ⟨rfl, rfl, rfl⟩

theorem memoryOfConfig_config (content : Bytes) (type : Option String) (readOnly : Bool) :
    memoryOfConfig (Source.memory content type readOnly).config =
      .ok (.memory content type readOnly) := by
  have hc : Parameters.content (Source.memory content type readOnly).config "bytes" =
      .ok content := by
    show (readBase64 _).mapError _ = _
    rw [String.toList_ofList, readBase64_encode]
    rfl
  unfold memoryOfConfig
  rw [hc]
  cases type <;> rfl

theorem fileOfConfig_config {path : String} (hp : path ≠ "") (type : Option String)
    (readOnly : Bool) : fileOfConfig (Source.file path type readOnly).config =
      .ok (.file path type readOnly) := by
  have hf : fullText (Source.file path type readOnly).config "filepath" = .ok path := by
    show (if path = "" then _ else _) = _
    rw [if_neg hp]
    rfl
  unfold fileOfConfig
  rw [hf]
  cases type <;> rfl

theorem backendOfConfig_config {backends : BackendNames} {ref : BackendRef} {locator : String}
    (hl : locator ≠ "") (hn : backends.get? name = some ref) (type : Option String)
    (readOnly : Bool) :
    backendOfConfig backends (Source.backend name ref locator type readOnly).config =
      .ok (.backend name ref locator type readOnly) := by
  have hf : fullText (Source.backend name ref locator type readOnly).config "locator" =
      .ok locator := by
    show (if locator = "" then _ else _) = _
    rw [if_neg hl]
    rfl
  have hb : text? (Source.backend name ref locator type readOnly).config "backend" =
      .ok (some name) := rfl
  unfold backendOfConfig
  rw [hf, hb]
  simp only [bind, Except.bind, Option.getD_some, hn]
  cases type <;> rfl

end Source

namespace Plugins

/-! ### Building from descriptors -/

section

variable {reg : Registration (Constructor ElementRef)}
  {build : Object → Except ParameterError Source}
  (hd : d.selection elementContract = .ok (name, params))

include hd

/-- What a descriptor selects is prepared and built. -/
theorem element_eq (w : World) : p.element d w =
    match p.elements.prepare name params with
    | .error e          => (.error e, w)
    | .ok (reg, config) =>
      ExceptT.adapt (.construction elementContract name) (reg.construct config) w := by
  have hcontract : p.elements.contract = elementContract := rfl
  unfold element Registry.resolve
  rw [hcontract, hd]
  dsimp only
  unfold Registry.instantiate
  cases p.elements.prepare name params <;> rfl

variable (hr : p.elements.judged.find? (·.1.name = name) = some (reg, none))

include hr

/-- A usable implementation builds from the parameters, laid over its defaults. -/
theorem element_usable (hu : reg.usability = .usable) (hc : reg.construct = elementOf build)
    (w : World) : p.element d w = match build (Config.merge reg.defaults params) with
      | .ok s    => World.newElement s w
      | .error e => (.error (.construction elementContract name e.message), w) := by
  have hprepare : p.elements.prepare name params =
      .ok (reg, Config.merge reg.defaults params) := by
    unfold Registry.prepare Registry.find
    rw [hr]
    simp only [bind, Except.bind, hu]
    rfl
  rw [element_eq hd, hprepare]
  dsimp only
  rw [hc]
  unfold elementOf
  cases build (Config.merge reg.defaults params) <;> rfl

/-- What a usable implementation has built an element from, it builds every element from. -/
theorem builds_of_usable (hu : reg.usability = .usable) (hc : reg.construct = elementOf build)
    (h : p.element d w = (.ok r, w')) :
    ∃ s, build (Config.merge reg.defaults params) = .ok s ∧ p.Builds d s := by
  have happly := element_usable hd hr hu hc
  cases hb : build (Config.merge reg.defaults params) with
  | error e =>
    rw [happly, hb] at h
    cases h
  | ok s =>
    refine ⟨s, rfl, fun w => ?_⟩
    rw [happly, hb]

end

/-- Whatever a descriptor has built an element from, it builds every element from, and it is
accepted. -/
theorem builds_of_element (h : p.element d w = (.ok r, w')) : ∃ s, p.Builds d s ∧ p.Accepts s := by
  cases hd : d.selection elementContract with
  | error e =>
    have hcontract : p.elements.contract = elementContract := rfl
    unfold element Registry.resolve at h
    rw [hcontract, hd] at h
    cases h
  | ok selected =>
  obtain ⟨name, params⟩ := selected
  cases hr : p.elements.judged.find? (·.1.name = name) with
  | none =>
    have hprepare : p.elements.prepare name params =
        .error (.notFound elementContract name p.elements.discover.available) := by
      unfold Registry.prepare Registry.find
      rw [hr]
      rfl
    rw [element_eq hd, hprepare] at h
    cases h
  | some judged =>
    -- In memory, in a file, in a backend, and on the web, from which nothing can be built.
    have hm := List.mem_of_find?_eq_some hr
    rw [judged_elements] at hm
    simp only [elements, List.map_cons, List.map_nil, List.mem_cons, List.not_mem_nil,
      or_false] at hm
    rcases hm with rfl | rfl | rfl | rfl
    · obtain ⟨s, hs, hb⟩ := builds_of_usable hd hr rfl rfl h
      obtain ⟨content, type, -, -, rfl⟩ := Source.memoryOfConfig_eq_ok.1 hs
      exact ⟨_, hb, trivial⟩
    · obtain ⟨s, hs, hb⟩ := builds_of_usable hd hr rfl rfl h
      obtain ⟨path, type, hp, -, rfl⟩ := Source.fileOfConfig_eq_ok.1 hs
      exact ⟨_, hb, (Parameters.fullText_eq_ok.1 hp).2⟩
    · obtain ⟨s, hs, hb⟩ := builds_of_usable hd hr rfl rfl h
      obtain ⟨name', locator, ref, type, -, hl, href, -, rfl⟩ :=
        Source.backendOfConfig_eq_ok.1 hs
      exact ⟨_, hb, (Parameters.fullText_eq_ok.1 hl).2, href⟩
    · have hprepare : p.elements.prepare name params =
          .error (.unusable elementContract name noWebReason) := by
        unfold Registry.prepare Registry.find
        rw [hr]
        rfl
      rw [element_eq hd, hprepare] at h
      cases h

theorem builds_selecting {g : Registration (Constructor ElementRef)}
    {build : Object → Except ParameterError Source}
    (hr : p.elements.judged.find? (·.1.name = name) = some (g, none))
    (hu : g.usability = .usable) (hc : g.construct = elementOf build)
    (hb : build (Config.merge g.defaults params) = .ok s) :
    p.Builds (.selecting name params) s := by
  intro w
  rw [element_usable (Descriptor.selection_selecting _ _ _) hr hu hc, hb]

/-- A source that is accepted is built from its own descriptor. -/
theorem builds_descriptor (h : p.Accepts s) : p.Builds s.descriptor s := by
  cases s with
  | memory content type readOnly =>
    obtain ⟨hmerge, -⟩ := Source.merge_config content "" "" "" 0 type readOnly
    refine builds_selecting (g := ⟨Source.memoryName, .usable, Source.memoryDefaults,
      elementOf Source.memoryOfConfig⟩) ?_ rfl rfl ?_
    · rw [judged_elements]
      rfl
    · rw [hmerge, Source.memoryOfConfig_config]
  | file path type readOnly =>
    obtain ⟨-, hmerge, -⟩ := Source.merge_config .empty path "" "" 0 type readOnly
    refine builds_selecting (g := ⟨Source.fileName, .usable, Source.fileDefaults,
      elementOf Source.fileOfConfig⟩) ?_ rfl rfl ?_
    · rw [judged_elements]
      rfl
    · rw [hmerge, Source.fileOfConfig_config h]
  | backend name ref locator type readOnly =>
    obtain ⟨-, -, hmerge⟩ := Source.merge_config .empty "" name locator ref type readOnly
    refine builds_selecting (g := ⟨Source.backendName, .usable, Source.backendDefaults,
      elementOf (Source.backendOfConfig p.backends)⟩) ?_ rfl rfl ?_
    · rw [judged_elements]
      rfl
    · rw [hmerge, Source.backendOfConfig_config h.1 h.2]
  | web address timeout => exact absurd h id

theorem Builds.unique {s' : Source} (h : p.Builds d s) (h' : p.Builds d s') : s = s' := by
  have heq := (h (World.ofDisk (Disk.fresh [] ""))).symm.trans (h' _)
  have hsource := congrArg (fun x => x.2.elements) heq
  simp only [World.newElement, World.ofDisk, List.nil_append, List.cons.injEq, and_true,
    Element.ofSource, Element.mk.injEq] at hsource
  exact hsource

/-- A source that elements can be built with is accepted, and so is built from its own
descriptor. -/
theorem Buildable.accepts (h : p.Buildable s) : p.Accepts s := by
  obtain ⟨d, hd⟩ := h
  obtain ⟨s', hs', ha⟩ := builds_of_element (hd (World.ofDisk (Disk.fresh [] "")))
  rwa [hd.unique hs']

theorem Buildable.builds (h : p.Buildable s) : p.Builds s.descriptor s :=
  builds_descriptor h.accepts

end Plugins

/-! ### Descriptors as JSON -/

namespace Source

theorem compare_pluginName (s : Source) : compare s.pluginName typeKey = .lt := by
  have hall : ∀ name ∈ [memoryName, fileName, backendName, webName],
      compare name typeKey = .lt := by decide
  apply hall
  cases s <;> simp [pluginName]

theorem toObject_descriptor (s : Source) : s.descriptor.toObject =
    [(s.pluginName, .object s.config), (typeKey, .string s.pluginName)] :=
  Descriptor.toObject_selecting s.compare_pluginName

/-- The descriptor of a source is read back from its JSON value. -/
theorem ofObject_descriptor (s : Source) (contract : String) :
    Descriptor.ofObject contract s.descriptor.toObject = .ok s.descriptor := by
  have hne : s.pluginName ≠ typeKey := by
    intro h
    have := s.compare_pluginName
    rw [h] at this
    cases this
  rw [toObject_descriptor, Descriptor.ofObject_selecting hne]
  rfl

theorem ordered_of_keys {o : Object} (h : (o.map (·.1)).Pairwise (compare · · = .lt)) :
    Assoc.Ordered o := List.pairwise_map.1 h

/-- The parameters of a source are flat and ordered, and no numbers unless they are those of a web
page. -/
theorem config_plain (h : p.Accepts s) : s.config.Ordered ∧
    (Value.object s.config).depth = 1 ∧ (Value.object s.config).Legible := by
  cases s with
  | memory content type readOnly =>
    have hk : Assoc.Ordered (Source.memory content type readOnly).config :=
      ordered_of_keys (by simp only [config, List.map_cons, List.map_nil]; decide)
    cases type <;> exact ⟨⟨hk, by simp [config, Value.OrderedMembers, Value.Ordered,
      Value.ofOption]⟩, rfl, by simp [config, Value.LegibleMembers, Value.Legible, Value.ofOption]⟩
  | file path type readOnly =>
    have hk : Assoc.Ordered (Source.file path type readOnly).config :=
      ordered_of_keys (by simp only [config, List.map_cons, List.map_nil]; decide)
    cases type <;> exact ⟨⟨hk, by simp [config, Value.OrderedMembers, Value.Ordered,
      Value.ofOption]⟩, rfl, by simp [config, Value.LegibleMembers, Value.Legible, Value.ofOption]⟩
  | backend name ref locator type readOnly =>
    have hk : Assoc.Ordered (Source.backend name ref locator type readOnly).config :=
      ordered_of_keys (by simp only [config, List.map_cons, List.map_nil]; decide)
    cases type <;> exact ⟨⟨hk, by simp [config, Value.OrderedMembers, Value.Ordered,
      Value.ofOption]⟩, rfl, by simp [config, Value.LegibleMembers, Value.Legible, Value.ofOption]⟩
  | web address timeout => exact absurd h id

/-- So is the object of its descriptor, one container deeper. -/
theorem toObject_plain (h : p.Accepts s) : s.descriptor.toObject.Ordered ∧
    (Value.object s.descriptor.toObject).depth = 2 ∧
      (Value.object s.descriptor.toObject).Legible := by
  obtain ⟨ho, hdepth, hl⟩ := config_plain h
  rw [toObject_descriptor]
  refine ⟨⟨?_, ho, trivial, trivial⟩, ?_, hl, trivial, trivial⟩
  · simp [Assoc.Ordered, s.compare_pluginName]
  · simp only [Value.depth, Value.depthMembers] at hdepth ⊢
    rw [hdepth]
    rfl

/-- The descriptor of a source that is accepted is read back from its text. -/
theorem ofBytes?_descriptor (h : p.Accepts s) :
    Object.ofBytes? s.descriptor.toValue.prettyText.toUTF8 = some s.descriptor.toObject := by
  obtain ⟨ho, hdepth, hl⟩ := toObject_plain h
  refine Object.ofBytes?_prettyText ho ?_ hl
  rw [hdepth]
  decide

end Source

end Depot
