import Depot.Proofs.Config.Merging
import Depot.Proofs.Plugin.Building
import Depot.Proofs.Plugin.Forms
/-!
# Templates

The template of a registry has a section for every available implementation. Where several
implementations have the name of an available one, the section holds the defaults of the last of
them, while the first is built.
-/

namespace Depot

open Json Config Depot.Action

/-! ### Implementations without a flaw -/

theorem isSegment_of_isIdentifier {name : String} (h : isIdentifier name = true) :
    name ≠ "" ∧ '.' ∉ name.toList := by
  unfold isIdentifier at h
  constructor
  · rintro rfl
    cases h
  · intro hdot
    cases hcs : name.toList with
    | nil =>
      rw [hcs] at hdot
      cases hdot
    | cons c cs =>
      rw [hcs] at h hdot
      obtain ⟨hc, hcs⟩ := Bool.and_eq_true_iff.1 h
      rcases List.mem_cons.1 hdot with rfl | hdot
      · exact absurd hc (by decide)
      · exact absurd (List.all_eq_true.1 hcs '.' hdot) (by decide)

theorem Registration.of_flawless {κ : Type} {r : Registration κ} {earlier : List String}
    (h : r.flaw? earlier = none) :
    isIdentifier r.name = true ∧ r.name ≠ typeKey ∧ Portable (.object r.defaults) := by
  unfold flaw? at h
  split at h
  · cases h
  next hname =>
  split at h
  · cases h
  next htype =>
  split at h
  · cases h
  split at h
  · cases h
  split at h
  · cases h
  next flat hflat =>
  exact ⟨Bool.of_not_eq_false hname, htype, flatten_ok_iff.1 ⟨flat, hflat⟩⟩

namespace Registry

section

variable {κ : Type} {g : Registry κ} {r : Registration κ} {rs : List (Registration κ)}
  {earlier : List String} {name : String} {d : Descriptor}

theorem flawless_of_mem_judgeFrom (h : (r, none) ∈ judgeFrom earlier rs) :
    ∃ earlier', r.flaw? earlier' = none := by
  induction rs generalizing earlier with
  | nil => cases h
  | cons r' rs ih =>
    rw [judgeFrom] at h
    rcases List.mem_cons.1 h with heq | h
    · obtain ⟨rfl, hflaw⟩ := Prod.mk.inj heq
      exact ⟨earlier, hflaw.symm⟩
    · exact ih h

/-! ### The sections of a template -/

/-- The last implementation with a name. -/
def last? (g : Registry κ) (name : String) : Option (Registration κ) :=
  g.registrations.reverse.find? (·.name = name)

theorem selected_foldl : (rs.foldl (fun d r => d.withParams r.name r.defaults) d).selected =
    d.selected := by
  induction rs generalizing d with
  | nil => rfl
  | cons r rs ih => exact ih

theorem params?_foldl :
    (rs.foldl (fun d r => d.withParams r.name r.defaults) d).params? name =
      ((rs.reverse.find? (·.name = name)).map (·.defaults)).or (d.params? name) := by
  induction rs generalizing d with
  | nil => rfl
  | cons r rs ih =>
    have hsection : (d.withParams r.name r.defaults).params? name =
        if name = r.name then some r.defaults else d.params? name := Dict.get?_insert
    rw [List.foldl_cons, ih, hsection, List.reverse_cons, List.find?_append]
    cases rs.reverse.find? (·.name = name) with
    | some r' => rfl
    | none =>
      by_cases hname : r.name = name
      · simp [hname]
      · simp [hname, Ne.symm hname]

/-- The section of an available implementation holds the defaults of the last one so named. -/
theorem params?_template (g : Registry κ) (name : String) : g.template.params? name =
    if name ∈ g.discover.available then (g.last? name).map (·.defaults) else none := by
  have hempty : Descriptor.empty.params? name = none := rfl
  unfold template last?
  rw [params?_foldl, hempty, Option.or_none, ← List.filter_reverse, List.find?_filter]
  split
  · next h =>
    congr 2
    funext r
    by_cases hname : r.name = name
    · simp [hname, h]
    · simp [hname]
  · next h =>
    rw [List.find?_eq_none.2]
    · rfl
    · intro r _
      by_cases hname : r.name = name
      · simp [hname, h]
      · simp [hname]

theorem exists_last (h : name ∈ g.names) : ∃ last, g.last? name = some last := by
  obtain ⟨r, hr, hname⟩ := List.mem_map.1 h
  rw [← Option.isSome_iff_exists]
  unfold last?
  rw [List.find?_isSome]
  exact ⟨r, List.mem_reverse.2 hr, by simpa using hname⟩

theorem mem_of_last? {last : Registration κ} (h : g.last? name = some last) :
    last ∈ g.registrations ∧ last.name = name :=
  ⟨List.mem_reverse.1 (List.mem_of_find?_eq_some h), by simpa using List.find?_some h⟩

/-! ### What a template describes -/

/-- All implementations with a name have the defaults of the first. -/
def Uniform (g : Registry κ) (name : String) : Prop :=
  ∀ r ∈ g.registrations, r.name = name → g.defaults name = .ok r.defaults

theorem mem_implementations_template :
    name ∈ g.template.implementations ↔ name ∈ g.discover.available := by
  have hkeys : name ∈ g.template.implementations ↔ (g.template.params? name).isSome = true :=
    Dict.mem_keys
  rw [hkeys, params?_template]
  constructor
  · intro h
    by_contra hname
    rw [if_neg hname] at h
    cases h
  · intro h
    obtain ⟨r, hfind, -⟩ := mem_available.1 h
    obtain ⟨last, hlast⟩ := exists_last (mem_names_iff.2 ⟨r, none, hfind⟩)
    rw [if_pos h, hlast]
    rfl

theorem defaults_eq_ok {first : Registration κ}
    (h : g.registrations.find? (·.name = name) = some first) :
    g.defaults name = .ok first.defaults := by
  rw [find?_registrations, Option.map_eq_some_iff] at h
  obtain ⟨⟨r, flaw⟩, hfind, rfl⟩ := h
  unfold defaults find
  rw [hfind]
  rfl

theorem of_params?_template {params : Object} (h : g.template.params? name = some params) :
    name ∈ g.discover.available ∧ ∃ last, g.last? name = some last ∧ last.defaults = params := by
  rw [params?_template] at h
  split at h
  · next hname => exact ⟨hname, Option.map_eq_some_iff.1 h⟩
  · cases h

theorem isIdentifier_of_available (h : name ∈ g.discover.available) :
    isIdentifier name = true ∧ name ≠ typeKey ∧
      ∃ first, g.registrations.find? (·.name = name) = some first ∧
        Portable (.object first.defaults) := by
  obtain ⟨r, hfind, -⟩ := mem_available.1 h
  obtain ⟨earlier, hflaw⟩ := flawless_of_mem_judgeFrom (List.mem_of_find?_eq_some hfind)
  obtain ⟨hname, htype, hportable⟩ := Registration.of_flawless hflaw
  rw [name_of_find? hfind] at hname htype
  exact ⟨hname, htype, r, by rw [find?_registrations, hfind]; rfl, hportable⟩

/-- A template as the only section of a configuration. -/
def templateConfiguration (g : Registry κ) (contract : String) : Configuration :=
  Configuration.empty.insert contract g.template

theorem plain_template (g : Registry κ) : g.template.Plain := by
  unfold Descriptor.Plain
  rw [params?_template, if_neg]
  intro h
  exact (isIdentifier_of_available h).2.1 rfl

/-- Where the defaults in a template can be flattened, so can the template, under any contract whose
name can be a segment of a path, and it is found again. -/
theorem templateConfiguration_read_back (ho : ∀ r ∈ g.registrations, r.defaults.Ordered)
    (hportable : ∀ name ∈ g.discover.available, ∀ last, g.last? name = some last →
      ∃ flat, flatten last.defaults = .ok flat)
    {contract : String} (hne : contract ≠ "") (hdot : '.' ∉ contract.toList) :
    ∃ flat, (g.templateConfiguration contract).toFlat = .ok flat ∧
      Configuration.ofFlat flat = .ok (g.templateConfiguration contract) := by
  have hp : (g.templateConfiguration contract).Plain :=
    List.forall_mem_singleton.2 g.plain_template
  have hordered : (g.templateConfiguration contract).Ordered := by
    refine List.forall_mem_singleton.2 fun name params hparams => ?_
    obtain ⟨-, last, hlast, rfl⟩ := of_params?_template hparams
    exact ho last (mem_of_last? hlast).1
  have hfit : (g.templateConfiguration contract).KeysFit := by
    refine List.forall_mem_singleton.2 ⟨⟨hne, hdot⟩, fun name params hparams => ?_⟩
    obtain ⟨hname, last, hlast, rfl⟩ := of_params?_template hparams
    constructor
    · exact isSegment_of_isIdentifier (isIdentifier_of_available hname).1
    · have hkeys := portable_iff.1 (flatten_ok_iff.1 (hportable name hname last hlast))
      simpa only [isSegment_iff] using hkeys
  obtain ⟨flat, hflat⟩ := (Configuration.toFlat_ok_iff hp).2 hfit
  exact ⟨flat, hflat, Configuration.ofFlat_toFlat hp hordered hflat⟩

theorem Uniform.defaults_last {first last : Registration κ} (h : g.Uniform name)
    (hfirst : g.registrations.find? (·.name = name) = some first)
    (hlast : g.last? name = some last) : last.defaults = first.defaults := by
  obtain ⟨hmem, hname⟩ := mem_of_last? hlast
  have hdefaults := h last hmem hname
  rw [defaults_eq_ok hfirst] at hdefaults
  exact (Except.ok.inj hdefaults).symm

end

section

variable {σ α : Type} {g : Registry (Object → Action σ String α)}
  {first last : Registration (Object → Action σ String α)} {d : Descriptor} {name : String} {s : σ}

/-- In state `s`, building what a descriptor selects runs the constructor of `r` on a configuration
and does nothing else. -/
def Builds (g : Registry (Object → Action σ String α)) (d : Descriptor) (s : σ)
    (r : Registration (Object → Action σ String α)) (config : Object) : Prop :=
  g.resolve d s = ExceptT.adapt (PluginError.construction g.contract r.name) (r.construct config) s

/-- A descriptor that selects an available implementation is built by the first so named, from the
parameters that the descriptor has for it, laid over the defaults. -/
theorem builds_select (h : name ∈ g.discover.available)
    (hfirst : g.registrations.find? (·.name = name) = some first) (d : Descriptor) (s : σ) :
    g.Builds (d.select name) s first (merge first.defaults ((d.params? name).getD [])) := by
  obtain ⟨r, hr, hruns⟩ := runs_first h ((d.params? name).getD []) s
  obtain rfl : r = first := Option.some.inj (hr.symm.trans hfirst)
  have hname : r.name = name := by simpa using List.find?_some hr
  show g.instantiate name ((d.params? name).getD []) s = _
  rw [hname]
  exact hruns

/-- A template selects nothing and has sections for exactly what is available. The section of an
available name holds the defaults of the last implementation so named, while the first is built, and
its defaults are those for the name. So selecting in the template builds from the defaults of the
last laid over those of the first, where selecting in an empty descriptor builds from those of the
first alone. Both are the same, and the defaults for the name, if all implementations so named have
the same defaults; and if that holds of all available names, the template is found again from its
flat form under every contract whose name is neither empty nor holds a dot. -/
theorem template_lists_available (g : Registry (Object → Action σ String α))
    (ho : ∀ r ∈ g.registrations, r.defaults.Ordered) :
    (g.template.selected = none ∧
      ∀ name, name ∈ g.template.implementations ↔ name ∈ g.discover.available) ∧
    (∀ name ∈ g.discover.available, ∃ first last,
      g.registrations.find? (·.name = name) = some first ∧ g.last? name = some last ∧
      g.defaults name = .ok first.defaults ∧ g.template.params? name = some last.defaults ∧
      ∀ s, g.Builds (Descriptor.empty.select name) s first first.defaults ∧
        g.Builds (g.template.select name) s first (merge first.defaults last.defaults)) ∧
    (∀ name ∈ g.discover.available, g.Uniform name → ∃ params, g.defaults name = .ok params ∧
      g.template.params? name = some params ∧
      ∀ s, g.resolve (g.template.select name) s = g.resolve (Descriptor.empty.select name) s) ∧
    ((∀ name ∈ g.discover.available, g.Uniform name) →
      ∀ contract, contract ≠ "" → '.' ∉ contract.toList →
        ∃ flat, (g.templateConfiguration contract).toFlat = .ok flat ∧
          Configuration.ofFlat flat = .ok (g.templateConfiguration contract)) := by
  have hdescribes : ∀ name ∈ g.discover.available, ∃ first last,
      g.registrations.find? (·.name = name) = some first ∧ g.last? name = some last ∧
      g.defaults name = .ok first.defaults ∧ g.template.params? name = some last.defaults ∧
      ∀ s, g.Builds (Descriptor.empty.select name) s first first.defaults ∧
        g.Builds (g.template.select name) s first (merge first.defaults last.defaults) := by
    intro name hname
    obtain ⟨-, -, first, hfirst, -⟩ := isIdentifier_of_available hname
    obtain ⟨last, hlast⟩ := exists_last (mem_names_of_available hname)
    have hparams : g.template.params? name = some last.defaults := by
      rw [params?_template, if_pos hname, hlast]
      rfl
    refine ⟨first, last, hfirst, hlast, defaults_eq_ok hfirst, hparams, fun s => ⟨?_, ?_⟩⟩
    · -- An empty descriptor has no parameters to lay over the defaults of the first.
      exact builds_select hname hfirst .empty s
    · have hbuilds := builds_select hname hfirst g.template s
      rwa [hparams] at hbuilds
  refine ⟨⟨selected_foldl, fun name => mem_implementations_template⟩, hdescribes, ?_, ?_⟩
  · intro name hname huniform
    obtain ⟨first, last, hfirst, hlast, hdefaults, hparams, hbuilds⟩ := hdescribes name hname
    -- The defaults of the last are those of the first, and laid over themselves they stay the same.
    have hsame := huniform.defaults_last hfirst hlast
    rw [hsame] at hparams
    refine ⟨first.defaults, hdefaults, hparams, fun s => ?_⟩
    obtain ⟨hempty, htemplate⟩ := hbuilds s
    rw [hsame, merge_self (ho first (List.mem_of_find?_eq_some hfirst))] at htemplate
    exact htemplate.trans hempty.symm
  · intro huniform contract hne hdot
    refine templateConfiguration_read_back ho (fun name hname last hlast => ?_) hne hdot
    obtain ⟨-, -, first, hfirst, hportable⟩ := isIdentifier_of_available hname
    rw [(huniform name hname).defaults_last hfirst hlast]
    exact flatten_ok_iff.2 hportable

/-- Implementations of one name, each with its number among the defaults, that build what they are
given. -/
def namesakes (numbers : List Nat) : Registry (Object → Action Unit String Object) where
  contract := "greeter"
  registrations := numbers.map fun n =>
    { name := "Hello", defaults := [("times", .number (.ofUInt64 (.ofNat n)))], construct := pure }

theorem template_lists_available_namesakes :
    ∃ flat, ((namesakes [1, 1]).templateConfiguration "greeter").toFlat = .ok flat ∧
      Configuration.ofFlat flat = .ok ((namesakes [1, 1]).templateConfiguration "greeter") := by
  have ho : ∀ r ∈ (namesakes [1, 1]).registrations, r.defaults.Ordered := by decide +kernel
  have hsame : ∀ r ∈ (namesakes [1, 1]).registrations,
      (namesakes [1, 1]).defaults r.name = .ok r.defaults :=
    List.forall_mem_cons.2 ⟨rfl, List.forall_mem_singleton.2 rfl⟩
  obtain ⟨-, -, -, hflat⟩ := template_lists_available (namesakes [1, 1]) ho
  refine hflat (fun name _ r hr hname => ?_) "greeter" (by decide) (by decide)
  rw [← hname]
  exact hsame r hr

/-- The defaults of a namesake that is rejected stand in the template, and reach the constructor
from there. -/
theorem template_overwritten_by_namesake :
    let g := namesakes [1, 2]
    g.discover.available = ["Hello"] ∧
    g.defaults "Hello" = .ok [("times", .number (.ofUInt64 1))] ∧
    g.template.params? "Hello" = some [("times", .number (.ofUInt64 2))] ∧
    g.resolve (Descriptor.empty.select "Hello") () =
      (.ok [("times", .number (.ofUInt64 1))], ()) ∧
    g.resolve (g.template.select "Hello") () =
      (.ok [("times", .number (.ofUInt64 2))], ()) := by
  refine ⟨by decide +kernel, rfl, by decide +kernel, ?_, ?_⟩
  · rfl
  · rfl

end

end Registry

end Depot
