import Depot.Catalog.Sets
import Depot.Proofs.Plugin.Discovery
import Depot.Proofs.Plugin.Sources
/-!
# What descriptors are built by

A descriptor is built by an implementation without a flaw, from the parameters it has for it laid
over the defaults. No implementation of elements, stores and data sets has a flaw.
-/

namespace Depot

open Json Depot.Action

namespace Registry

variable {σ α : Type} {g : Registry (Object → Action σ String α)}
  {r : Registration (Object → Action σ String α)} {d : Descriptor} {name : String}
  {params config : Object} {a : α} {s s' : σ}

/-- What is prepared is the first implementation with the name, if it has no flaw and can be used,
and its defaults with the parameters laid over them. -/
theorem prepare_eq_ok : g.prepare name params = .ok (r, config) ↔
    g.judged.find? (·.1.name = name) = some (r, none) ∧ r.usability = .usable ∧
      config = Config.merge r.defaults params := by
  unfold prepare find
  constructor
  · intro h
    cases hfind : g.judged.find? (·.1.name = name) with
    | none =>
      rw [hfind] at h
      cases h
    | some found =>
      obtain ⟨r', _ | flaw⟩ := found
      · rw [hfind] at h
        dsimp only [bind, Except.bind] at h
        cases hu : r'.usability with
        | unusable reason =>
          rw [hu] at h
          cases h
        | usable =>
          rw [hu] at h
          cases h
          exact ⟨rfl, hu, rfl⟩
      · rw [hfind] at h
        cases h
  · rintro ⟨hfind, hu, rfl⟩
    rw [hfind]
    dsimp only [bind, Except.bind]
    rw [hu]
    rfl

theorem resolve_apply (g : Registry (Object → Action σ String α)) (d : Descriptor) (s : σ) :
    g.resolve d s =
      match d.selection g.contract with
      | .error e           => (.error (.config e), s)
      | .ok (name, params) =>
        match g.prepare name params with
        | .error e        => (.error e, s)
        | .ok (r, config) =>
          mapError (PluginError.construction g.contract name) (r.construct config) s := by
  unfold resolve
  cases d.selection g.contract with
  | error e => rfl
  | ok selected =>
    obtain ⟨name, params⟩ := selected
    dsimp only
    unfold instantiate
    cases g.prepare name params <;> rfl

/-- What a descriptor is built as comes from an implementation without a flaw that can be used. -/
theorem resolve_eq_ok (h : g.resolve d s = (.ok a, s')) : ∃ r params, (r, none) ∈ g.judged ∧
    r.construct (Config.merge r.defaults params) s = (.ok a, s') := by
  rw [resolve_apply] at h
  cases hd : d.selection g.contract with
  | error e =>
    rw [hd] at h
    cases h
  | ok selected =>
    obtain ⟨name, params⟩ := selected
    rw [hd] at h
    dsimp only at h
    cases hprepare : g.prepare name params with
    | error e =>
      rw [hprepare] at h
      cases h
    | ok prepared =>
      obtain ⟨r, config⟩ := prepared
      obtain ⟨hfind, -, rfl⟩ := prepare_eq_ok.1 hprepare
      rw [hprepare] at h
      exact ⟨r, params, List.mem_of_find?_eq_some hfind, mapError_eq_ok.1 h⟩

/-- A descriptor that selects such an implementation is built by it. -/
theorem resolve_selecting (hr : (r, none) ∈ g.judged) (hu : r.usability = .usable)
    (h : r.construct (Config.merge r.defaults params) s = (.ok a, s')) :
    g.resolve (.selecting r.name params) s = (.ok a, s') := by
  have hprepare : g.prepare r.name params = .ok (r, Config.merge r.defaults params) :=
    prepare_eq_ok.2 ⟨mem_judged_none.1 hr, hu, rfl⟩
  rw [resolve_apply, Descriptor.selection_selecting]
  dsimp only
  rw [hprepare]
  exact mapError_eq_ok.2 h

end Registry

namespace Plugins

/-- No implementation of stores has a flaw. -/
theorem judged_stores (p : Plugins) :
    p.stores.judged = p.stores.registrations.map fun r => (r, none) := by
  have h : ({ name := World.memoryStoreName, defaults := memoryStoreDefaults, construct := () } :
      Registration Unit).flaw? [] = none := by decide +kernel
  simp only [Registry.judged, stores, Registry.judgeFrom, List.map_cons, List.map_nil,
    Registration.flaw?_eq]
  simp only [h]

/-- No implementation of data sets has a flaw. -/
theorem judged_sets (p : Plugins) :
    p.sets.judged = p.sets.registrations.map fun r => (r, none) := by
  have h₁ : ({ name := MemorySet.pluginName, defaults := memorySetDefaults, construct := () } :
      Registration Unit).flaw? [] = none := by decide +kernel
  have h₂ : ({ name := StoreSet.pluginName, defaults := storeSetDefaults, construct := () } :
      Registration Unit).flaw? [MemorySet.pluginName] = none := by decide +kernel
  have h₃ : ({ name := TreeSet.pluginName, defaults := treeSetDefaults, construct := () } :
      Registration Unit).flaw? [MemorySet.pluginName, StoreSet.pluginName] = none := by
    decide +kernel
  simp only [Registry.judged, sets, Registry.judgeFrom, List.map_cons, List.map_nil,
    Registration.flaw?_eq]
  simp only [List.nil_append, List.cons_append, h₁, h₂, h₃]

end Plugins

end Depot
