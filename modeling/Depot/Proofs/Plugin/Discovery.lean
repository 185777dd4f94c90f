import Mathlib.Data.List.Nodup
import Depot.Action
import Depot.Plugin.Registry
/-!
# Discovery and building agree

Discovery sorts all implementations of a contract; building looks for one by its name and judges it
on its own. Both come to the same verdict, since of several implementations with one name only the
first can be without a flaw.
-/

namespace Depot

universe u

open Json Depot.Action

/-- Where discovery puts an implementation. -/
inductive Verdict where
  | available
  | unusable (reason : String)
  | rejected (flaw : Flaw)
deriving DecidableEq

namespace Verdict

/-- Why an implementation is unusable. -/
def reason? : Verdict → Option String
  | unusable reason => some reason
  | _               => none

/-- The flaw for which an implementation is rejected. -/
def flaw? : Verdict → Option Flaw
  | rejected flaw => some flaw
  | _             => none

end Verdict

/-- The verdict on an implementation, given its flaw. A flaw counts before usability. -/
def Registration.verdict {κ : Type u} (r : Registration κ) : Option Flaw → Verdict
  | some flaw => .rejected flaw
  | none      =>
    match r.usability with
    | .usable          => .available
    | .unusable reason => .unusable reason

namespace Registry

variable {κ : Type u} {g : Registry κ} {r : Registration κ} {rs : List (Registration κ)}
  {flaw : Option Flaw} {earlier : List String} {name reason : String} {params : Object}

/-- The verdicts on all implementations, in order of registration. -/
def verdicts (g : Registry κ) : List Verdict := g.judged.map fun (r, flaw) => r.verdict flaw

/-! ### Judging -/

theorem map_fst_judgeFrom (earlier : List String) (rs : List (Registration κ)) :
    (judgeFrom earlier rs).map (·.1) = rs := by
  induction rs generalizing earlier with
  | nil => rfl
  | cons r rs ih => rw [judgeFrom, List.map_cons, ih]

theorem map_fst_judged (g : Registry κ) : g.judged.map (·.1) = g.registrations :=
  map_fst_judgeFrom [] _

theorem zip_verdicts (g : Registry κ) :
    g.registrations.zip g.verdicts = g.judged.map fun e => (e.1, e.1.verdict e.2) := by
  rw [← g.map_fst_judged, verdicts, List.zip_map']

/-- Only the first implementation with a name can be without a flaw, and it is not one of those
registered before. -/
theorem find?_of_flawless (h : (r, none) ∈ judgeFrom earlier rs) : r.name ∉ earlier ∧
    (judgeFrom earlier rs).find? (·.1.name = r.name) = some (r, none) := by
  induction rs generalizing earlier with
  | nil => cases h
  | cons r' rs ih =>
    rw [judgeFrom] at h ⊢
    rcases List.mem_cons.1 h with heq | hm
    · obtain ⟨rfl, hflaw⟩ := Prod.mk.inj heq
      constructor
      · intro hearlier
        unfold Registration.flaw? at hflaw
        rw [if_pos hearlier] at hflaw
        split at hflaw
        · cases hflaw
        · split at hflaw <;> cases hflaw
      · rw [List.find?_cons_of_pos (by simp), hflaw]
    · obtain ⟨hearlier, hfind⟩ := ih hm
      simp only [List.mem_append, List.mem_singleton, not_or] at hearlier
      refine ⟨hearlier.1, ?_⟩
      rw [List.find?_cons_of_neg (by simpa using Ne.symm hearlier.2)]
      exact hfind

theorem mem_judged_none : (r, none) ∈ g.judged ↔
    g.judged.find? (·.1.name = r.name) = some (r, none) :=
  ⟨fun h => (find?_of_flawless h).2, List.mem_of_find?_eq_some⟩

/-- The first implementation with a name, judged or not. -/
theorem find?_registrations (g : Registry κ) (name : String) :
    g.registrations.find? (·.name = name) = (g.judged.find? (·.1.name = name)).map (·.1) := by
  rw [← g.map_fst_judged, List.find?_map]
  rfl

theorem name_of_find? (h : g.judged.find? (·.1.name = name) = some (r, flaw)) : r.name = name := by
  simpa using List.find?_some h

/-- A flawless implementation has another name than all before it. -/
theorem pairwise_judgeFrom (earlier : List String) (rs : List (Registration κ)) :
    (judgeFrom earlier rs).Pairwise fun a b => b.2 = none → a.1.name ≠ b.1.name := by
  induction rs generalizing earlier with
  | nil => exact .nil
  | cons r rs ih =>
    rw [judgeFrom]
    refine .cons ?_ (ih _)
    rintro ⟨r', _⟩ hm rfl heq
    obtain ⟨hearlier, -⟩ := find?_of_flawless hm
    exact hearlier (List.mem_append_right _ (List.mem_singleton.2 heq.symm))

theorem mem_names_iff : name ∈ g.names ↔
    ∃ r flaw, g.judged.find? (·.1.name = name) = some (r, flaw) := by
  have hsome : name ∈ g.names ↔ (g.registrations.find? (·.name = name)).isSome = true := by
    unfold names
    rw [List.find?_isSome, List.mem_map]
    simp only [decide_eq_true_eq]
  rw [hsome, find?_registrations, Option.isSome_map, Option.isSome_iff_exists]
  exact Prod.exists

/-! ### What discovery finds -/

/-- A name is available if the first implementation with it has no flaw and can be used. -/
theorem mem_available : name ∈ g.discover.available ↔
    ∃ r, g.judged.find? (·.1.name = name) = some (r, none) ∧ r.usability = .usable := by
  unfold discover
  simp only [List.mem_filterMap, Prod.exists]
  constructor
  · rintro ⟨r, flaw, hm, hname⟩
    split at hname
    · next hu =>
      cases hname
      exact ⟨r, mem_judged_none.1 hm, hu⟩
    · cases hname
  · rintro ⟨r, hfind, hu⟩
    refine ⟨r, none, List.mem_of_find?_eq_some hfind, ?_⟩
    rw [hu, ← name_of_find? hfind]

/-- A name is unusable if the first implementation with it has no flaw and cannot be used. -/
theorem mem_unusable : (name, reason) ∈ g.discover.unusable ↔
    ∃ r, g.judged.find? (·.1.name = name) = some (r, none) ∧ r.usability = .unusable reason := by
  unfold discover
  simp only [List.mem_filterMap, Prod.exists]
  constructor
  · rintro ⟨r, flaw, hm, hname⟩
    split at hname
    · next hu =>
      cases hname
      exact ⟨r, mem_judged_none.1 hm, hu⟩
    · cases hname
  · rintro ⟨r, hfind, hu⟩
    refine ⟨r, none, List.mem_of_find?_eq_some hfind, ?_⟩
    rw [hu, ← name_of_find? hfind]

/-- No name is available twice, unusable twice, or both. -/
theorem nodup_names (g : Registry κ) :
    (g.discover.available ++ g.discover.unusable.map (·.1)).Nodup := by
  have hpairs := pairwise_judgeFrom [] g.registrations
  refine List.nodup_append.2
    ⟨hpairs.filterMap _ ?_, List.pairwise_map.2 (hpairs.filterMap _ ?_), ?_⟩
  · rintro ⟨r, flaw⟩ ⟨r', flaw'⟩ hne _ hn _ hn'
    dsimp only at hne hn hn'
    split at hn <;> cases hn
    split at hn' <;> cases hn'
    exact hne rfl
  · rintro ⟨r, flaw⟩ ⟨r', flaw'⟩ hne _ hn _ hn'
    dsimp only at hne hn hn'
    split at hn <;> cases hn
    split at hn' <;> cases hn'
    exact hne rfl
  · rintro name hname _ hname' rfl
    obtain ⟨r, hfind, hu⟩ := mem_available.1 hname
    obtain ⟨⟨_, reason⟩, hreason, rfl⟩ := List.mem_map.1 hname'
    obtain ⟨r', hfind', hu'⟩ := mem_unusable.1 hreason
    rw [hfind] at hfind'
    cases hfind'
    rw [hu] at hu'
    cases hu'

theorem available_eq (g : Registry κ) : g.discover.available =
    ((g.registrations.zip g.verdicts).filter (·.2 = .available)).map (·.1.name) := by
  rw [zip_verdicts, List.filter_map, List.map_map, ← List.filterMap_eq_map, List.filterMap_filter]
  unfold discover
  apply List.filterMap_congr
  rintro ⟨r, _ | flaw⟩ -
  · cases hu : r.usability <;> simp [Registration.verdict, hu]
  · simp [Registration.verdict]

theorem unusable_eq (g : Registry κ) : g.discover.unusable =
    (g.registrations.zip g.verdicts).filterMap fun (r, v) => v.reason?.map fun reason =>
      (r.name, reason) := by
  rw [zip_verdicts, List.filterMap_map]
  unfold discover
  apply List.filterMap_congr
  rintro ⟨r, _ | flaw⟩ -
  · cases hu : r.usability <;> simp [Registration.verdict, Verdict.reason?, hu]
  · simp [Registration.verdict, Verdict.reason?]

theorem rejected_eq (g : Registry κ) : g.discover.rejected =
    (g.registrations.zip g.verdicts).filterMap fun (r, v) => v.flaw?.map fun flaw =>
      .validation g.contract r.name flaw := by
  rw [zip_verdicts, List.filterMap_map]
  unfold discover
  apply List.filterMap_congr
  rintro ⟨r, _ | flaw⟩ -
  · cases hu : r.usability <;> simp [Registration.verdict, Verdict.flaw?, hu]
  · simp [Registration.verdict, Verdict.flaw?]

/-! ### What is built -/

section

variable {σ α : Type} {g : Registry (Object → Action σ String α)}
  {r : Registration (Object → Action σ String α)} {s : σ} {config : Object}

/-- In state `s`, building under a name runs the constructor of `r` on a configuration and does
nothing else. A failure of the constructor is reported as such. -/
def Runs (g : Registry (Object → Action σ String α)) (name : String) (params : Object) (s : σ)
    (r : Registration (Object → Action σ String α)) (config : Object) : Prop :=
  g.instantiate name params s =
    ExceptT.adapt (PluginError.construction g.contract name) (r.construct config) s

/-- A name that is not registered, or whose first implementation has a flaw or cannot be used, leads
to the fault that says so. Otherwise that implementation is built from its defaults with the given
parameters laid over them. -/
theorem instantiate_apply (g : Registry (Object → Action σ String α)) (name : String)
    (params : Object) (s : σ) : g.instantiate name params s =
      match g.judged.find? (·.1.name = name) with
      | none           => (.error (.notFound g.contract name g.discover.available), s)
      | some (r, flaw) =>
        match r.verdict flaw with
        | .rejected flaw   => (.error (.validation g.contract name flaw), s)
        | .unusable reason => (.error (.unusable g.contract name reason), s)
        | .available       => ExceptT.adapt (PluginError.construction g.contract name)
            (r.construct (Config.merge r.defaults params)) s := by
  unfold instantiate prepare find
  cases g.judged.find? (·.1.name = name) with
  | none => rfl
  | some found =>
    obtain ⟨r, _ | flaw⟩ := found
    · dsimp only [bind, Except.bind]
      unfold Registration.verdict
      cases r.usability <;> rfl
    · rfl

/-- The four ways in which building under a name goes, as discovery tells them apart. -/
inductive Course (g : Registry (Object → Action σ String α)) (name : String) (params : Object)
    (s : σ) : Prop where
  | runs (r : Registration (Object → Action σ String α))
      (available : name ∈ g.discover.available)
      (first : g.registrations.find? (·.name = name) = some r)
      (built : g.Runs name params s r (Config.merge r.defaults params))
  | unusable (reason : String) (unusable : (name, reason) ∈ g.discover.unusable)
      (fails : g.instantiate name params s = (.error (.unusable g.contract name reason), s))
  | rejected (flaw : Flaw) (registered : name ∈ g.names)
      (unavailable : name ∉ g.discover.available)
      (notUnusable : ∀ reason, (name, reason) ∉ g.discover.unusable)
      (fails : g.instantiate name params s = (.error (.validation g.contract name flaw), s))
  | notFound (unregistered : name ∉ g.names)
      (fails : g.instantiate name params s =
        (.error (.notFound g.contract name g.discover.available), s))

theorem course (g : Registry (Object → Action σ String α)) (name : String) (params : Object)
    (s : σ) : g.Course name params s := by
  have happly := g.instantiate_apply name params s
  cases hfind : g.judged.find? (·.1.name = name) with
  | none =>
    rw [hfind] at happly
    refine .notFound (fun hname => ?_) happly
    obtain ⟨r, flaw, hsome⟩ := mem_names_iff.1 hname
    rw [hfind] at hsome
    cases hsome
  | some found =>
    obtain ⟨r, flaw⟩ := found
    rw [hfind] at happly
    have hname : name ∈ g.names := mem_names_iff.2 ⟨r, flaw, hfind⟩
    -- The first implementation with the name decides, and its flaw keeps the name from both lists.
    cases flaw with
    | some flaw =>
      refine .rejected flaw hname (fun hm => ?_) (fun reason hm => ?_) happly
      · obtain ⟨r', hfind', -⟩ := mem_available.1 hm
        rw [hfind] at hfind'
        cases hfind'
      · obtain ⟨r', hfind', -⟩ := mem_unusable.1 hm
        rw [hfind] at hfind'
        cases hfind'
    | none =>
      cases hu : r.usability with
      | usable =>
        refine .runs r (mem_available.2 ⟨r, hfind, hu⟩) (by rw [find?_registrations, hfind]; rfl) ?_
        dsimp only [Registration.verdict] at happly
        rwa [hu] at happly
      | unusable reason =>
        refine .unusable reason (mem_unusable.2 ⟨r, hfind, hu⟩) ?_
        dsimp only [Registration.verdict] at happly
        rwa [hu] at happly

/-- A constructor that runs can only fail for its own reason. -/
theorem Runs.error_eq {e : PluginError} (h : g.Runs name params s r config)
    (he : (g.instantiate name params s).1 = .error e) :
    ∃ reason, e = .construction g.contract name reason := by
  rw [Runs, show ExceptT.adapt (PluginError.construction g.contract name) (r.construct config) s =
    mapError (.construction g.contract name) (r.construct config) s from rfl] at h
  rw [h, mapError_apply] at he
  cases hr : (r.construct config s).1 with
  | error reason =>
    rw [hr] at he
    cases he
    exact ⟨reason, rfl⟩
  | ok a =>
    rw [hr] at he
    cases he

theorem mem_names_of_available (h : name ∈ g.discover.available) : name ∈ g.names := by
  obtain ⟨r, hfind, -⟩ := mem_available.1 h
  exact mem_names_iff.2 ⟨r, none, hfind⟩

theorem mem_names_of_unusable (h : (name, reason) ∈ g.discover.unusable) : name ∈ g.names := by
  obtain ⟨r, hfind, -⟩ := mem_unusable.1 h
  exact mem_names_iff.2 ⟨r, none, hfind⟩

theorem not_available_of_unusable (h : (name, reason) ∈ g.discover.unusable) :
    name ∉ g.discover.available := fun hname =>
  (List.nodup_append.1 g.nodup_names).2.2 name hname name (List.mem_map_of_mem h) rfl

/-- A name is unusable for one reason only. -/
theorem reason_unique {reason' : String} (h : (name, reason) ∈ g.discover.unusable)
    (h' : (name, reason') ∈ g.discover.unusable) : reason = reason' := by
  obtain ⟨r, hfind, hu⟩ := mem_unusable.1 h
  obtain ⟨r', hfind', hu'⟩ := mem_unusable.1 h'
  rw [hfind] at hfind'
  cases hfind'
  rw [hu] at hu'
  cases hu'
  rfl

theorem runs_iff : (∃ r ∈ g.registrations, ∃ config, g.Runs name params s r config) ↔
    name ∈ g.discover.available := by
  constructor
  · rintro ⟨r, -, config, hruns⟩
    cases g.course name params s with
    | runs _ available => exact available
    | unusable _ _ fails =>
      obtain ⟨_, he⟩ := hruns.error_eq (congrArg Prod.fst fails)
      cases he
    | rejected _ _ _ _ fails =>
      obtain ⟨_, he⟩ := hruns.error_eq (congrArg Prod.fst fails)
      cases he
    | notFound _ fails =>
      obtain ⟨_, he⟩ := hruns.error_eq (congrArg Prod.fst fails)
      cases he
  · intro havailable
    cases g.course name params s with
    | runs r _ first built => exact ⟨r, List.mem_of_find?_eq_some first, _, built⟩
    | unusable _ hu => exact absurd havailable (not_available_of_unusable hu)
    | rejected _ _ hnot => exact absurd havailable hnot
    | notFound hnot => exact absurd (mem_names_of_available havailable) hnot

/-- What runs is the first implementation of the name, with the parameters laid over its
defaults. -/
theorem runs_first (h : name ∈ g.discover.available) (params : Object) (s : σ) :
    ∃ r, g.registrations.find? (·.name = name) = some r ∧
      g.Runs name params s r (Config.merge r.defaults params) := by
  cases g.course name params s with
  | runs r _ first built => exact ⟨r, first, built⟩
  | unusable _ hu => exact absurd h (not_available_of_unusable hu)
  | rejected _ _ hnot => exact absurd h hnot
  | notFound hnot => exact absurd (mem_names_of_available h) hnot

theorem fails_unusable_iff {contract name' : String} :
    (g.instantiate name params s).1 = .error (.unusable contract name' reason) ↔
      contract = g.contract ∧ name' = name ∧ (name, reason) ∈ g.discover.unusable := by
  cases g.course name params s with
  | runs r available first built =>
    refine ⟨fun he => ?_, fun ⟨_, _, hu⟩ => absurd available (not_available_of_unusable hu)⟩
    obtain ⟨_, he⟩ := built.error_eq he
    cases he
  | unusable reason' hu fails =>
    rw [fails]
    constructor
    · intro he
      cases he
      exact ⟨rfl, rfl, hu⟩
    · rintro ⟨rfl, rfl, hu'⟩
      rw [reason_unique hu hu']
  | rejected flaw _ _ hnot fails =>
    rw [fails]
    exact ⟨nofun, fun ⟨_, _, hu⟩ => absurd hu (hnot reason)⟩
  | notFound hnot fails =>
    rw [fails]
    exact ⟨nofun, fun ⟨_, _, hu⟩ => absurd (mem_names_of_unusable hu) hnot⟩

theorem fails_validation_iff :
    (∃ contract name' flaw,
      (g.instantiate name params s).1 = .error (.validation contract name' flaw)) ↔
      name ∈ g.names ∧ name ∉ g.discover.available ∧
        ∀ reason, (name, reason) ∉ g.discover.unusable := by
  cases g.course name params s with
  | runs r available first built =>
    refine ⟨fun ⟨_, _, _, he⟩ => ?_, fun ⟨_, hnot, _⟩ => absurd available hnot⟩
    obtain ⟨_, he⟩ := built.error_eq he
    cases he
  | unusable reason hu fails =>
    rw [fails]
    exact ⟨nofun, fun ⟨_, _, hnot⟩ => absurd hu (hnot reason)⟩
  | rejected flaw hname hnot hnot' fails =>
    rw [fails]
    exact ⟨fun _ => ⟨hname, hnot, hnot'⟩, fun _ => ⟨_, _, _, rfl⟩⟩
  | notFound hnot fails =>
    rw [fails]
    exact ⟨nofun, fun ⟨hname, _⟩ => absurd hname hnot⟩

theorem fails_notFound_iff {contract name' : String} {listed : List String} :
    (g.instantiate name params s).1 = .error (.notFound contract name' listed) ↔
      contract = g.contract ∧ name' = name ∧ listed = g.discover.available ∧ name ∉ g.names := by
  cases g.course name params s with
  | runs r available first built =>
    refine ⟨fun he => ?_, fun ⟨_, _, _, hnot⟩ => absurd (mem_names_of_available available) hnot⟩
    obtain ⟨_, he⟩ := built.error_eq he
    cases he
  | unusable reason hu fails =>
    rw [fails]
    exact ⟨nofun, fun ⟨_, _, _, hnot⟩ => absurd (mem_names_of_unusable hu) hnot⟩
  | rejected flaw hname _ _ fails =>
    rw [fails]
    exact ⟨nofun, fun ⟨_, _, _, hnot⟩ => absurd hname hnot⟩
  | notFound hnot fails =>
    rw [fails]
    constructor
    · intro he
      cases he
      exact ⟨rfl, rfl, rfl, hnot⟩
    · rintro ⟨rfl, rfl, rfl, -⟩
      rfl

theorem unchanged_of_not_available (h : name ∉ g.discover.available) :
    (g.instantiate name params s).2 = s := by
  cases g.course name params s with
  | runs _ available => exact absurd available h
  | unusable _ _ fails | rejected _ _ _ _ fails | notFound _ fails => rw [fails]

/-- Discovery puts every implementation in exactly one of its three lists, in order of registration,
and no name occurs twice among the available and the unusable ones. Building under a name runs a
constructor exactly if the name is available: that of the first implementation so named, on the
parameters laid over its defaults. Else nothing happens but a fault: `unusable`, with the reason,
exactly for the unusable names; `validation` exactly for those registered but in neither list;
`notFound`, with all that is available, exactly for those not registered. -/
theorem discovery_agrees (g : Registry (Object → Action σ String α)) :
    (g.verdicts.length = g.registrations.length ∧
      g.discover.available =
        ((g.registrations.zip g.verdicts).filter (·.2 = .available)).map (·.1.name) ∧
      g.discover.unusable =
        ((g.registrations.zip g.verdicts).filterMap fun (r, v) => v.reason?.map fun reason =>
          (r.name, reason)) ∧
      g.discover.rejected =
        ((g.registrations.zip g.verdicts).filterMap fun (r, v) => v.flaw?.map fun flaw =>
          .validation g.contract r.name flaw)) ∧
    (g.discover.available ++ g.discover.unusable.map (·.1)).Nodup ∧
    ∀ (name : String) (params : Object) (s : σ),
      ((∃ r ∈ g.registrations, ∃ config, g.Runs name params s r config) ↔
        name ∈ g.discover.available) ∧
      (name ∈ g.discover.available → ∃ r, g.registrations.find? (·.name = name) = some r ∧
        g.Runs name params s r (Config.merge r.defaults params)) ∧
      (∀ contract name' reason,
        (g.instantiate name params s).1 = .error (.unusable contract name' reason) ↔
          contract = g.contract ∧ name' = name ∧ (name, reason) ∈ g.discover.unusable) ∧
      ((∃ contract name' flaw,
        (g.instantiate name params s).1 = .error (.validation contract name' flaw)) ↔
          name ∈ g.names ∧ name ∉ g.discover.available ∧
            ∀ reason, (name, reason) ∉ g.discover.unusable) ∧
      (∀ contract name' listed,
        (g.instantiate name params s).1 = .error (.notFound contract name' listed) ↔
          contract = g.contract ∧ name' = name ∧ listed = g.discover.available ∧
            name ∉ g.names) ∧
      (name ∉ g.discover.available → (g.instantiate name params s).2 = s) := by
  have hlength : g.verdicts.length = g.registrations.length := by
    rw [verdicts, List.length_map, ← g.map_fst_judged, List.length_map]
  exact ⟨⟨hlength, g.available_eq, g.unusable_eq, g.rejected_eq⟩, g.nodup_names,
    fun name params s => ⟨runs_iff, fun h => runs_first h params s,
      fun _ _ _ => fails_unusable_iff, fails_validation_iff, fun _ _ _ => fails_notFound_iff,
      unchanged_of_not_available⟩⟩

end

end Registry

end Depot
