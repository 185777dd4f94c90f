import Mathlib.Data.List.Infix
import Depot.Proofs.Set.Pools
/-!
# Sets that are finite maps

What the operations of a data set have to do so that the set is a finite map from keys to elements,
for elements with steady content. From this follows what every request does. A set of one kind among
data sets of any kind is the same map.
-/

namespace Depot

open Depot.Action

variable {σ : Type} {x : SetCore σ} {o : Pool} {p : Plugins} {stepwise : Bool}
  {fallible : Prop} {Is : SetRequest.SetMap → InWorld σ → Prop} {m m' : SetRequest.SetMap}
  {s s' : InWorld σ} {w w' : World} {k : ElementKey} {r : ElementRef} {rs : List ElementRef}

/-- A set has become a finite map, and the elements are as they should be if their content is; or
there has been a fault, where there can be one. -/
def Makes [MediaTypes] (Is : SetRequest.SetMap → InWorld σ → Prop) (o : Pool) (p : Plugins)
    (fallible : Prop) (m : SetRequest.SetMap) (y : Except SetError Unit × InWorld σ) : Prop :=
  (y.1 = .ok () ∧ Is m y.2 ∧ (o.Steady y.2.world → o.In p y.2.world)) ∨
    fallible ∧ ∃ e, y.1 = .error e ∧ e.isFault = true

/-- Where the content is looked at while elements are added: in the end, or after each of them. -/
def stages (stepwise : Bool) (rs : List ElementRef) : List (List ElementRef) :=
  if stepwise then rs.inits else [rs]

/-- A set whose state is a finite map does what the map does. -/
structure SetCore.Simulates [MediaTypes] (x : SetCore σ) (o : Pool) (p : Plugins) (stepwise : Bool)
    (fallible : Prop) (Is : SetRequest.SetMap → InWorld σ → Prop) : Prop where
  quiet : ∀ {m s w}, Is m s → s.world.Quiet w → Is m { s with world := w }
  count : ∀ {m s}, Is m s → x.count s = (.ok m.size, s)
  keys : ∀ {m s}, Is m s → x.keys s = (.ok m.keys, s)
  has : ∀ {m s} k, Is m s → x.has k s = (.ok (m.contains k), s)
  missing : ∀ {m s k}, Is m s → m.get? k = none →
    x.get k s = (.error (.keyNotFound k), s) ∧ x.remove k s = (.error (.keyNotFound k), s)
  get : ∀ {m s k r}, Is m s → o.In p s.world → m.get? k = some r → r ∈ o.elements →
    ∃ r' w, x.get k s = (.ok r', { s with world := w }) ∧ s.world.Quiet w ∧
      w.Shows (o.look r) r'
  remove : ∀ {m s k r}, Is m s → o.In p s.world → m.get? k = some r →
    Makes Is o p fallible (m.erase k) (x.remove k s)
  addMany : ∀ {m s rs}, Is m s → o.In p s.world → (∀ r ∈ rs, r ∈ o.elements) →
    (∀ rs' ∈ stages stepwise rs, o.Steady (x.addMany rs' s).2.world) →
    Makes Is o p fallible (m.insertAll (o.entries rs)) (x.addMany rs s)

/-- The elements of a map are those of a pool, under their keys. -/
def SetRequest.SetMap.Among (m : SetRequest.SetMap) (o : Pool) : Prop :=
  ∀ k r, m.get? k = some r → r ∈ o.elements ∧ (o.look r).key = k

namespace SetCore.Simulates

variable [MediaTypes] (h : x.Simulates o p stepwise fallible Is)

include h

/-! ### Operations that are built from others -/

theorem contains (hs : Is m s) (ho : o.In p s.world) (hr : r ∈ o.elements) :
    x.contains r s = (.ok (m.contains (o.look r).key),
      { s with world := (World.uuid r s.world).2 }) := by
  unfold SetCore.contains
  rw [bind_apply, InWorld.uuid_of_shows (ho r hr).1]
  exact h.has _ (h.quiet hs (.uuid r s.world))

theorem isEmpty (hs : Is m s) : x.isEmpty s = (.ok (decide (m.size = 0)), s) := by
  unfold SetCore.isEmpty
  rw [bind_apply, h.count hs]
  rfl

theorem getMany (es : List (ElementKey × ElementRef)) (hs : Is m s) (ho : o.In p s.world)
    (hes : ∀ e ∈ es, m.get? e.1 = some e.2 ∧ e.2 ∈ o.elements) :
    ∃ rs w, x.getMany (es.map (·.1)) s = (.ok rs, { s with world := w }) ∧ s.world.Quiet w ∧
      List.Forall₂ w.Shows (es.map fun e => o.look e.2) rs := by
  induction es generalizing s with
  | nil => exact ⟨[], s.world, rfl, .refl _, .nil⟩
  | cons e es ih =>
    obtain ⟨he, hr⟩ := hes e List.mem_cons_self
    obtain ⟨r, w, hget, hw, hshow⟩ := h.get hs ho he hr
    obtain ⟨rs, w', hall, hw', hshows⟩ := ih (s := { s with world := w }) (h.quiet hs hw)
      (ho.quiet hw) fun e he => hes e (List.mem_cons_of_mem _ he)
    refine ⟨r :: rs, w', ?_, hw.trans hw', .cons (hw'.shows _ _ hshow) hshows⟩
    show SetCore.getMany x (e.1 :: es.map (·.1)) s = _
    unfold SetCore.getMany
    rw [bind_apply, hget]
    dsimp only
    rw [bind_apply, hall]
    rfl

theorem elements (hs : Is m s) (ho : o.In p s.world) (hm : m.Among o) :
    ∃ rs w, x.elements s = (.ok rs, { s with world := w }) ∧ s.world.Quiet w ∧
      List.Forall₂ w.Shows (m.entries.map fun e => o.look e.2) rs := by
  obtain ⟨rs, w, hall, hw, hshows⟩ := h.getMany m.entries hs ho fun e he => by
    have hget := Dict.get?_of_mem he
    exact ⟨hget, (hm _ _ hget).1⟩
  refine ⟨rs, w, ?_, hw, hshows⟩
  unfold SetCore.elements
  rw [bind_apply, h.keys hs]
  exact hall

end SetCore.Simulates

/-! ### Requests -/

namespace SetRequest

variable {q : SetRequest} {qs : List SetRequest} {s s' : InWorld DataSet}
  {Is : SetMap → InWorld DataSet → Prop}

/-- The states that a request passes through, as far as content is looked at. -/
def passes [MediaTypes] (stepwise : Bool) (s : InWorld DataSet) :
    SetRequest → List (InWorld DataSet)
  | addMany rs => (stages stepwise rs).map fun rs' => (DataSet.core.addMany rs' s).2
  | q          => [(q.ask s).2]

theorem SetMap.Among.insertAll (hm : m.Among o) (hrs : ∀ r ∈ rs, r ∈ o.elements) :
    SetMap.Among (m.insertAll (o.entries rs)) o := by
  induction rs generalizing m with
  | nil => exact hm
  | cons r rs ih =>
    have hstep : m.insertAll (o.entries (r :: rs)) =
        (m.insert (o.look r).key r).insertAll (o.entries rs) := rfl
    rw [hstep]
    apply ih
    · intro k r' hk
      rw [Dict.get?_insert] at hk
      split at hk
      · next hkr =>
        cases hk
        exact ⟨hrs r List.mem_cons_self, hkr.symm⟩
      · exact hm k r' hk
    · intro r' hr'
      exact hrs r' (List.mem_cons_of_mem _ hr')

theorem SetMap.Among.erase (hm : m.Among o) (k : ElementKey) : SetMap.Among (m.erase k) o := by
  intro k' r hk
  rw [Dict.get?_erase] at hk
  split at hk
  · cases hk
  · exact hm k' r hk

/-- What a request does is what it does to the map: the answer is the same, and the set becomes the
map that comes next. -/
structure Mirrors [MediaTypes] (Is : SetMap → InWorld DataSet → Prop) (o : Pool) (p : Plugins)
    (q : SetRequest) (m : SetMap) (s : InWorld DataSet) : Prop where
  answer : (q.ask s).1 = (q.onMap o.look m).1
  becomes : Is (q.onMap o.look m).2 (q.ask s).2
  inPool : o.In p (q.ask s).2.world
  among : (q.onMap o.look m).2.Among o

namespace Mirrors

variable [MediaTypes]

/-- A request that only looks at a set. -/
theorem of_quiet {answer : Except SetError SetAnswer}
    (h : DataSet.core.Simulates o p stepwise fallible Is) (hs : Is m s) (ho : o.In p s.world)
    (hm : m.Among o) (hask : q.ask s = (answer, { s with world := w })) (hw : s.world.Quiet w)
    (hon : q.onMap o.look m = (answer, m)) : Mirrors Is o p q m s := by
  constructor
  case answer => rw [hask, hon]
  case becomes =>
    rw [hask, hon]
    exact h.quiet hs hw
  case inPool =>
    rw [hask]
    exact ho.quiet hw
  case among =>
    rw [hon]
    exact hm

/-- A request that makes the map that comes next, as there is no fault. -/
theorem of_makes {y : Except SetError Unit × InWorld DataSet}
    (hask : q.ask s = (y.1.map fun _ => .done, y.2)) (hon : q.onMap o.look m = (.ok .done, m'))
    (hmakes : Makes Is o p fallible m' y) (hsteady : o.Steady y.2.world) (hm' : m'.Among o)
    (hfault : fallible → ∀ e, (q.ask s).1 = .error e → e.isFault = false) :
    Mirrors Is o p q m s := by
  rw [hask] at hfault
  rcases hmakes with ⟨hok, his, hin⟩ | ⟨hfallible, e, he, hf⟩
  · constructor
    case answer =>
      rw [hask, hon, hok]
      rfl
    case becomes =>
      rw [hask, hon]
      exact his
    case inPool =>
      rw [hask]
      exact hin hsteady
    case among =>
      rw [hon]
      exact hm'
  · rw [he] at hfault
    rw [hfault hfallible e rfl] at hf
    cases hf

end Mirrors

/-- What a request does to a set that is a map, where the elements that it names have steady
content, if there is no fault. -/
theorem ask_simulates [MediaTypes] (h : DataSet.core.Simulates o p stepwise fallible Is)
    (hs : Is m s) (ho : o.In p s.world) (hm : m.Among o) (hq : ∀ r ∈ q.named, r ∈ o.elements)
    (hsteady : ∀ s' ∈ q.passes stepwise s, o.Steady s'.world)
    (hfault : fallible → ∀ e, (q.ask s).1 = .error e → e.isFault = false) :
    Mirrors Is o p q m s := by
  have hlook {q : SetRequest} {answer : Except SetError SetAnswer} {w : World}
      (hask : q.ask s = (answer, { s with world := w })) (hw : s.world.Quiet w)
      (hon : q.onMap o.look m = (answer, m)) : Mirrors Is o p q m s :=
    .of_quiet h hs ho hm hask hw hon
  cases q with
  | addMany rs =>
    -- The states in which the content has to be steady are those that the request passes.
    have hstages : ∀ rs' ∈ stages stepwise rs,
        o.Steady (DataSet.core.addMany rs' s).2.world := by
      intro rs' hrs'
      exact hsteady _ (List.mem_map.2 ⟨rs', hrs', rfl⟩)
    have hall : o.Steady (DataSet.core.addMany rs s).2.world := by
      apply hstages
      unfold stages
      split
      · exact (List.mem_inits _ _).2 (List.prefix_refl _)
      · exact List.mem_singleton_self _
    exact .of_makes (map_apply ..) rfl (h.addMany hs ho hq hstages) hall (hm.insertAll hq) hfault
  | remove k =>
    have hask : ask (.remove k) s = ((DataSet.core.remove k s).1.map fun _ => .done,
      (DataSet.core.remove k s).2) := map_apply ..
    have hlast : o.Steady (ask (.remove k) s).2.world := hsteady _ (List.mem_singleton_self _)
    cases hk : m.get? k with
    | none =>
      have hon : onMap o.look m (.remove k) = (.error (.keyNotFound k), m) := by
        simp [onMap, Dict.contains, hk]
      rw [(h.missing hs hk).2] at hask
      exact hlook hask (.refl _) hon
    | some r =>
      rw [hask] at hlast
      exact .of_makes hask (by simp [onMap, Dict.contains, hk]) (h.remove hs ho hk) hlast
        (hm.erase k) hfault
  | get k =>
    cases hk : m.get? k with
    | none =>
      have hon : onMap o.look m (.get k) = (.error (.keyNotFound k), m) := by simp [onMap, hk]
      refine hlook ?_ (.refl _) hon
      dsimp only [ask]
      rw [bind_apply, (h.missing hs hk).1]
    | some r =>
      obtain ⟨hr, hkey⟩ := hm k r hk
      obtain ⟨r', w, hget, hw, hshow⟩ := h.get hs ho hk hr
      obtain ⟨w', hobs, hw'⟩ := InWorld.observe_of_shows (s := { s with world := w }) hshow
      have hon : onMap o.look m (.get k) = (.ok (.element (k, o.look r)), m) := by
        simp [onMap, hk]
      refine hlook ?_ (hw.trans hw') hon
      dsimp only [ask]
      rw [bind_apply, hget]
      dsimp only
      rw [bind_apply, hobs, hkey]
      rfl
  | has k =>
    have hask : ask (.has k) s = _ := map_apply ..
    rw [h.has k hs] at hask
    exact hlook hask (.refl _) rfl
  | contains r =>
    have hask : ask (.contains r) s = _ := map_apply ..
    rw [h.contains hs ho (hq r (List.mem_singleton_self _))] at hask
    exact hlook hask (.uuid r s.world) rfl
  | keys =>
    have hask : ask .keys s = _ := map_apply ..
    rw [h.keys hs] at hask
    exact hlook hask (.refl _) rfl
  | count =>
    have hask : ask .count s = _ := map_apply ..
    rw [h.count hs] at hask
    exact hlook hask (.refl _) rfl
  | elements =>
    obtain ⟨rs, w, hall, hw, hshows⟩ := h.elements hs ho hm
    obtain ⟨w', hobs, hw'⟩ := InWorld.observeAll_of_shows (s := { s with world := w }) hshows
    have hkeyed : (m.entries.map fun e => o.look e.2).map (fun v => (v.key, v)) =
        m.entries.map fun e => (e.1, o.look e.2) := by
      rw [List.map_map]
      apply List.map_congr_left
      rintro ⟨k, r⟩ he
      obtain ⟨-, hkey⟩ := hm k r (Dict.get?_of_mem he)
      simp [hkey]
    refine hlook ?_ (hw.trans hw') rfl
    dsimp only [ask]
    rw [bind_apply, hall]
    dsimp only
    rw [bind_apply, hobs, hkeyed]
    rfl
  | isEmpty =>
    have hask : ask .isEmpty s = _ := map_apply ..
    rw [h.isEmpty hs] at hask
    exact hlook hask (.refl _) rfl

end SetRequest

/-! ### Any kind -/

/-- Sets of one kind work in the same way among sets of any kind. -/
def Wraps (wrap : σ → DataSet) (x : SetCore σ) : Prop :=
  ∀ (α : Type) (op : {τ : Type} → SetCore τ → InWorld.Action τ α) (t : σ) (w : World),
    DataSet.byKind op { set := wrap t, world := w } = DataSet.onKind wrap t w (op x)

theorem wraps_memory : Wraps .memory MemorySet.core := fun _ _ _ _ => rfl

theorem wraps_overStore : Wraps .overStore StoreSet.core := fun _ _ _ _ => rfl

theorem wraps_tree : Wraps .tree TreeSet.core := fun _ _ _ _ => rfl

/-- A set of one kind, among sets of any kind, is a map. -/
def Wrapped (wrap : σ → DataSet) (Is : SetRequest.SetMap → InWorld σ → Prop)
    (m : SetRequest.SetMap) (s : InWorld DataSet) : Prop :=
  ∃ t, s.set = wrap t ∧ Is m { set := t, world := s.world }

theorem onKind_apply {α : Type} (wrap : σ → DataSet) (t : σ) (w : World) (y : InWorld.Action σ α) :
    DataSet.onKind wrap t w y = ((y { set := t, world := w }).1,
      { set := wrap (y { set := t, world := w }).2.set,
        world := (y { set := t, world := w }).2.world }) := rfl

theorem onKind_of_eq {α : Type} {wrap : σ → DataSet} {t t' : σ} {a : Except SetError α}
    {y : InWorld.Action σ α} (h : y { set := t, world := w } = (a, { set := t', world := w' })) :
    DataSet.onKind wrap t w y = (a, { set := wrap t', world := w' }) := by
  rw [onKind_apply, h]

theorem Makes.wrapped [MediaTypes] {wrap : σ → DataSet} {t : σ} {y : InWorld.Action σ Unit}
    (h : Makes Is o p fallible m (y { set := t, world := w })) :
    Makes (Wrapped wrap Is) o p fallible m (DataSet.onKind wrap t w y) := by
  rw [onKind_apply]
  rcases h with ⟨hok, his, hin⟩ | hf
  · exact .inl ⟨hok, ⟨_, rfl, his⟩, hin⟩
  · exact .inr hf

theorem SetCore.Simulates.wrapped [MediaTypes] {wrap : σ → DataSet} (hw : Wraps wrap x)
    (h : x.Simulates o p stepwise fallible Is) :
    DataSet.core.Simulates o p stepwise fallible (Wrapped wrap Is) := by
  constructor
  case quiet =>
    rintro m ⟨_, w⟩ w' ⟨t, rfl, hs⟩ hq
    exact ⟨t, rfl, h.quiet hs hq⟩
  case count =>
    rintro m ⟨_, w⟩ ⟨t, rfl, hs⟩
    show DataSet.byKind (·.count) _ = _
    rw [hw, onKind_apply, h.count hs]
  case keys =>
    rintro m ⟨_, w⟩ ⟨t, rfl, hs⟩
    show DataSet.byKind (·.keys) _ = _
    rw [hw, onKind_apply, h.keys hs]
  case has =>
    rintro m ⟨_, w⟩ k ⟨t, rfl, hs⟩
    show DataSet.byKind (·.has k) _ = _
    rw [hw, onKind_apply, h.has k hs]
  case missing =>
    rintro m ⟨_, w⟩ k ⟨t, rfl, hs⟩ hk
    obtain ⟨hget, hremove⟩ := h.missing hs hk
    constructor
    · show DataSet.byKind (·.get k) _ = _
      rw [hw, onKind_apply, hget]
    · show DataSet.byKind (·.remove k) _ = _
      rw [hw, onKind_apply, hremove]
  case get =>
    rintro m ⟨_, w⟩ k r ⟨t, rfl, hs⟩ ho hk hr
    obtain ⟨r', w', hget, hq, hshow⟩ := h.get hs ho hk hr
    refine ⟨r', w', ?_, hq, hshow⟩
    show DataSet.byKind (·.get k) _ = _
    rw [hw, onKind_apply, hget]
  case remove =>
    rintro m ⟨_, w⟩ k r ⟨t, rfl, hs⟩ ho hk
    show Makes _ o p fallible _ (DataSet.byKind (·.remove k) _)
    rw [hw]
    exact (h.remove hs ho hk).wrapped
  case addMany =>
    rintro m ⟨_, w⟩ rs ⟨t, rfl, hs⟩ ho hrs hsteady
    show Makes _ o p fallible _ (DataSet.byKind (·.addMany rs) _)
    rw [hw]
    apply Makes.wrapped
    apply h.addMany hs ho hrs
    -- The stages of the wrapped set are those of the set inside it.
    intro rs' hrs'
    have := hsteady rs' hrs'
    rw [show DataSet.core.addMany rs' _ = DataSet.byKind (·.addMany rs') _ from rfl, hw,
      onKind_apply] at this
    exact this

end Depot
