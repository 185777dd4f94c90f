import Depot.Proofs.Json.Compact
import Depot.Proofs.Plugin.Sources
import Depot.Proofs.World.Growth
import Depot.Set.Memory
/-!
# Loading the elements of a set

What an object of descriptors is loaded as depends on nothing but the object: every entry describes
a source, and an element is built with it. So the descriptors of the elements of a set lead to
elements with the same sources.
-/

namespace Depot.MemorySet

open Json Depot.Action

variable {p : Plugins} {w w' : World} {name : String} {c r : ElementRef} {o : Object}
  {acc m : Dict ElementKey ElementRef} {ss : List (ElementKey × Source)}
  {es : List (ElementKey × ElementRef)} {b : Bytes}

/-! ### Entries -/

/-- An entry of an object describes the source of an element. -/
def Describes (p : Plugins) (e : String × Value) (s : ElementKey × Source) : Prop :=
  s.1 = e.1 ∧ ∃ o d, e.2 = .object o ∧ Descriptor.ofObject Plugins.elementContract o = .ok d ∧
    p.Builds d s.2

/-- An element that is there has a source. -/
def Has (w : World) (s : Source) (r : ElementRef) : Prop :=
  r < w.elements.length ∧ w.source r = s

theorem Has.grown {s : Source} (h : Has w s r) (hw : w.Grown w') : Has w' s r :=
  ⟨Nat.lt_of_lt_of_le h.1 hw.gains.length, (hw.gains.source h.1).trans h.2⟩

theorem has_newElement {s : Source} :
    Has { w with elements := w.elements ++ [.ofSource s] } s w.elements.length :=
  ⟨by simp, World.source_newElement⟩

/-- Entries that describe sources are loaded, and the elements have these sources. -/
theorem loadEntries_of_describes (h : List.Forall₂ (Describes p) o ss)
    (acc : Dict ElementKey ElementRef) (w : World) :
    ∃ es w', loadEntries p name acc o w = (.ok (acc.insertAll es), w') ∧ w.Grown w' ∧
      List.Forall₂ (fun s e => e.1 = s.1 ∧ Has w' s.2 e.2) ss es := by
  induction h generalizing acc w with
  | nil => exact ⟨[], w, rfl, .refl w, .nil⟩
  | @cons e s o ss he _ ih =>
    obtain ⟨k, v⟩ := e
    obtain ⟨k', s⟩ := s
    obtain ⟨hk, o', d, hv, hd, hb⟩ := he
    dsimp only at hk hv hb
    subst hk hv
    obtain ⟨es, w', hload, hw, hes⟩ := ih (acc.insert k' w.elements.length)
      { w with elements := w.elements ++ [.ofSource s] }
    refine ⟨(k', w.elements.length) :: es, w', ?_, World.Grown.newElement.trans hw,
      .cons ⟨rfl, has_newElement.grown hw⟩ hes⟩
    rw [loadEntries, hd]
    dsimp only
    rw [bind_apply, mapError_apply, hb w]
    exact hload

/-- Entries that are loaded describe sources. -/
theorem describes_of_loadEntries (h : loadEntries p name acc o w = (.ok m, w')) :
    ∃ ss, List.Forall₂ (Describes p) o ss := by
  induction o generalizing acc w with
  | nil => exact ⟨[], .nil⟩
  | cons e o ih =>
    obtain ⟨k, v⟩ := e
    cases v with
    | object o' =>
      rw [loadEntries] at h
      cases hd : Descriptor.ofObject Plugins.elementContract o' with
      | error x =>
        rw [hd] at h
        cases h
      | ok d =>
        rw [hd] at h
        dsimp only at h
        obtain ⟨r, w₁, hr, hrest⟩ := bind_eq_ok.1 h
        obtain ⟨s, hb, -⟩ := Plugins.builds_of_element (mapError_eq_ok.1 hr)
        obtain ⟨ss, hss⟩ := ih hrest
        exact ⟨(k, s) :: ss, .cons ⟨rfl, o', d, rfl, hd, hb⟩ hss⟩
    | null | bool _ | number _ | string _ | array _ =>
      rw [loadEntries] at h
      · cases h
      · intro o' ho
        cases ho

/-! ### Contents -/

/-- A content tells the sources of elements by key. -/
def Tells (p : Plugins) (b : Bytes) (ss : List (ElementKey × Source)) : Prop :=
  if b.size = 0 then ss = [] else ∃ o, Object.ofBytes? b = some o ∧ List.Forall₂ (Describes p) o ss

theorem load_apply (hc : c < w.elements.length) : load p c w =
    match w.contentOf c with
    | .error e => (.error (.element e), w)
    | .ok b    =>
      if b.size = 0 then (.ok .empty, w)
      else
        match Object.ofBytes? b with
        | some o => loadEntries p (describe (w.source c).locator) .empty o w
        | none   => (.error (.storage (describe (w.source c).locator) .notTable), w) := by
  unfold load
  rw [bind_apply, mapError_apply, World.read_apply hc]
  cases w.contentOf c with
  | error e => rfl
  | ok b =>
    dsimp only [Except.mapError]
    split
    · rfl
    · rw [bind_apply, get_apply]
      dsimp only
      cases Object.ofBytes? b <;> rfl

/-- A content that tells sources is loaded as elements with these sources. -/
theorem load_of_tells (hc : c < w.elements.length) (hb : w.contentOf c = .ok b)
    (h : Tells p b ss) : ∃ es w', load p c w = (.ok (.ofList es), w') ∧ w.Grown w' ∧
      List.Forall₂ (fun s e => e.1 = s.1 ∧ Has w' s.2 e.2) ss es := by
  rw [load_apply hc, hb]
  dsimp only
  unfold Tells at h
  split at h
  · next hsize =>
    subst h
    rw [if_pos hsize]
    exact ⟨[], w, rfl, .refl w, .nil⟩
  · next hsize =>
    obtain ⟨o, ho, hss⟩ := h
    rw [if_neg hsize, ho]
    exact loadEntries_of_describes hss .empty w

/-- A content that is loaded tells sources. -/
theorem tells_of_load (hc : c < w.elements.length) (h : load p c w = (.ok m, w')) :
    ∃ b ss, w.contentOf c = .ok b ∧ Tells p b ss := by
  rw [load_apply hc] at h
  cases hb : w.contentOf c with
  | error e =>
    rw [hb] at h
    cases h
  | ok b =>
    rw [hb] at h
    dsimp only at h
    refine ⟨b, ?_⟩
    unfold Tells
    split at h
    · next hsize =>
      refine ⟨[], rfl, ?_⟩
      rw [if_pos hsize]
    · next hsize =>
      cases ho : Object.ofBytes? b with
      | none =>
        rw [ho] at h
        cases h
      | some o =>
        rw [ho] at h
        obtain ⟨ss, hss⟩ := describes_of_loadEntries h
        refine ⟨ss, rfl, ?_⟩
        rw [if_neg hsize]
        exact ⟨o, rfl, hss⟩

/-- A source that a content tells can be built with. -/
theorem buildable_of_tells (h : Tells p b ss) : ∀ s ∈ ss, p.Buildable s.2 := by
  unfold Tells at h
  split at h
  · subst h
    exact nofun
  · obtain ⟨o, -, hss⟩ := h
    induction hss with
    | nil => exact nofun
    | cons he _ ih =>
      obtain ⟨-, -, d, -, -, hb⟩ := he
      exact List.forall_mem_cons.2 ⟨⟨d, hb⟩, ih⟩

/-- Elements that can be built with their sources can be built again. -/
theorem buildable_of_has (hss : ∀ s ∈ ss, p.Buildable s.2)
    (h : List.Forall₂ (fun s e => e.1 = s.1 ∧ Has w s.2 e.2) ss es) :
    ∀ e ∈ es, e.2 < w.elements.length ∧ p.Buildable (w.source e.2) := by
  induction h with
  | nil => exact nofun
  | @cons s e ss es he _ ih =>
    obtain ⟨hs, hrest⟩ := List.forall_mem_cons.1 hss
    refine List.forall_mem_cons.2 ⟨⟨he.2.1, ?_⟩, ih hrest⟩
    rw [he.2.2]
    exact hs

/-! ### The written form -/

/-- The sources of the elements of a map. -/
def sources (w : World) (m : Dict ElementKey ElementRef) : List (ElementKey × Source) :=
  m.entries.map fun e => (e.1, w.source e.2)

theorem describes_descriptor {s : Source} (k : ElementKey) (h : p.Buildable s) :
    Describes p (k, s.descriptor.toValue) (k, s) :=
  ⟨rfl, s.descriptor.toObject, s.descriptor, rfl, s.ofObject_descriptor _, h.builds⟩

theorem legible_descriptors (h : ∀ s ∈ ss, p.Buildable s.2) :
    Value.LegibleMembers (ss.map fun s => (s.1, s.2.descriptor.toValue)) := by
  induction ss with
  | nil => trivial
  | cons s ss ih =>
    exact ⟨(Source.toObject_plain (h s List.mem_cons_self).accepts).2.2,
      ih fun s hs => h s (List.mem_cons_of_mem _ hs)⟩

theorem ordered_descriptors (h : ∀ s ∈ ss, p.Buildable s.2) :
    Value.OrderedMembers (ss.map fun s => (s.1, s.2.descriptor.toValue)) := by
  induction ss with
  | nil => trivial
  | cons s ss ih =>
    exact ⟨(Source.toObject_plain (h s List.mem_cons_self).accepts).1,
      ih fun s hs => h s (List.mem_cons_of_mem _ hs)⟩

theorem depth_descriptors (h : ∀ s ∈ ss, p.Buildable s.2) :
    Value.depthMembers (ss.map fun s => (s.1, s.2.descriptor.toValue)) ≤ 2 := by
  induction ss with
  | nil => exact Nat.zero_le 2
  | cons s ss ih =>
    have hdepth := (Source.toObject_plain (h s List.mem_cons_self).accepts).2.1
    have hrest := ih fun s hs => h s (List.mem_cons_of_mem _ hs)
    show max (Value.depth (.object s.2.descriptor.toObject)) _ ≤ 2
    omega

/-- The written form of elements that can be built again tells their sources. -/
theorem tells_encode (h : ∀ k r, m.get? k = some r → p.Buildable (w.source r)) :
    Tells p (encode w m) (sources w m) := by
  have hss : ∀ s ∈ sources w m, p.Buildable s.2 := by
    intro s hs
    obtain ⟨e, he, rfl⟩ := List.mem_map.1 hs
    exact h e.1 e.2 (Dict.get?_of_mem he)
  have hencode : encode w m = (Value.object
      ((sources w m).map fun s => (s.1, s.2.descriptor.toValue))).text.toUTF8 := by
    unfold encode sources
    rw [List.map_map]
    rfl
  have hkeys : Assoc.Ordered ((sources w m).map fun s => (s.1, s.2.descriptor.toValue)) := by
    unfold sources Assoc.Ordered
    rw [List.map_map]
    exact List.pairwise_map.2 m.ordered
  have hsize : (encode w m).size ≠ 0 := by
    rw [hencode]
    apply Value.size_text_ne_zero
    rw [Value.write]
    exact List.cons_ne_nil _ _
  have hdepth := depth_descriptors hss
  unfold Tells
  rw [if_neg hsize, hencode, Object.ofBytes?_text ⟨hkeys, ordered_descriptors hss⟩ ?_
    (legible_descriptors hss)]
  · refine ⟨_, rfl, List.forall₂_map_left_iff.2 (List.forall₂_same.2 fun s hs => ?_)⟩
    exact describes_descriptor s.1 (hss s hs)
  · rw [Value.depth]
    exact Nat.le_trans (Nat.succ_le_succ hdepth) (by decide)

/-! ### The same sources -/

/-- Two maps have the same keys, and under each of them elements with the same source. -/
def Alike (w : World) (m : Dict ElementKey ElementRef) (w' : World)
    (m' : Dict ElementKey ElementRef) : Prop :=
  ∀ k, Option.Rel (fun r r' => Has w' (w.source r) r') (m.get? k) (m'.get? k)

/-- What is loaded from the written form of a map is like the map. -/
theorem alike_of_sources {m : Dict ElementKey ElementRef}
    (h : List.Forall₂ (fun s e => e.1 = s.1 ∧ Has w' s.2 e.2) (sources w m) es) :
    Alike w m w' (.ofList es) := by
  have hempty (k : ElementKey) : Option.Rel (fun r r' => Has w' (w.source r) r')
      ((.empty : Dict ElementKey ElementRef).get? k)
      ((.empty : Dict ElementKey ElementRef).get? k) := .none
  have hall := Dict.rel_insertAll hempty (List.forall₂_map_left_iff.1 h)
  rw [← m.ofList_entries]
  exact hall

/-- What is loaded from the same content is alike. -/
theorem alike_of_tells {es' : List (ElementKey × ElementRef)}
    (h : List.Forall₂ (fun s e => e.1 = s.1 ∧ Has w s.2 e.2) ss es)
    (h' : List.Forall₂ (fun s e => e.1 = s.1 ∧ Has w' s.2 e.2) ss es') :
    Alike w (.ofList es) w' (.ofList es') := by
  refine Dict.rel_insertAll (fun _ => .none) ?_
  induction h generalizing es' with
  | nil =>
    cases h'
    exact .nil
  | cons he _ ih =>
    cases h' with
    | cons he' hes' =>
      refine .cons ⟨he'.1.trans he.1.symm, ?_⟩ (ih hes')
      rw [he.2.2]
      exact he'.2

theorem Alike.keys {m' : Dict ElementKey ElementRef} (h : Alike w m w' m') : m'.keys = m.keys := by
  apply Dict.keys_congr
  intro k
  have hk := h k
  generalize m.get? k = found at hk ⊢
  generalize m'.get? k = found' at hk ⊢
  cases hk <;> rfl

theorem Alike.get? {m' : Dict ElementKey ElementRef} {k : ElementKey} (h : Alike w m w' m')
    (hr : m.get? k = some r) : ∃ r', m'.get? k = some r' ∧ Has w' (w.source r) r' := by
  have hk := h k
  rw [hr] at hk
  cases hm : m'.get? k with
  | none =>
    rw [hm] at hk
    cases hk
  | some r' =>
    rw [hm] at hk
    cases hk with
    | some hr' => exact ⟨r', rfl, hr'⟩

end Depot.MemorySet
