import Depot.Proofs.Json.Integers
import Depot.Proofs.Plugin.Descriptors
import Depot.Proofs.Toml.Nulls
/-!
# The forms of a configuration

A configuration is found again in each of its forms: the flat map, if its names and keys can be
segments of a path, the JSON text, and the TOML text, where only nulls among the parameters are
lost.
-/

namespace Depot

open Json Config

variable {d : Descriptor} {c : Configuration} {contract name : String} {params : Object}
  {m : String × Value}

namespace Descriptor

/-- The parameters are written in key order, as all objects are that have been read. -/
def Ordered (d : Descriptor) : Prop := ∀ name params, d.params? name = some params → params.Ordered

/-- The names of the sections, and the keys of all objects in the parameters, are neither empty nor
hold a dot. -/
def KeysFit (d : Descriptor) : Prop :=
  ∀ name params, d.params? name = some params →
    (name ≠ "" ∧ '.' ∉ name.toList) ∧
    ∀ o, Reaches params o → ∀ m ∈ o, m.1 ≠ "" ∧ '.' ∉ m.1.toList

/-- The descriptor without the parameters that are null, at every depth. -/
def withoutNulls (d : Descriptor) : Descriptor :=
  { d with sections := d.sections.map Toml.withoutNulls }

/-- The members of the object of a descriptor are the selection and the sections. -/
theorem mem_toObject (h : d.Plain) : m ∈ d.toObject ↔
    m = (typeKey, .ofOption d.selected) ∨
      ∃ params, d.params? m.1 = some params ∧ m.2 = .object params := by
  obtain ⟨k, v⟩ := m
  have hget : (k, v) ∈ d.toObject ↔ Assoc.get? k d.toObject = some v :=
    ⟨Assoc.get?_of_mem d.ordered_toObject, Assoc.mem_of_get?⟩
  rw [hget, get?_toObject h]
  by_cases hk : k = typeKey
  · subst hk
    have hnone : ¬ ∃ params, d.params? typeKey = some params ∧ v = .object params := by
      rintro ⟨params, hp, -⟩
      rw [h] at hp
      cases hp
    rw [if_pos rfl, or_iff_left hnone]
    simp [eq_comm]
  · rw [if_neg hk, Option.map_eq_some_iff]
    simp [hk, eq_comm]

theorem Ordered.toObject (h : d.Ordered) (hp : d.Plain) : d.toObject.Ordered := by
  refine ⟨d.ordered_toObject, Value.orderedMembers_iff.2 fun m hm => ?_⟩
  rcases (mem_toObject hp).1 hm with rfl | ⟨params, hparams, hv⟩
  · cases d.selected <;> exact trivial
  · rw [hv]
    exact h _ params hparams

theorem portable_toObject_iff (hp : d.Plain) : PortableMembers d.toObject ↔ d.KeysFit := by
  have htype : isSegment typeKey = true ∧ Portable (.ofOption d.selected) := by
    refine ⟨by decide, ?_⟩
    cases d.selected <;> exact trivial
  rw [portableMembers_iff]
  constructor
  · intro h name params hparams
    obtain ⟨hk, hv⟩ := h (name, .object params) ((mem_toObject hp).2 (.inr ⟨params, hparams, rfl⟩))
    rw [portable_iff] at hv
    simp only [isSegment_iff] at hk hv
    exact ⟨hk, hv⟩
  · intro h m hm
    rcases (mem_toObject hp).1 hm with rfl | ⟨params, hparams, hv⟩
    · exact htype
    · obtain ⟨hk, hkeys⟩ := h _ params hparams
      rw [hv, portable_iff]
      simp only [isSegment_iff]
      exact ⟨hk, hkeys⟩

/-- Without its nulls the object of a descriptor says what the descriptor says without the nulls in
its parameters: where nothing is selected, the selection is missing. -/
theorem Plain.says_withoutNulls (h : d.Plain) :
    Says (Toml.dropNullMembers d.toObject) d.withoutNulls where
  ordered := Toml.ordered_dropNullMembers d.ordered_toObject
  selection := by
    rw [Toml.get?_dropNullMembers d.ordered_toObject, get?_toObject h, if_pos rfl]
    show _ = some (Value.ofOption d.selected) ∨ d.selected = none ∧ _
    cases d.selected with
    | none => exact .inr ⟨rfl, rfl⟩
    | some s => exact .inl rfl
  sections k hk := by
    rw [Toml.get?_dropNullMembers d.ordered_toObject, get?_toObject h, if_neg hk]
    show _ = ((d.sections.map Toml.withoutNulls).get? k).map _
    rw [Dict.get?_map]
    show _ = ((d.params? k).map _).map _
    cases d.params? k <;> rfl
  plain := by
    show (d.sections.map Toml.withoutNulls).get? typeKey = none
    rw [Dict.get?_map]
    exact congrArg (Option.map _) h

end Descriptor

namespace Configuration

/-- The parameters of all descriptors are written in key order. -/
def Ordered (c : Configuration) : Prop := ∀ e ∈ c.sections.entries, e.2.Ordered

/-- The names of contracts and sections, and the keys of all objects in the parameters, are neither
empty nor hold a dot. -/
def KeysFit (c : Configuration) : Prop :=
  ∀ e ∈ c.sections.entries, (e.1 ≠ "" ∧ '.' ∉ e.1.toList) ∧ e.2.KeysFit

/-- The configuration without the parameters that are null, at every depth. -/
def withoutNulls (c : Configuration) : Configuration :=
  { sections := c.sections.map Descriptor.withoutNulls }

/-- `c'` has the contracts, selections and sections of `c`, and its parameters without the members
that are null, at every depth. -/
structure SameButNulls (c c' : Configuration) : Prop where
  contracts : c'.contracts = c.contracts
  descriptor : ∀ contract d, c.get? contract = some d → ∃ d', c'.get? contract = some d' ∧
    d'.selected = d.selected ∧ d'.implementations = d.implementations ∧
    ∀ name params, d.params? name = some params → ∃ params', d'.params? name = some params' ∧
      Value.SameButNulls (.object params) (.object params')

theorem Ordered.toObject (h : c.Ordered) (hp : c.Plain) : c.toObject.Ordered := by
  refine ⟨List.pairwise_map.2 c.sections.ordered, Value.orderedMembers_iff.2 fun m hm => ?_⟩
  obtain ⟨e, he, rfl⟩ := List.mem_map.1 hm
  exact (h e he).toObject (hp e he)

/-- A configuration can be flattened exactly if its names and keys can be segments. -/
theorem toFlat_ok_iff (hp : c.Plain) : (∃ flat, c.toFlat = .ok flat) ↔ c.KeysFit := by
  have hflat : (∃ flat, c.toFlat = .ok flat) ↔ ∃ flat, flatten c.toObject = .ok flat := by
    unfold toFlat
    cases flatten c.toObject <;> simp [Except.mapError]
  have hmembers : PortableMembers c.toObject ↔ ∀ e ∈ c.sections.entries,
      isSegment e.1 = true ∧ PortableMembers e.2.toObject := by
    rw [portableMembers_iff]
    exact List.forall_mem_map
  rw [hflat, flatten_ok_iff]
  refine hmembers.trans (forall₂_congr fun e he => ?_)
  rw [isSegment_iff, Descriptor.portable_toObject_iff (hp e he)]

/-- A configuration is read back from its flat form. -/
theorem ofFlat_toFlat {flat : Object} (hp : c.Plain) (ho : c.Ordered) (h : c.toFlat = .ok flat) :
    ofFlat flat = .ok c := by
  have hflat : flatten c.toObject = .ok flat := by
    rw [toFlat] at h
    exact Result.mapError_eq_ok.1 h
  unfold ofFlat
  rw [expand_flatten (ho.toObject hp) hflat]
  exact hp.ofObject

/-- A configuration is read back from its JSON text. -/
theorem ofJsonText_toJsonText (hp : c.Plain) (ho : c.Ordered)
    (hv : (Value.object c.toObject).Legible)
    (hd : (Value.object c.toObject).depth ≤ Reading.maxDepth) :
    ofJsonText c.toJsonText = .ok c := by
  unfold ofJsonText toJsonText
  rw [Value.ofText?_prettyText (ho.toObject hp) hd hv]
  exact hp.ofObject

/-- Without its nulls the object of a configuration is read as the configuration without the nulls
in its parameters. -/
theorem ofObject_withoutNulls (hp : c.Plain) :
    ofObject (Toml.withoutNulls c.toObject) = .ok c.withoutNulls := by
  have hobject : Toml.withoutNulls c.toObject =
      c.sections.entries.map fun e => (e.1, .object (Toml.dropNullMembers e.2.toObject)) := by
    unfold Toml.withoutNulls toObject
    induction c.sections.entries with
    | nil => rfl
    | cons e es ih =>
      rw [List.map_cons, Toml.dropNullMembers_cons, if_neg nofun, ih]
      rfl
  rw [hobject]
  exact ofObject_sections (f := fun d => Toml.dropNullMembers d.toObject)
    (g := Descriptor.withoutNulls) fun e he => (hp e he).says_withoutNulls.ofObject

theorem sameButNulls_withoutNulls (ho : c.Ordered) : c.SameButNulls c.withoutNulls := by
  refine ⟨Dict.keys_map _ _, fun contract d hd => ⟨d.withoutNulls, ?_, rfl, Dict.keys_map _ _,
    fun name params hparams => ⟨Toml.withoutNulls params, ?_, ?_⟩⟩⟩
  · show (c.sections.map _).get? contract = _
    rw [Dict.get?_map]
    exact congrArg (Option.map _) hd
  · show (d.sections.map _).get? name = _
    rw [Dict.get?_map]
    exact congrArg (Option.map _) hparams
  · exact Toml.sameButNulls_dropNulls (ho _ (Dict.mem_of_get? hd) name params hparams)

/-- A configuration in which no section is called `type` is found again in its forms. It has a flat
form exactly if no name of a contract or section, and no key of an object in its parameters, is
empty or holds a dot, and is read back from it. It is read back from its JSON text, if all its
numbers are and its containers are not nested too deeply for the reader. And if it has a TOML text,
in which the reader finds the tree again that has been written, then this is read as the
configuration without those parameters that are null, at every depth. -/
theorem read_back_from_every_form (hp : c.Plain) (ho : c.Ordered) :
    ((∃ flat, c.toFlat = .ok flat) ↔ c.KeysFit) ∧
    (∀ flat, c.toFlat = .ok flat → ofFlat flat = .ok c) ∧
    ((Value.object c.toObject).Legible →
      (Value.object c.toObject).depth ≤ 127 → ofJsonText c.toJsonText = .ok c) ∧
    (∀ text, c.toTomlText = .ok text →
      Toml.ofText? text = some (.object (Toml.withoutNulls c.toObject)) →
        ofTomlText text = .ok c.withoutNulls ∧ c.SameButNulls c.withoutNulls) := by
  refine ⟨toFlat_ok_iff hp, fun flat => ofFlat_toFlat hp ho, ofJsonText_toJsonText hp ho,
    fun text _ hread => ⟨?_, sameButNulls_withoutNulls ho⟩⟩
  unfold ofTomlText
  rw [hread]
  exact ofObject_withoutNulls hp

/-- A file store with a null and an array of objects among its parameters, another section that is
empty, and a contract for which nothing is selected. -/
def fileStore : Configuration :=
  (empty.insert "Log" .empty).insert "Store"
    { selected := some "File"
      sections := (Dict.empty.insert "File"
        [("parts", .array [.object [("a", .number (.ofInt64 1)), ("b", .null)]]),
          ("root", .null)]).insert "Memory" [] }

theorem fileStore_read_back_from_every_form :
    (∃ flat, fileStore.toFlat = .ok flat ∧ ofFlat flat = .ok fileStore) ∧
    ofJsonText fileStore.toJsonText = .ok fileStore ∧
    ∃ text, fileStore.toTomlText = .ok text ∧ ofTomlText text = .ok fileStore.withoutNulls := by
  have hp : fileStore.Plain := by
    show ∀ e ∈ fileStore.sections.entries, e.2.params? typeKey = none
    decide
  have ho : fileStore.Ordered := by
    have hsections : ∀ e ∈ fileStore.sections.entries, ∀ s ∈ e.2.sections.entries,
        s.2.Ordered := by
      decide +kernel
    intro e he name params hparams
    exact hsections e he _ (Dict.mem_of_get? hparams)
  have hv : (Value.object fileStore.toObject).Legible :=
    Value.legible_of_integral _ ⟨⟨trivial, trivial⟩,
      ⟨⟨⟨⟨trivial, trivial, trivial⟩, trivial⟩, trivial, trivial⟩, trivial, trivial, trivial⟩,
      trivial⟩
  obtain ⟨-, hflat, hjson, htoml⟩ := read_back_from_every_form hp ho
  refine ⟨⟨_, rfl, hflat _ rfl⟩, hjson hv (by decide), _, rfl, (htoml _ rfl ?_).1⟩
  decide +kernel

end Configuration

end Depot
