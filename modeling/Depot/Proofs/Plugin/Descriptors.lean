import Depot.Plugin.Configuration
import Depot.Proofs.Config.FlatForms
/-!
# Reading descriptors back

A descriptor and its object say the same: the selection stands under `type`, and every section
under its name. So a descriptor is read back from its object unless a section of its own is called
`type`, and so is a configuration of such descriptors.
-/

namespace Depot

open Json Config

variable {d : Descriptor} {c : Configuration} {o : Object} {m : String × Value} {k : String}

namespace Descriptor

/-- No section has the name under which the selection is written. -/
def Plain (d : Descriptor) : Prop := d.params? typeKey = none

/-! ### The object of a descriptor -/

theorem ordered_toObject (d : Descriptor) : Assoc.Ordered d.toObject :=
  Assoc.ordered_insertAll (List.pairwise_singleton _ _)

/-- The parameters of an implementation stand under its name, and the selection under `type`
unless a section does. -/
theorem get?_toObject_or (d : Descriptor) (k : String) : Assoc.get? k d.toObject =
    ((d.params? k).map .object).or (if k = typeKey then some (.ofOption d.selected) else none) := by
  have hsections : Assoc.Ordered (d.sections.entries.map fun e => (e.1, Value.object e.2)) :=
    List.pairwise_map.2 d.sections.ordered
  unfold toObject
  rw [Assoc.get?_insertAll hsections, Assoc.get?_map, Assoc.get?_cons]
  rfl

/-- The selection stands under `type`, the parameters of an implementation under its name. -/
theorem get?_toObject (h : d.Plain) (k : String) : Assoc.get? k d.toObject =
    if k = typeKey then some (.ofOption d.selected) else (d.params? k).map .object := by
  rw [get?_toObject_or]
  by_cases hk : k = typeKey
  · subst hk
    rw [h]
    simp
  · simp [hk]

/-! ### Reading members -/

/-- A member that can be read: a selection, a section, or null in the place of either. -/
def IsReadable (m : String × Value) : Prop :=
  m.2 = .null ∨ if m.1 = typeKey then ∃ s, m.2 = .string s else ∃ params, m.2 = .object params

/-- A descriptor with what a member says. -/
def note (d : Descriptor) (m : String × Value) : Descriptor :=
  if m.1 = typeKey then { d with selected := m.2.string? }
  else d.withParams m.1 (m.2.object?.getD [])

theorem readMember_of_readable (h : IsReadable m) (contract : String) (d : Descriptor) :
    readMember contract d m = .ok (d.note m) := by
  obtain ⟨k, v⟩ := m
  unfold IsReadable at h
  unfold readMember note
  dsimp only at h ⊢
  split
  · next hk =>
    rw [if_pos hk] at h
    rcases h with rfl | ⟨s, rfl⟩
    · rfl
    · rfl
  · next hk =>
    rw [if_neg hk] at h
    rcases h with rfl | ⟨params, rfl⟩
    · rfl
    · rfl

theorem foldlM_readMember (h : ∀ m ∈ o, IsReadable m) (contract : String) (d : Descriptor) :
    o.foldlM (readMember contract) d = .ok (o.foldl note d) := by
  induction o generalizing d with
  | nil => rfl
  | cons m ms ih =>
    obtain ⟨hm, hms⟩ := List.forall_mem_cons.1 h
    rw [List.foldlM_cons, readMember_of_readable hm]
    exact ih hms _

theorem selected_foldl_note (ho : Assoc.Ordered o) (d : Descriptor) :
    (o.foldl note d).selected = ((Assoc.get? typeKey o).map Value.string?).getD d.selected := by
  induction o generalizing d with
  | nil => rfl
  | cons m ms ih =>
    obtain ⟨k, v⟩ := m
    rw [List.foldl_cons, ih (Assoc.ordered_cons.1 ho).2, Assoc.get?_cons, note]
    by_cases hk : typeKey = k
    · subst hk
      rw [get?_of_before ho]
      simp
    · simp [hk, Ne.symm hk, withParams]

theorem params?_foldl_note (ho : Assoc.Ordered o) (d : Descriptor) (hk : k ≠ typeKey) :
    (o.foldl note d).params? k =
      ((Assoc.get? k o).map fun v => v.object?.getD []).or (d.params? k) := by
  induction o generalizing d with
  | nil => rfl
  | cons m ms ih =>
    obtain ⟨k', v⟩ := m
    rw [List.foldl_cons, ih (Assoc.ordered_cons.1 ho).2, Assoc.get?_cons, note]
    by_cases hkk : k = k'
    · subst hkk
      rw [get?_of_before ho, if_neg hk]
      simp [params?, withParams, Dict.get?_insert]
    · by_cases ht : k' = typeKey
      · simp [ht, hk, params?]
      · simp [hkk, ht, params?, withParams, Dict.get?_insert]

theorem plain_foldl_note (h : d.Plain) : (o.foldl note d).Plain := by
  induction o generalizing d with
  | nil => exact h
  | cons m ms ih =>
    refine ih ?_
    unfold note
    split
    · exact h
    · next hm =>
      show (d.sections.insert _ _).get? typeKey = none
      rw [Dict.get?_insert, if_neg (Ne.symm hm)]
      exact h

/-- An object that says what a descriptor says. The selection may be null or missing where nothing
is selected. -/
structure Says (o : Object) (d : Descriptor) : Prop where
  ordered : Assoc.Ordered o
  selection : Assoc.get? typeKey o = some (.ofOption d.selected) ∨
    d.selected = none ∧ Assoc.get? typeKey o = none
  sections : ∀ k, k ≠ typeKey → Assoc.get? k o = (d.params? k).map .object
  plain : d.Plain

theorem Says.isReadable (h : Says o d) (hm : m ∈ o) : IsReadable m := by
  obtain ⟨k, v⟩ := m
  have hget := Assoc.get?_of_mem h.ordered hm
  by_cases hk : k = typeKey
  · subst hk
    rcases h.selection with hs | ⟨-, hs⟩
    · rw [hs] at hget
      cases hget
      cases d.selected with
      | none => exact .inl rfl
      | some s => exact .inr (by simp [Value.ofOption])
    · rw [hs] at hget
      cases hget
  · rw [h.sections k hk] at hget
    obtain ⟨params, -, rfl⟩ := Option.map_eq_some_iff.1 hget
    exact .inr (by simp [hk])

/-- A descriptor is read from an object that says what it says. -/
theorem Says.ofObject (h : Says o d) (contract : String) : ofObject contract o = .ok d := by
  have hselected : (o.foldl note empty).selected = d.selected := by
    rw [selected_foldl_note h.ordered]
    rcases h.selection with hs | ⟨hd, hs⟩
    · rw [hs]
      cases d.selected <;> rfl
    · rw [hs, hd]
      rfl
  have hsections : (o.foldl note empty).sections = d.sections := by
    refine Dict.eq_of_get? fun k => ?_
    show params? _ k = params? _ k
    by_cases hk : k = typeKey
    · subst hk
      have hempty : empty.Plain := rfl
      rw [plain_foldl_note hempty, h.plain]
    · rw [params?_foldl_note h.ordered empty hk, h.sections k hk]
      cases d.params? k <;> rfl
  unfold Descriptor.ofObject
  rw [foldlM_readMember fun m hm => h.isReadable hm]
  generalize o.foldl note empty = d' at hselected hsections
  cases d
  cases d'
  cases hselected
  cases hsections
  rfl

theorem Plain.says_toObject (h : d.Plain) : Says d.toObject d where
  ordered := d.ordered_toObject
  selection := by
    rw [get?_toObject h, if_pos rfl]
    exact .inl rfl
  sections k hk := by rw [get?_toObject h, if_neg hk]
  plain := h

end Descriptor

namespace Configuration

/-- No section of any descriptor is called `type`. -/
def Plain (c : Configuration) : Prop := ∀ e ∈ c.sections.entries, e.2.Plain

/-- A configuration is read section by section. -/
theorem ofObject_sections {f : Descriptor → Object} {g : Descriptor → Descriptor}
    (h : ∀ e ∈ c.sections.entries, ∀ contract, Descriptor.ofObject contract (f e.2) = .ok (g e.2)) :
    ofObject (c.sections.entries.map fun e => (e.1, .object (f e.2))) =
      .ok { sections := c.sections.map g } := by
  have hread (es : List (String × Descriptor))
      (hes : ∀ e ∈ es, ∀ contract, Descriptor.ofObject contract (f e.2) = .ok (g e.2))
      (acc : Configuration) :
      (es.map fun e => (e.1, Value.object (f e.2))).foldlM readSection acc =
        (.ok { sections := acc.sections.insertAll (es.map fun e => (e.1, g e.2)) } :
          Except ConfigError Configuration) := by
    induction es generalizing acc with
    | nil => rfl
    | cons e es ih =>
      obtain ⟨he, hes⟩ := List.forall_mem_cons.1 hes
      have hsection : readSection acc (e.1, .object (f e.2)) = .ok (acc.insert e.1 (g e.2)) := by
        show (Descriptor.ofObject e.1 (f e.2)).map _ = _
        rw [he]
        rfl
      rw [List.map_cons, List.foldlM_cons, hsection]
      exact ih hes _
  refine (hread c.sections.entries h empty).trans ?_
  show Except.ok (Configuration.mk (Dict.ofList (c.sections.map g).entries)) = _
  rw [Dict.ofList_entries]

/-- A configuration is read back from its object. -/
theorem Plain.ofObject (h : c.Plain) : ofObject c.toObject = .ok c := by
  refine (ofObject_sections (g := id) fun e he => (h e he).says_toObject.ofObject).trans ?_
  show Except.ok (Configuration.mk (c.sections.map id)) = _
  rw [Dict.map_id]

end Configuration

end Depot
