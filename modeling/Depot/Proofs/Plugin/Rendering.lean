import Depot.Action
import Depot.Proofs.Plugin.Descriptors
/-!
# Reading and rendering descriptors

An object is read as a descriptor exactly if the selection and every section have the right form.
Rendering what has been read fills in what was left out. What has been built is read back from its
rendering exactly if no section of its own is called `type`; otherwise this section stands where the
selection is expected.
-/

namespace Depot.Descriptor

open Json

variable {d d' : Descriptor} {o front back : Object} {m : String × Value} {k contract : String}
  {params : Object} {e : ConfigError}

/-! ### What can be read -/

theorem isReadable_of_readMember (h : readMember contract d m = .ok d') : IsReadable m := by
  obtain ⟨k, v⟩ := m
  unfold readMember at h
  dsimp only at h
  split at h
  · next hk =>
    split at h
    · exact .inl rfl
    · exact .inr (by simp [hk])
    · cases h
  · next hk =>
    split at h
    · exact .inr (by simp [hk])
    · exact .inl rfl
    · cases h

/-- A descriptor is read from an object exactly if each member can be read. -/
theorem ofObject_eq_ok : ofObject contract o = .ok d ↔
    (∀ m ∈ o, IsReadable m) ∧ o.foldl note empty = d := by
  have hmembers (start : Descriptor) (h : o.foldlM (readMember contract) start = .ok d) :
      ∀ m ∈ o, IsReadable m := by
    induction o generalizing start with
    | nil => exact nofun
    | cons m ms ih =>
      rw [List.foldlM_cons] at h
      obtain ⟨next, hm, hms⟩ := Result.bind_eq_ok.1 h
      exact List.forall_mem_cons.2 ⟨isReadable_of_readMember hm, ih next hms⟩
  constructor
  · intro h
    have hreadable := hmembers empty h
    refine ⟨hreadable, ?_⟩
    rw [ofObject, foldlM_readMember hreadable] at h
    exact Except.ok.inj h
  · rintro ⟨hreadable, rfl⟩
    exact foldlM_readMember hreadable contract empty

/-- The first member that cannot be read decides what is wrong. -/
theorem ofObject_of_error (hfront : ∀ m ∈ front, IsReadable m)
    (h : ∀ d, readMember contract d m = .error e) :
    ofObject contract (front ++ m :: back) = .error e := by
  rw [ofObject, List.foldlM_append, foldlM_readMember hfront]
  show (readMember contract _ m >>= _) = _
  rw [h]
  rfl

/-! ### Rendering what has been read -/

/-- What stands under a key of an object when what was left out is filled in: null where nothing is
selected, and no parameters where a section is null. -/
def filled (o : Object) (k : String) : Option Value :=
  if k = typeKey then some ((Assoc.get? k o).getD .null)
  else (Assoc.get? k o).map fun v => if v = .null then .object [] else v

theorem plain_of_ofObject (h : ofObject contract o = .ok d) : d.Plain := by
  obtain ⟨-, rfl⟩ := ofObject_eq_ok.1 h
  exact plain_foldl_note rfl

theorem get?_toObject_of_ofObject (ho : Assoc.Ordered o) (h : ofObject contract o = .ok d)
    (k : String) : Assoc.get? k d.toObject = filled o k := by
  rw [get?_toObject (plain_of_ofObject h), filled]
  obtain ⟨hreadable, rfl⟩ := ofObject_eq_ok.1 h
  split
  · next hk =>
    subst hk
    rw [selected_foldl_note ho]
    cases hv : Assoc.get? typeKey o with
    | none => rfl
    | some v =>
      rcases hreadable _ (Assoc.mem_of_get? hv) with rfl | hstring
      · rfl
      · obtain ⟨s, rfl⟩ : ∃ s, v = .string s := by simpa using hstring
        rfl
  · next hk =>
    rw [params?_foldl_note ho empty hk]
    cases hv : Assoc.get? k o with
    | none => rfl
    | some v =>
      rcases hreadable _ (Assoc.mem_of_get? hv) with rfl | hobject
      · rfl
      · obtain ⟨params, rfl⟩ : ∃ params, v = .object params := by simpa [hk] using hobject
        rfl

/-! ### Rendering what has been built -/

/-- A section called `type` is found where a selection is expected. -/
theorem ofObject_toObject_of_section (h : d.params? typeKey = some params) (contract : String) :
    ofObject contract d.toObject = .error (.invalidType contract (.object params)) := by
  have hget (k : String) : Assoc.get? k d.toObject = (d.params? k).map .object := by
    rw [get?_toObject_or]
    by_cases hk : k = typeKey
    · subst hk
      simp [h]
    · simp [hk]
  have hmem : (typeKey, .object params) ∈ d.toObject :=
    Assoc.mem_of_get? (by rw [hget, h]; rfl)
  obtain ⟨front, back, hsplit⟩ := List.append_of_mem hmem
  have hordered : Assoc.Ordered (front ++ (typeKey, .object params) :: back) :=
    hsplit ▸ d.ordered_toObject
  have hfront : ∀ m ∈ front, IsReadable m := by
    rintro ⟨k, v⟩ hm
    have hlt := (List.pairwise_append.1 hordered).2.2 _ hm _ List.mem_cons_self
    have hk : k ≠ typeKey := by
      rintro rfl
      simp at hlt
    have hv := Assoc.get?_of_mem d.ordered_toObject (hsplit ▸ List.mem_append_left _ hm)
    rw [hget] at hv
    obtain ⟨params, -, rfl⟩ := Option.map_eq_some_iff.1 hv
    exact .inr (by simp [hk])
  rw [hsplit]
  exact ofObject_of_error hfront fun d => rfl

/-- A descriptor is read back from its object exactly if no section is called `type`. -/
theorem ofObject_toObject_iff : ofObject contract d.toObject = .ok d ↔ d.Plain := by
  constructor
  · intro h
    cases hd : d.params? typeKey with
    | none => exact hd
    | some params => cases h.symm.trans (ofObject_toObject_of_section hd contract)
  · intro h
    exact h.says_toObject.ofObject contract

/-- One step of building a descriptor. -/
inductive Step where
  /-- Starts again, with nothing. -/
  | new
  /-- Starts again, with a selection and its parameters. -/
  | selecting (name : String) (params : Object)
  /-- Changes the selection. -/
  | select (name : String)
  /-- Sets the parameters of an implementation. -/
  | withParams (name : String) (params : Object)

/-- The descriptor after a step. -/
def Step.apply (d : Descriptor) : Step → Descriptor
  | new                    => empty
  | selecting name params  => .selecting name params
  | select name            => d.select name
  | withParams name params => d.withParams name params

/-- What has been built from the empty descriptor. -/
def build (steps : List Step) : Descriptor := steps.foldl Step.apply empty

/-- An object is read as a descriptor exactly if the selection is missing, null or a text and every
other member is null or an object. The object of what has been read has the same members, but null
where the selection was missing and no parameters where a section was null, and the same descriptor
is read from it. However a descriptor has been built, it is read back from its object exactly if it
has no section called `type`; such a section is refused as a selection. -/
theorem rendering_exact :
    (∀ contract o, (∃ d, ofObject contract o = .ok d) ↔
      (∀ v, (typeKey, v) ∈ o → v = .null ∨ ∃ s, v = .string s) ∧
      ∀ k v, k ≠ typeKey → (k, v) ∈ o → v = .null ∨ ∃ params, v = .object params) ∧
    (∀ contract o d, Assoc.Ordered o → ofObject contract o = .ok d →
      Assoc.Ordered d.toObject ∧ (∀ k, Assoc.get? k d.toObject = filled o k) ∧
      ∀ contract', ofObject contract' d.toObject = .ok d) ∧
    (∀ contract steps, ofObject contract (build steps).toObject = .ok (build steps) ↔
      (build steps).params? typeKey = none) ∧
    (∀ contract steps params, (build steps).params? typeKey = some params →
      ofObject contract (build steps).toObject =
        .error (.invalidType contract (.object params))) := by
  refine ⟨fun contract o => ?_, fun contract o d ho h => ?_,
    fun contract steps => ofObject_toObject_iff,
    fun contract steps params h => ofObject_toObject_of_section h contract⟩
  · -- Each member is judged on its own.
    have hreadable : (∃ d, ofObject contract o = .ok d) ↔ ∀ m ∈ o, IsReadable m := by
      simp only [ofObject_eq_ok, exists_and_left, exists_eq', and_true]
    rw [hreadable]
    constructor
    · intro h
      refine ⟨fun v hv => ?_, fun k v hk hv => ?_⟩
      · simpa [IsReadable] using h _ hv
      · simpa [IsReadable, hk] using h _ hv
    · rintro ⟨hselection, hsections⟩ ⟨k, v⟩ hm
      by_cases hk : k = typeKey
      · subst hk
        simpa [IsReadable] using hselection v hm
      · simpa [IsReadable, hk] using hsections k v hk hm
  · exact ⟨d.ordered_toObject, get?_toObject_of_ofObject ho h,
      fun contract' => ofObject_toObject_iff.2 (plain_of_ofObject h)⟩

/-- Nothing is selected in this object, and one of its sections is null. -/
def unselected : Object := [("FileElement", .object [("readonly", .bool true)]), ("Log", .null)]

theorem rendering_exact_unselected :
    (∃ d, ofObject "data_element" unselected = .ok d ∧ ofObject "plugin" d.toObject = .ok d ∧
      Assoc.get? typeKey d.toObject = some .null ∧
      Assoc.get? "Log" d.toObject = some (.object [])) ∧
    ofObject "plugin" (build [.selecting "type" unselected]).toObject =
      .error (.invalidType "plugin" (.object unselected)) := by
  obtain ⟨hread, hfilled, -, hsection⟩ := rendering_exact
  have hsections : ∀ k v, k ≠ typeKey → (k, v) ∈ unselected →
      v = .null ∨ ∃ params, v = .object params := by
    intro k v _ hm
    simp only [unselected, List.mem_cons, Prod.mk.injEq, List.not_mem_nil, or_false] at hm
    obtain ⟨-, rfl⟩ | ⟨-, rfl⟩ := hm
    · exact .inr ⟨_, rfl⟩
    · exact .inl rfl
  obtain ⟨d, hd⟩ := (hread "data_element" unselected).2
    ⟨by simp [unselected, typeKey], hsections⟩
  obtain ⟨-, hget, hback⟩ := hfilled _ _ _ (by decide) hd
  refine ⟨⟨d, hd, hback "plugin", ?_, ?_⟩, hsection _ _ _ (by decide)⟩
  · rw [hget]
    rfl
  · rw [hget]
    rfl

end Depot.Descriptor
