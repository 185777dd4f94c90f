import Depot.Config.Flat
import Depot.Proofs.Json.Ordered
/-!
# The leaves of a configuration

What a configuration holds is told by its leaves: the values at the ends of the paths through its
objects. No path to a leaf goes on to another, a value whose members stand in key order is
determined by its leaves, and a leaf can be put wherever no other is in the way.
-/

namespace Depot.Config

open Json

variable {v v' u u' : Value} {o o' : Object} {k : String} {p q : List String}

/-- The leaf at the end of a path through a value: what stands there, unless it is an object with
members. -/
def leafAt? : List String → Value → Option Value
  | [], .object (_ :: _) => none
  | [], v                => some v
  | k :: path, .object o => (Assoc.get? k o).bind (leafAt? path)
  | _ :: _, _            => none

/-! ### Paths to leaves -/

@[simp] theorem leafAt?_cons_object :
    leafAt? (k :: p) (.object o) = (Assoc.get? k o).bind (leafAt? p) := rfl

theorem leafAt?_nil_object (h : o ≠ []) : leafAt? [] (.object o) = none := by
  cases o with
  | nil => exact absurd rfl h
  | cons m ms => rfl

/-- A value is a leaf, or an object with members. -/
theorem leaf_or_members (v : Value) : (leafAt? [] v = some v ∧ ∀ k p, leafAt? (k :: p) v = none) ∨
    ∃ m ms, v = .object (m :: ms) := by
  cases v with
  | object o =>
    cases o with
    | nil => exact .inl ⟨rfl, fun _ _ => rfl⟩
    | cons m ms => exact .inr ⟨m, ms, rfl⟩
  | null | bool _ | number _ | string _ | array _ => exact .inl ⟨rfl, fun _ _ => rfl⟩

/-- A path that goes on leads into an object. -/
theorem leafAt?_cons_eq_some : leafAt? (k :: p) v = some u ↔
    ∃ o w, v = .object o ∧ Assoc.get? k o = some w ∧ leafAt? p w = some u := by
  constructor
  · intro h
    cases v with
    | object o =>
      obtain ⟨w, hw, hu⟩ := Option.bind_eq_some_iff.1 h
      exact ⟨o, w, rfl, hw, hu⟩
    | null | bool _ | number _ | string _ | array _ => cases h
  · rintro ⟨o, w, rfl, hw, hu⟩
    rw [leafAt?_cons_object, hw]
    exact hu

/-- What stands at the end of a path is a leaf of itself, by the empty path and no other. -/
theorem leaf_of_leafAt? (h : leafAt? p v = some u) :
    leafAt? [] u = some u ∧ ∀ k q, leafAt? (k :: q) u = none := by
  induction p generalizing v with
  | nil =>
    rcases leaf_or_members v with hv | ⟨m, ms, rfl⟩
    · rw [hv.1] at h
      cases h
      exact hv
    · cases h
  | cons k p ih =>
    obtain ⟨o, w, -, -, hw⟩ := leafAt?_cons_eq_some.1 h
    exact ih hw

/-- No path to a leaf goes on to another. -/
theorem eq_of_above (hp : leafAt? p v = some u) (hq : leafAt? q v = some u') (h : p <+: q) :
    p = q := by
  induction p generalizing v q with
  | nil =>
    cases q with
    | nil => rfl
    | cons k q =>
      rcases leaf_or_members v with hv | ⟨m, ms, rfl⟩
      · rw [hv.2] at hq
        cases hq
      · cases hp
  | cons k p ih =>
    obtain ⟨t, rfl⟩ := h
    obtain ⟨o, w, rfl, hw, hp⟩ := leafAt?_cons_eq_some.1 hp
    rw [List.cons_append, leafAt?_cons_object, hw] at hq
    rw [List.cons_append, ← ih hp hq (List.prefix_append p t)]

/-- Every value has a leaf. -/
theorem exists_leaf (v : Value) : ∃ p u, leafAt? p v = some u := by
  match v with
  | .object [] => exact ⟨[], _, rfl⟩
  | .object ((k, v) :: ms) =>
    obtain ⟨p, u, h⟩ := exists_leaf v
    refine ⟨k :: p, u, ?_⟩
    rw [leafAt?_cons_object, Assoc.get?_cons, if_pos rfl]
    exact h
  | .null | .bool _ | .number _ | .string _ | .array _ => exact ⟨[], _, rfl⟩

/-! ### Values are determined by their leaves -/

theorem ordered_of_get? (ho : Value.OrderedMembers o) (h : Assoc.get? k o = some v) :
    v.Ordered :=
  Value.orderedMembers_iff.1 ho _ (Assoc.mem_of_get? h)

theorem ordered_of_leafAt? (hv : v.Ordered) (h : leafAt? p v = some u) : u.Ordered := by
  induction p generalizing v with
  | nil =>
    rcases leaf_or_members v with hleaf | ⟨m, ms, rfl⟩
    · rw [hleaf.1] at h
      cases h
      exact hv
    · cases h
  | cons k p ih =>
    obtain ⟨o, w, rfl, hw, hu⟩ := leafAt?_cons_eq_some.1 h
    exact ih (ordered_of_get? hv.2 hw) hu

/-- Objects with the same leaves have members under the same keys, with the same leaves. -/
theorem rel_of_leaves (h : ∀ p, p ≠ [] → leafAt? p (.object o) = leafAt? p (.object o'))
    (hv : Assoc.get? k o = some v) :
    ∃ v', Assoc.get? k o' = some v' ∧ ∀ p, leafAt? p v = leafAt? p v' := by
  have hk (p : List String) : leafAt? p v = (Assoc.get? k o').bind (leafAt? p) := by
    have hp := h (k :: p) (List.cons_ne_nil k p)
    rwa [leafAt?_cons_object, leafAt?_cons_object, hv, Option.bind_some] at hp
  obtain ⟨p, u, hu⟩ := exists_leaf v
  have hp := hk p
  rw [hu] at hp
  obtain ⟨v', hv', -⟩ := Option.bind_eq_some_iff.1 hp.symm
  refine ⟨v', hv', fun p => ?_⟩
  rw [hk p, hv', Option.bind_some]

/-- Objects in key order are the same if they have the same leaves, and so have to be the same
members. -/
theorem eq_of_leaves_members (ho : o.Ordered) (ho' : o'.Ordered)
    (h : ∀ p, p ≠ [] → leafAt? p (.object o) = leafAt? p (.object o'))
    (heq : ∀ k v v', Assoc.get? k o = some v → Assoc.get? k o' = some v' →
      (∀ p, leafAt? p v = leafAt? p v') → v = v') : o = o' := by
  apply Assoc.eq_of_get? ho.1 ho'.1
  intro k
  cases hv : Assoc.get? k o with
  | some v =>
    obtain ⟨v', hv', hleaves⟩ := rel_of_leaves h hv
    rw [hv', heq k v v' hv hv' hleaves]
  | none =>
    cases hv' : Assoc.get? k o' with
    | none => rfl
    | some v' =>
      obtain ⟨v, hsome, -⟩ := rel_of_leaves (fun p hp => (h p hp).symm) hv'
      rw [hv] at hsome
      cases hsome

/-- Values in key order with the same leaves are the same. -/
theorem eq_of_leaves (v v' : Value) (hv : v.Ordered) (hv' : v'.Ordered)
    (h : ∀ p, leafAt? p v = leafAt? p v') : v = v' := by
  have hnil := h []
  rcases leaf_or_members v with hleaf | ⟨m, ms, hms⟩
  · rcases leaf_or_members v' with hleaf' | ⟨m', ms', rfl⟩
    · rw [hleaf.1, hleaf'.1] at hnil
      exact Option.some.inj hnil
    · rw [hleaf.1] at hnil
      cases hnil
  · subst hms
    rcases leaf_or_members v' with hleaf' | ⟨m', ms', rfl⟩
    · rw [hleaf'.1] at hnil
      cases hnil
    · have ho := eq_of_leaves_members hv hv' (fun p _ => h p) fun k u u' hu hu' hleaves =>
        eq_of_leaves u u' (ordered_of_get? hv.2 hu) (ordered_of_get? hv'.2 hu') hleaves
      rw [ho]
termination_by sizeOf v
decreasing_by
  have hmem := List.sizeOf_lt_of_mem (Assoc.mem_of_get? hu)
  subst hms
  simp at hmem ⊢
  omega

/-- Objects in key order with the same leaves below them are the same. -/
theorem eq_of_leaves_object (ho : o.Ordered) (ho' : o'.Ordered)
    (h : ∀ p, p ≠ [] → leafAt? p (.object o) = leafAt? p (.object o')) : o = o' :=
  eq_of_leaves_members ho ho' h fun _ v v' hv hv' hleaves =>
    eq_of_leaves v v' (ordered_of_get? ho.2 hv) (ordered_of_get? ho'.2 hv') hleaves

/-! ### Putting leaves in place -/

/-- No leaf of an object stands on the way to the end of a path, at it, or beyond it. -/
def Free (p : List String) (o : Object) : Prop :=
  ∀ q u, q ≠ [] → leafAt? q (.object o) = some u → ¬ q <+: p ∧ ¬ p <+: q

theorem free_nil : Free p [] := by
  intro q u hq h
  cases q with
  | nil => exact absurd rfl hq
  | cons k q => cases h

/-- Where a path is free there is nothing at its first name, or an object with members, in which
the rest of the path is free. -/
theorem Free.first (h : Free (k :: p) o) : Assoc.get? k o = none ∨
    ∃ n, Assoc.get? k o = some (.object n) ∧ n ≠ [] ∧ p ≠ [] ∧ Free p n := by
  cases hv : Assoc.get? k o with
  | none => exact .inl rfl
  | some v =>
    have hbelow {q u} (hu : leafAt? q v = some u) : ¬ k :: q <+: k :: p ∧ ¬ k :: p <+: k :: q := by
      refine h (k :: q) u (List.cons_ne_nil k q) ?_
      rw [leafAt?_cons_object, hv]
      exact hu
    rcases leaf_or_members v with hleaf | ⟨m, ms, rfl⟩
    · exact absurd (List.cons_prefix_cons.2 ⟨rfl, List.nil_prefix⟩) (hbelow hleaf.1).1
    · refine .inr ⟨m :: ms, rfl, List.cons_ne_nil m ms, ?_, fun q u _ hu => ?_⟩
      · rintro rfl
        obtain ⟨q, u, hu⟩ := exists_leaf (.object (m :: ms))
        exact (hbelow hu).2 (List.cons_prefix_cons.2 ⟨rfl, List.nil_prefix⟩)
      · obtain ⟨h₁, h₂⟩ := hbelow hu
        exact ⟨fun hq => h₁ (List.cons_prefix_cons.2 ⟨rfl, hq⟩),
          fun hq => h₂ (List.cons_prefix_cons.2 ⟨rfl, hq⟩)⟩

theorem orderedMembers_insert (ho : Value.OrderedMembers o) (hv : v.Ordered) :
    Value.OrderedMembers (Assoc.insert k v o) := by
  induction o with
  | nil => exact ⟨hv, trivial⟩
  | cons m ms ih =>
    obtain ⟨k', v'⟩ := m
    rw [Assoc.insert]
    split
    · exact ⟨hv, ho⟩
    · exact ⟨hv, ho.2⟩
    · exact ⟨ho.1, ih ho.2⟩

theorem ordered_insert (ho : o.Ordered) (hv : v.Ordered) :
    Object.Ordered (Assoc.insert k v o) :=
  ⟨Assoc.ordered_insert ho.1, orderedMembers_insert ho.2 hv⟩

theorem insert_ne_nil : Assoc.insert k v o ≠ [] := by
  cases o with
  | nil => exact List.cons_ne_nil _ _
  | cons m ms =>
    obtain ⟨k', v'⟩ := m
    rw [Assoc.insert]
    split <;> exact List.cons_ne_nil _ _

/-- What an object is after a leaf has been put at a path. -/
structure PutAt (p : List String) (u : Value) (o o' : Object) : Prop where
  ordered : o'.Ordered
  members : o' ≠ []
  leafAt?_eq : ∀ q, q ≠ [] →
    leafAt? q (.object o') = if q = p then some u else leafAt? q (.object o)

/-- A leaf that is put below a member is put below the object. -/
theorem PutAt.below {n n' : Object} (h : PutAt p u n n') (ho : o.Ordered) (hp : p ≠ [])
    (hn : ∀ q, q ≠ [] → leafAt? (k :: q) (.object o) = leafAt? q (.object n))
    (hk : leafAt? [k] (.object o) = none) :
    PutAt (k :: p) u o (Assoc.insert k (.object n') o) := by
  refine ⟨ordered_insert ho h.ordered, insert_ne_nil, fun q hq => ?_⟩
  obtain ⟨k', q, rfl⟩ := List.exists_cons_of_ne_nil hq
  rw [leafAt?_cons_object, Assoc.get?_insert]
  by_cases hkk : k' = k
  · subst hkk
    rw [if_pos rfl, Option.bind_some]
    by_cases hnil : q = []
    · subst hnil
      rw [leafAt?_nil_object h.members, if_neg (by simpa using hp.symm), hk]
    · rw [h.leafAt?_eq q hnil, hn q hnil]
      simp
  · rw [if_neg hkk, if_neg (by simp [hkk]), leafAt?_cons_object]

/-- A leaf can be put at a path that is free. -/
theorem insertPath_of_free (hp : p ≠ []) (ho : o.Ordered) (hu : u.Ordered)
    (hleaf : leafAt? [] u = some u ∧ ∀ k q, leafAt? (k :: q) u = none) (h : Free p o) :
    ∃ o', insertPath p u o = some o' ∧ PutAt p u o o' := by
  induction p generalizing o with
  | nil => exact absurd rfl hp
  | cons k p ih =>
    cases p with
    | nil =>
      -- The last name: it is free, so no leaf stands at it or below.
      rcases h.first with hnone | ⟨n, -, -, hne, -⟩
      · refine ⟨Assoc.insert k u o, ?_, ordered_insert ho hu, insert_ne_nil, fun q hq => ?_⟩
        · rw [insertPath, hnone]
        · obtain ⟨k', q, rfl⟩ := List.exists_cons_of_ne_nil hq
          rw [leafAt?_cons_object, Assoc.get?_insert]
          by_cases hkk : k' = k
          · subst hkk
            rw [if_pos rfl, Option.bind_some, leafAt?_cons_object, hnone, Option.bind_none]
            cases q with
            | nil => rw [if_pos rfl, hleaf.1]
            | cons l q => rw [if_neg (by simp), hleaf.2]
          · rw [if_neg hkk, if_neg (by simp [hkk]), leafAt?_cons_object]
      · exact absurd rfl hne
    | cons l p =>
      rcases h.first with hnone | ⟨n, hn, hne, -, hfree⟩
      · -- A free name gets an object of its own, in which the rest of the path is free.
        obtain ⟨n', hn', hput⟩ := ih (List.cons_ne_nil l p) ⟨Assoc.ordered_nil, trivial⟩ free_nil
        refine ⟨Assoc.insert k (.object n') o, ?_, hput.below ho (List.cons_ne_nil l p) ?_ ?_⟩
        · rw [insertPath, hnone]
          dsimp only
          rw [hn']
          rfl
        · intro q hq
          obtain ⟨k', q, rfl⟩ := List.exists_cons_of_ne_nil hq
          rw [leafAt?_cons_object, hnone]
          rfl
        · rw [leafAt?_cons_object, hnone]
          rfl
      · -- The rest of the path is free in the object that is there.
        obtain ⟨n', hn', hput⟩ := ih (List.cons_ne_nil l p) (ordered_of_get? ho.2 hn) hfree
        refine ⟨Assoc.insert k (.object n') o, ?_, hput.below ho (List.cons_ne_nil l p) ?_ ?_⟩
        · rw [insertPath, hn]
          dsimp only
          rw [hn']
          rfl
        · intro q _
          rw [leafAt?_cons_object, hn, Option.bind_some]
        · rw [leafAt?_cons_object, hn, Option.bind_some, leafAt?_nil_object hne]

end Depot.Config
