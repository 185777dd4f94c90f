import Depot.Proofs.Config.Expanding
import Depot.Proofs.Config.Merging
/-!
# Overlays, path by path

What stands at the end of a path after an overlay has been laid over a base: what the overlay has
there, laid over what the base has there; nothing, if the path passes a value of the overlay that is
no object; and what the base has there, if the overlay has nothing to say. An overlay can be laid on
twice as well as once, and keys that can be segments of paths stay such.
-/

namespace Depot.Config

open Json

variable {base overlay o : Object} {b : Option Value} {v u : Value} {k : String} {p : List String}

/-- Under nothing, an overlay is what it is. -/
@[simp] theorem mergeValue_none (v : Value) : mergeValue none v = v := by
  cases v <;> rfl

/-- What is no object takes the place of what was there. -/
theorem mergeValue_of_ne_object (hv : ∀ o, v ≠ .object o) : mergeValue b v = v := by
  cases v with
  | object o => exact absurd rfl (hv o)
  | null | bool _ | number _ | string _ | array _ => rfl

/-- An object takes the place of what is no object. -/
theorem mergeValue_object (hb : ∀ o, b ≠ some (.object o)) (o : Object) :
    mergeValue b (.object o) = .object o := by
  unfold mergeValue
  split
  · next o' => exact absurd rfl (hb o')
  · rfl

/-! ### Values at the ends of paths -/

/-- A path passes something that is no object. -/
def Blocked (p : List String) (v : Value) : Prop :=
  ∃ q u, q <+: p ∧ q ≠ p ∧ follow? q v = some u ∧ ∀ o, u ≠ .object o

/-- The members at the end of a path: none unless an object stands there. -/
def membersAlong (p : List String) (o : Object) : Object :=
  ((follow? p (.object o)).bind Value.object?).getD []

theorem not_blocked_nil : ¬ Blocked [] v := by
  rintro ⟨q, u, hq, hne, -⟩
  exact hne (List.prefix_nil.1 hq)

/-- What is no object blocks every path through it. -/
theorem blocked_cons_of_ne_object (hv : ∀ o, v ≠ .object o) : Blocked (k :: p) v :=
  ⟨[], v, List.nil_prefix, nofun, follow?_nil v, hv⟩

/-- In an object the rest of a path is blocked by what stands under the first key. -/
theorem blocked_cons_object :
    Blocked (k :: p) (.object o) ↔ ∃ v, Assoc.get? k o = some v ∧ Blocked p v := by
  constructor
  · rintro ⟨q, u, hq, hne, hu, hobject⟩
    cases q with
    | nil =>
      rw [follow?_nil] at hu
      cases hu
      exact absurd rfl (hobject o)
    | cons l q =>
      obtain ⟨rfl, hqp⟩ := List.cons_prefix_cons.1 hq
      rw [follow?_cons_object] at hu
      obtain ⟨v, hv, hu⟩ := Option.bind_eq_some_iff.1 hu
      exact ⟨v, hv, q, u, hqp, fun heq => hne (heq ▸ rfl), hu, hobject⟩
  · rintro ⟨v, hv, q, u, hq, hne, hu, hobject⟩
    refine ⟨k :: q, u, List.cons_prefix_cons.2 ⟨rfl, hq⟩, by simpa using hne, ?_, hobject⟩
    rw [follow?_cons_object, hv]
    exact hu

theorem follow?_cons_of_ne_object (hv : ∀ o, v ≠ .object o) : follow? (k :: p) v = none := by
  cases v with
  | object o => exact absurd rfl (hv o)
  | null | bool _ | number _ | string _ | array _ => rfl

/-- At the end of a path that is blocked stands nothing. -/
theorem follow?_of_blocked (h : Blocked p v) : follow? p v = none := by
  induction p generalizing v with
  | nil => exact absurd h not_blocked_nil
  | cons k p ih =>
    cases v with
    | object o =>
      obtain ⟨w, hw, hblocked⟩ := blocked_cons_object.1 h
      rw [follow?_cons_object, hw]
      exact ih hblocked
    | null | bool _ | number _ | string _ | array _ => rfl

theorem ordered_of_follow? (hv : v.Ordered) (h : follow? p v = some u) : u.Ordered := by
  induction p generalizing v with
  | nil =>
    rw [follow?_nil] at h
    exact Option.some.inj h ▸ hv
  | cons k p ih =>
    cases v with
    | object o =>
      rw [follow?_cons_object] at h
      obtain ⟨w, hw, hu⟩ := Option.bind_eq_some_iff.1 h
      exact ih (ordered_of_get? hv.2 hw) hu
    | null | bool _ | number _ | string _ | array _ => cases h

open Classical in
/-- What stands at the end of a path in a value that has been laid over another. -/
theorem follow?_mergeValue (hv : v.Ordered) (b : Option Value) (p : List String) :
    follow? p (mergeValue b v) =
      match follow? p v with
      | some u => some (mergeValue (b.bind (follow? p)) u)
      | none   => if Blocked p v then none else b.bind (follow? p) := by
  induction p generalizing b v with
  | nil =>
    have hself : b.bind (follow? []) = b := by cases b <;> simp
    rw [follow?_nil, follow?_nil, hself]
  | cons k p ih =>
    by_cases hobject : ∃ o, v = .object o
    · obtain ⟨o, rfl⟩ := hobject
      rw [follow?_cons_object]
      by_cases hb : ∃ bo, b = some (.object bo)
      · obtain ⟨bo, rfl⟩ := hb
        rw [mergeValue, follow?_cons_object, get?_mergeMembers hv.1, Option.bind_some,
          follow?_cons_object]
        cases hk : Assoc.get? k o with
        | none =>
          have hblocked : ¬ Blocked (k :: p) (.object o) := by
            simp [blocked_cons_object, hk]
          dsimp only [Option.bind_none]
          rw [if_neg hblocked]
        | some u =>
          have hblocked : Blocked (k :: p) (.object o) ↔ Blocked p u := by
            simp [blocked_cons_object, hk]
          dsimp only [Option.bind_some]
          simp only [hblocked]
          exact ih (ordered_of_get? hv.2 hk) (Assoc.get? k bo)
      · -- There is nothing below the base, and the overlay stands as it is.
        have hnone : b.bind (follow? (k :: p)) = none := by
          cases b with
          | none => rfl
          | some u => exact follow?_cons_of_ne_object fun o h => hb ⟨o, h ▸ rfl⟩
        rw [mergeValue_object (fun o h => hb ⟨o, h⟩), follow?_cons_object, hnone]
        cases (Assoc.get? k o).bind (follow? p) <;> simp
    · have hobject : ∀ o, v ≠ .object o := fun o h => hobject ⟨o, h⟩
      rw [mergeValue_of_ne_object hobject, follow?_cons_of_ne_object hobject,
        if_pos (blocked_cons_of_ne_object hobject)]

/-! ### Laying an overlay on again -/

/-- An overlay that has been laid on is laid on again without effect if each of its values is. -/
theorem mergeMembers_again_of_forall (hbase : base.Ordered) (ho : Assoc.Ordered o)
    (h : ∀ m ∈ o, ∀ b : Option Value, (∀ u, b = some u → u.Ordered) →
      mergeValue (some (mergeValue b m.2)) m.2 = mergeValue b m.2) :
    mergeMembers (mergeMembers base o) o = mergeMembers base o := by
  apply Assoc.eq_of_get? (ordered_mergeMembers (ordered_mergeMembers hbase.1 o) o)
    (ordered_mergeMembers hbase.1 o)
  intro k
  rw [get?_mergeMembers ho]
  cases hv : Assoc.get? k o with
  | none => rfl
  | some v =>
    dsimp only
    rw [get?_mergeMembers ho, hv]
    exact congrArg some (h (k, v) (Assoc.mem_of_get? hv) _ fun _ hu => ordered_of_get? hbase.2 hu)

mutual

/-- A value that has been laid over another is laid on again without effect. -/
theorem mergeValue_again (b : Option Value) (v : Value) (hb : ∀ u, b = some u → u.Ordered)
    (hv : v.Ordered) : mergeValue (some (mergeValue b v)) v = mergeValue b v := by
  match v with
  | .null | .bool _ | .number _ | .string _ | .array _ => rfl
  | .object ms =>
    by_cases hobject : ∃ bo, b = some (.object bo)
    · obtain ⟨bo, rfl⟩ := hobject
      have hbo : Object.Ordered bo := hb _ rfl
      simp only [mergeValue]
      rw [mergeMembers_again_of_forall hbo hv.1 (forall_mergeValue_again ms hv.2)]
    · rw [mergeValue_object fun bo h => hobject ⟨bo, h⟩]
      exact mergeValue_self (.object ms) hv

theorem forall_mergeValue_again (ms : List (String × Value)) (hms : Value.OrderedMembers ms) :
    ∀ m ∈ ms, ∀ b : Option Value, (∀ u, b = some u → u.Ordered) →
      mergeValue (some (mergeValue b m.2)) m.2 = mergeValue b m.2 := by
  match ms with
  | [] => exact nofun
  | (_, v) :: ms =>
    exact List.forall_mem_cons.2
      ⟨fun b hb => mergeValue_again b v hb hms.1, forall_mergeValue_again ms hms.2⟩

end

/-- Laid over nothing, an overlay is what it is. -/
theorem merge_nil (ho : o.Ordered) : merge [] o = o := by
  apply Assoc.eq_of_get? (ordered_mergeMembers Assoc.ordered_nil o) ho.1
  intro k
  rw [get?_mergeMembers ho.1]
  cases Assoc.get? k o <;> simp

/-- An overlay is laid on a second time without effect. -/
theorem merge_again (hb : base.Ordered) (ho : overlay.Ordered) :
    merge (merge base overlay) overlay = merge base overlay :=
  mergeMembers_again_of_forall hb ho.1 (forall_mergeValue_again overlay ho.2)

/-- An object is laid over the members that stand in its place. -/
theorem mergeValue_object_eq_merge (ho : o.Ordered) (b : Option Value) :
    mergeValue b (.object o) = .object (merge ((b.bind Value.object?).getD []) o) := by
  by_cases hobject : ∃ bo, b = some (.object bo)
  · obtain ⟨bo, rfl⟩ := hobject
    rfl
  · have hnone : b.bind Value.object? = none := by
      cases b with
      | none => rfl
      | some u =>
        cases u with
        | object bo => exact absurd ⟨bo, rfl⟩ hobject
        | null | bool _ | number _ | string _ | array _ => rfl
    rw [mergeValue_object fun bo h => hobject ⟨bo, h⟩, hnone, Option.getD_none, merge_nil ho]

/-! ### Keys in overlays -/

mutual

/-- A value whose keys can be segments, laid over another such value, is such a value. -/
theorem portable_mergeValue (b : Option Value) (v : Value) (hb : ∀ u, b = some u → Portable u)
    (hv : Portable v) : Portable (mergeValue b v) := by
  match v with
  | .null | .bool _ | .number _ | .string _ | .array _ => exact hv
  | .object ms =>
    unfold mergeValue
    split
    · next bo => exact portable_mergeMembers bo ms (hb _ rfl) hv
    · exact hv

theorem portable_mergeMembers (base : Object) (ms : List (String × Value))
    (hbase : PortableMembers base) (hms : PortableMembers ms) :
    PortableMembers (mergeMembers base ms) := by
  match ms with
  | [] => exact hbase
  | (k, v) :: ms =>
    obtain ⟨hk, hv, hms⟩ := hms
    refine portable_mergeMembers _ ms (portableMembers_iff.2 fun e he => ?_) hms
    rcases Assoc.mem_insert_imp he with rfl | he
    · refine ⟨hk, portable_mergeValue _ v (fun u hu => ?_) hv⟩
      exact (portableMembers_iff.1 hbase _ (Assoc.mem_of_get? hu)).2
    · exact portableMembers_iff.1 hbase e he

end

/-! ### All laws -/

/-- An overlay is laid over a base path by path. At the end of a path stands what the overlay has
there, if that is no object; if it is one, an object in which it is laid over the members that the
base has there; nothing, if the path passes something in the overlay that is no object; and else
what the base has there. So nothing is laid on without effect, an overlay is what it is when laid
over nothing, and laying something over itself or laying it on a second time changes nothing. Where
both can be flattened, so can the outcome. -/
theorem merge_pathwise (hb : base.Ordered) (ho : overlay.Ordered) :
    (∀ p,
      (∀ v, follow? p (.object overlay) = some v → (∀ o, v ≠ .object o) →
        follow? p (.object (merge base overlay)) = some v) ∧
      (∀ o, follow? p (.object overlay) = some (.object o) →
        follow? p (.object (merge base overlay)) = some (.object (merge (membersAlong p base) o))) ∧
      (Blocked p (.object overlay) → follow? p (.object (merge base overlay)) = none) ∧
      (follow? p (.object overlay) = none → ¬ Blocked p (.object overlay) →
        follow? p (.object (merge base overlay)) = follow? p (.object base))) ∧
      merge base [] = base ∧ merge [] overlay = overlay ∧ merge base base = base ∧
      merge (merge base overlay) overlay = merge base overlay ∧
      ((∃ flat, flatten base = .ok flat) → (∃ flat, flatten overlay = .ok flat) →
        ∃ flat, flatten (merge base overlay) = .ok flat) := by
  refine ⟨fun p => ?_, rfl, merge_nil ho, merge_self hb, merge_again hb ho, fun hbase hover => ?_⟩
  · -- All four cases are read off one equation.
    have hmerged : follow? p (.object (merge base overlay)) = _ :=
      follow?_mergeValue (v := .object overlay) ho (some (.object base)) p
    rw [Option.bind_some] at hmerged
    refine ⟨fun v hv hne => ?value, fun o hv => ?members, fun hblocked => ?passed,
      fun hnone hblocked => ?kept⟩
    case value =>
      rw [hmerged, hv]
      exact congrArg some (mergeValue_of_ne_object hne)
    case members =>
      rw [hmerged, hv]
      have ho : Object.Ordered o := ordered_of_follow? (v := .object overlay) ho hv
      exact congrArg some (mergeValue_object_eq_merge ho _)
    case passed => rw [hmerged, follow?_of_blocked hblocked, if_pos hblocked]
    case kept => rw [hmerged, hnone, if_neg hblocked]
  · rw [flatten_ok_iff] at hbase hover ⊢
    exact portable_mergeMembers base overlay hbase hover

/-- Settings of a user over the settings of a service: an address is replaced, a table of limits is
gone into, and a table that takes the place of a number is taken as it is. -/
theorem merge_pathwise_settings :
    let base : Object := [("host", .string "localhost"),
      ("limits", .object [("depth", .number (.ofUInt64 3)), ("size", .number (.ofUInt64 10))])]
    let overlay : Object := [("host", .string "example"),
      ("limits", .object [("depth", .object [("most", .number (.ofUInt64 5))])])]
    let merged : Value := .object (merge base overlay)
    follow? ["limits", "depth", "most"] merged = some (.number (.ofUInt64 5)) ∧
      follow? ["limits", "size"] merged = some (.number (.ofUInt64 10)) ∧
      follow? ["host", "name"] merged = none := by
  intro base overlay merged
  have hb : Object.Ordered base := by decide +kernel
  have ho : Object.Ordered overlay := by decide +kernel
  have hpathwise := (merge_pathwise hb ho).1
  refine ⟨?_, ?_, ?_⟩
  · exact (hpathwise ["limits", "depth", "most"]).1 _ rfl (by simp)
  · exact (hpathwise ["limits", "size"]).2.2.2 rfl
      (by simp [overlay, blocked_cons_object, Assoc.get?])
  · have hname : Blocked ["name"] (.string "example") := blocked_cons_of_ne_object (by simp)
    exact (hpathwise ["host", "name"]).2.2.1 (blocked_cons_object.2 ⟨_, rfl, hname⟩)

end Depot.Config
