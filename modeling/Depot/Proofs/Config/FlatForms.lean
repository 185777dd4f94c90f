import Depot.Proofs.Config.Flattening
/-!
# Flat forms

Flattening accepts a configuration exactly if every key on a way through objects is a segment. Its
results are the flat maps whose paths are made of segments, none on the way to another, with leaves
for values; and expanding undoes it in both directions.
-/

namespace Depot.Config

open Json

variable {v u : Value} {o flat : Object} {k s t : String} {p : List String}

/-! ### Segments -/

theorem isSegment_iff : isSegment s = true ↔ s ≠ "" ∧ '.' ∉ s.toList := by
  simp [isSegment]

/-- The segments of a path make it up. -/
theorem joinPath_splitPath (s : String) : joinPath (splitPath s) = s := by
  apply String.toList_injective
  unfold joinPath splitPath
  rw [String.toList_intercalate, splitDots_eq_splitOn, List.map_map]
  simp [Function.comp_def]

theorem dot_notMem_of_mem_splitDots {cs ds : List Char} (h : ds ∈ splitDots cs) : '.' ∉ ds := by
  induction cs generalizing ds with
  | nil =>
    rw [List.mem_singleton.1 h]
    exact List.not_mem_nil
  | cons c cs ih =>
    rw [splitDots] at h
    split at h
    · rcases List.mem_cons.1 h with rfl | h
      · exact List.not_mem_nil
      · exact ih h
    · next hc =>
      cases hs : splitDots cs with
      | nil =>
        rw [hs] at h
        rw [List.mem_singleton.1 h, List.mem_singleton]
        exact Ne.symm hc
      | cons d ds' =>
        rw [hs] at h ih
        rcases List.mem_cons.1 h with rfl | h
        · rw [List.mem_cons, not_or]
          exact ⟨Ne.symm hc, ih List.mem_cons_self⟩
        · exact ih (List.mem_cons_of_mem _ h)

theorem isSegment_of_mem_splitPath (h : t ∈ splitPath s) (hne : t ≠ "") : isSegment t = true := by
  obtain ⟨cs, hcs, rfl⟩ := List.mem_map.1 h
  rw [isSegment_iff, String.toList_ofList]
  exact ⟨hne, dot_notMem_of_mem_splitDots hcs⟩

/-! ### What can be flattened -/

/-- The objects that can be reached from an object through members that are objects. -/
inductive Reaches (o : Object) : Object → Prop
  | here : Reaches o o
  | member {x n : Object} {k : String} (way : Reaches o x) (mem : (k, .object n) ∈ x) : Reaches o n

theorem Reaches.of_member {n x : Object} (hm : (k, .object n) ∈ o) (h : Reaches n x) :
    Reaches o x := by
  induction h with
  | here => exact .member .here hm
  | member _ hmem ih => exact .member ih hmem

theorem portableMembers_iff :
    PortableMembers o ↔ ∀ e ∈ o, isSegment e.1 = true ∧ Portable e.2 := by
  induction o with
  | nil => exact ⟨fun _ => nofun, fun _ => trivial⟩
  | cons m ms ih =>
    rw [List.forall_mem_cons, ← ih]
    exact and_assoc.symm

mutual

theorem portable_of_reaches (v : Value)
    (h : ∀ n x, v = .object n → Reaches n x → ∀ e ∈ x, isSegment e.1 = true) : Portable v := by
  match v with
  | .object ms =>
    refine portableMembers_of_reaches ms (h ms ms rfl .here) fun e he n x hn hx => ?_
    obtain ⟨k, v⟩ := e
    subst hn
    exact h ms x rfl (hx.of_member he)
  | .null | .bool _ | .number _ | .string _ | .array _ => exact trivial

theorem portableMembers_of_reaches (ms : List (String × Value))
    (hk : ∀ e ∈ ms, isSegment e.1 = true)
    (h : ∀ e ∈ ms, ∀ n x, e.2 = .object n → Reaches n x → ∀ e' ∈ x, isSegment e'.1 = true) :
    PortableMembers ms := by
  match ms with
  | [] => exact trivial
  | (k, v) :: ms =>
    obtain ⟨hk, hks⟩ := List.forall_mem_cons.1 hk
    obtain ⟨hv, hvs⟩ := List.forall_mem_cons.1 h
    exact ⟨hk, portable_of_reaches v hv, portableMembers_of_reaches ms hks hvs⟩

end

/-- Every key on a way through objects is a segment if every key of every object that can be reached
is. -/
theorem portable_iff :
    Portable (.object o) ↔ ∀ x, Reaches o x → ∀ e ∈ x, isSegment e.1 = true := by
  constructor
  · intro h x hx
    have hx' : PortableMembers x := by
      induction hx with
      | here => exact h
      | member _ hmem ih => exact (portableMembers_iff.1 ih _ hmem).2
    exact fun e he => (portableMembers_iff.1 hx' e he).1
  · intro h
    refine portable_of_reaches _ fun n x hn => ?_
    cases hn
    exact h x

mutual

theorem portable_of_memberLeaves (k : String) (v : Value) {ls : List (List String × Value)}
    (h : memberLeaves k v = .ok ls) : Portable v := by
  match v with
  | .object (m :: ms) =>
    obtain ⟨ls', hls, -⟩ := memberLeaves_eq_ok h
    exact portable_of_leaves (m :: ms) hls
  | .object [] | .null | .bool _ | .number _ | .string _ | .array _ => exact trivial

theorem portable_of_leaves (ms : List (String × Value)) {ls : List (List String × Value)}
    (h : leaves ms = .ok ls) : PortableMembers ms := by
  match ms with
  | [] => exact trivial
  | (k, v) :: ms =>
    obtain ⟨hk, first, rest, hfirst, hrest, -⟩ := leaves_cons_eq_ok h
    exact ⟨hk, portable_of_memberLeaves k v hfirst, portable_of_leaves ms hrest⟩

end

/-- A configuration can be flattened exactly if every key on a way through objects can be a
segment. -/
theorem flatten_ok_iff : (∃ flat, flatten o = .ok flat) ↔ Portable (.object o) := by
  constructor
  · rintro ⟨flat, h⟩
    rw [flatten] at h
    obtain ⟨ls, hls, -⟩ := Result.map_eq_ok.1 h
    exact portable_of_leaves o hls
  · exact flatten_ok

/-! ### What comes of it -/

/-- A flat map that is the form of some configuration: its paths are made of segments, no path is on
the way to another, and no value is an object with members. -/
structure IsFlat (flat : Object) : Prop where
  ordered : flat.Ordered
  segments : ∀ e ∈ flat, ∀ s ∈ splitPath e.1, s ≠ ""
  apart : ∀ e ∈ flat, ∀ e' ∈ flat,
    splitPath e.1 <+: splitPath e'.1 → splitPath e.1 = splitPath e'.1
  leaf : ∀ e ∈ flat, ∀ m ms, e.2 ≠ .object (m :: ms)

theorem leafAt?_nil_iff : leafAt? [] v = some v ↔ ∀ m ms, v ≠ .object (m :: ms) := by
  rcases leaf_or_members v with ⟨hleaf, -⟩ | ⟨m, ms, rfl⟩
  · refine ⟨?_, fun _ => hleaf⟩
    rintro - m ms rfl
    cases hleaf
  · exact ⟨nofun, fun h => absurd rfl (h m ms)⟩

/-- The keys on the way to a leaf are segments. -/
theorem isSegment_of_leafAt? (hv : Portable v) (h : leafAt? p v = some u) :
    ∀ s ∈ p, isSegment s = true := by
  induction p generalizing v with
  | nil => exact nofun
  | cons k p ih =>
    obtain ⟨o, w, rfl, hw, hu⟩ := leafAt?_cons_eq_some.1 h
    obtain ⟨hk, hw⟩ := portableMembers_iff.1 hv _ (Assoc.mem_of_get? hw)
    exact List.forall_mem_cons.2 ⟨hk, ih hw hu⟩

theorem ordered_flatten (h : flatten o = .ok flat) : Assoc.Ordered flat := by
  rw [flatten] at h
  obtain ⟨ls, -, rfl⟩ := Result.map_eq_ok.1 h
  exact Assoc.ordered_insertAll Assoc.ordered_nil

theorem isFlat_flatten (ho : o.Ordered) (h : flatten o = .ok flat) : IsFlat flat := by
  have hlists := lists_of_flatten ho h
  have hportable : Portable (.object o) := flatten_ok_iff.1 ⟨flat, h⟩
  constructor
  case ordered =>
    refine ⟨ordered_flatten h, Value.orderedMembers_iff.2 fun e he => ?_⟩
    exact ordered_of_leafAt? ho (hlists.entry e he)
  case segments =>
    intro e he s hs
    exact (isSegment_iff.1 (isSegment_of_leafAt? hportable (hlists.entry e he) s hs)).1
  case apart =>
    intro e he e' he'
    exact eq_of_above (hlists.entry e he) (hlists.entry e' he')
  case leaf =>
    intro e he
    exact leafAt?_nil_iff.1 (leaf_of_leafAt? (hlists.entry e he)).1

/-- Keys in order are different, and so are the paths that they are split into. -/
theorem IsFlat.pairwise_apart (h : IsFlat flat) :
    flat.Pairwise fun e e' => Apart (splitPath e.1) (splitPath e'.1) := by
  refine h.ordered.1.imp_of_mem fun {e e'} he he' hlt => ?_
  have hne : splitPath e.1 ≠ splitPath e'.1 := by
    intro heq
    have hkeys : e.1 = e'.1 := by
      rw [← joinPath_splitPath e.1, heq, joinPath_splitPath]
    rw [hkeys] at hlt
    simp at hlt
  exact ⟨fun hp => hne (h.apart e he e' he' hp), fun hp => hne (h.apart e' he' e he hp).symm⟩

/-- Every key of an object is the first on the way to a leaf, so its keys are segments if those on
the ways to leaves are. -/
theorem portable_of_leafAt? (v : Value) (hv : v.Ordered)
    (h : ∀ p u, leafAt? p v = some u → ∀ s ∈ p, isSegment s = true) : Portable v := by
  match v with
  | .object ms =>
    refine portableMembers_of_reaches ms (fun e he => ?_) fun e he n x hn hx => ?_
    · obtain ⟨p, u, hu⟩ := exists_leaf e.2
      refine h (e.1 :: p) u ?_ e.1 List.mem_cons_self
      rw [leafAt?_cons_object, Assoc.get?_of_mem hv.1 he, Option.bind_some, hu]
    · have hbelow : Portable e.2 := portable_of_leafAt? e.2 (Value.orderedMembers_iff.1 hv.2 e he)
        fun p u hu s hs => by
          refine h (e.1 :: p) u ?_ s (List.mem_cons_of_mem _ hs)
          rw [leafAt?_cons_object, Assoc.get?_of_mem hv.1 he, Option.bind_some, hu]
      rw [hn] at hbelow
      exact portable_iff.1 hbelow x hx
  | .null | .bool _ | .number _ | .string _ | .array _ => exact trivial
termination_by sizeOf v
decreasing_by
  have hmem := List.sizeOf_lt_of_mem he
  obtain ⟨k, v⟩ := e
  simp at hmem ⊢
  omega

/-- A flat map of the right form is expanded, and what it is expanded to is flattened to it. -/
theorem IsFlat.flatten_expand (h : IsFlat flat) :
    ∃ o, o.Ordered ∧ expand flat = .ok o ∧ flatten o = .ok flat := by
  obtain ⟨o, ho, hordered, hleaves⟩ := expand_of_apart (fun e he =>
    ⟨leafAt?_nil_iff.2 (h.leaf e he), Value.orderedMembers_iff.1 h.ordered.2 e he⟩) h.pairwise_apart
  have hportable : Portable (.object o) := by
    refine portable_of_leafAt? _ hordered fun p u hu s hs => ?_
    obtain ⟨e, he, rfl, -⟩ := (hleaves p u (List.ne_nil_of_mem hs)).1 hu
    exact isSegment_of_mem_splitPath hs (h.segments e he s hs)
  obtain ⟨flat', hflat'⟩ := flatten_ok hportable
  have hlists := lists_of_flatten hordered hflat'
  refine ⟨o, hordered, ho, ?_⟩
  -- Both maps list the leaves of one configuration, and a path is the text of its segments.
  have heq : flat' = flat := by
    refine eq_of_ascending_by Prod.fst (ordered_flatten hflat') h.ordered.1 fun e => ?_
    have hiff : leafAt? (splitPath e.1) (.object o) = some e.2 ↔ e ∈ flat := by
      rw [hleaves _ _ (splitPath_ne_nil e.1)]
      constructor
      · rintro ⟨e', he', hpath, hvalue⟩
        have hkey : e'.1 = e.1 := by
          rw [← joinPath_splitPath e'.1, hpath, joinPath_splitPath]
        rwa [← Prod.ext hkey hvalue]
      · intro he
        exact ⟨e, he, rfl, rfl⟩
    rw [← hiff]
    constructor
    · exact hlists.entry e
    · intro hleaf
      obtain ⟨e', he', hpath, hvalue⟩ := hlists.leaf _ _ (splitPath_ne_nil e.1) hleaf
      have hkey : e'.1 = e.1 := by
        rw [← joinPath_splitPath e'.1, hpath, joinPath_splitPath]
      rwa [← Prod.ext hkey hvalue]
  rw [hflat', heq]

/-- A configuration can be flattened exactly if no key of an object that can be reached through
objects is empty or holds a dot. The flat form then has the shape `IsFlat` and is expanded to what
it was made from; and every flat map of that shape is expanded, to a configuration of which it is
the flat form. -/
theorem flattening_bijective :
    (∀ o : Object, (∃ flat, flatten o = .ok flat) ↔
      ∀ x, Reaches o x → ∀ e ∈ x, e.1 ≠ "" ∧ '.' ∉ e.1.toList) ∧
    (∀ o flat : Object, o.Ordered → flatten o = .ok flat →
      IsFlat flat ∧ expand flat = .ok o) ∧
    (∀ flat : Object, IsFlat flat →
      ∃ o, o.Ordered ∧ expand flat = .ok o ∧ flatten o = .ok flat) := by
  refine ⟨fun o => ?_, fun o flat ho h => ?_, fun flat h => h.flatten_expand⟩
  · rw [flatten_ok_iff, portable_iff]
    simp only [isSegment_iff]
  · exact ⟨isFlat_flatten ho h, expand_flatten ho h⟩

/-- A dot comes after some other characters, so that a sibling may stand before the leaves of a
member whose key it goes on. -/
example : (flatten [("a", .object [("b", .null)]), ("a!", .null)]).toOption =
    some [("a!", .null), ("a.b", .null)] := by
  decide +kernel

end Depot.Config
