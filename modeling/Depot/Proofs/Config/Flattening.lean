import Depot.Action
import Depot.Proofs.Config.Leaves
import Depot.Proofs.Json.RoundTrip
/-!
# Flattening and expanding

Flattening lists the leaves of a configuration by their paths, which succeeds if every key on the
way is a segment; expanding puts the leaves in place one by one, in whatever order they come. So
what has been flattened is expanded to what it was.
-/

namespace Depot

namespace Config

open Json

variable {v u : Value} {o o' flat : Object} {k s : String} {p q ss : List String}
  {ls : List (List String × Value)} {es : List (String × Value)}

/-! ### Dotted paths -/

theorem splitDots_eq_splitOn (cs : List Char) : splitDots cs = cs.splitOn '.' := by
  induction cs with
  | nil => rfl
  | cons c cs ih =>
    rw [splitDots, List.splitOn, List.splitOnP_cons_eq_if_modifyHead, ← List.splitOn, ih]
    split
    · next hc => rw [if_pos (by simpa using hc)]
    · next hc =>
      rw [if_neg (by simpa using hc)]
      cases h : cs.splitOn '.' with
      | nil => exact absurd h (List.splitOn_ne_nil _ _)
      | cons s ss => rfl

theorem dot_notMem (h : isSegment s = true) : '.' ∉ s.toList := by
  simp only [isSegment, Bool.and_eq_true, Bool.not_eq_true', List.contains_eq_mem,
    decide_eq_false_iff_not] at h
  exact h.2

/-- Segments are found again in the path that they make up. -/
theorem splitPath_joinPath (hne : ss ≠ []) (hs : ∀ s ∈ ss, isSegment s = true) :
    splitPath (joinPath ss) = ss := by
  have hsplit : (['.'].intercalate (ss.map String.toList)).splitOn '.' = ss.map String.toList := by
    apply List.splitOn_intercalate
    · intro cs hcs
      obtain ⟨s, hm, rfl⟩ := List.mem_map.1 hcs
      exact dot_notMem (hs s hm)
    · simpa using hne
  unfold splitPath joinPath
  rw [String.toList_intercalate, splitDots_eq_splitOn]
  show ((['.'].intercalate (ss.map String.toList)).splitOn '.').map String.ofList = ss
  rw [hsplit, List.map_map]
  simp

theorem splitPath_ne_nil (s : String) : splitPath s ≠ [] := by
  simp [splitPath, splitDots_eq_splitOn, List.splitOn_ne_nil]

/-! ### Flattening -/

mutual

/-- Every key on a way through objects can be a segment of a path. -/
def Portable : Value → Prop
  | .object ms => PortableMembers ms
  | _          => True

/-- `Portable` of each member, and of its key. -/
def PortableMembers : List (String × Value) → Prop
  | []           => True
  | (k, v) :: ms => isSegment k = true ∧ Portable v ∧ PortableMembers ms

end

mutual

theorem memberLeaves_ok (k : String) (v : Value) (h : Portable v) :
    ∃ ls, memberLeaves k v = .ok ls := by
  match v with
  | .object (m :: ms) =>
    obtain ⟨ls, hls⟩ := leaves_ok (m :: ms) h
    rw [memberLeaves, hls]
    exact ⟨_, rfl⟩
  | .object [] | .null | .bool _ | .number _ | .string _ | .array _ => exact ⟨_, rfl⟩

theorem leaves_ok (ms : List (String × Value)) (h : PortableMembers ms) :
    ∃ ls, leaves ms = .ok ls := by
  match ms with
  | [] => exact ⟨_, rfl⟩
  | (k, v) :: ms =>
    obtain ⟨hk, hv, hms⟩ := h
    obtain ⟨first, hfirst⟩ := memberLeaves_ok k v hv
    obtain ⟨rest, hrest⟩ := leaves_ok ms hms
    rw [leaves, if_pos hk, hfirst, hrest]
    exact ⟨_, rfl⟩

end

/-- A configuration can be flattened if its keys can be segments. -/
theorem flatten_ok (h : Portable (.object o)) : ∃ flat, flatten o = .ok flat := by
  obtain ⟨ls, hls⟩ := leaves_ok o h
  rw [flatten, hls]
  exact ⟨_, rfl⟩

theorem memberLeaves_eq_ok {m : String × Value} {ms : Object}
    (h : memberLeaves k (.object (m :: ms)) = .ok ls) :
    ∃ ls', leaves (m :: ms) = .ok ls' ∧ ls = ls'.map fun e => (k :: e.1, e.2) := by
  rw [memberLeaves] at h
  obtain ⟨ls', hls', rfl⟩ := Result.map_eq_ok.1 h
  exact ⟨ls', hls', rfl⟩

theorem leaves_cons_eq_ok {ms : Object} (h : leaves ((k, v) :: ms) = .ok ls) :
    isSegment k = true ∧ ∃ first rest, memberLeaves k v = .ok first ∧ leaves ms = .ok rest ∧
      ls = first ++ rest := by
  rw [leaves] at h
  split at h
  · next hk =>
    obtain ⟨first, hfirst, h⟩ := Result.bind_eq_ok.1 h
    obtain ⟨rest, hrest, h⟩ := Result.bind_eq_ok.1 h
    exact ⟨hk, first, rest, hfirst, hrest, Result.pure_eq_ok.1 h⟩
  · cases h

theorem get?_of_before (ho : Assoc.Ordered ((k, v) :: o)) : Assoc.get? k o = none := by
  cases hu : Assoc.get? k o with
  | none => rfl
  | some u =>
    have hlt := (Assoc.ordered_cons.1 ho).1 _ (Assoc.mem_of_get? hu)
    simp at hlt

mutual

/-- The leaves that are listed for a member are those of its value, the key put before the path. -/
theorem mem_memberLeaves (k : String) (v : Value) (hv : v.Ordered) {ls : List (List String × Value)}
    (h : memberLeaves k v = .ok ls) (p : List String) (u : Value) :
    (p, u) ∈ ls ↔ ∃ q, p = k :: q ∧ leafAt? q v = some u := by
  match v with
  | .object (m :: ms) =>
    obtain ⟨ls', hms, rfl⟩ := memberLeaves_eq_ok h
    rw [List.mem_map]
    constructor
    · rintro ⟨⟨q, u⟩, hm, heq⟩
      cases heq
      exact ⟨q, rfl, ((mem_leaves (m :: ms) hv hms q u).1 hm).2⟩
    · rintro ⟨q, rfl, hq⟩
      have hne : q ≠ [] := by
        rintro rfl
        cases hq
      exact ⟨(q, u), (mem_leaves (m :: ms) hv hms q u).2 ⟨hne, hq⟩, rfl⟩
  | .object [] | .null | .bool _ | .number _ | .string _ | .array _ =>
    cases h
    rw [List.mem_singleton]
    constructor
    · intro hm
      cases hm
      exact ⟨[], rfl, rfl⟩
    · rintro ⟨q, rfl, hq⟩
      cases q with
      | nil =>
        cases hq
        rfl
      | cons l q => cases hq

/-- The leaves that are listed for an object are its leaves. -/
theorem mem_leaves (o : Object) (ho : o.Ordered) {ls : List (List String × Value)}
    (h : leaves o = .ok ls) (p : List String) (u : Value) :
    (p, u) ∈ ls ↔ p ≠ [] ∧ leafAt? p (.object o) = some u := by
  match o with
  | [] =>
    cases h
    cases p <;> simp
  | (k, v) :: ms =>
    obtain ⟨-, first, rest, hfirst, hrest, rfl⟩ := leaves_cons_eq_ok h
    rw [List.mem_append, mem_memberLeaves k v ho.2.1 hfirst,
      mem_leaves ms ⟨(Assoc.ordered_cons.1 ho.1).2, ho.2.2⟩ hrest]
    cases p with
    | nil => simp
    | cons k' q =>
      rw [leafAt?_cons_object, leafAt?_cons_object, Assoc.get?_cons]
      by_cases hk : k' = k
      · subst hk
        rw [if_pos rfl, get?_of_before ho.1]
        simp
      · rw [if_neg hk]
        simp [hk]

end

mutual

theorem isSegment_of_mem_memberLeaves (k : String) (v : Value) (hk : isSegment k = true)
    {ls : List (List String × Value)} (h : memberLeaves k v = .ok ls) :
    ∀ e ∈ ls, ∀ s ∈ e.1, isSegment s = true := by
  match v with
  | .object (m :: ms) =>
    obtain ⟨ls', hms, rfl⟩ := memberLeaves_eq_ok h
    intro e he
    obtain ⟨e', he', rfl⟩ := List.mem_map.1 he
    exact List.forall_mem_cons.2 ⟨hk, isSegment_of_mem_leaves (m :: ms) hms e' he'⟩
  | .object [] | .null | .bool _ | .number _ | .string _ | .array _ =>
    cases h
    intro e he
    rw [List.mem_singleton] at he
    subst he
    exact List.forall_mem_singleton.2 hk

/-- The paths to leaves that are listed are made of segments. -/
theorem isSegment_of_mem_leaves (o : Object) {ls : List (List String × Value)}
    (h : leaves o = .ok ls) : ∀ e ∈ ls, ∀ s ∈ e.1, isSegment s = true := by
  match o with
  | [] =>
    cases h
    exact nofun
  | (k, v) :: ms =>
    obtain ⟨hk, first, rest, hfirst, hrest, rfl⟩ := leaves_cons_eq_ok h
    exact List.forall_mem_append.2 ⟨isSegment_of_mem_memberLeaves k v hk hfirst,
      isSegment_of_mem_leaves ms hrest⟩

end

/-- A flat configuration has an entry for every leaf of a nested one, and no other entries. -/
structure Lists (o flat : Object) : Prop where
  entry : ∀ e ∈ flat, leafAt? (splitPath e.1) (.object o) = some e.2
  leaf : ∀ p u, p ≠ [] → leafAt? p (.object o) = some u → ∃ e ∈ flat, splitPath e.1 = p ∧ e.2 = u
  nodup : (flat.map fun e => splitPath e.1).Nodup

/-- A leaf with its path written as a text. -/
def written (leaf : List String × Value) : String × Value := (joinPath leaf.1, leaf.2)

theorem lists_of_flatten (ho : o.Ordered) (h : flatten o = .ok flat) : Lists o flat := by
  rw [flatten] at h
  obtain ⟨ls, hls, rfl⟩ := Result.map_eq_ok.1 h
  show Lists o (Assoc.ofEntries (ls.map written))
  -- An entry that is listed has the path of a leaf for its key.
  have hlisted {e : String × Value} (he : e ∈ ls.map written) :
      joinPath (splitPath e.1) = e.1 ∧ leafAt? (splitPath e.1) (.object o) = some e.2 := by
    obtain ⟨⟨p, u⟩, hm, rfl⟩ := List.mem_map.1 he
    obtain ⟨hne, hp⟩ := (mem_leaves o ho hls p u).1 hm
    dsimp only [written]
    rw [splitPath_joinPath hne (isSegment_of_mem_leaves o hls _ hm)]
    exact ⟨rfl, hp⟩
  have hentry {e : String × Value} (he : e ∈ Assoc.ofEntries (ls.map written)) :
      e ∈ ls.map written := by
    have hget := Dict.get?_of_mem (d := .ofList (ls.map written)) he
    refine (Dict.mem_of_get?_insertAll hget).resolve_right fun hempty => ?_
    cases hempty
  constructor
  · intro e he
    exact (hlisted (hentry he)).2
  · intro p u hne hp
    have hm := (mem_leaves o ho hls p u).2 ⟨hne, hp⟩
    have hsplit := splitPath_joinPath hne (isSegment_of_mem_leaves o hls _ hm)
    refine ⟨(joinPath p, u), Dict.mem_of_get? (Dict.get?_ofList_of_mem
      (List.mem_map_of_mem (f := written) hm) fun u' hu' => ?_), hsplit, rfl⟩
    have hleaf := (hlisted hu').2
    dsimp only at hleaf
    rw [hsplit, hp] at hleaf
    exact (Option.some.inj hleaf).symm
  · refine List.pairwise_map.2 ((Assoc.ordered_insertAll Assoc.ordered_nil).imp_of_mem ?_)
    intro e e' he he' hlt heq
    have hkeys : e.1 = e'.1 := by
      rw [← (hlisted (hentry he)).1, ← (hlisted (hentry he')).1, heq]
    rw [hkeys] at hlt
    simp at hlt

/-! ### Expanding -/

/-- Neither of two paths goes on to the other. -/
def Apart (p q : List String) : Prop := ¬ p <+: q ∧ ¬ q <+: p

/-- Leaves are put in place one by one, in any order, if none is on the way to another. -/
theorem expandFrom_of_free (ho : o.Ordered)
    (hes : ∀ e ∈ es, leafAt? [] e.2 = some e.2 ∧ e.2.Ordered)
    (hapart : es.Pairwise fun e e' => Apart (splitPath e.1) (splitPath e'.1))
    (hfree : ∀ e ∈ es, Free (splitPath e.1) o) :
    ∃ x, expandFrom o es = .ok x ∧ x.Ordered ∧ ∀ q u, q ≠ [] →
      (leafAt? q (.object x) = some u ↔
        leafAt? q (.object o) = some u ∨ ∃ e ∈ es, splitPath e.1 = q ∧ e.2 = u) := by
  induction es generalizing o with
  | nil => exact ⟨o, rfl, ho, by simp⟩
  | cons e es ih =>
    obtain ⟨s, v⟩ := e
    obtain ⟨⟨hleaf, hv⟩, hes⟩ := List.forall_mem_cons.1 hes
    obtain ⟨hfirst, hapart⟩ := List.pairwise_cons.1 hapart
    obtain ⟨hs, hfree⟩ := List.forall_mem_cons.1 hfree
    obtain ⟨y, hy, hput⟩ := insertPath_of_free (splitPath_ne_nil s) ho hv (leaf_of_leafAt? hleaf) hs
    -- What comes later is free of the leaf that has just been put in place.
    have hfree' (e : String × Value) (he : e ∈ es) : Free (splitPath e.1) y := by
      intro q u hq hu
      rw [hput.leafAt?_eq q hq] at hu
      split at hu
      · next hqs =>
        rw [hqs]
        exact hfirst e he
      · exact hfree e he q u hq hu
    obtain ⟨x, hx, hxo, hxl⟩ := ih hput.ordered hes hapart hfree'
    refine ⟨x, ?_, hxo, fun q u hq => ?_⟩
    · rw [expandFrom, hy]
      exact hx
    · rw [hxl q u hq, hput.leafAt?_eq q hq, List.exists_mem_cons_iff]
      split
      · next hqs =>
        subst hqs
        have hnone : leafAt? (splitPath s) (.object o) ≠ some u := by
          intro hu
          exact (hs _ u hq hu).1 (List.prefix_refl _)
        simp [hnone]
      · next hqs => simp [Ne.symm hqs]

/-- A flat map of leaves of which none is on the way to another is expanded to the configuration
with these leaves. -/
theorem expand_of_apart (hes : ∀ e ∈ flat, leafAt? [] e.2 = some e.2 ∧ e.2.Ordered)
    (hapart : flat.Pairwise fun e e' => Apart (splitPath e.1) (splitPath e'.1)) :
    ∃ x, expand flat = .ok x ∧ x.Ordered ∧ ∀ q u, q ≠ [] →
      (leafAt? q (.object x) = some u ↔ ∃ e ∈ flat, splitPath e.1 = q ∧ e.2 = u) := by
  obtain ⟨x, hx, hxo, hxl⟩ := expandFrom_of_free ⟨Assoc.ordered_nil, trivial⟩ hes hapart
    fun _ _ => free_nil
  refine ⟨x, hx, hxo, fun q u hq => ?_⟩
  rw [hxl q u hq]
  refine or_iff_right fun hu => ?_
  obtain ⟨k, q, rfl⟩ := List.exists_cons_of_ne_nil hq
  cases hu

theorem Lists.apart (h : Lists o flat) :
    flat.Pairwise fun e e' => Apart (splitPath e.1) (splitPath e'.1) := by
  refine (List.pairwise_map.1 h.nodup).imp_of_mem fun {e e'} he he' hne => ⟨?_, ?_⟩
  · intro hp
    exact hne (eq_of_above (h.entry e he) (h.entry e' he') hp)
  · intro hp
    exact hne (eq_of_above (h.entry e' he') (h.entry e he) hp).symm

/-- What has been flattened is expanded to what it was. -/
theorem expand_flatten (ho : o.Ordered) (h : flatten o = .ok flat) : expand flat = .ok o := by
  have hlists := lists_of_flatten ho h
  obtain ⟨x, hx, hxo, hxl⟩ := expand_of_apart (fun e he =>
    ⟨(leaf_of_leafAt? (hlists.entry e he)).1, ordered_of_leafAt? ho (hlists.entry e he)⟩)
    hlists.apart
  have heq : x = o := by
    refine eq_of_leaves_object hxo ho fun q hq => Option.ext fun u => ?_
    rw [hxl q u hq]
    constructor
    · rintro ⟨e, he, rfl, rfl⟩
      exact hlists.entry e he
    · exact hlists.leaf q u hq
  rw [hx, heq]

end Config

end Depot
