import Depot.Disk.Walk
import Depot.Proofs.Disk.Sound
import Depot.Proofs.FiniteMap
/-!
# Walks

A walk shows no location twice, whatever links it follows. Below a directory without links, it lists
every file once, in the order of locations. So it depends there on nothing but what files there are.
-/

namespace Depot.Disk

variable {d d' : Disk} {root real shown l m : Location} {inside : List Location} {fuel : Nat}
  {ss : List String} {b : Bytes} {n : Node}

/-- A file stands at a location below another. -/
def FileBelow (d : Disk) (root l : Location) : Prop :=
  root <+: l ∧ ∃ b, d.node? l = some (.file b)

/-- The location of an entry that is a file below another location. -/
def fileBelow? (root : Location) (e : Location × Node) : Option Location :=
  if root.isPrefixOf e.1 ∧ root ≠ e.1 then
    match e.2 with
    | .file _ => some e.1
    | _       => none
  else none

/-- What stands at a location other than the root of the disk is an entry. -/
theorem mem_entries (hm : m ≠ []) : (m, n) ∈ d.nodes.entries ↔ d.node? m = some n := by
  unfold node?
  rw [if_neg hm]
  exact ⟨Dict.get?_of_mem, Dict.mem_of_get?⟩

/-! ### Walks that may follow links -/

/-- What a walk shows for one thing that stands below a location. -/
def shownFor (d : Disk) (fuel : Nat) (inside : List Location) (real shown : Location)
    (e : List String × Node) : List Location :=
  match e.2 with
  | .file _ => [shown ++ e.1]
  | .dir    => []
  | .link _ =>
    match d.locate (.ofLocation (real ++ e.1)) with
    | .error _ => []
    | .ok l    =>
      match d.node? l with
      | some .dir =>
        if (inside ++ passed real e.1).contains l then []
        else d.walkFrom fuel (inside ++ passed real e.1) l (shown ++ e.1)
      | some _    => [shown ++ e.1]
      | none      => []

theorem walkFrom_succ : d.walkFrom (fuel + 1) inside real shown =
    (d.below real).flatMap (d.shownFor fuel inside real shown) := by
  rw [walkFrom]
  apply List.flatMap_congr
  rintro ⟨ss, n⟩ -
  cases n with
  | file | dir => rfl
  | link q =>
    dsimp only [shownFor]
    cases d.locate (.ofLocation (real ++ ss)) with
    | error e => rfl
    | ok l =>
      dsimp only
      cases d.node? l with
      | none => rfl
      | some n =>
        cases n with
        | file | link => rfl
        | dir => simp only [List.contains_iff_mem]

theorem mem_below : (ss, n) ∈ d.below l ↔ ss ≠ [] ∧ d.node? (l ++ ss) = some n := by
  unfold below
  simp only [List.mem_filterMap, List.isPrefixOf_iff_prefix]
  constructor
  · rintro ⟨⟨m, n'⟩, he, h⟩
    split at h
    · next hm =>
      cases h
      obtain ⟨ss, rfl⟩ := hm.1
      have hss : ss ≠ [] := by
        rintro rfl
        exact hm.2 (List.append_nil l).symm
      rw [List.drop_left]
      exact ⟨hss, (mem_entries (by simp [hss])).1 he⟩
    · cases h
  · rintro ⟨hss, hn⟩
    refine ⟨(l ++ ss, n), (mem_entries (by simp [hss])).2 hn, ?_⟩
    rw [if_pos ⟨List.prefix_append l ss, by simpa using hss⟩, List.drop_left]

/-- Different names lead to what stands below a location. -/
theorem pairwise_below : (d.below l).Pairwise (·.1 ≠ ·.1) := by
  refine List.Pairwise.filterMap _ (fun e e' h x hx x' hx' => ?_) d.nodes.ordered
  simp only [List.isPrefixOf_iff_prefix] at hx hx'
  split at hx
  · next hm =>
    split at hx'
    · next hm' =>
      cases hx
      cases hx'
      obtain ⟨ss, hss⟩ := hm.1
      obtain ⟨ss', hss'⟩ := hm'.1
      rw [← hss, ← hss', List.drop_left, List.drop_left]
      rintro (rfl : ss = ss')
      rw [← hss, ← hss'] at h
      simp at h
    · cases hx'
  · cases hx

/-- For one thing a walk shows nothing, its own location, or what it finds behind a link. -/
theorem shownFor_cases (d : Disk) (fuel : Nat) (inside : List Location) (real shown : Location)
    (ss : List String) (n : Node) : d.shownFor fuel inside real shown (ss, n) = [] ∨ n ≠ .dir ∧
      (d.shownFor fuel inside real shown (ss, n) = [shown ++ ss] ∨ ∃ inside' real',
        d.shownFor fuel inside real shown (ss, n) =
          d.walkFrom fuel inside' real' (shown ++ ss)) := by
  cases n with
  | dir => exact .inl rfl
  | file b => exact .inr ⟨by simp, .inl rfl⟩
  | link q =>
    dsimp only [shownFor]
    split
    · exact .inl rfl
    · split
      · split
        · exact .inl rfl
        · exact .inr ⟨by simp, .inr ⟨_, _, rfl⟩⟩
      · exact .inr ⟨by simp, .inl rfl⟩
      · exact .inl rfl

/-- What a walk shows is shown below where it starts, under names that a way can take. -/
theorem mem_walkFrom (hd : d.Sound) (h : l ∈ d.walkFrom fuel inside real shown) :
    ∃ ss, l = shown ++ ss ∧ ∀ s ∈ ss, IsName s := by
  induction fuel generalizing inside real shown with
  | zero => cases h
  | succ fuel ih =>
    rw [walkFrom_succ, List.mem_flatMap] at h
    obtain ⟨⟨ss, n⟩, he, h⟩ := h
    have hss : ∀ s ∈ ss, IsName s := fun s hs =>
      hd.name_of_mem (ne_none_of_node? (mem_below.1 he).2) hs
    rcases shownFor_cases d fuel inside real shown ss n with hc | ⟨-, hc | ⟨inside', real', hc⟩⟩
    · rw [hc] at h
      cases h
    · rw [hc, List.mem_singleton] at h
      exact ⟨ss, h, hss⟩
    · rw [hc] at h
      obtain ⟨xs, rfl, hxs⟩ := ih h
      refine ⟨ss ++ xs, List.append_assoc .., fun s hs => ?_⟩
      rcases List.mem_append.1 hs with hs | hs
      · exact hss s hs
      · exact hxs s hs

theorem mem_shownFor (hd : d.Sound) (h : l ∈ d.shownFor fuel inside real shown (ss, n)) :
    n ≠ .dir ∧ shown ++ ss <+: l := by
  rcases shownFor_cases d fuel inside real shown ss n with hc | ⟨hn, hc | ⟨inside', real', hc⟩⟩
  · rw [hc] at h
    cases h
  · rw [hc, List.mem_singleton] at h
    rw [h]
    exact ⟨hn, List.prefix_refl _⟩
  · rw [hc] at h
    obtain ⟨xs, rfl, -⟩ := mem_walkFrom hd h
    exact ⟨hn, List.prefix_append _ _⟩

/-- Nothing that stands below a location and is shown has anything below it, so that no two such
things are shown under one location. -/
theorem disjoint_shownFor {ss' : List String} {n' : Node} (hd : d.Sound)
    (h : (ss, n) ∈ d.below real) (h' : (ss', n') ∈ d.below real) (hne : ss ≠ ss') :
    (d.shownFor fuel inside real shown (ss, n)).Disjoint
      (d.shownFor fuel inside real shown (ss', n')) := by
  -- What has something below it is a directory, and a walk shows no directory.
  have hapart {ss ss' : List String} {n n' : Node} (hn : (ss, n) ∈ d.below real)
      (hn' : (ss', n') ∈ d.below real) (hne : ss ≠ ss') (hp : ss <+: ss') : n = .dir := by
    obtain ⟨xs, rfl⟩ := hp
    have hxs : xs ≠ [] := by
      rintro rfl
      exact hne (List.append_nil ss).symm
    have habove : d.node? (real ++ ss) = some .dir :=
      hd.above hxs (by simp [(mem_below.1 hn').2])
    rw [(mem_below.1 hn).2] at habove
    exact Option.some.inj habove
  intro m hm hm'
  obtain ⟨hn, hp⟩ := mem_shownFor hd hm
  obtain ⟨hn', hp'⟩ := mem_shownFor hd hm'
  rcases List.prefix_or_prefix_of_prefix hp hp' with hpp | hpp
  · exact hn (hapart h h' hne ((List.prefix_append_right_inj shown).1 hpp))
  · exact hn' (hapart h' h hne.symm ((List.prefix_append_right_inj shown).1 hpp))

/-- A walk shows no location twice. -/
theorem nodup_walkFrom (hd : d.Sound) : (d.walkFrom fuel inside real shown).Nodup := by
  induction fuel generalizing inside real shown with
  | zero => exact .nil
  | succ fuel ih =>
    rw [walkFrom_succ, List.nodup_flatMap]
    constructor
    · rintro ⟨ss, n⟩ -
      rcases shownFor_cases d fuel inside real shown ss n with hc | ⟨-, hc | ⟨inside', real', hc⟩⟩
      · rw [hc]
        exact .nil
      · rw [hc]
        exact List.nodup_singleton _
      · rw [hc]
        exact ih
    · apply pairwise_below.imp_of_mem
      rintro ⟨ss, n⟩ ⟨ss', n'⟩ h h' hne
      exact disjoint_shownFor hd h h' hne

/-! ### Walks without links -/

theorem fileBelow?_eq_some {e : Location × Node} :
    fileBelow? root e = some l ↔ e.1 = l ∧ root <+: l ∧ root ≠ l ∧ ∃ b, e.2 = .file b := by
  obtain ⟨m, n⟩ := e
  unfold fileBelow?
  simp only [List.isPrefixOf_iff_prefix]
  constructor
  · intro h
    split at h
    · next hm =>
      cases n with
      | file b =>
        cases h
        exact ⟨rfl, hm.1, hm.2, b, rfl⟩
      | _ => cases h
    · cases h
  · rintro ⟨rfl, hp, hne, b, hb⟩
    rw [if_pos ⟨hp, hne⟩]
    cases hb
    rfl

/-- A walk that meets no link is the list of the files among the entries of the disk. -/
theorem walk_eq (hl : d.NoLinks root) :
    d.walk root = d.nodes.entries.filterMap (fileBelow? root) := by
  unfold walk walkFrom below
  rw [List.filterMap_eq_flatMap_toList, List.filterMap_eq_flatMap_toList, List.flatMap_assoc]
  apply List.flatMap_congr
  rintro ⟨m, n⟩ he
  unfold fileBelow?
  dsimp only
  split
  · next hm =>
    obtain ⟨ss, rfl⟩ := List.isPrefixOf_iff_prefix.1 hm.1
    rw [mem_entries (fun h => hm.2 (by rw [h, (List.append_eq_nil_iff.1 h).1]))] at he
    cases n with
    | link q => exact absurd he (hl ss q)
    | dir => rfl
    | file b => simp
  · rfl

/-- A walk lists the files that there are. -/
theorem mem_walk (hr : d.node? root = some .dir) (hl : d.NoLinks root) :
    l ∈ d.walk root ↔ d.FileBelow root l := by
  rw [walk_eq hl, List.mem_filterMap]
  unfold FileBelow
  constructor
  · rintro ⟨⟨m, n⟩, he, h⟩
    obtain ⟨rfl, hp, hne, b, rfl⟩ := fileBelow?_eq_some.1 h
    refine ⟨hp, b, (mem_entries ?_).1 he⟩
    rintro rfl
    exact hne (List.prefix_nil.1 hp)
  · rintro ⟨hp, b, hb⟩
    refine ⟨(l, .file b), (mem_entries ?_).2 hb, fileBelow?_eq_some.2 ⟨rfl, hp, ?_, b, rfl⟩⟩
    · rintro rfl
      cases hb
    · rintro rfl
      rw [hr] at hb
      cases hb

/-- A walk goes in the order of locations. -/
theorem pairwise_walk (hl : d.NoLinks root) :
    (d.walk root).Pairwise (compare · · = .lt) := by
  rw [walk_eq hl]
  refine List.Pairwise.filterMap _ (fun e e' h l he l' he' => ?_) d.nodes.ordered
  rw [← (fileBelow?_eq_some.1 he).1, ← (fileBelow?_eq_some.1 he').1]
  exact h

/-- Walks are the same where the files are. -/
theorem walk_congr (hr : d.node? root = some .dir) (hl : d.NoLinks root)
    (hr' : d'.node? root = some .dir) (hl' : d'.NoLinks root)
    (h : ∀ l, d'.FileBelow root l ↔ d.FileBelow root l) : d'.walk root = d.walk root := by
  apply eq_of_ascending (pairwise_walk hl') (pairwise_walk hl)
  intro l
  rw [mem_walk hr' hl', mem_walk hr hl, h]

end Depot.Disk
