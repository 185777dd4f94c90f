import Depot.Proofs.Disk.Sound
/-!
# Deleting files

What stands on a disk after files have been deleted one after the other. The paths find nothing any
more, and nothing is lost but what they found. Where there are no links on their ways, they find
what stands where they say.
-/

namespace Depot.Disk

variable {d d' d'' : Disk} {root l m : Location} {ls : List Location} {ss : List String} {n : Node}
  {b : Bytes}

/-! ### What paths find -/

/-- The path to a location finds something, which stands at another location if the path passes
links. A link at its end is not followed. -/
def Finds (d : Disk) (l m : Location) : Prop :=
  d.resolveSteps false (.ofLocation l) l = .ok (.found m)

/-- The path to a location finds nothing. -/
def Gone (d : Disk) (l : Location) : Prop := ∀ m, ¬ d.Finds l m

theorem finds_iff : d.Finds l m ↔
    (Path.ofLocation l).Followable ∧ d.Leads false maxLinks [] l (.found m) :=
  resolveSteps_eq_ok

namespace Finds

theorem unique {m' : Location} (h : d.Finds l m) (h' : d.Finds l m') : m = m' := by
  cases (finds_iff.1 h).2.unique (finds_iff.1 h').2
  rfl

theorem mono (h : d.Finds l m) (hd : d.Extends d') : d'.Finds l m := by
  obtain ⟨hf, hw⟩ := finds_iff.1 h
  exact finds_iff.2 ⟨hf, hw.mono hd.keepsWays fun b hb => ⟨b, hd.node hb⟩⟩

theorem node (h : d.Finds l m) (ht : d.Tree) : d.node? m ≠ none :=
  (finds_iff.1 h).2.fits ht rfl

/-- Below a directory without links, a path finds what stands where it says. -/
theorem eq (h : d.Finds (root ++ ss) m) (hd : d.Proper) (hr : d.node? root = some .dir)
    (hl : d.NoLinks root) (hs : ∀ s ∈ ss, s ≠ "." ∧ s ≠ "..") : m = root ++ ss := by
  have hw := (leads_append (l := []) hd hr).1 (finds_iff.1 h).2
  rcases leads_noLinks hl hs hw with h | ⟨xs, s, -, h⟩
  · cases h
    rfl
  · cases h

end Finds

/-- What stands at a location is found. -/
theorem finds_self (hd : d.Proper) (h : d.node? l ≠ none) : d.Finds l l := by
  obtain ⟨n, hn⟩ := Option.ne_none_iff_exists'.1 h
  exact finds_iff.2 ⟨followable_ofLocation hd h, leads_down hd rfl hn (.inl rfl)⟩

theorem Gone.mono (h : d.Gone l) (hd : d'.Extends d) : d'.Gone l :=
  fun m hm => h m (hm.mono hd)

theorem Gone.node? (h : d.Gone l) (hd : d.Proper) : d.node? l = none := by
  by_contra hl
  exact h l (finds_self hd hl)

/-- Where nothing could be found to delete, there is nothing. -/
theorem gone_of_notFound (h : d.removeFile (.ofLocation l) = .error .notFound) : d.Gone l := by
  intro m hm
  unfold removeFile at h
  rw [show d.resolveSteps false (.ofLocation l) (Path.ofLocation l).segments = _ from hm] at h
  dsimp only at h
  split at h
  · cases h
  · cases h

/-- What has been deleted is what the path found, and was no directory. -/
theorem finds_of_removeFile (h : d.removeFile (.ofLocation l) = .ok d') :
    ∃ m, d.Finds l m ∧ d.node? m ≠ some .dir ∧ d' = d.drop m := by
  unfold removeFile at h
  split at h
  · cases h
  · cases h
  · next m hm =>
    split at h
    · cases h
    next hdir =>
    cases h
    exact ⟨m, hm, hdir, rfl⟩

/-! ### Deleting one file after the other -/

/-- What is left of a disk when several paths have been deleted: they find nothing, and everything
else is as it was. -/
structure Cleared (d d' : Disk) (ls : List Location) : Prop where
  /-- Nothing is new. -/
  less : d'.Extends d
  dirs : ∀ {m}, d.node? m = some .dir → d'.node? m = some .dir
  gone : ∀ l ∈ ls, d'.Gone l
  /-- What none of the paths found is there. -/
  kept : ∀ {m}, (∀ l ∈ ls, ¬ d.Finds l m) → d'.node? m = d.node? m

namespace Cleared

theorem refl (d : Disk) : d.Cleared d [] := ⟨.refl d, id, by simp, fun _ => rfl⟩

theorem reverse (h : d.Cleared d' ls.reverse) : d.Cleared d' ls :=
  ⟨h.less, h.dirs, fun l hl => h.gone l (List.mem_reverse.2 hl),
    fun hm => h.kept fun l hl => hm l (List.mem_reverse.1 hl)⟩

/-- One path more finds nothing. -/
theorem missing (h : d.Cleared d' ls) (hl : d.Gone l) : d.Cleared d' (l :: ls) := by
  refine ⟨h.less, h.dirs, ?_, fun hm => h.kept fun l' hl' => hm l' (List.mem_cons_of_mem _ hl')⟩
  rintro l' (_ | ⟨_, hl'⟩)
  · exact hl.mono h.less
  · exact h.gone l' hl'

/-- One file more is deleted. -/
theorem deleted (ht : d.Tree) (hl : d.removeFile (.ofLocation l) = .ok d')
    (h : d'.Cleared d'' ls) : d.Cleared d'' (l :: ls) := by
  have ht' := tree_of_removeFile ht hl
  obtain ⟨m, hm, hdir, rfl⟩ := finds_of_removeFile hl
  have hne := ne_nil_of_node? hdir
  have hless : (d.drop m).Extends d := by
    refine ⟨rfl, fun {g n} hg => ?_⟩
    rw [node?_drop hne] at hg
    split at hg
    · cases hg
    · exact hg
  -- The path leads through what is still there, so it would have found the same before.
  have hgone : (d.drop m).Gone l := by
    intro g hg
    cases hm.unique (hg.mono hless)
    exact hg.node ht' ((node?_drop hne).trans (if_pos rfl))
  refine ⟨h.less.trans hless, fun {g} hg => h.dirs ?_, ?_, fun {g} hg => ?_⟩
  · rw [node?_drop hne, if_neg]
    · exact hg
    · rintro rfl
      exact hdir hg
  · rintro l' (_ | ⟨_, hl'⟩)
    · exact hgone.mono h.less
    · exact h.gone l' hl'
  · rw [h.kept fun l' hl' hf => hg l' (List.mem_cons_of_mem _ hl') (hf.mono hless),
      node?_drop hne, if_neg]
    rintro rfl
    exact hg l List.mem_cons_self hm

theorem proper (h : d.Cleared d' ls) (hd : d.Proper) : d'.Proper := by
  have hne {m : Location} (hm : d'.node? m ≠ none) : d.node? m ≠ none := by
    obtain ⟨n, hn⟩ := Option.ne_none_iff_exists'.1 hm
    exact ne_none_of_node? (h.less.node hn)
  refine ⟨⟨?_, fun hm => h.dirs (hd.parent (hne hm))⟩, fun hm => hd.name (hne hm)⟩
  rw [← h.less.workDir]
  exact h.dirs hd.workDir

end Cleared

/-! ### Disks without some files -/

/-- `d'` is `d` with nothing at some locations. -/
structure Without (d d' : Disk) (ls : List Location) : Prop where
  workDir : d'.workDir = d.workDir
  node : ∀ m, d'.node? m = if m ∈ ls then none else d.node? m

namespace Without

section

variable (h : d.Without d' ls) (hls : ∀ l ∈ ls, ∃ b, d.node? l = some (.file b))

include h hls

theorem node_of_not_file {n : Node} (hn : d.node? m = some n) (hf : ∀ b, n ≠ .file b) :
    d'.node? m = some n := by
  rw [h.node, if_neg, hn]
  intro hm
  obtain ⟨b, hb⟩ := hls m hm
  rw [hn] at hb
  exact hf b (Option.some.inj hb)

theorem keepsWays : d.KeepsWays d' := ⟨h.workDir, h.node_of_not_file hls⟩

theorem proper (hd : d.Proper) : d'.Proper := by
  have hne {m : Location} (hm : d'.node? m ≠ none) : d.node? m ≠ none := by
    rw [h.node] at hm
    split at hm
    · exact absurd rfl hm
    · exact hm
  refine ⟨⟨?_, fun hm => ?_⟩, fun hm => hd.name (hne hm)⟩
  · rw [h.workDir]
    exact h.node_of_not_file hls hd.workDir (by simp)
  · exact h.node_of_not_file hls (hd.parent (hne hm)) (by simp)

end

theorem noLinks (h : d.Without d' ls) (hl : d.NoLinks root) : d'.NoLinks root := by
  intro ss q hq
  rw [h.node] at hq
  split at hq
  · cases hq
  · exact hl ss q hq

end Without

/-- Below a directory without links, the locations that have been deleted are empty, and all others
are as they were. -/
theorem Cleared.without (h : d.Cleared d' ls) (hd : d.Proper) (hr : d.node? root = some .dir)
    (hl : d.NoLinks root)
    (hls : ∀ l ∈ ls, ∃ ss, l = root ++ ss ∧ ∀ s ∈ ss, s ≠ "." ∧ s ≠ "..") : d.Without d' ls := by
  refine ⟨h.less.workDir.symm, fun m => ?_⟩
  split
  · next hm => exact (h.gone m hm).node? (h.proper hd)
  · next hm =>
    apply h.kept
    intro l hmem hf
    obtain ⟨ss, rfl, hs⟩ := hls l hmem
    rw [hf.eq hd hr hl hs] at hm
    exact hm hmem

end Depot.Disk
