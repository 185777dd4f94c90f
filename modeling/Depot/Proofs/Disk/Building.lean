import Depot.Proofs.Disk.Ending
/-!
# Making directories

Whatever becomes of an attempt to make a directory and all that are missing on the way to it, the
disk has only got directories in places that were free. An attempt at a directory that is there
does nothing, and after one that failed the directory is not there.
-/

namespace Depot.Disk

/-! ### Directories in free places -/

/-- `d'` is `d` with directories in places that were free. -/
inductive Built : Disk → Disk → Prop
  | refl {d} : Built d d
  | step {d d' m s} : d.node? m = some .dir → IsName s → s.toList.contains '\x00' = false →
      d.node? (m ++ [s]) = none → Built (d.put (m ++ [s]) .dir) d' → Built d d'

variable {d d' d'' : Disk} {l m : Location} {s : String} {ss : List String} {p q : Path} {b : Bytes}
  {e : Fault} {ps : List Path}

/-- A change of a place in a directory that is no directory itself leaves a tree. -/
theorem Tree.changed (ht : d.Tree) (hd : d.SameBut d' (m ++ [s])) (hm : d.node? m = some .dir)
    (hn : d.node? (m ++ [s]) ≠ some .dir) : d'.Tree := by
  have hdir : ∀ {l}, d.node? l = some .dir → d'.node? l = some .dir := by
    intro l hl
    rwa [hd.node]
    rintro rfl
    exact hn hl
  refine ⟨?_, fun {l s'} hl => ?_⟩
  · rw [hd.workDir]
    exact hdir ht.workDir
  · by_cases hls : l ++ [s'] = m ++ [s]
    · obtain ⟨rfl, -⟩ := List.append_inj' hls rfl
      exact hdir hm
    · rw [hd.node hls] at hl
      exact hdir (ht.parent hl)

/-- What a map of directories has under a location. -/
theorem get?_insertAll_dir {ls : List Location} {nodes : Dict Location Node} :
    (nodes.insertAll (ls.map fun l => (l, .dir))).get? l =
      if l ∈ ls then some .dir else nodes.get? l := by
  induction ls generalizing nodes with
  | nil => rfl
  | cons l' ls ih =>
    have hstep : nodes.insertAll ((l' :: ls).map fun l => (l, .dir)) =
        (nodes.insert l' .dir).insertAll (ls.map fun l => (l, .dir)) := rfl
    rw [hstep, ih, Dict.get?_insert]
    simp only [List.mem_cons]
    split_ifs <;> simp_all

/-- Directories stand on the way to the directory for temporary files, and nothing else. -/
theorem node?_fresh {workDir : Location} {temp : String} :
    (fresh workDir temp).node? l = if l <+: workDir ++ [temp] then some .dir else none := by
  have hkeys : (List.range workDir.length).map (fun i => (workDir.take (i + 1), Node.dir)) ++
      [(workDir ++ [temp], .dir)] = ((List.range workDir.length).map (fun i =>
        workDir.take (i + 1)) ++ [workDir ++ [temp]]).map fun l => (l, Node.dir) := by
    simp
  unfold node? fresh Dict.ofList
  dsimp only
  rw [hkeys, get?_insertAll_dir]
  by_cases hl : l = []
  · subst hl
    simp
  · rw [if_neg hl]
    refine if_congr ⟨fun h => ?_, fun h => ?_⟩ rfl rfl
    · rcases List.mem_append.1 h with h | h
      · obtain ⟨i, -, rfl⟩ := List.mem_map.1 h
        exact (List.take_prefix _ _).trans (List.prefix_append _ _)
      · obtain rfl := List.mem_singleton.1 h
        exact List.prefix_refl _
    · rcases List.prefix_concat_iff.1 h with rfl | h
      · simp
      · refine List.mem_append_left _ (List.mem_map.2 ⟨l.length - 1, ?_, ?_⟩)
        · have := h.length_le
          have := List.length_pos_iff.2 hl
          exact List.mem_range.2 (by omega)
        · have := List.length_pos_iff.2 hl
          rw [Nat.sub_add_cancel this]
          exact (List.prefix_iff_eq_take.1 h).symm

/-- A disk with nothing on it but its two directories is a tree. -/
theorem tree_fresh {workDir : Location} {temp : String} : (fresh workDir temp).Tree := by
  refine ⟨node?_fresh.trans (if_pos (List.prefix_append _ _)), fun {l s} hl => ?_⟩
  rw [node?_fresh] at hl ⊢
  split at hl
  · next h => exact if_pos ((List.prefix_append l [s]).trans h)
  · exact absurd rfl hl

namespace Built

theorem trans (h : Built d d') (h' : Built d' d'') : Built d d'' := by
  induction h with
  | refl => exact h'
  | step hm hs hz hn _ ih => exact .step hm hs hz hn (ih h')

theorem toExtends (h : Built d d') : d.Extends d' := by
  induction h with
  | refl => exact .refl _
  | step _ _ _ hn _ ih => exact (SameBut.put (by simp)).fills hn |>.trans ih

theorem tree (h : Built d d') (ht : d.Tree) : d'.Tree := by
  induction h with
  | refl => exact ht
  | step hm _ _ hn _ ih => exact ih (ht.changed (SameBut.put (by simp)) hm (by simp [hn]))

/-- What is new is a directory. -/
theorem node?_eq (h : Built d d') (hl : d'.node? l ≠ some .dir) : d.node? l = d'.node? l := by
  induction h with
  | refl => rfl
  | @step d d' m s _ _ _ _ h ih =>
    rw [← ih hl, node?_put (by simp), if_neg]
    rintro rfl
    refine hl (h.toExtends.node ?_)
    rw [node?_put (by simp), if_pos rfl]

end Built

/-! ### Attempts at one directory -/

/-- A directory that has been made stands at the end of the path, where nothing was. -/
theorem makeDir_eq_ok (ht : d.Tree) (h : d.makeDir p = .ok d') :
    ∃ m s, d.Ends p m s ∧ d.node? (m ++ [s]) = none ∧ d' = d.put (m ++ [s]) .dir := by
  unfold makeDir at h
  split at h
  · cases h
  · cases h
  · next m s hr =>
    cases h
    obtain ⟨he, hn⟩ := ends_of_free ht hr
    exact ⟨m, s, he, hn, rfl⟩

theorem built_of_makeDir (ht : d.Tree) (h : d.makeDir p = .ok d') : d.Built d' := by
  obtain ⟨m, s, he, hn, rfl⟩ := makeDir_eq_ok ht h
  exact .step (he.dir ht) he.name he.name_free hn .refl

theorem ensureDir_built (ht : d.Tree) : d.Built (ensureDir p d).2 := by
  unfold ensureDir
  split
  · next d' h => exact built_of_makeDir ht h
  · exact .refl

/-- An attempt that fails leaves the disk as it is, and there is no directory. -/
theorem ensureDir_error (h : ensureDir p d = (.error e, d')) : d' = d ∧ d.isDir p = false := by
  unfold ensureDir at h
  split at h
  · cases h
  · split at h
    · cases h
    · next hp =>
      cases h
      exact ⟨rfl, by simpa using hp⟩

/-- No directory can be made where there is one. -/
theorem makeDir_of_isDir (h : d.isDir p = true) : d.makeDir p = .error .alreadyExists := by
  obtain ⟨l, hl, -⟩ := isDir_eq_true.1 h
  obtain ⟨hp, hw⟩ := locate_eq_ok.1 hl
  obtain ⟨g, hg⟩ := (leads_segments hw).stop
  unfold makeDir
  rw [resolveSteps_eq_ok.2 ⟨hp, hg⟩]

theorem ensureDir_of_isDir (h : d.isDir p = true) : ensureDir p d = (.ok (), d) := by
  unfold ensureDir
  rw [makeDir_of_isDir h]
  simp [h]

/-! ### Attempts at several directories -/

theorem ensureDirs_cons (p : Path) (ps : List Path) : ensureDirs (p :: ps) d =
    match ensureDir p d with
    | (.ok _, d')    => ensureDirs ps d'
    | (.error e, d') => (.error e, d') := by
  rw [ensureDirs, Action.bind_apply]
  rcases ensureDir p d with ⟨_ | _, _⟩ <;> rfl

theorem ensureDirs_built (ht : d.Tree) : d.Built (ensureDirs ps d).2 := by
  induction ps generalizing d with
  | nil => exact .refl
  | cons p ps ih =>
    rw [ensureDirs_cons]
    have hb : d.Built (ensureDir p d).2 := ensureDir_built ht
    split
    · next d' h =>
      rw [h] at hb
      exact hb.trans (ih (hb.tree ht))
    · next h =>
      rw [h] at hb
      exact hb

/-- If several attempts fail, one of the directories is not there. -/
theorem ensureDirs_error (h : ensureDirs ps d = (.error e, d')) :
    ∃ p ∈ ps, d'.isDir p = false := by
  induction ps generalizing d with
  | nil => cases h
  | cons p ps ih =>
    rw [ensureDirs_cons] at h
    split at h
    · next d' _ =>
      obtain ⟨q, hq, hd⟩ := ih h
      exact ⟨q, List.mem_cons_of_mem _ hq, hd⟩
    · next e' d' he =>
      cases h
      obtain ⟨rfl, hd⟩ := ensureDir_error he
      exact ⟨p, List.mem_cons_self, hd⟩

/-! ### A directory and those on the way to it -/

theorem mem_ancestors (hq : q ∈ p.ancestors) :
    q = p ∨ ∃ n, q = { p.tidy with segments := p.tidySegments.take n } := by
  unfold Path.ancestors at hq
  rcases List.mem_cons.1 hq with rfl | hq
  · exact .inl rfl
  · obtain ⟨i, -, rfl⟩ := List.mem_map.1 hq
    exact .inr ⟨_, rfl⟩

theorem mem_of_mem_tidySegments (hs : s ∈ p.tidySegments) : s ∈ p.segments := by
  unfold Path.tidySegments at hs
  split at hs
  · cases hs
  · next a as ha =>
    rw [ha]
    rcases List.mem_append.1 hs with hs | hs
    · split at hs
      · cases hs
      · rw [List.mem_singleton.1 hs]
        exact List.mem_cons_self
    · exact List.mem_cons_of_mem _ (List.mem_filter.1 hs).1

/-- A path to a directory leads there without the dots that mean nothing. -/
theorem leads_tidySegments {g : Location} (h : d.Leads true links l p.segments (.found g)) :
    d.Leads true links l p.tidySegments (.found g) := by
  unfold Path.tidySegments
  split
  · next hs => rwa [hs] at h
  · next a as hs =>
    rw [hs] at h
    split
    · next ha =>
      rw [ha.1, leads_dot] at h
      exact h.drop_dots [] _
    · exact h.drop_dots [a] _

/-- A path to a directory leads there without its dots and with one more at the end. -/
theorem leads_of_isDir (h : d.isDir p = true) : p.Followable ∧
    ∃ g, d.Leads true maxLinks (p.start d.workDir) (p.tidySegments ++ ["."]) (.found g) := by
  obtain ⟨g, hg, hd⟩ := isDir_eq_true.1 h
  obtain ⟨hp, hw⟩ := locate_eq_ok.1 hg
  exact ⟨hp, g, Leads.snoc_dot (leads_tidySegments (leads_segments hw)) hd⟩

theorem isDir_of_leads (hp : p.Followable) (hm : d.node? m = some .dir)
    (hw : d.Leads true maxLinks (p.start d.workDir) p.segments (.found m)) : d.isDir p = true :=
  isDir_eq_true.2 ⟨m, locate_eq_ok.2 ⟨hp, leads_steps hw hm⟩, hm⟩

theorem Path.start_tidy : p.tidy.start l = p.start l := by
  have habs : p.tidy.isAbsolute = p.isAbsolute := by
    apply decide_eq_decide.2
    show min p.slashes 1 ≠ 0 ↔ p.slashes ≠ 0
    omega
  rw [Path.start, habs, Path.start]

/-- Where there is a directory at the end of a path, there is one at the end of every path to
something on the way. -/
theorem isDir_of_mem_ancestors (ht : d.Tree) (h : d.isDir p = true) (hq : q ∈ p.ancestors)
    (hne : q.isEmpty = false) : d.isDir q = true := by
  rcases mem_ancestors hq with rfl | ⟨n, rfl⟩
  · exact h
  obtain ⟨hp, g, hw⟩ := leads_of_isDir h
  obtain ⟨g', hw⟩ := Leads.prefix_dir (p.tidySegments.take n) (p.tidySegments.drop n)
    (by simpa using hw)
  obtain ⟨m, hm, hd⟩ := hw.dir_of_dot ht (node?_start ht.workDir)
  cases hm
  refine isDir_of_leads ⟨hne, ?_⟩ hd ?_
  · rw [List.any_eq_false]
    intro s hs
    exact List.any_eq_false.1 hp.2 s (mem_of_mem_tidySegments (List.mem_of_mem_take hs))
  · rw [← Path.start_tidy] at hw
    exact hw.undot

/-- Where there is a directory, none is missing. -/
theorem makeDirs_of_isDir (h : d.isDir p = true) : makeDirs p d = (.ok (), d) := by
  obtain ⟨hp, -⟩ := leads_of_isDir h
  unfold makeDirs Path.ancestors
  simp only [hp.1, Bool.false_eq_true, if_false, Bool.not_false, List.filter_cons_of_pos, missing,
    makeDir_of_isDir h, List.reverse_singleton, ensureDirs_cons, ensureDir_of_isDir h]
  rfl

/-- Making a directory adds directories in free places, even if it fails. -/
theorem makeDirs_built (ht : d.Tree) : d.Built (makeDirs p d).2 := by
  unfold makeDirs
  split
  · exact .refl
  · exact ensureDirs_built ht

theorem mem_missing (hq : q ∈ d.missing ps) : q ∈ ps := by
  induction ps with
  | nil => cases hq
  | cons p ps ih =>
    rw [missing] at hq
    split at hq
    · rcases List.mem_cons.1 hq with rfl | hq
      · exact List.mem_cons_self
      · exact List.mem_cons_of_mem _ (ih hq)
    · rw [List.mem_singleton.1 hq]
      exact List.mem_cons_self

/-- After an attempt that failed the directory is not there. -/
theorem makeDirs_error (ht : d.Tree) (h : makeDirs p d = (.error e, d')) : d'.isDir p = false := by
  have ht' : d'.Tree := by
    have := (makeDirs_built (p := p) ht).tree ht
    rwa [h] at this
  unfold makeDirs at h
  split at h
  · cases h
  · obtain ⟨q, hq, hd⟩ := ensureDirs_error h
    have hq := List.mem_filter.1 (mem_missing (List.mem_reverse.1 hq))
    by_contra hp
    rw [isDir_of_mem_ancestors ht' (by simpa using hp) hq.1 (by simpa using hq.2)] at hd
    cases hd

/-! ### Directories that have been made -/

theorem isDir_of_makeDir (ht : d.Tree) (h : d.makeDir p = .ok d') : d'.isDir p = true := by
  obtain ⟨m, s, he, hn, rfl⟩ := makeDir_eq_ok ht h
  have hdir : (d.put (m ++ [s]) .dir).node? (m ++ [s]) = some .dir := by
    rw [node?_put (by simp), if_pos rfl]
  have hways := (SameBut.put (n := .dir) (by simp)).fills hn |>.keepsWays
  have hfound : (d.put (m ++ [s]) .dir).resolveSteps true p p.segments = _ :=
    (he.mono hways ht).resolveSteps_found hdir (.inr (by simp))
  obtain ⟨hp, hw⟩ := resolveSteps_eq_ok.1 hfound
  exact isDir_of_leads hp hdir hw

theorem isDir_of_ensureDir (ht : d.Tree) {u : Unit} (h : ensureDir p d = (.ok u, d')) :
    d'.isDir p = true := by
  unfold ensureDir at h
  cases hm : d.makeDir p with
  | ok d₁ =>
    rw [hm] at h
    cases h
    exact isDir_of_makeDir ht hm
  | error e =>
    rw [hm] at h
    dsimp only at h
    by_cases hp : d.isDir p = true
    · rw [if_pos hp] at h
      cases h
      exact hp
    · rw [if_neg hp] at h
      cases h

theorem isDir_of_ensureDirs (ht : d.Tree) {u : Unit} (h : ensureDirs (ps ++ [p]) d = (.ok u, d')) :
    d'.isDir p = true := by
  induction ps generalizing d with
  | nil =>
    rw [List.nil_append, ensureDirs_cons] at h
    cases hd : ensureDir p d with
    | mk x d₁ =>
      rw [hd] at h
      cases x with
      | error e => cases h
      | ok u =>
        cases h
        exact isDir_of_ensureDir ht hd
  | cons q qs ih =>
    rw [List.cons_append, ensureDirs_cons] at h
    have hb := ensureDir_built (p := q) ht
    cases hd : ensureDir q d with
    | mk x d₁ =>
      rw [hd] at h hb
      cases x with
      | error e => cases h
      | ok u => exact ih (hb.tree ht) h

/-- A directory that has been made is there. -/
theorem isDir_of_makeDirs (ht : d.Tree) {u : Unit} (hp : p.isEmpty = false)
    (h : makeDirs p d = (.ok u, d')) : d'.isDir p = true := by
  have hfirst : ∃ ms, d.missing (p.ancestors.filter fun q => !q.isEmpty) = p :: ms := by
    unfold Path.ancestors
    rw [List.filter_cons_of_pos (by simp [hp]), missing]
    split
    · exact ⟨_, rfl⟩
    · exact ⟨[], rfl⟩
  obtain ⟨ms, hms⟩ := hfirst
  unfold makeDirs at h
  rw [if_neg (by simp [hp]), hms, List.reverse_cons] at h
  exact isDir_of_ensureDirs ht h

end Depot.Disk
