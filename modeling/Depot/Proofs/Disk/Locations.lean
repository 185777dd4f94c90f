import Mathlib.Data.List.Induction
import Depot.Proofs.Disk.Files
/-!
# Files at locations

What a path to a location leads to, where everything on the disk stands in a directory under a name
that can be given. Below a directory without links, files are written, read and deleted where the
names say.
-/

namespace Depot.Disk

variable {d d' : Disk} {last : Bool} {links : Nat} {l m root : Location} {s : String}
  {ss xs : List String} {t : Target} {n : Node} {b : Bytes}

/-! ### Proper disks -/

/-- Everything stands in a directory, under a name that can be given. -/
structure Proper (d : Disk) : Prop extends Tree d where
  name : ∀ {l s}, d.node? (l ++ [s]) ≠ none → IsName s ∧ s.toList.contains '\x00' = false

/-- Below a location there are no links. -/
def NoLinks (d : Disk) (root : Location) : Prop := ∀ ss q, d.node? (root ++ ss) ≠ some (.link q)

theorem ne_none_of_node? (h : d.node? l = some n) : d.node? l ≠ none := by
  rw [h]
  exact nofun

/-- Whatever has something below it is a directory. -/
theorem Tree.above (ht : d.Tree) (hs : ss ≠ []) (h : d.node? (l ++ ss) ≠ none) :
    d.node? l = some .dir := by
  induction ss using List.reverseRecOn with
  | nil => exact absurd rfl hs
  | append_singleton xs s ih =>
    rw [← List.append_assoc] at h
    have hx := ht.parent h
    by_cases hxs : xs = []
    · subst hxs
      simpa using hx
    · exact ih hxs (ne_none_of_node? hx)

/-- Something stands under every name on the way to something. -/
theorem Tree.of_mem (ht : d.Tree) (h : d.node? (l ++ ss) ≠ none) (hs : s ∈ ss) :
    ∃ m, d.node? (m ++ [s]) ≠ none := by
  obtain ⟨xs, ys, rfl⟩ := List.append_of_mem hs
  rw [← List.append_assoc, List.append_cons] at h
  refine ⟨l ++ xs, ?_⟩
  by_cases hys : ys = []
  · simpa [hys] using h
  · rw [ht.above hys h]
    exact nofun

namespace Proper

theorem changed (hd : d.Proper) (hb : d.SameBut d' (m ++ [s])) (hm : d.node? m = some .dir)
    (hn : d.node? (m ++ [s]) ≠ some .dir) (hs : IsName s ∧ s.toList.contains '\x00' = false) :
    d'.Proper := by
  refine ⟨hd.toTree.changed hb hm hn, fun {l s'} hl => ?_⟩
  by_cases hls : l ++ [s'] = m ++ [s]
  · cases (List.append_inj' hls rfl).2
    exact hs
  · rw [hb.node hls] at hl
    exact hd.name hl

theorem built (hd : d.Proper) (h : d.Built d') : d'.Proper := by
  induction h with
  | refl => exact hd
  | step hm hs hz hn _ ih =>
    apply ih
    exact hd.changed (SameBut.put (by simp)) hm (by simp [hn]) ⟨hs, hz⟩

theorem fresh : (Disk.fresh ["work"] "tmp").Proper := by
  refine ⟨tree_fresh, fun {l s} hl => ?_⟩
  rw [node?_fresh] at hl
  split at hl
  · next h =>
    have hs : s ∈ ["work", "tmp"] := h.subset (by simp)
    simp only [List.mem_cons, List.not_mem_nil, or_false] at hs
    rcases hs with rfl | rfl
    · exact ⟨⟨by decide, by decide, by decide⟩, by decide⟩
    · exact ⟨⟨by decide, by decide, by decide⟩, by decide⟩
  · exact absurd rfl hl

/-- Every name on the way to something is one that can be given. -/
theorem name_of_mem (hd : d.Proper) (h : d.node? (l ++ ss) ≠ none) (hs : s ∈ ss) :
    IsName s ∧ s.toList.contains '\x00' = false := by
  obtain ⟨m, hm⟩ := hd.of_mem h hs
  exact hd.name hm

/-- A place where a name could be given: a file or nothing stands there. -/
theorem drop (hd : d.Proper) (hb : d.node? l = some (.file b)) : (d.drop l).Proper := by
  rcases List.eq_nil_or_concat l with rfl | ⟨m, s, rfl⟩
  · cases hb
  · rw [List.concat_eq_append] at hb ⊢
    have hne := ne_none_of_node? hb
    exact hd.changed (SameBut.drop (by simp)) (hd.parent hne) (by simp [hb]) (hd.name hne)

end Proper

/-! ### Ways down -/

/-- Names lead down to what stands under them. -/
theorem leads_down (hd : d.Proper) (hl : d.node? l = some .dir) (hn : d.node? (l ++ ss) = some n)
    (hlast : last = false ∨ ∀ q, n ≠ .link q) : d.Leads last links l ss (.found (l ++ ss)) := by
  induction ss generalizing l with
  | nil =>
    rw [List.append_nil]
    exact .here
  | cons s ss ih =>
    rw [List.append_cons] at hn ⊢
    by_cases hss : ss = []
    · subst hss
      rw [List.append_nil] at hn ⊢
      have hs := (hd.name (ne_none_of_node? hn)).1
      cases n with
      | dir => exact .dir hs hn .here
      | file b => exact .file hs hn
      | link q => exact .lastLink hs hn (hlast.resolve_right fun h => h q rfl)
    · have hdir := hd.above hss (ne_none_of_node? hn)
      apply Leads.dir (hd.name (ne_none_of_node? hdir)).1 hdir
      exact ih hdir hn

/-- Names of directories can be passed. -/
theorem leads_append (hd : d.Proper) (hm : d.node? (l ++ xs) = some .dir) :
    d.Leads last links l (xs ++ ss) t ↔ d.Leads last links (l ++ xs) ss t := by
  induction xs generalizing l with
  | nil => simp
  | cons x xs ih =>
    rw [List.append_cons] at hm ⊢
    have hdir : d.node? (l ++ [x]) = some .dir := by
      by_cases hxs : xs = []
      · simpa [hxs] using hm
      · exact hd.above hxs (ne_none_of_node? hm)
    rw [List.cons_append, leads_dir (hd.name (ne_none_of_node? hdir)).1 hdir, ih hm]

/-- Where there are no links, names lead to what stands under them, or to the last of them, which
is free. -/
theorem leads_noLinks (hn : d.NoLinks l) (hs : ∀ s ∈ ss, s ≠ "." ∧ s ≠ "..")
    (hw : d.Leads last links l ss t) :
    t = .found (l ++ ss) ∨ ∃ xs s, ss = xs ++ [s] ∧ t = .free (l ++ xs) s := by
  induction hw with
  | here => simp
  | dot => exact absurd rfl (hs "." (by simp)).1
  | up => exact absurd rfl (hs ".." (by simp)).2
  | @free _ l s => exact .inr ⟨[], s, rfl, by simp⟩
  | @dir _ l s ss t _ _ _ ih =>
    have hn' : d.NoLinks (l ++ [s]) := by
      intro xs q
      have := hn (s :: xs) q
      rwa [List.append_cons] at this
    rcases ih hn' (fun x hx => hs x (List.mem_cons_of_mem _ hx)) with h | ⟨xs, x, h, h'⟩
    · left
      rw [h, ← List.append_cons]
    · right
      exact ⟨s :: xs, x, by rw [h]; rfl, by rw [h', ← List.append_cons]⟩
  | file => exact .inl rfl
  | lastLink _ hq => exact absurd hq (hn _ _)
  | link _ hq => exact absurd hq (hn _ _)

/-! ### Paths to locations -/

theorem followable_ofLocation (hd : d.Proper) (h : d.node? l ≠ none) :
    (Path.ofLocation l).Followable := by
  refine ⟨rfl, List.any_eq_false.2 fun s hs => ?_⟩
  simpa using (hd.name_of_mem (l := []) h hs).2

/-- A path to a directory leads there where no way has been lost. -/
theorem locate_of_keepsWays {q : Path} (h : d.KeepsWays d') (hq : d.locate q = .ok l)
    (hl : d.node? l = some .dir) : d'.locate q = .ok l := by
  obtain ⟨hf, hlead⟩ := locate_eq_ok.1 hq
  apply locate_eq_ok.2
  refine ⟨hf, ?_⟩
  rw [h.workDir]
  apply hlead.mono h
  intro b hb
  rw [hl] at hb
  cases hb

/-- The path to a name in a directory ends there. -/
theorem ends_ofLocation (hd : d.Proper) (hm : d.node? m = some .dir)
    (hs : IsName s ∧ s.toList.contains '\x00' = false) :
    d.Ends (.ofLocation (m ++ [s])) m s := by
  have hf := followable_ofLocation hd (ne_none_of_node? hm)
  refine ⟨⟨rfl, ?_⟩, hs.1, m, rfl, ?_⟩
  · have hz := hf.2
    simp only [Path.ofLocation, List.any_append, Bool.or_eq_false_iff] at hz ⊢
    exact ⟨hz, by simpa using hs.2⟩
  · have hw : d.Leads true maxLinks [] m (.found m) := leads_down hd rfl hm (.inr (by simp))
    exact hw.snoc_dot hm

theorem ends_of_file (hd : d.Proper) (hb : d.node? l = some (.file b)) :
    ∃ m s, l = m ++ [s] ∧ d.Ends (.ofLocation l) m s := by
  rcases List.eq_nil_or_concat l with rfl | ⟨m, s, rfl⟩
  · cases hb
  · rw [List.concat_eq_append] at hb ⊢
    have hne := ne_none_of_node? hb
    exact ⟨m, s, rfl, ends_ofLocation hd (hd.parent hne) (hd.name hne)⟩

/-- A file is read at its location. -/
theorem contentAt_ofLocation (hd : d.Proper) (hb : d.node? l = some (.file b)) :
    d.contentAt (.ofLocation l) = .ok b := by
  obtain ⟨m, s, rfl, he⟩ := ends_of_file hd hb
  exact he.contentAt rfl hb

/-- A file is deleted at its location. -/
theorem removeFile_ofLocation (hd : d.Proper) (hb : d.node? l = some (.file b)) :
    d.removeFile (.ofLocation l) = .ok (d.drop l) := by
  obtain ⟨m, s, rfl, he⟩ := ends_of_file hd hb
  exact he.removeFile rfl hb (by simp)

/-- What has been deleted below a directory without links is a file that stood where its names
say. -/
theorem removeFile_ofLocation_eq_ok (hd : d.Proper) (hr : d.node? root = some .dir)
    (hl : d.NoLinks root) (hs : ∀ s ∈ ss, s ≠ "." ∧ s ≠ "..")
    (h : d.removeFile (.ofLocation (root ++ ss)) = .ok d') :
    ∃ b, d.node? (root ++ ss) = some (.file b) ∧ d' = d.drop (root ++ ss) := by
  unfold removeFile at h
  split at h
  · cases h
  · cases h
  · next g hg =>
    split at h
    · cases h
    next hdir =>
    split at h
    · cases h
    cases h
    have hw : d.Leads false maxLinks root ss (.found g) :=
      (leads_append (l := []) hd hr).1 (resolveSteps_eq_ok.1 hg).2
    have hfit : d.node? g ≠ none := hw.fits hd.toTree hr
    rcases leads_noLinks hl hs hw with h | ⟨xs, s, -, h⟩
    · cases h
      cases hn : d.node? (root ++ ss) with
      | none => exact absurd hn hfit
      | some n =>
        cases n with
        | file b => exact ⟨b, rfl, rfl⟩
        | dir => exact absurd hn hdir
        | link q => exact absurd hn (hl ss q)
    · cases h

/-- A file that has been written below a directory without links stands where its names say. -/
theorem writeFile_ofLocation_eq_ok (hd : d.Proper) (hr : d.node? root = some .dir)
    (hl : d.NoLinks root) (hs : ∀ s ∈ ss, s ≠ "." ∧ s ≠ "..")
    (h : d.writeFile (.ofLocation (root ++ ss)) b = .ok d') :
    ∃ xs s, ss = xs ++ [s] ∧ (IsName s ∧ s.toList.contains '\x00' = false) ∧
      d.node? (root ++ xs) = some .dir ∧ d.node? (root ++ ss) ≠ some .dir ∧
      d' = d.put (root ++ ss) (.file b) := by
  have hw {t} (ht : d.resolveSteps true (.ofLocation (root ++ ss)) (root ++ ss) = .ok t) :
      (Path.ofLocation (root ++ ss)).Followable ∧ d.Leads true maxLinks root ss t := by
    rw [resolveSteps_eq_ok] at ht
    exact ⟨ht.1, (leads_append (l := []) hd hr).1 ht.2⟩
  unfold writeFile at h
  simp only [Path.ofLocation, Bool.false_eq_true, if_false] at h
  rw [show (⟨1, root ++ ss, false⟩ : Path) = .ofLocation (root ++ ss) from rfl] at h
  split at h
  · cases h
  · -- There is nothing at the last name yet.
    next m s ht =>
    cases h
    obtain ⟨hf, hw⟩ := hw ht
    obtain ⟨hdir, hfree, hname⟩ := hw.fits hd.toTree hr
    rcases leads_noLinks hl hs hw with h | ⟨xs, x, hxs, h⟩
    · cases h
    · cases h
      have hzero := List.any_eq_false.1 hf.2 s (by simp [Path.ofLocation, hxs])
      rw [List.append_assoc, ← hxs] at hfree ⊢
      exact ⟨xs, s, hxs, ⟨hname, by simpa using hzero⟩, hdir, by simp [hfree], rfl⟩
  · -- There is a file already.
    next g ht =>
    obtain ⟨hf, hw⟩ := hw ht
    split at h
    · cases h
    next hdir =>
    cases h
    have hfit : d.node? g ≠ none := hw.fits hd.toTree hr
    rcases leads_noLinks hl hs hw with h | ⟨xs, x, hxs, h⟩
    · cases h
      rcases List.eq_nil_or_concat ss with rfl | ⟨xs, s, hxs⟩
      · rw [List.append_nil] at hdir
        exact absurd hr hdir
      · rw [List.concat_eq_append] at hxs
        have hfound : d.node? (root ++ xs ++ [s]) ≠ none := by
          rwa [List.append_assoc, ← hxs]
        exact ⟨xs, s, hxs, hd.name hfound, hd.parent hfound, hdir, rfl⟩
    · cases h

/-! ### No links -/

theorem NoLinks.built (hl : d.NoLinks root) (h : d.Built d') : d'.NoLinks root := by
  intro ss q hq
  refine hl ss q ?_
  rw [h.node?_eq (by simp [hq]), hq]

theorem NoLinks.put_file (hl : d.NoLinks root) (hne : l ≠ []) :
    (d.put l (.file b)).NoLinks root := by
  intro ss q hq
  rw [node?_put hne] at hq
  split at hq
  · simp at hq
  · exact hl ss q hq

theorem NoLinks.drop (hl : d.NoLinks root) (hne : l ≠ []) : (d.drop l).NoLinks root := by
  intro ss q hq
  rw [node?_drop hne] at hq
  split at hq
  · cases hq
  · exact hl ss q hq

/-- New directories are no new files. -/
theorem Built.node?_file (h : d.Built d') :
    d'.node? l = some (.file b) ↔ d.node? l = some (.file b) := by
  constructor
  · intro hb
    rw [h.node?_eq (by simp [hb]), hb]
  · exact h.toExtends.node

end Depot.Disk
