import Depot.Proofs.Disk.Locations
/-!
# Sound disks

On a sound disk everything stands in a directory, under a name that a way can take. Whatever is
made, written or deleted, through links or not, a sound disk stays one.
-/

namespace Depot.Disk

variable {d d' : Disk} {l m : Location} {s : String} {ss : List String} {p : Path} {b : Bytes}

/-- Everything stands in a directory, under a name that a way can take. -/
structure Sound (d : Disk) : Prop extends Tree d where
  name : ∀ {l s}, d.node? (l ++ [s]) ≠ none → IsName s

theorem Proper.sound (hd : d.Proper) : d.Sound := ⟨hd.toTree, fun h => (hd.name h).1⟩

namespace Sound

theorem name_of_mem (hd : d.Sound) (h : d.node? (l ++ ss) ≠ none) (hs : s ∈ ss) : IsName s := by
  obtain ⟨m, hm⟩ := hd.of_mem h hs
  exact hd.name hm

theorem changed (hd : d.Sound) (hb : d.SameBut d' (m ++ [s])) (hm : d.node? m = some .dir)
    (hn : d.node? (m ++ [s]) ≠ some .dir) (hs : IsName s) : d'.Sound := by
  refine ⟨hd.toTree.changed hb hm hn, fun {l s'} hl => ?_⟩
  by_cases hls : l ++ [s'] = m ++ [s]
  · cases (List.append_inj' hls rfl).2
    exact hs
  · rw [hb.node hls] at hl
    exact hd.name hl

theorem put (hd : d.Sound) (n : Node) (hm : d.node? m = some .dir)
    (hn : d.node? (m ++ [s]) ≠ some .dir) (hs : IsName s) : (d.put (m ++ [s]) n).Sound :=
  hd.changed (SameBut.put (by simp)) hm hn hs

theorem built (hd : d.Sound) (h : d.Built d') : d'.Sound := by
  induction h with
  | refl => exact hd
  | step hm hs _ hn _ ih => exact ih (hd.put .dir hm (by simp [hn]) hs)

theorem removeFile (hd : d.Sound) (h : d.removeFile p = .ok d') : d'.Sound := by
  obtain ⟨m, s, n, he, hn, hdir, rfl⟩ := removeFile_eq_ok hd.toTree h
  exact hd.changed (SameBut.drop (by simp)) (he.dir hd.toTree) (by simp [hn, hdir]) he.name

/-- A file is written to a free name in a directory, or in the place of what is no directory. -/
theorem writeFile (hd : d.Sound) (h : d.writeFile p b = .ok d') : d'.Sound := by
  have hway {t} (ht : d.resolveSteps true p p.segments = .ok t) : t.Fits d :=
    (resolveSteps_eq_ok.1 ht).2.fits hd.toTree (node?_start hd.workDir)
  unfold Disk.writeFile at h
  split at h
  · split at h <;> cases h
  split at h
  · cases h
  · next m s ht =>
    cases h
    obtain ⟨hm, hfree, hs⟩ := hway ht
    exact hd.put (.file b) hm (by simp [hfree]) hs
  · next l ht =>
    have hl : d.node? l ≠ none := hway ht
    split at h
    · cases h
    next hdir =>
    cases h
    rcases List.eq_nil_or_concat l with rfl | ⟨m, s, rfl⟩
    · exact absurd rfl hdir
    · rw [List.concat_eq_append] at hl hdir ⊢
      exact hd.put (.file b) (hd.parent hl) hdir (hd.name hl)

end Sound

end Depot.Disk
