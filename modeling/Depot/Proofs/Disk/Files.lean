import Depot.Proofs.Disk.Building
/-!
# Making, replacing and deleting files

What the operations on files do to the place where a path ends, and that they do nothing else.
-/

namespace Depot.Disk

variable {d d' : Disk} {l m : Location} {s suffix : String} {p q dir : Path} {n : Node}
  {b content : Bytes} {e : Fault}

/-! ### Deleting -/

namespace Ends

/-- What stands at the end of a path is deleted, if it is no directory. -/
theorem removeFile (h : d.Ends p m s) (htr : p.trailing = false)
    (hn : d.node? (m ++ [s]) = some n) (hd : n ≠ .dir) :
    d.removeFile p = .ok (d.drop (m ++ [s])) := by
  unfold Disk.removeFile
  rw [h.resolveSteps_found hn (.inl rfl)]
  simp [hn, hd, htr]

/-- A directory at the end of a path is not deleted. -/
theorem removeFile_dir (h : d.Ends p m s) (hn : d.node? (m ++ [s]) = some .dir) :
    d.removeFile p = .error .isDirectory := by
  unfold Disk.removeFile
  rw [h.resolveSteps_found hn (.inl rfl)]
  simp [hn]

/-- Nothing is deleted where nothing is. -/
theorem removeFile_none (h : d.Ends p m s) (hn : d.node? (m ++ [s]) = none) :
    d.removeFile p = .error .notFound := by
  unfold Disk.removeFile
  rw [h.resolveSteps_free hn]

/-- An attempt to delete what is no link deletes a file or does nothing. -/
theorem removeFile_cases (h : d.Ends p m s) (htr : p.trailing = false)
    (hn : ∀ q, d.node? (m ++ [s]) ≠ some (.link q)) :
    (d.removeFile p).toOption.getD d = d ∨ ∃ b, d.node? (m ++ [s]) = some (.file b) ∧
      (d.removeFile p).toOption.getD d = d.drop (m ++ [s]) := by
  cases hx : d.node? (m ++ [s]) with
  | none =>
    rw [h.removeFile_none hx]
    exact .inl rfl
  | some x =>
    cases x with
    | dir =>
      rw [h.removeFile_dir hx]
      exact .inl rfl
    | file b =>
      rw [h.removeFile htr hx (by simp)]
      exact .inr ⟨b, rfl, rfl⟩
    | link q => exact absurd hx (hn q)

/-- A finished file takes the place of what stands at the end of a path, unless that is a
directory. -/
theorem replaceFile (h : d.Ends p m s) (htr : p.trailing = false)
    (hn : d.node? (m ++ [s]) ≠ some .dir) :
    d.replaceFile p content = .ok (d.put (m ++ [s]) (.file content)) := by
  obtain ⟨ss, hs, hw⟩ := h.way
  have hr : d.resolveSteps true p (p.segments.dropLast ++ ["."]) = .ok (.found m) := by
    rw [resolveSteps_eq_ok, hs, List.dropLast_concat]
    exact ⟨h.followable, hw⟩
  have hl : p.segments.getLast? = some s := by rw [hs, List.getLast?_concat]
  unfold Disk.replaceFile
  rw [hl]
  dsimp only
  rw [hr]
  simp only [h.name.1, h.name.2.1, or_self, if_false, Nat.not_lt.2 h.name.2.2, htr,
    Bool.false_eq_true, hn]

end Ends

/-- What has been deleted is what stood at the end of the path, and was no directory. -/
theorem removeFile_eq_ok (ht : d.Tree) (h : d.removeFile p = .ok d') :
    ∃ m s n, d.Ends p m s ∧ d.node? (m ++ [s]) = some n ∧ n ≠ .dir ∧ d' = d.drop (m ++ [s]) := by
  unfold removeFile at h
  split at h
  · cases h
  · cases h
  · next l hr =>
    split at h
    · cases h
    next hd =>
    split at h
    · cases h
    cases h
    rcases ends_or_dir ht hr with ⟨m, s, he⟩ | ⟨g, hg, hgd⟩
    · cases hn : d.node? (m ++ [s]) with
      | none =>
        rw [he.resolveSteps_free hn] at hr
        cases hr
      | some n =>
        rw [he.resolveSteps_found hn (.inl rfl)] at hr
        cases hr
        refine ⟨m, s, n, he, hn, ?_, rfl⟩
        rintro rfl
        exact hd hn
    · cases hg
      exact absurd hgd hd

theorem tree_of_removeFile (ht : d.Tree) (h : d.removeFile p = .ok d') : d'.Tree := by
  obtain ⟨m, s, n, he, hn, hd, rfl⟩ := removeFile_eq_ok ht h
  exact ht.changed (SameBut.drop (by simp)) (he.dir ht) (by simp [hn, hd])

/-! ### Making and replacing -/

/-- A file that has been made stands at the end of the path, where nothing was. -/
theorem createFile_eq_ok (ht : d.Tree) (h : d.createFile p content = .ok d') :
    ∃ m s, d.Ends p m s ∧ d.node? (m ++ [s]) = none ∧ d' = d.put (m ++ [s]) (.file content) := by
  unfold createFile at h
  split at h
  · cases h
  · cases h
  · next m s hr =>
    cases h
    obtain ⟨he, hn⟩ := ends_of_free ht hr
    exact ⟨m, s, he, hn, rfl⟩

/-- A finished file takes the place at the end of the path, and no other changes. -/
theorem replaceFile_eq_ok (h : d.replaceFile p content = .ok d') :
    ∃ m s, d.Ends p m s ∧ p.trailing = false ∧ d.node? (m ++ [s]) ≠ some .dir ∧
      d' = d.put (m ++ [s]) (.file content) := by
  unfold replaceFile at h
  split at h
  · split at h <;> cases h
  next s hs =>
  split at h
  · cases h
  · cases h
  next m hr =>
  split at h
  · cases h
  next hdots =>
  split at h
  · cases h
  next hlen =>
  split at h
  · cases h
  next htr =>
  split at h
  · cases h
  next hn =>
  cases h
  -- None of the refusals applies: the last name is one, and no directory stands at it.
  obtain ⟨hp, hw⟩ := resolveSteps_eq_ok.1 hr
  obtain ⟨ss, hss⟩ := List.getLast?_eq_some_iff.1 hs
  rw [hss, List.dropLast_concat] at hw
  rw [not_or] at hdots
  exact ⟨m, s, ⟨hp, ⟨hdots.1, hdots.2, Nat.le_of_not_lt hlen⟩, ss, hss, hw⟩, by simpa using htr, hn,
    rfl⟩

/-- A file that can be read can be replaced. -/
theorem replaceFile_of_contentAt (content : Bytes) (ht : d.Tree) (h : d.contentAt p = .ok b) :
    ∃ m s, d.Ends p m s ∧ d.node? (m ++ [s]) ≠ some .dir ∧
      d.replaceFile p content = .ok (d.put (m ++ [s]) (.file content)) := by
  obtain ⟨htr, m, s, he⟩ := ends_of_contentAt ht h
  have hn := (he.deadEnd ht h).notDir
  exact ⟨m, s, he, hn, he.replaceFile htr hn⟩

/-! ### Temporary files -/

/-- A temporary file that has been written stands at the end of its path, where nothing was. -/
theorem writeTemp_eq_ok (ht : d.Tree) (h : writeTemp dir suffix content d = (.ok p, d')) :
    ∃ m s, d.Ends p m s ∧ p.trailing = false ∧ d.node? (m ++ [s]) = none ∧
      d.SameBut d' (m ++ [s]) ∧ d'.node? (m ++ [s]) = some (.file content) := by
  unfold writeTemp at h
  split at h
  · cases h
  split at h
  · dsimp only at h
    split at h
    · cases h
    · next hc =>
      cases h
      obtain ⟨m, s, he, hn, rfl⟩ := createFile_eq_ok ht hc
      have hput : d.SameBut (d.put (m ++ [s]) (.file content)) (m ++ [s]) :=
        SameBut.put (by simp)
      refine ⟨m, s, he, rfl, hn, ⟨hput.workDir, hput.node⟩, ?_⟩
      exact (node?_put (d := d) (by simp)).trans (if_pos rfl)
  · cases h

/-- If no temporary file can be written, the disk is as it was. -/
theorem writeTemp_eq_error (h : writeTemp dir suffix content d = (.error e, d')) : d' = d := by
  unfold writeTemp at h
  split at h
  · cases h
    rfl
  split at h
  · dsimp only at h
    split at h <;> cases h
    rfl
  · cases h
    rfl

end Depot.Disk
