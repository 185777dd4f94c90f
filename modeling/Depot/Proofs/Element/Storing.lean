import Depot.Proofs.Element.Memory
/-!
# Storing content

Content is replaced as a whole or not at all: after a success it is the new one, after a failure it
is what it was, and where it could be had and may be written there is no failure.
-/

namespace Depot.Disk

variable {d : Disk} {p : Path} {b : Bytes} {m : Location} {s : String} {ss : List String}

/-! ### The directory of a file -/

theorem tidySegments_concat (hp : p.segments = ss ++ [s]) (hs : s ≠ ".") :
    p.tidySegments = { p with segments := ss }.tidySegments ++ [s] := by
  unfold Path.tidySegments
  rw [hp]
  cases ss with
  | nil => simp [hs]
  | cons a ss => simp [hs, Path.isAbsolute]

/-- Without its name a path leads to the directory. -/
theorem parent?_of_segments (hp : p.segments = ss ++ [s]) (hs : s ≠ ".") :
    p.parent? = some { p with segments := ss }.tidy := by
  unfold Path.parent?
  rw [tidySegments_concat hp hs]
  split
  · next hnil => simp at hnil
  · next hne => simp [Path.tidy]

/-- The directory that a file stands in is there. -/
theorem isDir_directoryOf (ht : d.Tree) (h : d.contentAt p = .ok b) :
    d.isDir (Element.directoryOf p) = true := by
  obtain ⟨-, m, s, he⟩ := ends_of_contentAt ht h
  have hm := he.dir ht
  obtain ⟨ss, hs, hw⟩ := he.way
  have hw := leads_tidySegments (p := { p with segments := ss }) hw.undot
  unfold Element.directoryOf
  rw [parent?_of_segments hs he.name.1]
  dsimp only
  split
  · have hdot : (Path.ofText ".").segments = ["."] := by decide +kernel
    have hstart := node?_start (q := .ofText ".") ht.workDir
    refine isDir_of_leads ⟨by decide +kernel, by decide +kernel⟩ hstart ?_
    rw [hdot]
    exact .dot .here
  · next hne =>
    refine isDir_of_leads ⟨by simpa using hne, ?_⟩ hm ?_
    · rw [List.any_eq_false]
      intro x hx
      refine List.any_eq_false.1 he.followable.2 x ?_
      rw [hs]
      exact List.mem_append_left _ (mem_of_mem_tidySegments hx)
    · rw [Path.start_tidy]
      exact hw

end Depot.Disk

namespace Depot

open Disk

variable {d d' : Disk} {l x : Location} {temps : List TempFile}

/-! ### Deleting temporary files -/

/-- A temporary file whose path ends where no link is, and not at `x`. -/
def TempFile.EndsOff (d : Disk) (x : Location) (t : TempFile) : Prop :=
  t.path.trailing = false ∧ ∃ m n, d.Ends t.path m n ∧ (∀ q, d.node? (m ++ [n]) ≠ some (.link q)) ∧
    m ++ [n] ≠ x

theorem ContentCache.deleteAll_cons (t : TempFile) (temps : List TempFile) :
    deleteAll (t :: temps) d = deleteAll temps ((d.removeFile t.path).toOption.getD d) := rfl

theorem ContentCache.deleteAll_tree (ht : d.Tree) : (deleteAll temps d).Tree := by
  induction temps generalizing d with
  | nil => exact ht
  | cons t temps ih =>
    rw [deleteAll_cons]
    refine ih ?_
    cases hr : d.removeFile t.path with
    | error f => exact ht
    | ok d' => exact tree_of_removeFile ht hr

/-- An attempt to delete what a path ends at, if that is no link, deletes a file or does nothing. -/
theorem Disk.EndsAt.removeFile_cases {p : Path} (h : d.EndsAt p l)
    (hl : ∀ q, d.node? l ≠ some (.link q)) :
    d.HoldsFile l ∧ (d.removeFile p).toOption.getD d = d.drop l ∨
      ¬ d.HoldsFile l ∧ (d.removeFile p).toOption.getD d = d := by
  obtain ⟨htr, m, n, he, rfl⟩ := h
  unfold HoldsFile
  cases hx : d.node? (m ++ [n]) with
  | none =>
    rw [he.removeFile_none hx]
    exact .inr ⟨nofun, rfl⟩
  | some x =>
    cases x with
    | dir =>
      rw [he.removeFile_dir hx]
      exact .inr ⟨nofun, rfl⟩
    | file b =>
      rw [he.removeFile htr hx nofun]
      exact .inl ⟨⟨b, rfl⟩, rfl⟩
    | link q => exact absurd hx (hl q)

/-- Dropping a file keeps the ways. -/
theorem Disk.HoldsFile.keepsWays_drop (h : d.HoldsFile l) : d.KeepsWays (d.drop l) := by
  have hd : d.SameBut (d.drop l) l := SameBut.drop h.ne_nil
  obtain ⟨b, hb⟩ := h
  exact hd.keepsWays fun n hn => ⟨b, by simpa [hb, eq_comm] using hn⟩

theorem Disk.HoldsFile.tree_drop (h : d.HoldsFile l) (ht : d.Tree) : (d.drop l).Tree := by
  have hne := h.ne_nil
  obtain ⟨b, hb⟩ := h
  rcases List.eq_nil_or_concat l with rfl | ⟨m, s, rfl⟩
  · exact absurd rfl hne
  · rw [List.concat_eq_append] at hb ⊢
    exact ht.changed (SameBut.drop (by simp)) (ht.parent (s := s) (by simp [hb])) (by simp [hb])

/-- A temporary file that would be deleted stands at a location. -/
def ContentCache.Deletes (temps : List TempFile) (d : Disk) (l : Location) : Prop :=
  d.HoldsFile l ∧ ∃ t ∈ temps, d.EndsAt t.path l

namespace ContentCache

theorem deletes_cons (hl : d.EndsAt t.path l) :
    Deletes (t :: temps) d x ↔ x = l ∧ d.HoldsFile l ∨ Deletes temps d x := by
  constructor
  · rintro ⟨hfile, t', hm, hx⟩
    rcases List.mem_cons.1 hm with rfl | hm
    · obtain rfl := hx.unique hl
      exact .inl ⟨rfl, hfile⟩
    · exact .inr ⟨hfile, t', hm, hx⟩
  · rintro (⟨rfl, hfile⟩ | ⟨hfile, t', hm, hx⟩)
    · exact ⟨hfile, t, List.mem_cons_self, hl⟩
    · exact ⟨hfile, t', List.mem_cons_of_mem _ hm, hx⟩

/-- Once a file has been dropped, the others are deleted as before. -/
theorem deletes_drop (ht : d.Tree) (hfile : d.HoldsFile l)
    (h : ∀ t ∈ temps, ∃ l, d.EndsAt t.path l ∧ ∀ q, d.node? l ≠ some (.link q)) (hx : x ≠ l) :
    Deletes temps (d.drop l) x ↔ Deletes temps d x := by
  have hk := hfile.keepsWays_drop
  unfold Deletes HoldsFile
  rw [node?_drop hfile.ne_nil, if_neg hx]
  refine and_congr_right fun _ => ?_
  constructor
  · rintro ⟨t, hm, he⟩
    obtain ⟨l', hl', -⟩ := h t hm
    obtain rfl := he.unique (hl'.mono hk ht)
    exact ⟨t, hm, hl'⟩
  · rintro ⟨t, hm, he⟩
    exact ⟨t, hm, he.mono hk ht⟩

/-- Deleting temporary files deletes exactly the files at the ends of their paths. -/
theorem deleteAll_exact (ht : d.Tree)
    (h : ∀ t ∈ temps, ∃ l, d.EndsAt t.path l ∧ ∀ q, d.node? l ≠ some (.link q)) :
    d.KeepsWays (deleteAll temps d) ∧ ∀ x,
      (Deletes temps d x → (deleteAll temps d).node? x = none) ∧
      (¬ Deletes temps d x → (deleteAll temps d).node? x = d.node? x) := by
  induction temps generalizing d with
  | nil =>
    refine ⟨.refl d, fun x => ⟨?_, fun _ => rfl⟩⟩
    rintro ⟨-, t, ht, -⟩
    cases ht
  | cons t temps ih =>
    obtain ⟨⟨l, hl, hlink⟩, hrest⟩ := List.forall_mem_cons.1 h
    rw [deleteAll_cons]
    rcases hl.removeFile_cases hlink with ⟨hfile, hr⟩ | ⟨hfile, hr⟩
    · -- The other paths still lead where they led, as dropping a file closes no way.
      have hk := hfile.keepsWays_drop
      have hnode (x : Location) : (d.drop l).node? x = if x = l then none else d.node? x :=
        node?_drop hfile.ne_nil
      rw [hr]
      obtain ⟨hk', hx'⟩ := ih (hfile.tree_drop ht) fun t' hm => by
        obtain ⟨l', hl', hlink'⟩ := hrest t' hm
        refine ⟨l', hl'.mono hk ht, fun q hq => hlink' q ?_⟩
        rw [hnode] at hq
        split at hq
        · cases hq
        · exact hq
      refine ⟨hk.trans hk', fun x => ?_⟩
      rw [deletes_cons hl]
      by_cases hxl : x = l
      · subst hxl
        have hnone : (deleteAll temps (d.drop x)).node? x = none := by
          rw [(hx' x).2, hnode, if_pos rfl]
          rintro ⟨⟨b, hb⟩, -⟩
          rw [hnode, if_pos rfl] at hb
          cases hb
        exact ⟨fun _ => hnone, fun hnot => absurd (.inl ⟨rfl, hfile⟩) hnot⟩
      · have hsame : (d.drop l).node? x = d.node? x := by rw [hnode, if_neg hxl]
        rw [or_iff_right fun h => hxl h.1, ← deletes_drop ht hfile hrest hxl, ← hsame]
        exact hx' x
    · rw [hr]
      obtain ⟨hk', hx'⟩ := ih ht hrest
      refine ⟨hk', fun x => ?_⟩
      rw [deletes_cons hl, or_iff_right fun h => hfile h.2]
      exact hx' x

end ContentCache

/-- Deleting temporary files keeps the ways, and what stands where none of them ends. -/
theorem ContentCache.deleteAll_keeps (ht : d.Tree) (h : ∀ t ∈ temps, t.EndsOff d x) :
    d.KeepsWays (deleteAll temps d) ∧ (deleteAll temps d).node? x = d.node? x := by
  obtain ⟨hk, hx⟩ := deleteAll_exact ht fun t hm => by
    obtain ⟨htr, m, n, he, hlink, -⟩ := h t hm
    exact ⟨m ++ [n], ⟨htr, m, n, he, rfl⟩, hlink⟩
  refine ⟨hk, (hx x).2 ?_⟩
  rintro ⟨-, t, hm, hends⟩
  obtain ⟨htr, m, n, he, -, hne⟩ := h t hm
  exact hne (hends.unique ⟨htr, m, n, he, rfl⟩).symm

namespace Backend

variable {b b' : Backend} {locator : String} {content : Bytes} {x : Option Bytes}

/-- Content that has been put where content can be read is read there. -/
theorem read_of_write (hw : b.write locator content = .ok b') (hx : b.read locator = .ok x) :
    b'.read locator = .ok (some content) := by
  unfold write at hw
  unfold read at hx ⊢
  split at hw <;> cases hw
  dsimp only
  split at hx
  · cases hx
  · rw [Dict.get?_insert, if_pos rfl]

/-- Content that a backend refuses cannot be stored. -/
theorem write_error {e : ElementError} (h : b.write locator content = .error e) :
    ∃ t, e = .store locator t := by
  unfold write at h
  split at h <;> cases h
  exact ⟨_, rfl⟩

/-- What a backend refuses after it has been written it has refused before. -/
theorem refused_of_write {other : String} {c : Bytes} {e : ElementError}
    (hw : b.write locator content = .ok b') (he : b'.write other c = .error e) :
    b.write other c = .error e := by
  have hsame : b'.refusal? = b.refusal? := by
    unfold write at hw
    split at hw <;> cases hw
    rfl
  unfold write at he ⊢
  rw [hsame] at he
  split at he
  · exact he
  · cases he

/-- A backend that has been put in the place of another one stands there. -/
theorem getD_set {backends : List Backend} {ref : BackendRef} (h : ref < backends.length) :
    (backends.set ref b).getD ref .empty = b := by
  simp [List.getD_eq_getElem?_getD, h]

end Backend

namespace Element

open ContentCache

variable {s s' : Scene Around} {b content : Bytes} {e : ElementError} {m : Location} {n : String}
  {path : String} {type : Option String} {readOnly : Bool} {t : TempFile}

/-! ### Success -/

/-- A source in a backend has a backend. -/
def Based (s : Scene Around) : Prop :=
  ∀ name ref locator type readOnly, s.around.source = .backend name ref locator type readOnly →
    ref < s.around.backends.length

/-- The backend of a source refuses content. -/
def Refuses (s : Scene Around) (content : Bytes) (e : ElementError) : Prop :=
  ∃ name ref locator type readOnly, s.around.source = .backend name ref locator type readOnly ∧
    (s.around.backends.getD ref .empty).write locator content = .error e

/-- No temporary file stands where the path of the content ends. -/
theorem Remembers.endsOff (h : Remembers s b) (hs : s.around.source = .file path type readOnly)
    (ht : s.disk.Tree) (he : s.disk.Ends (.ofText path) m n) (hm : t ∈ s.cache.temps) :
    t.EndsOff s.disk (m ++ [n]) := by
  obtain ⟨-, htr, m', n', he', ho, ha⟩ := h.temps t hm
  refine ⟨htr, m', n', he', fun q hq => by simpa using ho _ hq, fun hmn => ?_⟩
  obtain ⟨l, hl, hb⟩ := locate_of_content hs h.content
  obtain ⟨htr', -⟩ := ends_of_contentAt ht (contentAt_eq_ok.2 ⟨l, hl, hb⟩)
  have hlink (q : Path) : s.disk.node? (m ++ [n]) ≠ some (.link q) := by
    rw [← hmn]
    exact fun hq => by simpa using ho _ hq
  obtain ⟨rfl, -⟩ := he.locate_eq_ok htr' hlink hl
  exact ha _ _ _ hs (hmn ▸ hl)

/-- What can be had from a backend can be read there. -/
theorem read_of_content {d : Disk} {backends : List Backend} {name : String} {ref : BackendRef}
    {locator : String}
    (h : Source.content d backends (.backend name ref locator type readOnly) = .ok b) :
    (backends.getD ref .empty).read locator = .ok (some b) := by
  unfold Source.content at h
  dsimp only at h
  split at h
  · next hx =>
    cases h
    exact hx
  · cases h
  · cases h

/-- After an invalidation nothing is remembered. -/
theorem faithful_invalidate (ht : s.disk.Tree) :
    Faithful { s with cache := s.cache.renew, disk := deleteAll s.cache.temps s.disk } :=
  ⟨deleteAll_tree ht, .inl ⟨rfl, rfl⟩⟩

/-- The finished file of new content takes its place, and the temporary files of the old one are
deleted elsewhere. -/
theorem contentAt_after_storing (h : Remembers s b) (ht : s.disk.Tree)
    (hs : s.around.source = .file path type readOnly) (he : s.disk.Ends (.ofText path) m n) :
    (deleteAll s.cache.temps (s.disk.put (m ++ [n]) (.file content))).contentAt (.ofText path) =
      .ok content := by
  have hb : s.disk.contentAt (.ofText path) = .ok b := by
    obtain ⟨l, hl, hb⟩ := locate_of_content hs h.content
    exact contentAt_eq_ok.2 ⟨l, hl, hb⟩
  obtain ⟨htr, -⟩ := ends_of_contentAt ht hb
  have hdead := he.deadEnd ht hb
  have hput : s.disk.SameBut (s.disk.put (m ++ [n]) (.file content)) (m ++ [n]) :=
    SameBut.put (by simp)
  have hnew : (s.disk.put (m ++ [n]) (.file content)).node? (m ++ [n]) = some (.file content) := by
    rw [node?_put (by simp), if_pos rfl]
  have ht' := ht.changed hput (he.dir ht) hdead.notDir
  obtain ⟨hk, hx⟩ := deleteAll_keeps ht' fun (t : TempFile) (hm : t ∈ s.cache.temps) => by
    obtain ⟨htr', m', n', he', hlink, hne⟩ := h.endsOff hs ht he hm
    refine ⟨htr', m', n', he'.around_deadEnd ht hput hdead, fun q hq => hlink q ?_, hne⟩
    rwa [← hput.node hne]
  exact ((he.around_deadEnd ht hput hdead).mono hk ht').contentAt htr (hx.trans hnew)

/-- Content that can be had is the new content after it has been replaced. -/
theorem contentIn_of_setBytes (h : Faithful s) (hbased : Based s) (hb : contentIn s = .ok b)
    (hr : setBytes content s = (.ok (), s')) : contentIn s' = .ok content := by
  have hrem := h.remembers_of hb
  obtain ⟨cache, disk, source, backends⟩ := s
  rw [setBytes_apply] at hr
  split at hr
  case isFalse => cases hr
  case isTrue hw =>
  rw [store_apply] at hr
  cases source with
  | memory old type readOnly =>
    cases hr
    rfl
  | web _ _ => cases hw
  | backend name ref locator type readOnly =>
    have hlt : ref < backends.length := hbased _ _ _ _ _ rfl
    dsimp only at hr
    cases hwrite : (backends.getD ref .empty).write locator content with
    | error e =>
      rw [hwrite] at hr
      cases hr
    | ok backend =>
      rw [hwrite] at hr
      cases hr
      show Source.content _ (backends.set ref backend) _ = _
      unfold Source.content
      dsimp only
      rw [Backend.getD_set hlt, Backend.read_of_write hwrite (read_of_content hb)]
  | file path type readOnly =>
    have hat : disk.contentAt (.ofText path) = .ok b := content_file_eq_ok.1 hb
    obtain ⟨m, n, he, -, hreplace⟩ := replaceFile_of_contentAt content h.tree hat
    dsimp only at hr
    rw [storeInFile_apply, makeDirs_of_isDir (isDir_directoryOf h.tree hat)] at hr
    dsimp only at hr
    rw [hreplace] at hr
    cases hr
    exact content_file_eq_ok.2 (contentAt_after_storing hrem h.tree rfl he)

/-- Storing content in a file changes nothing but the disk. -/
theorem storeInFile_eq (path locator : String) (content : Bytes) (s : Scene Around) :
    ∃ d, (storeInFile path locator content s).2 = { s with disk := d } := by
  rw [storeInFile_apply]
  split
  · exact ⟨_, rfl⟩
  · split
    · exact ⟨_, rfl⟩
    · exact ⟨_, rfl⟩

/-- Storing content changes neither whether it may be replaced nor which backend it is in and what
that refuses. -/
theorem store_around (content : Bytes) (s : Scene Around) :
    (store content s).2.around.source.writable = s.around.source.writable ∧
      (Based s → Based (store content s).2) ∧
      ∀ c e, Refuses (store content s).2 c e → Refuses s c e := by
  obtain ⟨cache, disk, source, backends⟩ := s
  rw [store_apply]
  cases source with
  | memory old type readOnly =>
    refine ⟨rfl, fun _ => nofun, ?_⟩
    rintro c e ⟨_, _, _, _, _, ⟨⟩, -⟩
  | web address timeout => exact ⟨rfl, id, fun _ _ => id⟩
  | backend name ref locator type readOnly =>
    dsimp only
    cases hw : (backends.getD ref .empty).write locator content with
    | error e => exact ⟨rfl, id, fun _ _ => id⟩
    | ok backend =>
      refine ⟨rfl, fun h name' ref' locator' type' readOnly' hs => ?_, ?_⟩
      · cases hs
        show ref < (backends.set ref backend).length
        rw [List.length_set]
        exact h _ _ _ _ _ rfl
      · rintro c e ⟨_, _, _, _, _, ⟨⟩, he⟩
        refine ⟨name, ref, locator, type, readOnly, rfl, ?_⟩
        by_cases hlt : ref < backends.length
        · rw [Backend.getD_set hlt] at he
          exact Backend.refused_of_write hw he
        · have hset : backends.set ref backend = backends :=
            List.set_eq_of_length_le (Nat.le_of_not_lt hlt)
          exact hset ▸ he
  | file path type readOnly =>
    obtain ⟨d, hd⟩ := storeInFile_eq path (Source.file path type readOnly).locator content
      ⟨cache, disk, .file path type readOnly, backends⟩
    dsimp only
    rw [hd]
    exact ⟨rfl, id, fun _ _ => id⟩

theorem setBytes_around (content : Bytes) (s : Scene Around) :
    (setBytes content s).2.around.source.writable = s.around.source.writable ∧
      (Based s → Based (setBytes content s).2) ∧
      ∀ c e, Refuses (setBytes content s).2 c e → Refuses s c e := by
  have h := store_around content s
  rw [setBytes_apply]
  split
  · revert h
    rcases store content s with ⟨_ | _, s'⟩ <;> exact id
  · exact ⟨rfl, id, fun _ _ => id⟩

/-- Storing content leaves what is remembered, and changes the source at most in that it holds the
new content. -/
theorem store_source (content : Bytes) (s : Scene Around) :
    (store content s).2.cache = s.cache ∧
      ((store content s).2.around.source = s.around.source ∨ ∃ old type readOnly,
        s.around.source = .memory old type readOnly ∧
          (store content s).2.around.source = .memory content type readOnly) := by
  obtain ⟨cache, disk, source, backends⟩ := s
  rw [store_apply]
  cases source with
  | memory old type readOnly => exact ⟨rfl, .inr ⟨old, type, readOnly, rfl, rfl⟩⟩
  | web => exact ⟨rfl, .inl rfl⟩
  | backend name ref locator type readOnly =>
    dsimp only
    cases (backends.getD ref .empty).write locator content <;> exact ⟨rfl, .inl rfl⟩
  | file path type readOnly =>
    obtain ⟨d, hd⟩ := storeInFile_eq path (Source.file path type readOnly).locator content
      ⟨cache, disk, .file path type readOnly, backends⟩
    dsimp only
    rw [hd]
    exact ⟨rfl, .inl rfl⟩

theorem around_setBytes (content : Bytes) (hw : s.around.source.writable = true) :
    (setBytes content s).2.around = (store content s).2.around := by
  rw [setBytes_apply, if_pos hw]
  rcases store content s with ⟨_ | _, _⟩ <;> rfl

/-- Where the content is the same after it has been replaced, so is the source. -/
theorem source_setBytes (content : Bytes) (hb : contentIn s = .ok b)
    (hb' : contentIn (setBytes content s).2 = .ok b) :
    (setBytes content s).2.around.source = s.around.source := by
  by_cases hw : s.around.source.writable = true
  · unfold contentIn at hb hb'
    rw [around_setBytes content hw] at hb' ⊢
    rcases (store_source content s).2 with h | ⟨old, type, readOnly, hs, hs'⟩
    · exact h
    · rw [hs] at hb
      rw [hs'] at hb'
      cases hb
      cases hb'
      rw [hs, hs']
  · rw [setBytes_apply, if_neg hw]

/-- Replacing the content brings nothing back to mind. -/
theorem checksum?_setBytes {a : Algorithm} {c : Checksum} (content : Bytes)
    (h : (setBytes content s).2.cache.checksum? a = some c) : s.cache.checksum? a = some c := by
  have hc := (store_source content s).1
  rw [setBytes_apply] at h
  split at h
  · revert hc h
    rcases store content s with ⟨e | x, s'⟩
    · intro hc h
      rwa [← hc]
    · intro hc h
      cases h
  · exact h

/-! ### Failure -/

/-- Content that may be replaced cannot be stored only where storing it fails. -/
theorem setBytes_fault {e : ElementError} (content : Bytes)
    (hw : s.around.source.writable = true) (hr : (setBytes content s).1 = .error e) :
    ∃ l t, e = .store l t := by
  rw [setBytes_apply, if_pos hw, store_apply] at hr
  obtain ⟨cache, disk, source, backends⟩ := s
  cases source with
  | web address timeout => cases hw
  | memory => cases hr
  | backend name ref locator type readOnly =>
    dsimp only at hr
    cases hw : (backends.getD ref .empty).write locator content with
    | ok b =>
      rw [hw] at hr
      cases hr
    | error e =>
      rw [hw] at hr
      cases hr
      obtain ⟨t, rfl⟩ := Backend.write_error hw
      exact ⟨_, t, rfl⟩
  | file path type readOnly =>
    dsimp only at hr
    rw [storeInFile_apply] at hr
    dsimp only at hr
    split at hr
    · next heq =>
      split at heq
      · cases heq
        cases hr
        exact ⟨_, _, rfl⟩
      · split at heq
        · cases heq
          cases hr
          exact ⟨_, _, rfl⟩
        · cases heq
    · cases hr

/-- Where content cannot be stored, a backend has refused it, or there was no content before and
there is none afterwards; only directories may have been made. -/
theorem store_error (ht : s.disk.Tree) (hr : store content s = (.error e, s')) :
    s' = s ∧ Refuses s content e ∨
      (∃ d, s.disk.Built d ∧ s' = { s with disk := d }) ∧ (∀ b, contentIn s ≠ .ok b) ∧
        ∀ b, contentIn s' ≠ .ok b := by
  obtain ⟨cache, disk, source, backends⟩ := s
  rw [store_apply] at hr
  cases source with
  | memory old type readOnly => cases hr
  | backend name ref locator type readOnly =>
    dsimp only at hr
    cases hw : (backends.getD ref .empty).write locator content with
    | ok backend =>
      rw [hw] at hr
      cases hr
    | error f =>
      rw [hw] at hr
      cases hr
      exact .inl ⟨rfl, name, ref, locator, type, readOnly, rfl, hw⟩
  | web address timeout =>
    cases hr
    exact .inr ⟨⟨disk, .refl, rfl⟩, nofun, nofun⟩
  | file path type readOnly =>
    dsimp only at hr
    rw [storeInFile_apply] at hr
    dsimp only at hr
    -- A file that can be read has its directory and can be replaced, so there is none to be read.
    have hd := makeDirs_built (p := directoryOf (.ofText path)) ht
    split at hr
    · -- Its directory cannot be made.
      next f d hm =>
      cases hr
      rw [hm] at hd
      have hdir := makeDirs_error ht hm
      refine .inr ⟨⟨d, hd, rfl⟩, fun b hb => ?_, fun b hb => ?_⟩
      · have := makeDirs_of_isDir (isDir_directoryOf ht (content_file_eq_ok.1 hb))
        rw [this] at hm
        cases hm
      · have := isDir_directoryOf (hd.tree ht) (content_file_eq_ok.1 hb)
        rw [hdir] at this
        cases this
    · next d hm =>
      rw [hm] at hd
      split at hr
      · -- Its directory is there, and the file cannot be replaced.
        next f hf =>
        cases hr
        refine .inr ⟨⟨d, hd, rfl⟩, fun b hb => ?_, fun b hb => ?_⟩
        · have := makeDirs_of_isDir (isDir_directoryOf ht (content_file_eq_ok.1 hb))
          rw [this] at hm
          cases hm
          obtain ⟨m, n, -, -, hok⟩ := replaceFile_of_contentAt content ht
            (content_file_eq_ok.1 hb)
          rw [hok] at hf
          cases hf
        · obtain ⟨m, n, -, -, hok⟩ := replaceFile_of_contentAt content (hd.tree ht)
            (content_file_eq_ok.1 hb)
          rw [hok] at hf
          cases hf
      · cases hr

/-- An attempt to replace the content that fails does nothing, and the content may not be replaced
or its backend has refused what was to come; or there is no content before and after it and only
directories have been made. -/
theorem setBytes_error (ht : s.disk.Tree) (hr : setBytes content s = (.error e, s')) :
    s' = s ∧ (s.around.source.writable = false ∨ Refuses s content e) ∨
      (∃ d, s.disk.Built d ∧ s' = { s with disk := d }) ∧ (∀ b, contentIn s ≠ .ok b) ∧
        ∀ b, contentIn s' ≠ .ok b := by
  rw [setBytes_apply] at hr
  split at hr
  · split at hr
    · next hstore =>
      cases hr
      exact (store_error ht hstore).imp_left fun h => ⟨h.1, .inr h.2⟩
    · cases hr
  · next hw =>
    cases hr
    exact .inl ⟨rfl, .inl (Bool.of_not_eq_true hw)⟩

/-- Stored content leaves a tree. -/
theorem store_tree (ht : s.disk.Tree) (hr : store content s = (.ok (), s')) :
    s'.disk.Tree := by
  obtain ⟨cache, disk, source, backends⟩ := s
  rw [store_apply] at hr
  cases source with
  | memory old type readOnly =>
    cases hr
    exact ht
  | backend name ref locator type readOnly =>
    dsimp only at hr
    cases hw : (backends.getD ref .empty).write locator content <;> rw [hw] at hr <;> cases hr
    exact ht
  | web address timeout => cases hr
  | file path type readOnly =>
    dsimp only at hr
    rw [storeInFile_apply] at hr
    dsimp only at hr
    have hd := makeDirs_built (p := directoryOf (.ofText path)) ht
    split at hr
    · cases hr
    · next d hm =>
      rw [hm] at hd
      split at hr
      · cases hr
      · next d' hf =>
        cases hr
        obtain ⟨m, n, he, -, hdir, rfl⟩ := replaceFile_eq_ok hf
        exact (hd.tree ht).changed (SameBut.put (by simp)) (he.dir (hd.tree ht)) hdir

theorem Faithful.setBytes (h : Faithful s) (content : Bytes) :
    Faithful (setBytes content s).2 := by
  rcases hr : Element.setBytes content s with ⟨e | ⟨⟩, s'⟩
  · rcases setBytes_error h.tree hr with ⟨rfl, -⟩ | ⟨⟨d, hd, rfl⟩, -, -⟩
    · exact h
    · exact h.built hd
  · rw [setBytes_apply] at hr
    split at hr
    · split at hr
      · cases hr
      · next s'' hstore =>
        cases hr
        exact faithful_invalidate (store_tree h.tree hstore)
    · cases hr

end Element

end Depot
