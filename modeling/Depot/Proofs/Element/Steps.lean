import Mathlib.Tactic.Common
import Depot.Element.Basic
/-!
# What operations on elements do

Every operation on an element as an equation: the result and the scene after it, by cases on the
content and on what is remembered.
-/

namespace Depot

open Depot.Action

namespace ContentCache

variable {c : ContentCache} {a : Algorithm} {k : Checksum}

theorem checksum?_of_nil (h : c.checksums = []) : c.checksum? a = none := by
  simp [checksum?, h]

theorem checksum?_remember :
    (c.remember k).checksum? a = if a = k.algorithm then some k else c.checksum? a := by
  unfold checksum? remember
  by_cases ha : a = k.algorithm
  · simp [ha]
  · rw [if_neg ha, List.find?_cons_of_neg (by simpa using Ne.symm ha), List.find?_filter]
    congr 1
    funext k'
    by_cases hk : k'.algorithm = a <;> simp [hk, ha]

end ContentCache

namespace Scene

variable {τ : Type}

/-- Forgets the temporary files that are gone. -/
def pruned (s : Scene τ) : Scene τ := { s with cache := s.cache.prune s.disk }

theorem onDisk_apply {ε α : Type} (x : Disk.Action ε α) (s : Scene τ) :
    onDisk x s = ((x s.disk).1, { s with disk := (x s.disk).2 }) := rfl

/-- A directory is entered by making it; what its path is from the root does not depend on the
disk. -/
theorem enterDir_apply (dir : String) (s : Scene τ) : enterDir dir s =
    match Disk.makeDirs (.ofText dir) s.disk with
    | (.error f, d) => (.error (.temporary dir f), { s with disk := d })
    | (.ok _, d)    =>
      ((d.absolute (.ofText dir)).mapError (.temporary dir), { s with disk := d }) := by
  unfold enterDir
  rw [bind_apply, onDisk_apply, mapError_apply]
  rcases Disk.makeDirs (.ofText dir) s.disk with ⟨_ | _, d⟩ <;> rfl

/-- Whether a directory can be entered or not, only the disk changes. -/
theorem enterDirs_disk (dir : Option String) (s : Scene τ) :
    ((dir.mapM enterDir : Action τ ElementError _) s).2 =
      { s with disk := dir.elim s.disk fun dir => (Disk.makeDirs (.ofText dir) s.disk).2 } := by
  cases dir with
  | none => rfl
  | some dir =>
    rw [Option.mapM_some, map_apply, enterDir_apply, Option.elim_some]
    rcases Disk.makeDirs (.ofText dir) s.disk with ⟨_ | _, d⟩ <;> rfl

/-- A checksum is remembered, or it is made of the content that is read, and remembered if the
content is still the same. -/
theorem checksum_apply (a : Algorithm) (read : Action τ ElementError Bytes) (s : Scene τ) :
    checksum a read s =
      match s.cache.checksum? a with
      | some k => (.ok k, s)
      | none   =>
        match read s with
        | (.error e, s') => (.error e, s')
        | (.ok b, s')    => (.ok (.ofBytes a b), { s' with
            cache := s'.cache.rememberSince s.cache.generation (.ofBytes a b) }) := by
  unfold checksum
  rw [bind_apply, get_apply]
  dsimp only
  cases s.cache.checksum? a with
  | some k => rfl
  | none =>
    dsimp only
    rw [bind_apply]
    rcases read s with ⟨_ | b, s'⟩ <;> rfl

/-- A directory is entered if one is given, and temporary files that are gone are forgotten. Then
one that is remembered is handed out, or a new one with the content that is read. -/
theorem writeTemp_apply [MediaTypes] (dir type : Option String) (read : Action τ ElementError Bytes)
    (s : Scene τ) : writeTemp dir type read s =
      match (dir.mapM enterDir : Action τ ElementError _) s with
      | (.error e, s') => (.error e, s')
      | (.ok dir, s')  =>
        match s'.pruned.cache.current? dir with
        | some t => (.ok t.path, s'.pruned)
        | none   =>
          match read s'.pruned with
          | (.error e, s'') => (.error e, s'')
          | (.ok b, s'')    =>
            match Disk.writeTemp (dir.getD s'.disk.tempDir) (type.elim "" MediaType.suffix) b
                s''.disk with
            | (.error f, d) =>
              (.error (.temporary (dir.getD s'.disk.tempDir).text f), { s'' with disk := d })
            | (.ok p, d)    => (.ok p, { s'' with
                disk := d
                cache := s''.cache.track { generation := s'.cache.generation, path := p } }) := by
  unfold writeTemp
  rw [bind_apply]
  rcases (dir.mapM enterDir : Action τ ElementError _) s with ⟨e | dir, s'⟩
  · rfl
  dsimp only
  rw [bind_apply, modify_apply]
  dsimp only
  rw [bind_apply, get_apply]
  unfold pruned
  dsimp only
  cases (s'.cache.prune s'.disk).current? dir with
  | some t => rfl
  | none =>
    dsimp only
    rw [bind_apply]
    rcases read { s' with cache := s'.cache.prune s'.disk } with ⟨e | b, s''⟩
    · rfl
    dsimp only
    unfold writeNew
    rw [bind_apply, onDisk_apply, mapError_apply]
    dsimp only
    rcases Disk.writeTemp (dir.getD s'.disk.tempDir) (type.elim "" MediaType.suffix) b s''.disk
      with ⟨_ | p, d⟩ <;> rfl

end Scene

namespace Element

variable {s s' : Scene Around}

/-- The content in a scene. -/
def contentIn (s : Scene Around) : Except ElementError Bytes :=
  s.around.source.content s.disk s.around.backends

theorem read_apply (s : Scene Around) : read s = (contentIn s, s) := rfl

/-- A checksum is remembered, or it is made of the content and remembered from then on. -/
theorem checksum_apply (a : Algorithm) (s : Scene Around) : checksum a s =
    match s.cache.checksum? a with
    | some k => (.ok k, s)
    | none   =>
      match contentIn s with
      | .ok b    => (.ok (.ofBytes a b), { s with cache := s.cache.remember (.ofBytes a b) })
      | .error e => (.error e, s) := by
  unfold checksum
  rw [Scene.checksum_apply, read_apply]
  cases s.cache.checksum? a with
  | some k => rfl
  | none =>
    cases contentIn s with
    | error e => rfl
    | ok b =>
      dsimp only
      rw [ContentCache.rememberSince, if_pos rfl]

theorem uuid_apply (s : Scene Around) :
    uuid s = ((checksum .identity s).1.map Checksum.elementKey, (checksum .identity s).2) := by
  unfold uuid
  rw [bind_apply]
  rcases checksum .identity s with ⟨_ | _, _⟩ <;> rfl

/-! ### Temporary files -/

/-- What hands out a temporary file: one that is remembered, or a new one with the content. -/
def serve (dir : Option Disk.Path) (suffix : String) (s : Scene Around) :
    Except ElementError Disk.Path × Scene Around :=
  match s.cache.current? dir with
  | some t => (.ok t.path, s)
  | none   =>
    match contentIn s with
    | .error e => (.error e, s)
    | .ok b    =>
      match Disk.writeTemp (dir.getD s.disk.tempDir) suffix b s.disk with
      | (.error f, d) =>
        (.error (.temporary (dir.getD s.disk.tempDir).text f), { s with disk := d })
      | (.ok p, d)    => (.ok p, { s with
          disk := d, cache := s.cache.track { generation := s.cache.generation, path := p } })

/-- A directory is entered if one is given, temporary files that are gone are forgotten, and one
is handed out. -/
theorem writeTemp_scene_apply [MediaTypes] (dir : Option String) (type : Option String)
    (s : Scene Around) :
    Scene.writeTemp dir type read s =
      match (dir.mapM Scene.enterDir : Scene.Action Around ElementError _) s with
      | (.error e, s') => (.error e, s')
      | (.ok dir, s')  => serve dir (type.elim "" MediaType.suffix) s'.pruned := by
  rw [Scene.writeTemp_apply]
  rcases (dir.mapM Scene.enterDir : Scene.Action Around ElementError _) s with ⟨e | dir, s'⟩
  · rfl
  dsimp only
  unfold serve
  cases s'.pruned.cache.current? dir with
  | some t => rfl
  | none =>
    dsimp only
    rw [read_apply]
    cases contentIn s'.pruned <;> rfl

/-- The file that is handed out for the path of a temporary file. -/
theorem writeTempFile_apply [MediaTypes] (dir : Option String) (s : Scene Around) :
    writeTempFile dir s =
    ((Scene.writeTemp dir s.around.source.contentType read s).1.map .ofPath,
      (Scene.writeTemp dir s.around.source.contentType read s).2) := by
  unfold writeTempFile
  rw [bind_apply, get_apply]
  dsimp only
  rw [bind_apply]
  rcases Scene.writeTemp dir s.around.source.contentType read s with ⟨_ | _, _⟩ <;> rfl

theorem ownFile_apply (path : String) (s : Scene Around) : ownFile path s =
    (if s.disk.isFile (.ofText path) then .ok (.ofText path)
      else .error (.retrieval s.around.source.locator .noFile), s) := by
  unfold ownFile
  rw [bind_apply, get_apply]
  dsimp only
  split <;> rfl

/-- A file element hands out its own file where that will do, and a temporary one otherwise. -/
theorem writeTempOfFile_cases [MediaTypes] (path : String) (dir : Option String)
    (s : Scene Around) :
    writeTempOfFile path dir s = ownFile path s ∨ writeTempOfFile path dir s = writeTempFile dir s ∨
      ∃ d f, dir = some d ∧ writeTempOfFile path dir s = (.error (.temporary d f), s) := by
  unfold writeTempOfFile
  rw [bind_apply, get_apply]
  dsimp only
  cases dir with
  | none => exact .inl rfl
  | some d =>
    dsimp only
    cases s.disk.absolute (.ofText d) with
    | error f => exact .inr (.inr ⟨d, f, rfl, rfl⟩)
    | ok p =>
      dsimp only
      split
      · exact .inl rfl
      · exact .inr (.inl rfl)

/-- What handing out a file comes down to: a temporary file, the own file of a file element, or a
failure that does nothing. -/
theorem writeTemp_cases [MediaTypes] (dir : Option String) (s : Scene Around) :
    writeTemp dir s = writeTempFile dir s ∨
      (∃ path type readOnly, s.around.source = .file path type readOnly ∧
        writeTemp dir s = ownFile path s) ∨
      ∃ e, writeTemp dir s = (.error e, s) := by
  unfold writeTemp
  rw [bind_apply, get_apply]
  dsimp only
  cases hs : s.around.source with
  | memory _ _ _ => exact .inl rfl
  | backend _ _ _ _ _ => exact .inl rfl
  | web _ _ => exact .inr (.inr ⟨_, rfl⟩)
  | file path type readOnly =>
    dsimp only
    rcases writeTempOfFile_cases path dir s with h | h | ⟨d, f, -, h⟩
    · exact .inr (.inl ⟨path, type, readOnly, rfl, h⟩)
    · exact .inl h
    · exact .inr (.inr ⟨_, h⟩)

/-! ### Changes of the content -/

theorem storeInFile_apply (path locator : String) (content : Bytes) (s : Scene Around) :
    storeInFile path locator content s =
      match Disk.makeDirs (directoryOf (.ofText path)) s.disk with
      | (.error f, d) => (.error (.store locator (.disk f)), { s with disk := d })
      | (.ok _, d)    =>
        match d.replaceFile (.ofText path) content with
        | .error f => (.error (.store locator (.disk f)), { s with disk := d })
        | .ok d'   => (.ok (), { s with disk := d' }) := by
  unfold storeInFile
  rw [bind_apply, Scene.onDisk_apply, mapError_apply]
  rcases Disk.makeDirs (directoryOf (.ofText path)) s.disk with ⟨_ | _, d⟩
  · rfl
  dsimp only [Except.mapError]
  rw [Scene.onDisk_apply]
  unfold ofStep
  dsimp only
  cases d.replaceFile (.ofText path) content <;> rfl

/-- Content is stored where the source has it. -/
theorem store_apply (content : Bytes) (s : Scene Around) : store content s =
    match s.around.source with
    | .memory _ type readOnly    =>
      (.ok (), { s with around.source := .memory content type readOnly })
    | .file path type readOnly   =>
      storeInFile path (Source.file path type readOnly).locator content s
    | .backend _ ref locator _ _ =>
      match (s.around.backends.getD ref .empty).write locator content with
      | .ok b    => (.ok (), { s with around.backends := s.around.backends.set ref b })
      | .error e => (.error e, s)
    | .web address timeout       =>
      (.error (.readOnly (Source.web address timeout).locator), s) := by
  obtain ⟨cache, disk, source, backends⟩ := s
  cases source with
  | memory | file | web => rfl
  | backend name ref locator type readOnly =>
    show (match (backends.getD ref .empty).write locator content with
      | .ok b    => modify fun s => { s with around.backends := backends.set ref b }
      | .error e => throw e : Action Unit) _ = _
    dsimp only
    cases (backends.getD ref .empty).write locator content <;> rfl

theorem ensureWritable_apply (s : Scene Around) : ensureWritable s =
    if s.around.source.writable then (.ok (), s)
    else (.error (.readOnly s.around.source.locator), s) := by
  unfold ensureWritable
  rw [bind_apply, get_apply]
  dsimp only
  split <;> rfl

/-- The content is replaced and what was remembered forgotten, or what storing fails with is
passed on. -/
theorem setBytes_apply (content : Bytes) (s : Scene Around) : setBytes content s =
    if s.around.source.writable then
      match store content s with
      | (.error e, s') => (.error e, s')
      | (.ok _, s')    => Scene.invalidate s'
    else (.error (.readOnly s.around.source.locator), s) := by
  unfold setBytes
  rw [bind_apply, ensureWritable_apply]
  cases s.around.source.writable with
  | false => rfl
  | true =>
    rw [if_pos rfl, if_pos rfl]
    dsimp only
    rw [bind_apply]
    rcases store content s with ⟨_ | _, _⟩ <;> rfl

/-- The content is deleted from its backend and what was remembered forgotten, or nothing is
done. -/
theorem delete_cases (s : Scene Around) :
    (∃ r, delete s = (r, s)) ∨
      ∃ name ref locator type existed b, s.around.source = .backend name ref locator type false ∧
        (s.around.backends.getD ref .empty).delete locator = .ok (existed, b) ∧
        delete s = (.ok existed, { s with
          around.backends := s.around.backends.set ref b
          cache := s.cache.renew
          disk := ContentCache.deleteAll s.cache.temps s.disk }) := by
  obtain ⟨cache, disk, source, backends⟩ := s
  cases source with
  | memory _ _ readOnly => cases readOnly <;> exact .inl ⟨_, rfl⟩
  | file _ _ readOnly => cases readOnly <;> exact .inl ⟨_, rfl⟩
  | web _ _ => exact .inl ⟨_, rfl⟩
  | backend name ref locator type readOnly =>
    cases readOnly with
    | true => exact .inl ⟨_, rfl⟩
    | false =>
      have hw : (Source.backend name ref locator type false).writable = true := rfl
      unfold delete
      rw [bind_apply, get_apply]
      dsimp only
      rw [bind_apply, ensureWritable_apply]
      dsimp only
      rw [if_pos hw]
      dsimp only
      cases hd : (backends.getD ref .empty).delete locator with
      | error e => exact .inl ⟨.error e, rfl⟩
      | ok x => exact .inr ⟨name, ref, locator, type, x.1, x.2, rfl, hd, rfl⟩

end Element

end Depot
