import Depot.MediaType.Common
import Depot.Proofs.Element.Storing
/-!
# Histories of an element

Whatever happens to an element, checksums and temporary files never go stale: in every state that
a new element can get into, what it remembers is right, checksums are those of the content, and a
file that is handed out holds the content.
-/

namespace Depot.Element

open Disk ContentCache

/-- What can happen to an element. -/
inductive Event where
  | setBytes (content : Bytes)
  | delete
  | checksum (a : Algorithm)
  | uuid
  | writeTemp (dir : Option String)
  | clean
  /-- A temporary file is deleted by somebody else. -/
  | lose (path : Disk.Path)

/-- The scene after an event, whether what was asked for has succeeded or not. -/
def Event.after [MediaTypes] (e : Event) (s : Scene Around) : Scene Around :=
  match e with
  | setBytes content => (Element.setBytes content s).2
  | delete           => (Element.delete s).2
  | checksum a       => (Element.checksum a s).2
  | uuid             => (Element.uuid s).2
  | writeTemp dir    => (Element.writeTemp dir s).2
  | clean            => (Element.clean s).2
  | lose path        =>
    if path ∈ s.cache.temps.map (·.path) then
      { s with disk := (s.disk.removeFile path).toOption.getD s.disk }
    else s

/-- The scene after several events. -/
def afterAll [MediaTypes] (es : List Event) (s : Scene Around) : Scene Around :=
  es.foldl (fun s e => e.after s) s

variable {s s' : Scene Around} {b content : Bytes} {es : List Event}

theorem Faithful.delete (h : Faithful s) : Faithful (delete s).2 := by
  rcases delete_cases s with ⟨r, hr⟩ | ⟨name, ref, locator, type, r, b, -, -, hr⟩
  · rw [hr]
    exact h
  · rw [hr]
    exact ⟨deleteAll_tree h.tree, .inl ⟨rfl, rfl⟩⟩

theorem Faithful.lose [MediaTypes] (h : Faithful s) (path : Disk.Path) :
    Faithful ((Event.lose path).after s) := by
  unfold Event.after
  dsimp only
  split
  · next hpath =>
    obtain ⟨t, hm, rfl⟩ := List.mem_map.1 hpath
    rcases h.remembers with ⟨-, hnil⟩ | ⟨b, hb⟩
    · rw [hnil] at hm
      cases hm
    obtain ⟨-, htr, m, n, he, ho, -⟩ := hb.temps t hm
    rcases he.removeFile_cases htr (fun q hq => by simpa using ho _ hq) with hr | ⟨b', hb', hr⟩
    · rw [hr]
      exact h
    · rcases ho _ hb' with hdir | hfile
      · cases hdir
      · cases hfile
        rw [hr]
        exact ⟨h.tree.changed (SameBut.drop (by simp)) (he.dir h.tree) (by simp [hb']),
          .inr ⟨b, hb.dropped h.tree hm he hb'⟩⟩
  · exact h

/-- What is remembered stays right whatever happens. -/
theorem Faithful.after [MediaTypes] (h : Faithful s) (e : Event) : Faithful (e.after s) := by
  cases e with
  | setBytes content => exact h.setBytes content
  | delete => exact h.delete
  | checksum a => exact h.checksum a
  | uuid =>
    show Faithful (Element.uuid s).2
    rw [uuid_apply]
    exact h.checksum .identity
  | writeTemp dir => exact (h.writeTemp dir).1.faithful
  | clean => exact faithful_invalidate h.tree
  | lose path => exact h.lose path

theorem Faithful.afterAll [MediaTypes] (h : Faithful s) : Faithful (afterAll es s) := by
  induction es generalizing s with
  | nil => exact h
  | cons e es ih => exact ih (h.after e)

/-- The scene of a new element. -/
def newScene (source : Source) (d : Disk) (backends : List Backend) : Scene Around :=
  { cache := (ofSource source).cache, disk := d, around := { source, backends } }

/-- In every state of a new element: a checksum that is remembered is that of the content; a
temporary file that is still there holds the content, or is a directory by now; a checksum that is
asked for is that of the content, and there is none without content; a file that is handed out
holds the content, or is a directory by now, and there is none without content, but for content
that a directory made for the file has brought into reach; and an attempt to replace the content
that fails leaves content, memory and temporary files alone. -/
theorem never_stale [MediaTypes] {source : Source} {d : Disk} {backends : List Backend}
    (ht : d.Tree) (es : List Event) :
    let s := afterAll es (newScene source d backends)
    (∀ k ∈ s.cache.checksums, ∃ b, contentIn s = .ok b ∧ k = .ofBytes k.algorithm b) ∧
    (∀ t ∈ s.cache.temps, t.generation = s.cache.generation → s.disk.exists? t.path = true →
      HandsOut s t.path) ∧
    (∀ a, (checksum a s).1 = (contentIn s).map (.ofBytes a)) ∧
    (∀ dir, (∀ f, (writeTemp dir s).1 = .ok f → HandsOut (writeTemp dir s).2 f.path) ∧
      (∀ b, contentIn s = .ok b → contentIn (writeTemp dir s).2 = .ok b) ∧
      (dir = none → contentIn (writeTemp dir s).2 = contentIn s)) ∧
    (∀ content e s', setBytes content s = (.error e, s') →
      (contentIn s').toOption = (contentIn s).toOption ∧ s'.cache = s.cache ∧
        ∀ t ∈ s.cache.temps, s'.disk.contentAt t.path = s.disk.contentAt t.path) := by
  have h : Faithful (afterAll es (newScene source d backends)) :=
    Faithful.afterAll ⟨ht, .inl ⟨rfl, rfl⟩⟩
  generalize afterAll es (newScene source d backends) = s at h
  refine ⟨fun k hk => ?_, fun t hm _ he => ?_, h.checksum_eq, fun dir => ?_,
    fun content e s' hr => ?_⟩
  · rcases h.remembers with ⟨hnil, -⟩ | ⟨b, hb⟩
    · rw [hnil] at hk
      cases hk
    · exact ⟨b, hb.content, hb.checksums k hk⟩
  · rcases h.remembers with ⟨-, hnil⟩ | ⟨b, hb⟩
    · rw [hnil] at hm
      cases hm
    · exact ⟨b, hb.content, (hb.temps t hm).contentAt_or_isDir he⟩
  · obtain ⟨hout, hfile⟩ := h.writeTemp dir
    exact ⟨hfile, hout.content, hout.content_none⟩
  · -- Directories may have been made for a file that could not be read before.
    rcases setBytes_error h.tree hr with ⟨rfl, -⟩ | ⟨⟨d, hd, rfl⟩, hno, hno'⟩
    · exact ⟨rfl, rfl, fun _ _ => rfl⟩
    · rcases h.remembers with ⟨-, hnil⟩ | ⟨b, hb⟩
      · refine ⟨?_, rfl, by simp [hnil]⟩
        rw [Result.toOption_eq_none hno, Result.toOption_eq_none hno']
      · exact absurd hb.content (hno b)

open MediaTypes in
/-- After new content the checksums are those of the new content. -/
theorem never_stale_memory :
    let s := afterAll [.checksum .md5, .writeTemp none, .setBytes "new".toUTF8]
      (newScene (.memory "old".toUTF8 none false) (Disk.fresh ["work"] "tmp") [])
    ∀ a, (checksum a s).1 = (contentIn s).map (.ofBytes a) :=
  (never_stale tree_fresh _).2.2.1

open MediaTypes in
/-- A file can be handed out for content that could not be had when it was asked for: its path
passes a directory that is made for the file. And a directory can be handed out: somebody deletes
a temporary file, a directory of the same name is made for another one, and as there is something
under that name again, it is taken for the temporary file. -/
theorem handed_out_without_content :
    let d := (Disk.fresh ["work"] "tmp").put ["work", "f"] (.file "old".toUTF8)
    let own := newScene (.file "/work/a/../f" none false) d []
    let temp := "/work/tmp/dprov-000000"
    let s := afterAll [.writeTemp none, .lose (.ofText temp), .writeTemp (some temp),
        .lose (.ofText (temp ++ "/dprov-000001"))]
      (newScene (.memory "old".toUTF8 none false) d [])
    (contentIn own).toOption = none ∧ (writeTemp (some "/work/a") own).1.toOption ≠ none ∧
      (contentIn s).toOption = some "old".toUTF8 ∧
      (writeTemp none s).1.toOption.map (·.path) = some (.ofText temp) ∧
      ((writeTemp none s).2.disk.contentAt (.ofText temp)).toOption = none := by
  decide +kernel

end Depot.Element
