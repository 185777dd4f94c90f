import Depot.Proofs.Disk.Files
import Depot.Proofs.Element.Steps
/-!
# What elements remember is right

An element either remembers nothing, or its content can be had and every checksum it remembers is
that of the content, and every temporary file still stands at the end of its path with the content
in it, unless it is gone or a directory has been made in its place. Every operation keeps it so.
-/

namespace Depot.Element

open Disk ContentCache

variable {s s' : Scene Around} {b content : Bytes} {d d' : Disk} {t : TempFile} {l m : Location}
  {n : String} {source : Source} {bs : List Backend} {path : String} {type : Option String}
  {readOnly : Bool}

/-! ### Content on other disks -/

theorem content_file_eq_ok :
    (Source.file path type readOnly).content d bs = .ok b ↔ d.contentAt (.ofText path) = .ok b := by
  unfold Source.content
  dsimp only
  cases d.contentAt (.ofText path) <;> simp [Except.mapError]

/-- Where the content of a file element stands. -/
theorem locate_of_content (hs : source = .file path type readOnly)
    (h : source.content d bs = .ok b) :
    ∃ l, d.locate (.ofText path) = .ok l ∧ d.node? l = some (.file b) := by
  subst hs
  exact contentAt_eq_ok.1 (content_file_eq_ok.1 h)

/-- Content stays the same where the ways are kept and, for a file element, its file is. -/
theorem content_mono (hk : d.KeepsWays d')
    (hown : ∀ {path type readOnly l}, source = .file path type readOnly →
      d.locate (.ofText path) = .ok l → d'.node? l = d.node? l)
    (h : source.content d bs = .ok b) : source.content d' bs = .ok b := by
  cases source with
  | memory _ _ _ => exact h
  | backend _ _ _ _ _ => exact h
  | web _ _ => exact h
  | file path type readOnly =>
    obtain ⟨l, hl, hb⟩ := locate_of_content rfl h
    exact content_file_eq_ok.2 (contentAt_mono hk hl ((hown rfl hl).trans hb)).2

/-! ### What is remembered -/

/-- Nothing stands at a place but a file with some content, or a directory. -/
def HoldsOnly (d : Disk) (l : Location) (b : Bytes) : Prop :=
  ∀ n, d.node? l = some n → n = .dir ∨ n = .file b

/-- The content of a source does not stand at a place. -/
def Apart (source : Source) (d : Disk) (l : Location) : Prop :=
  ∀ path type readOnly, source = .file path type readOnly → d.locate (.ofText path) ≠ .ok l

/-- A temporary file that is remembered holds the content, unless it is gone. -/
structure Holds (s : Scene Around) (b : Bytes) (t : TempFile) : Prop where
  generation : t.generation = s.cache.generation
  trailing : t.path.trailing = false
  place : ∃ m n, s.disk.Ends t.path m n ∧ HoldsOnly s.disk (m ++ [n]) b ∧
    Apart s.around.source s.disk (m ++ [n])

/-- The content is `b`, and what is remembered is remembered of it. -/
structure Remembers (s : Scene Around) (b : Bytes) : Prop where
  content : contentIn s = .ok b
  checksums : ∀ k ∈ s.cache.checksums, k = .ofBytes k.algorithm b
  temps : ∀ t ∈ s.cache.temps, Holds s b t

/-- Nothing is remembered, or what is remembered is right. -/
structure Faithful (s : Scene Around) : Prop where
  tree : s.disk.Tree
  remembers : s.cache.checksums = [] ∧ s.cache.temps = [] ∨ ∃ b, Remembers s b

namespace Remembers

/-- What is remembered stays right on a disk that keeps the ways, the content and the temporary
files. -/
theorem onDisk (h : Remembers s b) (ht : s.disk.Tree) (hk : s.disk.KeepsWays d')
    (hown : ∀ {path type readOnly l}, s.around.source = .file path type readOnly →
      s.disk.locate (.ofText path) = .ok l → d'.node? l = s.disk.node? l)
    (htemps : ∀ t ∈ s.cache.temps, ∀ {m n}, s.disk.Ends t.path m n → HoldsOnly d' (m ++ [n]) b) :
    Remembers { s with disk := d' } b := by
  refine ⟨content_mono hk hown h.content, h.checksums, fun t hm => ?_⟩
  obtain ⟨hgen, htr, m, n, he, -, ha⟩ := h.temps t hm
  refine ⟨hgen, htr, m, n, he.mono hk ht, htemps t hm he, fun path type readOnly hs hl' => ?_⟩
  obtain ⟨l, hl, hb⟩ := locate_of_content hs h.content
  rw [(contentAt_mono hk hl ((hown hs hl).trans hb)).1] at hl'
  cases hl'
  exact ha path type readOnly hs hl

/-- Directories in free places change nothing. -/
theorem built (h : Remembers s b) (ht : s.disk.Tree) (hd : s.disk.Built d') :
    Remembers { s with disk := d' } b := by
  refine h.onDisk ht hd.toExtends.keepsWays (fun hs hl => ?_) fun t hm m n he x hx => ?_
  · obtain ⟨l, hl', hb⟩ := locate_of_content hs h.content
    rw [hl] at hl'
    cases hl'
    rw [hb, hd.toExtends.node hb]
  · by_cases hdir : x = .dir
    · exact .inl hdir
    · obtain ⟨-, -, m', n', he', ho, -⟩ := h.temps t hm
      obtain ⟨rfl, rfl⟩ := he.unique he'
      refine ho x ?_
      rwa [hd.node?_eq (by simp [hx, hdir])]

/-- A temporary file may disappear. -/
theorem dropped (h : Remembers s b) (ht : s.disk.Tree) (hm : t ∈ s.cache.temps)
    (he : s.disk.Ends t.path m n) (hn : s.disk.node? (m ++ [n]) = some (.file b)) :
    Remembers { s with disk := s.disk.drop (m ++ [n]) } b := by
  obtain ⟨-, -, m', n', he', -, ha⟩ := h.temps t hm
  obtain ⟨rfl, rfl⟩ := he.unique he'
  have hd : s.disk.SameBut (s.disk.drop (m ++ [n])) (m ++ [n]) := SameBut.drop (by simp)
  refine h.onDisk ht (hd.keepsWays fun x hx => ⟨b, by simpa [hn, eq_comm] using hx⟩)
    (fun hs hl => hd.node ?_) fun t' hm' m' n' he' x hx => ?_
  · rintro rfl
    exact ha _ _ _ hs hl
  · rw [node?_drop (by simp)] at hx
    split at hx
    · cases hx
    · obtain ⟨-, -, m'', n'', he'', ho, -⟩ := h.temps t' hm'
      obtain ⟨rfl, rfl⟩ := he'.unique he''
      exact ho x hx

/-- A new temporary file with the content is remembered. -/
theorem tracked (h : Remembers s b) (ht : s.disk.Tree) {p : Path} (he : s.disk.Ends p m n)
    (htr : p.trailing = false) (hn : s.disk.node? (m ++ [n]) = none)
    (hd : s.disk.SameBut d' (m ++ [n])) (hn' : d'.node? (m ++ [n]) = some (.file b)) :
    Remembers { s with
      disk := d'
      cache := s.cache.track { generation := s.cache.generation, path := p } } b := by
  have hk : s.disk.KeepsWays d' := (hd.fills hn).keepsWays
  -- The new file is not where the content is, as there was nothing at its place.
  have hown : ∀ {path type readOnly l}, s.around.source = .file path type readOnly →
      s.disk.locate (.ofText path) = .ok l → l ≠ m ++ [n] := by
    rintro path type readOnly l hs hl rfl
    obtain ⟨l, hl', hb⟩ := locate_of_content hs h.content
    rw [hl] at hl'
    cases hl'
    rw [hn] at hb
    cases hb
  -- A path that is remembered may lead to the new file, which holds the content.
  have h' : Remembers { s with disk := d' } b := by
    refine h.onDisk ht hk (fun hs hl => hd.node (hown hs hl)) fun t hm m' n' he' x hx => ?_
    by_cases hmn : m' ++ [n'] = m ++ [n]
    · rw [hmn, hn'] at hx
      exact .inr (by simpa [eq_comm] using hx)
    · obtain ⟨-, -, m'', n'', he'', ho, -⟩ := h.temps t hm
      obtain ⟨rfl, rfl⟩ := he'.unique he''
      exact ho x (by rwa [← hd.node hmn])
  refine ⟨h'.content, h'.checksums, fun t hm => ?_⟩
  rcases List.mem_append.1 hm with hm | hm
  · obtain ⟨hgen, htr, hplace⟩ := h'.temps t hm
    exact ⟨hgen, htr, hplace⟩
  · rw [List.mem_singleton.1 hm]
    refine ⟨rfl, htr, m, n, he.mono hk ht, fun x hx => ?_, fun path type readOnly hs hl' => ?_⟩
    · exact .inr (by simpa [hn', eq_comm] using hx)
    · obtain ⟨l, hl, hb⟩ := locate_of_content hs h.content
      have hne := hown hs hl
      rw [(contentAt_mono hk hl ((hd.node hne).trans hb)).1] at hl'
      cases hl'
      exact hne rfl

end Remembers

/-- Where the content can be had, what is remembered is remembered of it. -/
theorem Faithful.remembers_of (h : Faithful s) (hb : contentIn s = .ok b) : Remembers s b := by
  rcases h.remembers with ⟨hsums, htemps⟩ | ⟨b', hb'⟩
  · exact ⟨hb, by simp [hsums], by simp [htemps]⟩
  · have := hb'.content
    rw [hb] at this
    cases this
    exact hb'

/-! ### Checksums -/

theorem algorithm_of_checksum? {c : ContentCache} {a : Algorithm} {k : Checksum}
    (h : c.checksum? a = some k) : k ∈ c.checksums ∧ k.algorithm = a := by
  refine ⟨List.mem_of_find?_eq_some h, ?_⟩
  simpa using List.find?_some h

/-- The checksum that is given is that of the content, and there is none if the content cannot be
had. -/
theorem Faithful.checksum_eq (h : Faithful s) (a : Algorithm) :
    (checksum a s).1 = (contentIn s).map (.ofBytes a) := by
  rw [checksum_apply]
  cases hk : s.cache.checksum? a with
  | some k =>
    obtain ⟨hm, rfl⟩ := algorithm_of_checksum? hk
    rcases h.remembers with ⟨hnil, -⟩ | ⟨b, hb⟩
    · rw [hnil] at hm
      cases hm
    · rw [hb.content]
      exact congrArg Except.ok (hb.checksums k hm)
  | none => cases contentIn s <;> rfl

theorem checksum_around (a : Algorithm) (s : Scene Around) :
    (checksum a s).2.disk = s.disk ∧ (checksum a s).2.around = s.around := by
  rw [checksum_apply]
  cases s.cache.checksum? a with
  | some k => exact ⟨rfl, rfl⟩
  | none => cases contentIn s <;> exact ⟨rfl, rfl⟩

theorem Faithful.checksum (h : Faithful s) (a : Algorithm) : Faithful (checksum a s).2 := by
  rw [checksum_apply]
  cases s.cache.checksum? a with
  | some k => exact h
  | none =>
    cases hb : contentIn s with
    | error e => exact h
    | ok b =>
      have hrem := h.remembers_of hb
      refine ⟨h.tree, .inr ⟨b, hb, fun k hk => ?_, fun t hm => ?_⟩⟩
      · rcases List.mem_cons.1 hk with rfl | hk
        · rfl
        · exact hrem.checksums k (List.mem_filter.1 hk).1
      · obtain ⟨hgen, htr, hplace⟩ := hrem.temps t hm
        exact ⟨hgen, htr, hplace⟩

/-! ### Temporary files -/

theorem Faithful.built (h : Faithful s) (hd : s.disk.Built d') :
    Faithful { s with disk := d' } := by
  refine ⟨hd.tree h.tree, ?_⟩
  rcases h.remembers with hnil | ⟨b, hb⟩
  · exact .inl hnil
  · exact .inr ⟨b, hb.built h.tree hd⟩

theorem Faithful.pruned (h : Faithful s) : Faithful s.pruned := by
  refine ⟨h.tree, ?_⟩
  rcases h.remembers with ⟨hsums, htemps⟩ | ⟨b, hb⟩
  · refine .inl ⟨hsums, ?_⟩
    show s.cache.temps.filter _ = []
    rw [htemps]
    rfl
  · refine .inr ⟨b, hb.content, hb.checksums, fun t hm => ?_⟩
    obtain ⟨hgen, htr, hplace⟩ := hb.temps t (List.mem_filter.1 hm).1
    exact ⟨hgen, htr, hplace⟩

/-- A temporary file that is still there holds the content, or is a directory by now. -/
theorem Holds.contentAt_or_isDir (h : Holds s b t) (he : s.disk.exists? t.path = true) :
    s.disk.contentAt t.path = .ok b ∨ s.disk.isDir t.path = true := by
  obtain ⟨-, htr, m, n, hends, ho, -⟩ := h
  obtain ⟨x, hx⟩ := exists?_eq_true.1 he
  obtain ⟨l, hl, hn⟩ := stat_eq_ok.1 hx
  obtain ⟨rfl, -⟩ := hends.locate_eq_ok htr (fun q hq => by simpa using ho _ hq) hl
  rcases ho x hn with rfl | rfl
  · exact .inr (isDir_eq_true.2 ⟨_, hl, hn⟩)
  · exact .inl (contentAt_eq_ok.2 ⟨_, hl, hn⟩)

/-- What is handed out holds the content, unless a directory has been made in its place. -/
def HandsOut (s : Scene Around) (p : Path) : Prop :=
  ∃ b, contentIn s = .ok b ∧ (s.disk.contentAt p = .ok b ∨ s.disk.isDir p = true)

theorem Faithful.serve (h : Faithful s)
    (hexists : ∀ t ∈ s.cache.temps, s.disk.exists? t.path = true) (dir : Option Path)
    (suffix : String) :
    Faithful (serve dir suffix s).2 ∧ contentIn (serve dir suffix s).2 = contentIn s ∧
      ∀ p, (serve dir suffix s).1 = .ok p → HandsOut (serve dir suffix s).2 p := by
  unfold Element.serve
  cases ht : s.cache.current? dir with
  | some t =>
    refine ⟨h, rfl, fun p hp => ?_⟩
    cases hp
    have hm : t ∈ s.cache.temps := List.mem_reverse.1 (List.mem_of_find?_eq_some ht)
    rcases h.remembers with ⟨-, hnil⟩ | ⟨b, hb⟩
    · rw [hnil] at hm
      cases hm
    · exact ⟨b, hb.content, (hb.temps t hm).contentAt_or_isDir (hexists t hm)⟩
  | none =>
    cases hb : contentIn s with
    | error e => exact ⟨h, hb, nofun⟩
    | ok b =>
      dsimp only
      rcases hw : Disk.writeTemp (dir.getD s.disk.tempDir) suffix b s.disk with ⟨f | p, d⟩
      · dsimp only
        rw [writeTemp_eq_error hw]
        exact ⟨h, hb, nofun⟩
      · -- A new file holds the content, and nothing stood in its place.
        obtain ⟨m, n, he, htr, hn, hd, hn'⟩ := writeTemp_eq_ok h.tree hw
        have htracked := (h.remembers_of hb).tracked h.tree he htr hn hd hn'
        refine ⟨⟨h.tree.changed hd (he.dir h.tree) (by simp [hn]), .inr ⟨b, htracked⟩⟩,
          htracked.content, fun q hq => ?_⟩
        cases hq
        exact ⟨b, htracked.content,
          .inl ((he.mono (hd.fills hn).keepsWays h.tree).contentAt htr hn')⟩

/-- Entering a directory adds directories in free places, even if it fails. -/
theorem enterDir_built {τ : Type} {s : Scene τ} (ht : s.disk.Tree) (dir : String) :
    ∃ d, (Scene.enterDir dir s).2 = { s with disk := d } ∧ s.disk.Built d := by
  rw [Scene.enterDir_apply]
  have hd := makeDirs_built (p := .ofText dir) ht
  revert hd
  rcases makeDirs (.ofText dir) s.disk with ⟨_ | _, d⟩ <;> intro hd
  · exact ⟨d, rfl, hd⟩
  · exact ⟨d, rfl, hd⟩

theorem enterDirs_built {τ : Type} {s : Scene τ} (ht : s.disk.Tree) (dir : Option String) :
    ∃ d, ((dir.mapM Scene.enterDir : Scene.Action τ ElementError _) s).2 =
        { s with disk := d } ∧ s.disk.Built d ∧ (dir = none → d = s.disk) := by
  cases dir with
  | none => exact ⟨s.disk, rfl, .refl, fun _ => rfl⟩
  | some dir =>
    obtain ⟨d, hd, hb⟩ := enterDir_built ht dir
    refine ⟨d, ?_, hb, nofun⟩
    rw [← hd, Option.mapM_some, Action.map_apply]

/-- What handing out a file does: what is remembered stays right, content that can be had stays
the same, it can only come about by a directory that is made for the file, and the file that is
handed out holds it. -/
structure HandingOut (dir : Option String) (s s' : Scene Around) : Prop where
  faithful : Faithful s'
  content : ∀ b, contentIn s = .ok b → contentIn s' = .ok b
  content_none : dir = none → contentIn s' = contentIn s

theorem Faithful.writeTempFile [MediaTypes] (h : Faithful s) (dir : Option String) :
    HandingOut dir s (writeTempFile dir s).2 ∧
      ∀ f, (writeTempFile dir s).1 = .ok f → HandsOut (writeTempFile dir s).2 f.path := by
  rw [writeTempFile_apply, writeTemp_scene_apply]
  obtain ⟨d, hs', hd, hnone⟩ := enterDirs_built h.tree dir
  have hf := h.built hd
  have hcontent (b : Bytes) (hb : contentIn s = .ok b) : contentIn { s with disk := d } = .ok b :=
    ((h.remembers_of hb).built h.tree hd).content
  rcases hr : (dir.mapM Scene.enterDir : Scene.Action Around ElementError _) s with ⟨e | dir', s'⟩
  · rw [hr] at hs'
    subst hs'
    exact ⟨⟨hf, hcontent, fun hdir => by rw [hnone hdir]⟩, nofun⟩
  · rw [hr] at hs'
    subst hs'
    dsimp only
    obtain ⟨hf', hsame, hout⟩ := hf.pruned.serve
      (fun t hm => (List.mem_filter.1 hm).2) dir'
      (s.around.source.contentType.elim "" MediaType.suffix)
    refine ⟨⟨hf', fun b hb => hsame.trans (hcontent b hb), fun hdir => ?_⟩, fun f hfile => ?_⟩
    · rw [hsame]
      have := hnone hdir
      subst this
      rfl
    · cases hp : (Element.serve dir' (s.around.source.contentType.elim "" MediaType.suffix)
          ({ s with disk := d } : Scene Around).pruned).1 with
      | error e =>
        rw [hp] at hfile
        cases hfile
      | ok p =>
        rw [hp] at hfile
        cases hfile
        exact hout p hp

theorem Faithful.writeTemp [MediaTypes] (h : Faithful s) (dir : Option String) :
    HandingOut dir s (writeTemp dir s).2 ∧
      ∀ f, (writeTemp dir s).1 = .ok f → HandsOut (writeTemp dir s).2 f.path := by
  rcases writeTemp_cases dir s with hw | ⟨path, type, readOnly, hs, hw⟩ | ⟨e, hw⟩
  · rw [hw]
    exact h.writeTempFile dir
  · rw [hw, ownFile_apply]
    refine ⟨⟨h, fun _ hb => hb, fun _ => rfl⟩, fun f hf => ?_⟩
    dsimp only at hf
    split at hf
    · next hfile =>
      cases hf
      obtain ⟨b, hb⟩ := isFile_eq_true.1 hfile
      refine ⟨b, ?_, .inl hb⟩
      unfold contentIn
      rw [hs]
      exact content_file_eq_ok.2 hb
    · cases hf
  · rw [hw]
    exact ⟨⟨h, fun _ hb => hb, fun _ => rfl⟩, nofun⟩

end Depot.Element
