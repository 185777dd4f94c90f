import Depot.MediaType.Common
import Depot.Proofs.Element.Settling
import Depot.Proofs.Element.Storing
/-!
# One temporary file for each directory

A cache is asked again and again for a file with the same content, in one directory or another or
wherever there is one already. In every directory there is one such file at most. As long as it is
found under its path, it is what every request for the directory gets, and the content is not read
for this directory again. Content that could not be written is read again.
-/

namespace Depot.Disk

variable {p : Path}

/-- Where no dots are to be dropped, all segments are kept. -/
theorem tidySegments_eq_self (hfirst : p.isAbsolute = true → "." ∉ p.segments)
    (htail : "." ∉ p.segments.tail) : p.tidySegments = p.segments := by
  unfold Path.tidySegments
  split
  · next h => rw [h]
  · next s ss h =>
    rw [h] at hfirst htail ⊢
    have hkeep : ss.filter (· ≠ ".") = ss :=
      List.filter_eq_self.2 fun a ha => by simpa using ne_of_mem_of_not_mem ha htail
    rw [if_neg, hkeep, List.singleton_append]
    rintro ⟨rfl, habs⟩
    exact hfirst habs List.mem_cons_self

theorem dot_notMem_tidySegments (h : p.isAbsolute = true) : "." ∉ p.tidySegments := by
  unfold Path.tidySegments
  split
  · exact List.not_mem_nil
  · next s ss _ =>
    by_cases hs : s = "."
    · simp [hs, h]
    · simp [hs, Ne.symm hs]

theorem dot_notMem_tail_tidySegments (p : Path) : "." ∉ p.tidySegments.tail := by
  have hss (ss : List String) : "." ∉ ss.filter (· ≠ ".") := by simp
  unfold Path.tidySegments
  split
  · exact List.not_mem_nil
  · next s ss _ =>
    split
    · exact fun h => hss ss (List.mem_of_mem_tail h)
    · exact hss ss

/-- A tidy path is tidy. -/
@[simp] theorem tidy_tidy (p : Path) : p.tidy.tidy = p.tidy := by
  have habs : p.tidy.isAbsolute = true → p.isAbsolute = true := by
    simp [Path.isAbsolute, Path.tidy]
  have hsegments : p.tidy.tidySegments = p.tidySegments :=
    tidySegments_eq_self (fun h => dot_notMem_tidySegments (habs h))
      (dot_notMem_tail_tidySegments p)
  rw [Path.tidy, hsegments]
  simp [Path.tidy]

end Depot.Disk

namespace Depot.Directories

open Disk ContentCache

/-! ### Requests -/

/-- What a cache can be asked for: a file in a directory, or in any, for a media type. Reading the
content may change the disk, but has no hold of the cache. -/
structure Request where
  dir : Option String
  type : Option String
  read : Disk.Action ElementError Bytes

namespace Request

/-- Reads the content and writes down what has come of it. -/
def reading (q : Request) :
    Scene.Action (Option (Except ElementError Bytes)) ElementError Bytes := fun s =>
  ((q.read s.disk).1, { s with disk := (q.read s.disk).2, around := some (q.read s.disk).1 })

/-- The disk on which the cache looks for its files: the directory that is asked for has been
made. -/
def ready (q : Request) (d : Disk) : Disk :=
  q.dir.elim d fun dir => (makeDirs (.ofText dir) d).2

/-- The directory that is asked for, as a path from the root. -/
def within (q : Request) (d : Disk) : Option Path :=
  q.dir.bind fun dir => (d.absolute (.ofText dir)).toOption

/-- The directory in which a new file is made. -/
def place (q : Request) (d : Disk) : Path := (q.within d).getD d.tempDir

end Request

/-- A request and what has come of it. -/
structure Entry where
  request : Request
  /-- The disk on which the cache has looked for its files. -/
  disk : Disk
  /-- What has come of the reading, if the content had to be read. -/
  reading : Option (Except ElementError Bytes)
  answer : Except ElementError Path

/-- The directory that has been asked for, as a path from the root. -/
def Entry.within (x : Entry) : Option Path := x.request.within x.disk

/-- The directory in which a new file would have been made, or has been. -/
def Entry.place (x : Entry) : Path := x.request.place x.disk

/-- A cache on a disk, and what it has been asked for. -/
structure Run where
  cache : ContentCache
  disk : Disk
  /-- The latest first. -/
  past : List Entry

/-- The scene of a request, in which nothing has been read yet. -/
def Run.scene (s : Run) : Scene (Option (Except ElementError Bytes)) where
  cache := s.cache
  disk := s.disk
  around := none

/-- What can happen. -/
inductive Event where
  | request (q : Request)
  /-- Somebody else changes the disk. -/
  | elsewhere (change : Disk → Disk)

/-- The run after an event. -/
def Event.after [MediaTypes] : Event → Run → Run
  | request q, s        =>
    let (answer, s') := Scene.writeTemp q.dir q.type q.reading s.scene
    { cache := s'.cache
      disk := s'.disk
      past := { request := q, disk := q.ready s.disk, reading := s'.around, answer } :: s.past }
  | elsewhere change, s => { s with disk := change s.disk }

/-- The run after several events. -/
def afterAll [MediaTypes] (es : List Event) (s : Run) : Run := es.foldl (fun s e => e.after s) s

/-- A cache has a file of its current content. -/
def Tracks (c : ContentCache) (p : Path) : Prop :=
  ∃ t ∈ c.temps, t.generation = c.generation ∧ t.path = p

/-- No file of the current content is gone when the cache looks for one. -/
def Event.Spares : Event → Run → Prop
  | request q, s   => ∀ t ∈ s.cache.temps, t.generation = s.cache.generation →
    (q.ready s.disk).exists? t.path = true
  | elsewhere _, _ => True

/-- No file of the current content is ever gone when the cache looks for one. -/
def Undisturbed [MediaTypes] : List Event → Run → Prop
  | [], _      => True
  | e :: es, s => e.Spares s ∧ Undisturbed es (e.after s)

instance Event.decidableSpares : (e : Event) → (s : Run) → Decidable (e.Spares s)
  | request _, s   => inferInstanceAs (Decidable (∀ t ∈ s.cache.temps, _ → _))
  | elsewhere _, _ => inferInstanceAs (Decidable True)

instance Undisturbed.decidable [MediaTypes] :
    (es : List Event) → (s : Run) → Decidable (Undisturbed es s)
  | [], _      => inferInstanceAs (Decidable True)
  | e :: es, s =>
    have := Undisturbed.decidable es (e.after s)
    inferInstanceAs (Decidable (e.Spares s ∧ Undisturbed es (e.after s)))

/-! ### Files in directories -/

variable {c c' : ContentCache} {t t' : TempFile} {p dir dir' : Path} {n suffix : String}

/-- Whether something stands in a directory, not only below it. -/
def LiesIn (dir p : Path) : Bool := p.parent?.any (·.same dir)

theorem serves_some : serves c.generation (some dir) t = true ↔
    t.generation = c.generation ∧ LiesIn dir t.path = true := by
  simp [serves, LiesIn]

theorem serves_none : serves c.generation none t = true ↔ t.generation = c.generation := by
  simp [serves]

theorem current?_eq_none {dir : Option Path} : c.current? dir = none ↔
    ∀ t ∈ c.temps, serves c.generation dir t = false := by
  simp [current?]

theorem liesIn_congr (h : dir.same dir' = true) : LiesIn dir p = LiesIn dir' p := by
  unfold LiesIn Path.same at *
  rw [of_decide_eq_true h]

/-- A name in a directory lies in whatever is the same directory. -/
theorem liesIn_join (hn : n ≠ ".") : LiesIn dir' (dir.join n) = dir.same dir' := by
  have hparent : (dir.join n).parent? = some dir.tidy := parent?_of_segments rfl hn
  rw [LiesIn, hparent, Option.any_some, Path.same, Path.same, tidy_tidy]

theorem tempName_ne_dot {names : Names} {n : Nat} {suffix : String} :
    tempName names n suffix ≠ "." := by
  intro h
  have hlist := congrArg String.toList h
  simp [tempName, tempPrefix] at hlist

theorem tracks_prune {d : Disk} : Tracks (c.prune d) p ↔ Tracks c p ∧ d.exists? p = true := by
  simp only [Tracks, ContentCache.prune, List.mem_filter]
  constructor
  · rintro ⟨t, ⟨ht, hd⟩, hg, rfl⟩
    exact ⟨⟨t, ht, hg, rfl⟩, hd⟩
  · rintro ⟨⟨t, ht, hg, rfl⟩, hd⟩
    exact ⟨t, ⟨ht, hd⟩, hg, rfl⟩

/-- What is not found is not there. -/
theorem not_liesIn_of_missing {q : Request} {d : Disk} (missing : c.current? (q.within d) = none)
    (hp : Tracks c p) : LiesIn (q.place d) p = false := by
  obtain ⟨t, ht, hg, rfl⟩ := hp
  have hserves := current?_eq_none.1 missing t ht
  rw [Request.place]
  cases hdir : q.within d with
  | none =>
    rw [hdir, Bool.eq_false_iff] at hserves
    exact absurd (serves_none.2 hg) hserves
  | some dir =>
    rw [hdir, Bool.eq_false_iff] at hserves
    exact Bool.eq_false_iff.2 fun hlies => hserves (serves_some.2 ⟨hg, hlies⟩)

/-- At most one file of the current content lies in any one directory. -/
def Single (c : ContentCache) : Prop :=
  ∀ dir, (c.temps.filter (serves c.generation (some dir))).length ≤ 1

theorem Single.eq (h : Single c) (ht : t ∈ c.temps) (ht' : t' ∈ c.temps)
    (hs : serves c.generation (some dir) t = true)
    (hs' : serves c.generation (some dir) t' = true) : t = t' := by
  have hmem := List.mem_filter.2 ⟨ht, hs⟩
  have hmem' := List.mem_filter.2 ⟨ht', hs'⟩
  match hl : c.temps.filter (serves c.generation (some dir)), h dir with
  | [], _ =>
    rw [hl] at hmem
    cases hmem
  | [u], _ =>
    rw [hl] at hmem hmem'
    exact (List.mem_singleton.1 hmem).trans (List.mem_singleton.1 hmem').symm
  | _ :: _ :: _, h => simp at h

theorem Single.prune (h : Single c) (d : Disk) : Single (c.prune d) := fun dir =>
  ((List.filter_sublist.filter _).length_le).trans (h dir)

/-- A file in a directory in which there is none. -/
theorem Single.track (h : Single c) (ht : ∀ t' ∈ c.temps, ∀ dir,
      serves c.generation (some dir) t = true → serves c.generation (some dir) t' = false) :
    Single (c.track t) := by
  intro dir
  show ((c.temps ++ [t]).filter (serves c.generation (some dir))).length ≤ 1
  rw [List.filter_append, List.length_append]
  by_cases hs : serves c.generation (some dir) t = true
  · have hnone : c.temps.filter (serves c.generation (some dir)) = [] :=
      List.filter_eq_nil_iff.2 fun t' ht' => by simp [ht t' ht' dir hs]
    simp [hnone, hs]
  · have := h dir
    simpa [hs] using this

/-! ### What comes of a request -/

/-- What can come of a request to a cache that looks for its files on a disk: what is read, what is
answered, and the cache afterwards. -/
inductive Comes (q : Request) (d : Disk) (c : ContentCache) :
    Option (Except ElementError Bytes) → Except ElementError Path → ContentCache → Prop where
  /-- There is no way to the directory. -/
  | refused (e : ElementError) (asked : q.dir ≠ none) : Comes q d c none (.error e) c
  | found (t : TempFile) (entered : q.dir ≠ none → q.within d ≠ none)
      (found : (c.prune d).current? (q.within d) = some t) :
      Comes q d c none (.ok t.path) (c.prune d)
  | unread (e : ElementError) (missing : (c.prune d).current? (q.within d) = none) :
      Comes q d c (some (.error e)) (.error e) (c.prune d)
  | unwritten (b : Bytes) (f : Fault) (missing : (c.prune d).current? (q.within d) = none) :
      Comes q d c (some (.ok b)) (.error (.temporary (q.place d).text f)) (c.prune d)
  | written (b : Bytes) (name : String) (plain : name ≠ ".")
      (entered : q.dir ≠ none → q.within d ≠ none)
      (missing : (c.prune d).current? (q.within d) = none) :
      Comes q d c (some (.ok b)) (.ok ((q.place d).join name))
        ((c.prune d).track { generation := c.generation, path := (q.place d).join name })

/-- Once a directory has been entered, it is known from the root, and the rest is as it was. -/
theorem enterDirs_eq_ok {τ : Type} {q : Request} {s s' : Scene τ} {dir : Option Path}
    (h : (q.dir.mapM Scene.enterDir : Scene.Action τ ElementError _) s = (.ok dir, s')) :
    s' = { s with disk := q.ready s.disk } ∧ dir = q.within (q.ready s.disk) ∧
      (q.dir ≠ none → dir ≠ none) := by
  have hs : s' = { s with disk := q.ready s.disk } := by
    rw [Request.ready, ← Scene.enterDirs_disk, h]
  refine ⟨hs, ?_⟩
  cases hdir : q.dir with
  | none =>
    rw [hdir] at h
    cases h
    exact ⟨by simp [Request.within, hdir], fun hne => absurd rfl hne⟩
  | some name =>
    rw [hdir, Option.mapM_some, Action.map_apply, Scene.enterDir_apply] at h
    rw [Request.within, hdir, Option.bind_some, Request.ready, hdir, Option.elim_some]
    rcases hmade : makeDirs (.ofText name) s.disk with ⟨f | _, d⟩ <;> rw [hmade] at h
    · cases h
    · dsimp only at h
      cases habs : d.absolute (.ofText name) with
      | error f =>
        rw [habs] at h
        cases h
      | ok p =>
        rw [habs] at h
        cases h
        exact ⟨rfl, nofun⟩

/-- What comes of a request is written down. -/
theorem request_comes [MediaTypes] (q : Request) (s : Run) : ∃ reading answer,
    Comes q (q.ready s.disk) s.cache reading answer ((Event.request q).after s).cache ∧
      ((Event.request q).after s).past =
        { request := q, disk := q.ready s.disk, reading, answer } :: s.past := by
  have hafter : (Event.request q).after s =
      { cache := (Scene.writeTemp q.dir q.type q.reading s.scene).2.cache
        disk := (Scene.writeTemp q.dir q.type q.reading s.scene).2.disk
        past := { request := q, disk := q.ready s.disk
                  reading := (Scene.writeTemp q.dir q.type q.reading s.scene).2.around
                  answer := (Scene.writeTemp q.dir q.type q.reading s.scene).1 } :: s.past } := rfl
  rw [hafter]
  refine ⟨_, _, ?_, rfl⟩
  dsimp only
  rw [Scene.writeTemp_apply]
  have hdisk := Scene.enterDirs_disk q.dir s.scene
  rcases hdir : (q.dir.mapM Scene.enterDir : Scene.Action _ ElementError _) s.scene
    with ⟨e | dir, s'⟩
  · rw [hdir] at hdisk
    cases hdisk
    refine .refused e fun hnone => ?_
    rw [hnone] at hdir
    cases hdir
  obtain ⟨rfl, rfl, hentered⟩ := enterDirs_eq_ok hdir
  dsimp only [Scene.pruned, Run.scene, Request.reading] at hentered ⊢
  cases hc : (s.cache.prune (q.ready s.disk)).current? (q.within (q.ready s.disk)) with
  | some t => exact .found t hentered hc
  | none =>
    dsimp only
    rcases q.read (q.ready s.disk) with ⟨e | b, d⟩
    · exact .unread e hc
    · dsimp only
      rcases hw : Disk.writeTemp _ _ b d with ⟨f | p, d'⟩
      · exact .unwritten b f hc
      · obtain ⟨_, ⟨n, suffix, -, -, -, rfl⟩, rfl⟩ := writeTemp_name (isSuffix_of_type _) hw
        exact .written b _ tempName_ne_dot hentered hc

namespace Comes

variable {q : Request} {d : Disk} {reading : Option (Except ElementError Bytes)}
  {answer : Except ElementError Path} {b : Bytes}

/-- No request brings a second file into a directory. -/
theorem single (h : Comes q d c reading answer c') (hc : Single c) : Single c' := by
  cases h with
  | refused e asked => exact hc
  | found t entered found => exact hc.prune d
  | unread e missing => exact hc.prune d
  | unwritten b f missing => exact hc.prune d
  | written b name plain entered missing =>
    refine (hc.prune d).track fun t ht dir hnew => Bool.eq_false_iff.2 fun hold => ?_
    have hsame := (serves_some.1 hnew).2
    rw [liesIn_join plain] at hsame
    obtain ⟨hg, hlies⟩ := serves_some.1 hold
    have hfree := not_liesIn_of_missing missing ⟨t, ht, hg, rfl⟩
    rw [liesIn_congr hsame, hlies] at hfree
    cases hfree

/-- What is handed out for a directory lies in it. -/
theorem within_of_ok (h : Comes q d c reading (.ok p) c') (hdir : q.dir ≠ none) :
    ∃ dir, q.within d = some dir ∧ LiesIn dir p = true := by
  cases h with
  | found t entered found =>
    obtain ⟨dir, hwithin⟩ := Option.ne_none_iff_exists'.1 (entered hdir)
    rw [hwithin] at found
    exact ⟨dir, hwithin, (serves_some.1 (List.find?_some found)).2⟩
  | written b name plain entered missing =>
    obtain ⟨dir, hwithin⟩ := Option.ne_none_iff_exists'.1 (entered hdir)
    refine ⟨dir, hwithin, ?_⟩
    rw [Request.place, hwithin, Option.getD_some, liesIn_join plain]
    simp [Path.same]

/-- What has been read is in a file in the place for it, unless none can be written there. -/
theorem place_of_read (h : Comes q d c (some (.ok b)) answer c') :
    (∃ p, answer = .ok p ∧ LiesIn (q.place d) p = true) ∨
      ∃ f, answer = .error (.temporary (q.place d).text f) := by
  cases h with
  | unwritten b f missing => exact .inr ⟨f, rfl⟩
  | written b name plain entered missing =>
    refine .inl ⟨_, rfl, ?_⟩
    rw [liesIn_join plain]
    simp [Path.same]

/-- What is handed out is a file of the current content. -/
theorem tracks_of_ok (h : Comes q d c reading (.ok p) c') : Tracks c' p := by
  cases h with
  | found t entered found =>
    obtain ⟨ht, hg⟩ := Readings.current?_eq_some found
    exact ⟨t, ht, hg, rfl⟩
  | written b name plain entered missing =>
    exact ⟨_, List.mem_append_right _ (List.mem_singleton_self _), rfl, rfl⟩

/-- A file that is still there is not forgotten. -/
theorem keeps (h : Comes q d c reading answer c') (hp : Tracks c p) (hd : d.exists? p = true) :
    Tracks c' p := by
  have hpruned := tracks_prune.2 ⟨hp, hd⟩
  cases h with
  | refused e asked => exact hp
  | found t entered found => exact hpruned
  | unread e missing => exact hpruned
  | unwritten b f missing => exact hpruned
  | written b name plain entered missing =>
    obtain ⟨t, ht, hg, hpath⟩ := hpruned
    exact ⟨t, List.mem_append_left _ ht, hg, hpath⟩

/-- The content is read only where there is no file that would do. -/
theorem not_liesIn_of_read (h : Comes q d c reading answer c') (hr : reading ≠ none)
    (hp : Tracks c p) (hd : d.exists? p = true) : LiesIn (q.place d) p = false := by
  have hpruned := tracks_prune.2 ⟨hp, hd⟩
  cases h with
  | refused e asked => exact absurd rfl hr
  | found t entered found => exact absurd rfl hr
  | unread e missing => exact not_liesIn_of_missing missing hpruned
  | unwritten b f missing => exact not_liesIn_of_missing missing hpruned
  | written b name plain entered missing => exact not_liesIn_of_missing missing hpruned

end Comes

/-! ### Runs -/

variable {s : Run}

/-- What holds of every run. -/
structure Steady (s : Run) : Prop where
  single : Single s.cache
  inside : ∀ x ∈ s.past, ∀ p, x.answer = .ok p → x.request.dir ≠ none →
    ∃ dir, x.within = some dir ∧ LiesIn dir p = true
  made : ∀ x ∈ s.past, ∀ b, x.reading = some (.ok b) →
    (∃ p, x.answer = .ok p ∧ LiesIn x.place p = true) ∨
      ∃ f, x.answer = .error (.temporary x.place.text f)

theorem Steady.after [MediaTypes] (h : Steady s) (e : Event) : Steady (e.after s) := by
  cases e with
  | elsewhere change => exact { h with }
  | request q =>
    obtain ⟨reading, answer, hcomes, hpast⟩ := request_comes q s
    refine { single := hcomes.single h.single, inside := ?_, made := ?_ } <;>
      simp only [hpast, List.forall_mem_cons]
    · exact ⟨fun p hp => hp ▸ (hp ▸ hcomes).within_of_ok, h.inside⟩
    · exact ⟨fun b hb => Comes.place_of_read (hb ▸ hcomes), h.made⟩

theorem Steady.afterAll [MediaTypes] (h : Steady s) (es : List Event) : Steady (afterAll es s) := by
  induction es generalizing s with
  | nil => exact h
  | cons e es ih => exact ih (h.after e)

/-- What holds of a run in which no files are removed. -/
structure Lasting (s : Run) : Prop where
  held : ∀ x ∈ s.past, ∀ p, x.answer = .ok p → Tracks s.cache p
  unread : ∀ x past, x :: past <:+ s.past → x.reading ≠ none →
    ∀ y ∈ past, ∀ p, y.answer = .ok p → LiesIn x.place p = false

theorem Lasting.after [MediaTypes] {e : Event} (h : Lasting s) (he : e.Spares s) :
    Lasting (e.after s) := by
  cases e with
  | elsewhere change => exact { h with }
  | request q =>
    obtain ⟨reading, answer, hcomes, hpast⟩ := request_comes q s
    have hold : ∀ x ∈ s.past, ∀ p, x.answer = .ok p →
        Tracks s.cache p ∧ (q.ready s.disk).exists? p = true := by
      intro x hx p hp
      obtain ⟨t, ht, hg, rfl⟩ := h.held x hx p hp
      exact ⟨⟨t, ht, hg, rfl⟩, he t ht hg⟩
    constructor
    · simp only [hpast, List.forall_mem_cons]
      refine ⟨fun p hp => (hp ▸ hcomes).tracks_of_ok, fun x hx p hp => ?_⟩
      obtain ⟨htracked, hd⟩ := hold x hx p hp
      exact hcomes.keeps htracked hd
    · rw [hpast]
      intro x past hs hr y hy p hp
      rcases List.suffix_cons_iff.1 hs with hs | hs
      · obtain ⟨rfl, rfl⟩ := List.cons.inj hs
        obtain ⟨htracked, hd⟩ := hold y hy p hp
        exact hcomes.not_liesIn_of_read hr htracked hd
      · exact h.unread x past hs hr y hy p hp

theorem Lasting.afterAll [MediaTypes] {es : List Event} (h : Lasting s) (hes : Undisturbed es s) :
    Lasting (afterAll es s) := by
  induction es generalizing s with
  | nil => exact h
  | cons e es ih => exact ih (h.after hes.1) hes.2

variable {x y : Entry} {past : List Entry} {b : Bytes}

/-- Only content that could not be written is read again. -/
theorem Lasting.unwritten (h : Lasting s) (hs : Steady s) (hpast : x :: past <:+ s.past)
    (hr : x.reading ≠ none) (hy : y ∈ past) (hb : y.reading = some (.ok b))
    (hsame : y.place.same x.place = true) : ∃ f, y.answer = .error (.temporary y.place.text f) := by
  rcases hs.made y (hpast.subset (List.mem_cons_of_mem x hy)) b hb with ⟨p, hp, hlies⟩ | hf
  · have hfree := h.unread x past hpast hr y hy p hp
    rw [← liesIn_congr hsame, hlies] at hfree
    cases hfree
  · exact hf

/-! ### All runs -/

/-- A cache on a disk that has not been asked for anything. -/
def start (c : ContentCache) (d : Disk) : Run := { cache := c, disk := d, past := [] }

theorem Steady.start (hc : ∀ t ∈ c.temps, t.generation ≠ c.generation) (d : Disk) :
    Steady (start c d) where
  single dir := by
    have hnone : c.temps.filter (serves c.generation (some dir)) = [] :=
      List.filter_eq_nil_iff.2 fun t ht hs => hc t ht (serves_some.1 hs).1
    show (c.temps.filter (serves c.generation (some dir))).length ≤ 1
    rw [hnone]
    exact Nat.zero_le 1
  inside x hx := absurd hx List.not_mem_nil
  made x hx := absurd hx List.not_mem_nil

theorem Lasting.start (c : ContentCache) (d : Disk) : Lasting (start c d) where
  held x hx := absurd hx List.not_mem_nil
  unread x past hs := by cases List.suffix_nil.1 hs

end Depot.Directories
