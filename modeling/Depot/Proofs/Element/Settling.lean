import Depot.MediaType.Common
import Depot.Proofs.Element.Readings
/-!
# Stale readings are never used

A checksum is remembered only if the cache has not been invalidated since the reading for it began,
and so is a temporary file handed out again only in this case. For checksums the cache looks at its
generation after the reading. A temporary file is remembered in any case, but with the generation
from before the reading.
-/

namespace Depot.Readings

open Disk ContentCache

variable {past past' : List Entry} {x : Entry} {c c' : ContentCache} {names names' : Names}
  {a : Algorithm} {p : Disk.Path} {s : Run} {r : Reader} {distinct : Prop}

/-! ### What a cache remembers -/

theorem current?_eq_some {dir : Option Disk.Path} {t : TempFile} (h : c.current? dir = some t) :
    t ∈ c.temps ∧ t.generation = c.generation := by
  have hserves : serves c.generation dir t = true := List.find?_some h
  simp only [serves, Bool.and_eq_true, decide_eq_true_eq] at hserves
  exact ⟨List.mem_reverse.1 (List.mem_of_find?_eq_some h), hserves.1⟩

/-- The path of a temporary file of which the name has been used. -/
def NameUsed (names : Names) (p : Disk.Path) : Prop :=
  ∃ (dir : Disk.Path) (name : String), names.Used name ∧ p = dir.join name

theorem NameUsed.mono (h : NameUsed names p) (hnames : names.Continues names') :
    NameUsed names' p := by
  obtain ⟨dir, name, hused, hp⟩ := h
  exact ⟨dir, name, hnames.mono hused, hp⟩

theorem name_of_join {dir dir' : Disk.Path} {n n' : String} (h : dir.join n = dir'.join n') :
    n = n' := by
  have hsegments : dir.segments ++ [n] = dir'.segments ++ [n'] := congrArg Path.segments h
  simpa using (List.append_inj' hsegments rfl).2

/-- What an entry says, after what has happened before. If names are `distinct`, a path that is
written is a new one. -/
def Explained (distinct : Prop) (past : List Entry) : Entry → Prop
  | .checksum a none answer     => ∃ b, answer = .ok (.ofBytes a b) ∧ Remembered past a b
  | .checksum a (some r) answer => answer = r.result.map (.ofBytes a)
  | .writeTemp none (.ok p)     => Written past p
  | .writeTemp none (.error e)  => ∃ dir f, e = .temporary dir f
  | .writeTemp (some r) answer  =>
    (∀ e, r.result = .error e → answer = .error e) ∧
      (distinct → ∀ p, answer = .ok p → ∀ x ∈ past, x.written? ≠ some p)
  | .change _                   => True

/-- What a cache remembers goes back to what has happened, as every entry does. -/
structure Traced (distinct : Prop) (past : List Entry) (c : ContentCache) (names : Names) :
    Prop where
  fresh : distinct → names.NeverTwice
  explained : ∀ x past', x :: past' <:+ past → Explained distinct past' x
  checksum : ∀ a k, c.checksum? a = some k ↔ ∃ b, k = .ofBytes a b ∧ Remembered past a b
  temps : ∀ t ∈ c.temps, t.generation = c.generation → Written past t.path
  named : ∀ x ∈ past, ∀ p, x.written? = some p → NameUsed names p

namespace Traced

/-- A new cache remembers nothing. -/
theorem start (hnames : distinct → names.NeverTwice) : Traced distinct [] .empty names where
  fresh := hnames
  explained x past' h := by simp at h
  checksum a k := by
    refine iff_of_false (by simp [ContentCache.checksum?, ContentCache.empty]) ?_
    rintro ⟨b, -, r, -, h⟩
    exact List.not_mem_nil h.mem
  temps t ht := absurd ht List.not_mem_nil
  named x hx := absurd hx List.not_mem_nil

theorem prune (h : Traced distinct past c names) (d : Disk) :
    Traced distinct past (c.prune d) names :=
  { h with temps := fun t ht => h.temps t (List.mem_filter.1 ht).1 }

/-- Something more has happened. -/
theorem add (h : Traced distinct past c names) (hx : Explained distinct past x)
    (hchecksum : ∀ a k,
      c'.checksum? a = some k ↔ ∃ b, k = .ofBytes a b ∧ Remembered (x :: past) a b)
    (htemps : ∀ t ∈ c'.temps, t.generation = c'.generation → Written (x :: past) t.path)
    (hnames : names.Continues names') (hwritten : ∀ p, x.written? = some p → NameUsed names' p) :
    Traced distinct (x :: past) c' names' where
  fresh hd := hnames.neverTwice (h.fresh hd)
  explained y past' hy := by
    rcases List.suffix_cons_iff.1 hy with hy | hy
    · obtain ⟨rfl, rfl⟩ := List.cons.inj hy
      exact hx
    · exact h.explained y past' hy
  checksum := hchecksum
  temps := htemps
  named y hy p hp := by
    rcases List.mem_cons.1 hy with rfl | hy
    · exact hwritten p hp
    · exact (h.named y hy p hp).mono hnames

/-- What has not invalidated the cache and read nothing for a checksum leaves the checksums that are
remembered. -/
theorem add_quiet (h : Traced distinct past c names) (hx : Explained distinct past x)
    (hr : ¬ x.Renews) (hreads : ∀ a, ¬ x.Reads a) (hc : c'.checksums = c.checksums)
    (htemps : ∀ t ∈ c'.temps, t.generation = c'.generation →
      t ∈ c.temps ∧ t.generation = c.generation ∨ Written (x :: past) t.path)
    (hnames : names.Continues names') (hwritten : ∀ p, x.written? = some p → NameUsed names' p) :
    Traced distinct (x :: past) c' names' := by
  refine h.add hx (fun a k => ?_) (fun t ht hg => ?_) hnames hwritten
  · have hsame : c'.checksum? a = c.checksum? a := by
      rw [ContentCache.checksum?, ContentCache.checksum?, hc]
    rw [hsame, h.checksum]
    exact exists_congr fun b => and_congr_right fun _ => (remembered_cons hr (hreads a)).symm
  · rcases htemps t ht hg with ⟨ht, hg⟩ | hwritten
    · exact (h.temps t ht hg).cons hr
    · exact hwritten

/-- After an invalidation no checksum is remembered and no temporary file handed out again. -/
theorem add_renewed (h : Traced distinct past c names) (hx : Explained distinct past x)
    (hr : x.Renews) (hc : c'.checksums = [])
    (htemps : ∀ t ∈ c'.temps, t.generation ≠ c'.generation) (hnames : names.Continues names')
    (hwritten : ∀ p, x.written? = some p → NameUsed names' p) :
    Traced distinct (x :: past) c' names' := by
  refine h.add hx (fun a k => ?_) (fun t ht hg => absurd hg (htemps t ht)) hnames hwritten
  rw [checksum?_of_nil hc]
  refine iff_of_false (by simp) ?_
  rintro ⟨b, -, hb⟩
  exact not_remembered hr hb

/-- A call that needs no reading. -/
theorem add_unread (h : Traced distinct past c names) (hx : Explained distinct past x)
    (hr : ¬ x.Renews) (hreads : ∀ a, ¬ x.Reads a) (hwritten : x.written? = none) :
    Traced distinct (x :: past) c names :=
  h.add_quiet hx hr hreads rfl (fun _ ht hg => .inl ⟨ht, hg⟩) (.refl names) (by simp [hwritten])

/-- A reading for a checksum in which the cache is not invalidated. -/
theorem add_read {reading : Reading} {answer : Except ElementError Checksum}
    (h : Traced distinct past c names) (hx : answer = reading.result.map (.ofBytes a))
    (hr : .invalidate ∉ reading.changes)
    (hc : ∀ a', c'.checksum? a' = if a' = a then answer.toOption else c.checksum? a')
    (htemps : c'.temps = c.temps) (hgen : c'.generation = c.generation)
    (hnames : names.Continues names') :
    Traced distinct (.checksum a (some reading) answer :: past) c' names' := by
  have hquiet : ¬ (Entry.checksum a (some reading) answer).Renews := hr
  refine h.add hx (fun a' k => ?_) (fun t ht hg => ?_) hnames nofun
  · rw [hc]
    split
    · next ha =>
      subst ha hx
      simp only [remembered_checksum, Reading.Settled, hr]
      cases reading.result with
      | error e => simp [Except.map, Except.toOption]
      | ok b => simp [Except.map, Except.toOption, eq_comm]
    · next ha =>
      rw [h.checksum]
      refine exists_congr fun b => and_congr_right fun _ => (remembered_cons hquiet ?_).symm
      simpa [Entry.Reads] using Ne.symm ha
  · exact (h.temps t (htemps ▸ ht) (hgen ▸ hg)).cons hquiet

/-- A reading for a temporary file that is not made. -/
theorem add_failed {scene : Scene Watched} {reading : Reading} {e : ElementError}
    (h : Traced distinct past scene.cache scene.disk.names)
    (hx : ∀ e', reading.result = .error e' → e = e') :
    Traced distinct (.writeTemp (some reading) (.error e) :: past)
      (makeAll reading.changes scene).cache (makeAll reading.changes scene).disk.names := by
  have hexplained : Explained distinct past (.writeTemp (some reading) (.error e)) :=
    ⟨fun e' he' => by rw [hx e' he'], fun _ => nofun⟩
  have hnames := names_makeAll reading.changes scene
  rcases cache_makeAll reading.changes scene with ⟨hr, hc⟩ | ⟨hr, -, hchecksums, htemps⟩
  · rw [hc]
    exact h.add_quiet hexplained hr (by simp [Entry.Reads]) rfl (fun t ht hg => .inl ⟨ht, hg⟩)
      hnames nofun
  · exact h.add_renewed hexplained hr hchecksums (by simp [htemps]) hnames nofun

/-- A reading for a temporary file that is made then. It is remembered with the generation from
before the reading. -/
theorem add_written {scene : Scene Watched} {reading : Reading} {b : Bytes} {dir : Disk.Path}
    {suffix : String} {d : Disk} (h : Traced distinct past scene.cache scene.disk.names)
    (hb : reading.result = .ok b) (hs : IsSuffix suffix)
    (hw : Disk.writeTemp dir suffix b (makeAll reading.changes scene).disk = (.ok p, d)) :
    Traced distinct (.writeTemp (some reading) (.ok p) :: past)
      ((makeAll reading.changes scene).cache.track
        { generation := scene.cache.generation, path := p }) d.names := by
  obtain ⟨name, htakes, rfl⟩ := writeTemp_name hs hw
  have hbefore := names_makeAll reading.changes scene
  have hnames : scene.disk.names.Continues d.names := hbefore.trans htakes.continues
  -- A path that was handed out before has a name that was used before, and this one is new.
  have hexplained : Explained distinct past (.writeTemp (some reading) (.ok (dir.join name))) := by
    refine ⟨by simp [hb], fun hd p hp x hx hwritten => ?_⟩
    cases hp
    obtain ⟨dir', name', hused, he⟩ := h.named x hx _ hwritten
    cases name_of_join he
    exact (hbefore.neverTwice (h.fresh hd)).fresh htakes (hbefore.mono hused)
  have hname : ∀ q, (Entry.writeTemp (some reading) (.ok (dir.join name))).written? = some q →
      NameUsed d.names q := by
    intro q hq
    cases hq
    exact ⟨dir, name, htakes.used, rfl⟩
  rcases cache_makeAll reading.changes scene with ⟨hr, hc⟩ | ⟨hr, hlt, hchecksums, htemps⟩
  · rw [hc]
    refine h.add_quiet hexplained hr (by simp [Entry.Reads]) rfl (fun t ht hg => ?_) hnames hname
    rcases List.mem_append.1 ht with ht | ht
    · exact .inl ⟨ht, hg⟩
    · rw [List.mem_singleton.1 ht]
      exact .inr ⟨reading, b, ⟨hb, hr⟩, since_cons.2 (.inl rfl)⟩
  · refine h.add_renewed hexplained hr hchecksums (fun t ht => ?_) hnames hname
    rw [ContentCache.track, htemps] at ht
    rw [List.mem_singleton.1 ht]
    exact hlt.ne

/-! ### Events -/

/-- Entering a directory uses no names for temporary files, and fails as such. -/
theorem enterDirs_cases {τ : Type} (dir : Option String) (s : Scene τ) :
    ((dir.mapM Scene.enterDir : Scene.Action τ ElementError _) s).2.disk.names =
        s.disk.names ∧
      ∀ e, ((dir.mapM Scene.enterDir : Scene.Action τ ElementError _) s).1 = .error e →
        ∃ dir f, e = .temporary dir f := by
  rw [Scene.enterDirs_disk]
  cases dir with
  | none => exact ⟨rfl, nofun⟩
  | some dir =>
    refine ⟨names_makeDirs (.ofText dir) s.disk, fun e he => ⟨dir, ?_⟩⟩
    rw [Option.mapM_some, Action.map_apply, Scene.enterDir_apply] at he
    revert he
    rcases makeDirs (.ofText dir) s.disk with ⟨f | _, d⟩
    · rintro ⟨⟩
      exact ⟨f, rfl⟩
    · dsimp only
      cases d.absolute (.ofText dir) with
      | error f =>
        rintro ⟨⟩
        exact ⟨f, rfl⟩
      | ok p => nofun

/-- A run of which everything is traced. -/
abbrev Of (distinct : Prop) (s : Run) : Prop :=
  Traced distinct s.past s.scene.cache s.scene.disk.names

/-- A change. -/
theorem change [MediaTypes] (h : Of distinct s) (x : Change) :
    Of distinct ((Event.change x).after s) := by
  have hnames := names_makeAll [x] s.scene
  rcases cache_makeAll [x] s.scene with ⟨hx, hc⟩ | ⟨hx, -, hchecksums, htemps⟩
  · refine h.add_quiet trivial hx (by simp [Entry.Reads]) (congrArg _ hc) (fun t ht hg => ?_)
      hnames nofun
    exact .inl ⟨hc ▸ ht, hc ▸ hg⟩
  · refine h.add_renewed trivial hx hchecksums (fun t ht => ?_) hnames nofun
    exact absurd (htemps ▸ ht) List.not_mem_nil

/-- A call for a checksum. -/
theorem checksum_call [MediaTypes] (h : Of distinct s) (a : Algorithm) (r : Reader) :
    Of distinct ((Event.checksum a r).after s) := by
  show Of distinct (s.call (Scene.checksum a r.read) (.checksum a))
  simp only [Of, Run.call, Scene.checksum_apply, read_apply]
  cases hk : s.ready.cache.checksum? a with
  | some k =>
    obtain ⟨b, rfl, hb⟩ := (h.checksum a k).1 hk
    exact h.add_unread ⟨b, rfl, hb⟩ (by simp [Entry.Renews, Entry.changes])
      (by simp [Entry.Reads]) rfl
  | none =>
    dsimp only
    generalize r.reading s.ready = reading
    have hnames := names_makeAll reading.changes s.ready
    rcases cache_makeAll reading.changes s.ready with ⟨hr, hc⟩ | ⟨hr, hlt, hchecksums, htemps⟩
    · -- Nothing has been invalidated while content was read.
      cases hb : reading.result with
      | error e =>
        refine h.add_read (by rw [hb]; rfl) hr (fun a' => ?_) (congrArg _ hc) (congrArg _ hc) hnames
        dsimp only
        rw [hc]
        split
        · next ha => exact ha ▸ hk
        · rfl
      | ok b =>
        simp only [hc, ContentCache.rememberSince, if_true]
        exact h.add_read (by rw [hb]; rfl) hr (fun a' => checksum?_remember) rfl rfl hnames
    · -- The generation tells that the checksum must not be remembered.
      have hsince (k : Checksum) : (makeAll reading.changes s.ready).cache.rememberSince
          s.ready.cache.generation k = (makeAll reading.changes s.ready).cache := if_neg hlt.ne'
      have hnone : ∀ t ∈ (makeAll reading.changes s.ready).cache.temps, t.generation ≠
          (makeAll reading.changes s.ready).cache.generation := by simp [htemps]
      cases hb : reading.result with
      | error e =>
        exact h.add_renewed (by rw [Explained, hb]; rfl) hr hchecksums hnone hnames
          fun p hp => by cases hp
      | ok b =>
        simp only [hsince]
        exact h.add_renewed (by rw [Explained, hb]; rfl) hr hchecksums hnone hnames
          fun p hp => by cases hp

/-- A call for a temporary file. -/
theorem writeTemp_call [MediaTypes] (h : Of distinct s) (dir type : Option String) (r : Reader) :
    Of distinct ((Event.writeTemp dir type r).after s) := by
  have hd := Scene.enterDirs_disk dir s.ready
  obtain ⟨hnames, herror⟩ := enterDirs_cases dir s.ready
  generalize dir.elim s.ready.disk _ = d at hd
  rw [hd] at hnames
  show Of distinct (s.call (Scene.writeTemp dir type r.read) .writeTemp)
  simp only [Of, Run.call, Scene.writeTemp_apply]
  rcases hr : (dir.mapM Scene.enterDir : Scene.Action Watched ElementError _) s.ready
    with ⟨e | dir', scene⟩ <;> rw [hr] at hd <;> cases hd
  · rw [hnames]
    exact h.add_unread (herror e (by rw [hr])) (by simp [Entry.Renews, Entry.changes])
      (by simp [Entry.Reads]) rfl
  -- Entering a directory takes no name, and forgetting files leaves the rest explained.
  have hpruned : Traced distinct s.past (s.ready.cache.prune d) d.names := hnames ▸ h.prune d
  dsimp only [Scene.pruned]
  cases hc : (s.ready.cache.prune d).current? dir' with
  | some t =>
    obtain ⟨ht, hg⟩ := current?_eq_some hc
    exact hpruned.add_unread (hpruned.temps t ht hg) (by simp [Entry.Renews, Entry.changes])
      (by simp [Entry.Reads]) rfl
  | none =>
    rw [read_apply]
    dsimp only
    generalize r.reading _ = reading
    cases hb : reading.result with
    | error e => exact hpruned.add_failed fun e' he' => by cases hb.symm.trans he'; rfl
    | ok b =>
      dsimp only
      rcases hw : Disk.writeTemp _ _ b _ with ⟨f | p, d'⟩
      · rw [writeTemp_eq_error hw]
        exact hpruned.add_failed fun e' he' => by cases hb.symm.trans he'
      · exact hpruned.add_written hb (isSuffix_of_type type) hw

/-- Every event. -/
theorem after [MediaTypes] (h : Of distinct s) (e : Event) : Of distinct (e.after s) := by
  cases e with
  | checksum a r => exact h.checksum_call a r
  | writeTemp dir type r => exact h.writeTemp_call dir type r
  | change c => exact h.change c

theorem afterAll [MediaTypes] (h : Of distinct s) (es : List Event) :
    Of distinct (afterAll es s) := by
  induction es generalizing s with
  | nil => exact h
  | cons e es ih => exact ih (h.after e)

end Traced

/-! ### All runs -/

theorem written?_eq_some : x.written? = some p ↔ ∃ r, x = .writeTemp (some r) (.ok p) := by
  unfold Entry.written?
  split <;> simp_all [eq_comm]

/-- What has been written before has another path. -/
theorem Traced.ne_of_written {y : Entry} (h : Traced distinct past c names) (hd : distinct)
    (hx : x :: past' <:+ past) (hy : y ∈ past') (hxp : x.written? = some p) :
    y.written? ≠ some p := by
  obtain ⟨r, rfl⟩ := written?_eq_some.1 hxp
  exact (h.explained _ _ hx).2 hd p rfl y hy

/-- A path is written only once. -/
theorem Traced.eq_of_written {y : Entry} (h : Traced distinct past c names) (hd : distinct)
    (hx : x ∈ past) (hy : y ∈ past) (hxp : x.written? = some p) (hyp : y.written? = some p) :
    x = y := by
  obtain ⟨later, earlier, rfl⟩ := List.append_of_mem hx
  rcases List.mem_append.1 hy with hy | hy
  · obtain ⟨later, between, rfl⟩ := List.append_of_mem hy
    have hsuffix : y :: (between ++ x :: earlier) <:+ (later ++ y :: between) ++ x :: earlier :=
      ⟨later, by simp⟩
    exact absurd hxp (h.ne_of_written hd hsuffix (by simp) hyp)
  · rcases List.mem_cons.1 hy with rfl | hy
    · rfl
    · exact absurd hyp (h.ne_of_written hd (List.suffix_append _ _) hy hxp)

/-- A checksum that is remembered has been remembered since before all that is not about it. -/
theorem Remembered.before {between : List Entry} {b : Bytes} (h : Remembered (between ++ past) a b)
    (hother : ∀ reading answer, .checksum a reading answer ∉ between) : Remembered past a b := by
  induction between with
  | nil => exact h
  | cons y between ih =>
    obtain ⟨r, hr, h⟩ := h
    rcases since_cons.1 h with rfl | ⟨-, h⟩
    · exact absurd List.mem_cons_self (hother _ _)
    · exact ih ⟨r, hr, h⟩ fun reading answer hy => hother reading answer (List.mem_cons_of_mem _ hy)

/-- In every run of a new cache, whatever happens while content is read for it: a checksum is
remembered exactly if the latest reading for it has succeeded and the cache has not been invalidated
since that reading began; a checksum that is answered without a reading is such a one. After a
reading that has failed, or in which the cache has been invalidated, the next call for the same
checksum reads again. A path that is handed out without a reading has been written from a reading
since the beginning of which the cache has not been invalidated; one that has been written from a
reading in which the cache has been invalidated is never handed out again, unless another file can
be given the same name. What a reading fails with is the answer to its own call only: without a
reading no call fails but for the directory of a temporary file. -/
theorem stale_never_used [MediaTypes] (d : Disk) (content : Bytes) (es : List Event) :
    let s := afterAll es (start d content)
    (∀ a k, s.scene.cache.checksum? a = some k ↔ ∃ b, k = .ofBytes a b ∧ Remembered s.past a b) ∧
    (∀ a answer past, .checksum a none answer :: past <:+ s.past →
      ∃ b, answer = .ok (.ofBytes a b) ∧ Remembered past a b) ∧
    (∀ a reading answer between r answer' past,
      .checksum a reading answer :: between ++ .checksum a (some r) answer' :: past <:+ s.past →
      (∀ reading answer, .checksum a reading answer ∉ between) →
      (.invalidate ∈ r.changes ∨ ∃ e, r.result = .error e) → reading ≠ none) ∧
    (∀ p past, .writeTemp none (.ok p) :: past <:+ s.past → Written past p) ∧
    (d.names.NeverTwice → ∀ reading p between r p' past,
      .writeTemp reading (.ok p) :: between ++ .writeTemp (some r) (.ok p') :: past <:+ s.past →
      .invalidate ∈ r.changes → p ≠ p') ∧
    (∀ e, .writeTemp none (.error e) ∈ s.past → ∃ dir f, e = .temporary dir f) ∧
    (∀ a r answer, .checksum a (some r) answer ∈ s.past → answer = r.result.map (.ofBytes a)) ∧
    (∀ r answer e, .writeTemp (some r) answer ∈ s.past → r.result = .error e →
      answer = .error e) := by
  have h : Traced.Of d.names.NeverTwice (afterAll es (start d content)) :=
    Traced.afterAll (Traced.start id) es
  generalize afterAll es (start d content) = s at h
  -- Every call of the run is explained by the calls before it.
  have hexplained : ∀ x ∈ s.past, ∃ past, Explained d.names.NeverTwice past x := by
    intro x hx
    obtain ⟨later, past, he⟩ := List.append_of_mem hx
    exact ⟨past, h.explained x past ⟨later, he.symm⟩⟩
  refine ⟨h.checksum, fun a answer past => h.explained _ _, ?_, fun p past => h.explained _ _, ?_,
    fun e he => ?_, fun a r answer hx => ?_, fun r answer e hx he => ?_⟩
  · -- An answer without a reading would come from one that has succeeded undisturbed.
    rintro a reading answer between r answer' past hs hother hr rfl
    obtain ⟨b, -, hb⟩ := h.explained _ _ hs
    obtain ⟨⟨hok, hquiet⟩, -⟩ := remembered_checksum.1 (hb.before hother)
    rcases hr with hr | ⟨e, he⟩
    · exact hquiet hr
    · cases hok.symm.trans he
  · rintro hd reading p between r p' past hs hr rfl
    have hmem :
        Entry.writeTemp (some r) (.ok p) ∈ between ++ .writeTemp (some r) (.ok p) :: past := by simp
    cases reading with
    | some reading => exact h.ne_of_written hd hs hmem rfl rfl
    | none =>
      obtain ⟨r', b, ⟨-, hquiet⟩, hsource⟩ := h.explained _ _ hs
      have hin : ∀ y ∈ between ++ .writeTemp (some r) (.ok p) :: past, y ∈ s.past :=
        fun y hy => hs.subset (List.mem_cons_of_mem _ hy)
      -- The path has been written from an undisturbed reading, and from no other one.
      have heq := h.eq_of_written hd (hin _ hsource.mem) (hin _ hmem) rfl rfl
      cases heq
      exact hquiet hr
  · obtain ⟨past, hx⟩ := hexplained _ he
    exact hx
  · obtain ⟨past, hx⟩ := hexplained _ hx
    exact hx
  · obtain ⟨past, hx⟩ := hexplained _ hx
    exact hx.1 e he

open MediaTypes in
/-- A cache is invalidated while content is read for a file. This file is not handed out again, the
one that is written after it is. -/
theorem stale_never_used_after_invalidation :
    let ask (after : List Change) : Event :=
      .writeTemp none none { before := [], fault := none, after }
    let s := afterAll [ask [.invalidate], ask [], ask []]
      (start (Disk.fresh ["work"] "tmp") "new".toUTF8)
    s.past.map (fun x => x.written?.map Disk.Path.text) =
      [none, some "/work/tmp/dprov-000001", some "/work/tmp/dprov-000000"] ∧
    ∀ reading p between r p' past,
      .writeTemp reading (.ok p) :: between ++ .writeTemp (some r) (.ok p') :: past <:+ s.past →
      .invalidate ∈ r.changes → p ≠ p' :=
  ⟨by decide +kernel, (stale_never_used _ _ _).2.2.2.2.1 Names.neverTwice_numbered⟩

end Depot.Readings
