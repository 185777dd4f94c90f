import Depot.MediaType.Common
import Depot.Proofs.Element.Ownership
/-!
# Temporary files in every state

Whatever happens to caches on one disk, every temporary file that is still there is remembered by
the cache that has made it, and by no other. Only this cache deletes it, and it deletes nothing
else.
-/

namespace Depot.Caches

open Disk ContentCache

variable {ι : Type} {s : Caches ι} {d₀ d : Disk} {i j : ι} {l : Location} {c : ContentCache}

/-! ### Deleting -/

/-- A tracked path of a cache leads to a file at a location. -/
def Tracks (s : Caches ι) (i : ι) (l : Location) : Prop :=
  s.disk.HoldsFile l ∧ ∃ t ∈ (s.cache i).temps, s.disk.locate t.path = .ok l

theorem Sound.deletes_iff (h : Sound d₀ s) :
    Deletes (s.cache i).temps s.disk l ↔ s.Tracks i l := by
  unfold Deletes Tracks
  refine and_congr_right fun hl => ?_
  obtain ⟨b, hb⟩ := hl
  constructor
  · rintro ⟨t, ht, he⟩
    exact ⟨t, ht, (he.locate_iff (by simp [hb])).2 ⟨rfl, by simp [hb]⟩⟩
  · rintro ⟨t, ht, hloc⟩
    obtain ⟨l', hl', he⟩ := h.tracked t ht
    obtain ⟨rfl, -⟩ := (he.locate_iff (h.plain hl')).1 hloc
    exact ⟨t, ht, he⟩

/-- The temporary files of a cache are deleted: exactly the files that it tracks. -/
theorem Sound.deleteAll_exact (h : Sound d₀ s) (i : ι) :
    s.disk.KeepsWays (deleteAll (s.cache i).temps s.disk) ∧ ∀ l,
      (s.Tracks i l → (deleteAll (s.cache i).temps s.disk).node? l = none) ∧
      (¬ s.Tracks i l → (deleteAll (s.cache i).temps s.disk).node? l = s.disk.node? l) := by
  have hends : ∀ t ∈ (s.cache i).temps, ∃ l, s.disk.EndsAt t.path l ∧
      ∀ q, s.disk.node? l ≠ some (.link q) := by
    intro t ht
    obtain ⟨l, hl, he⟩ := h.tracked t ht
    exact ⟨l, he, h.plain hl⟩
  simpa only [h.deletes_iff] using ContentCache.deleteAll_exact h.tree hends

variable [DecidableEq ι]

/-! ### What one cache does -/

section

variable {τ : Type} {f : τ → Caches ι} {read : Scene.Action τ ElementError Bytes} {s : Scene τ}

/-- Forgetting what is gone. -/
theorem Fits.pruned {s : Caches ι} (h : Fits d₀ s i c d) : Fits d₀ s i (c.prune d) d := by
  refine h.forget (fun t ht => (List.mem_filter.1 ht).1) fun t ht hnot l he => ?_
  rintro ⟨b, hb⟩
  refine hnot (List.mem_filter.2 ⟨ht, exists?_eq_true.2 ⟨_, stat_eq_ok.2 ⟨l, ?_, hb⟩⟩⟩)
  exact (he.locate_iff (by simp [hb])).2 ⟨rfl, by simp [hb]⟩

/-- Handing out a temporary file keeps everything right if reading the content does. -/
theorem Fits.writeTemp [MediaTypes] (dir type : Option String)
    (hread : ∀ s, Fits d₀ (f s.around) i s.cache s.disk →
      Fits d₀ (f (read s).2.around) i (read s).2.cache (read s).2.disk)
    (h : Fits d₀ (f s.around) i s.cache s.disk) :
    Fits d₀ (f (Scene.writeTemp dir type read s).2.around) i
      (Scene.writeTemp dir type read s).2.cache (Scene.writeTemp dir type read s).2.disk := by
  obtain ⟨d, hs', hb, -⟩ := Element.enterDirs_built (s := s) h.sound.tree dir
  have hentered := h.built hb
  rw [Scene.writeTemp_apply]
  rcases hr : (dir.mapM Scene.enterDir : Scene.Action τ ElementError _) s with ⟨e | dir', s'⟩
  · rw [hr] at hs'
    cases hs'
    exact hentered
  rw [hr] at hs'
  cases hs'
  have hpruned := hentered.pruned
  dsimp only
  cases (Scene.pruned { s with disk := d }).cache.current? dir' with
  | some t => exact hpruned
  | none =>
    -- Reading may change everything, so what is known afterwards is what it keeps right.
    have hafter := hread (Scene.pruned { s with disk := d }) hpruned
    dsimp only
    rcases hr' : read (Scene.pruned { s with disk := d }) with ⟨e | b, s''⟩
    · rwa [hr'] at hafter
    rw [hr'] at hafter
    dsimp only at hafter ⊢
    rcases hw : Disk.writeTemp _ _ b s''.disk with ⟨f | p, d'⟩
    · rw [writeTemp_eq_error hw]
      exact hafter
    · exact hafter.write (isSuffix_of_type type) hw _

/-- So does giving a checksum. -/
theorem Fits.checksum (a : Algorithm)
    (hread : ∀ s, Fits d₀ (f s.around) i s.cache s.disk →
      Fits d₀ (f (read s).2.around) i (read s).2.cache (read s).2.disk)
    (h : Fits d₀ (f s.around) i s.cache s.disk) :
    Fits d₀ (f (Scene.checksum a read s).2.around) i (Scene.checksum a read s).2.cache
      (Scene.checksum a read s).2.disk := by
  rw [Scene.checksum_apply]
  cases s.cache.checksum? a with
  | some k => exact h
  | none =>
    have hafter := hread s h
    dsimp only
    rcases hr : read s with ⟨e | b, s'⟩
    · rwa [hr] at hafter
    · rw [hr] at hafter
      have htemps : (s'.cache.rememberSince s.cache.generation (.ofBytes a b)).temps =
          s'.cache.temps := by
        unfold rememberSince
        split <;> rfl
      exact hafter.forget (by simp [htemps]) fun t ht hnot => absurd (htemps ▸ ht) hnot

end

/-- What a cache does keeps everything right if every step of it does. -/
theorem Sound.perform {α : Type} {x : Scene.Action (Caches ι) ElementError α} (h : Sound d₀ s)
    (hx : ∀ s, Fits d₀ s.around i s.cache s.disk →
      Fits d₀ (x s).2.around i (x s).2.cache (x s).2.disk) : Sound d₀ (perform i x s) :=
  (hx (s.scene i) (h.fits i)).sound

/-- Reading content for a cache keeps everything right if what happens in the meantime does. -/
theorem Fits.reading {meanwhile : Caches ι → Caches ι}
    (hmeanwhile : ∀ s, Sound d₀ s → Sound d₀ (meanwhile s)) (content : Except ElementError Bytes)
    (s : Scene (Caches ι)) (h : Fits d₀ s.around i s.cache s.disk) :
    Fits d₀ (Caches.reading i meanwhile content s).2.around i
      (Caches.reading i meanwhile content s).2.cache
      (Caches.reading i meanwhile content s).2.disk :=
  (hmeanwhile _ h.sound).fits i

/-! ### Events -/

/-- A cache that deletes its temporary files and remembers none. -/
theorem Sound.emptied (h : Sound d₀ s) (i : ι) (hc : c.temps = []) :
    Sound d₀ (s.put i c (deleteAll (s.cache i).temps s.disk)) := by
  obtain ⟨hways, hnode⟩ := h.deleteAll_exact i
  -- What there is after the deletion has been there before.
  have hsame {l : Location} {n : Node}
      (hn : (deleteAll (s.cache i).temps s.disk).node? l = some n) : s.disk.node? l = some n := by
    by_cases hl : s.Tracks i l
    · rw [(hnode l).1 hl] at hn
      cases hn
    · rwa [← (hnode l).2 hl]
  have hfile {l : Location} (hl : (deleteAll (s.cache i).temps s.disk).HoldsFile l) :
      s.disk.HoldsFile l := by
    obtain ⟨b, hb⟩ := hl
    exact ⟨b, hsame hb⟩
  refine h.shrinks {
    ways := hways
    tree := deleteAll_tree h.tree
    names := names_deleteAll _ _
    made := fun {j l} => ?_
    node := fun hn _ => hsame hn
    temps := fun j => ?_
    forgotten := fun j t ht hnot l he hl => ?_
    files := fun {l b} hb => ?_
    lost := subset_rfl }
  · -- No file is new.
    rw [mem_made_put]
    exact or_iff_left fun ⟨_, hl, hnot⟩ => hnot (hfile hl)
  · by_cases hj : j = i
    · subst hj
      simp [hc]
    · simp [cache_put_of_ne hj]
  · -- A path that is forgotten led to a file that is gone.
    by_cases hj : j = i
    · subst hj
      obtain ⟨b, hb⟩ := hl
      rw [disk_put, (hnode l).1 (h.deletes_iff.1 ⟨hfile ⟨b, hb⟩, t, ht, he⟩)] at hb
      cases hb
    · exact hnot (by rwa [cache_put_of_ne hj])
  · -- A file that is gone has been made by the cache.
    by_cases hl : s.Tracks i l
    · obtain ⟨-, t, ht, he⟩ := h.deletes_iff.2 hl
      obtain ⟨l', hl', he'⟩ := h.tracked t ht
      exact .inr (.inr ⟨i, he.unique he' ▸ hl'⟩)
    · exact .inl ((hnode l).2 hl ▸ hb)

/-- A file that somebody else deletes. -/
theorem Sound.lose [MediaTypes] (h : Sound d₀ s) (l : Location) :
    Sound d₀ ((Event.lose l).after s) := by
  rw [Event.after]
  dsimp only
  split
  · next b hb =>
    have hfile : s.disk.HoldsFile l := ⟨b, hb⟩
    have hnode (x : Location) : (s.disk.drop l).node? x = if x = l then none else s.disk.node? x :=
      node?_drop hfile.ne_nil
    refine h.shrinks {
      ways := hfile.keepsWays_drop
      tree := hfile.tree_drop h.tree
      names := rfl
      made := .rfl
      node := fun {x n} hn _ => ?_
      temps := fun _ _ => id
      forgotten := fun _ _ ht hnot => absurd ht hnot
      files := fun {x b'} hb' => ?_
      lost := Set.subset_insert l s.lost }
    · rw [hnode] at hn
      split at hn
      · cases hn
      · exact hn
    · by_cases hx : x = l
      · exact .inr (.inl (hx ▸ Set.mem_insert l s.lost))
      · exact .inl (by rw [hnode, if_neg hx, hb'])
  · exact h

/-- An element that hands out a file. -/
theorem Sound.handOut [MediaTypes] (h : Sound d₀ s) (i : ι) (source : Source)
    (backends : List Backend) (dir : Option String) :
    Sound d₀ ((Event.handOut i source backends dir).after s) := by
  have hfits := h.fits i
  rw [Event.after]
  dsimp only
  rcases Element.writeTemp_cases dir
      { cache := s.cache i, disk := s.disk, around := { source, backends } }
    with hw | ⟨path, type, readOnly, -, hw⟩ | ⟨e, hw⟩
  · rw [hw, Element.writeTempFile_apply]
    exact (Fits.writeTemp (f := fun _ => s) dir _ (fun _ hs => hs) hfits).sound
  · rw [hw, Element.ownFile_apply]
    exact hfits.sound
  · rw [hw]
    exact hfits.sound

mutual

/-- Every event keeps everything right. -/
theorem Sound.after [MediaTypes] {s : Caches ι} (h : Sound d₀ s) (e : Event ι) :
    Sound d₀ (e.after s) := by
  match e with
  | .writeTemp i dir type es content =>
    have hread := Fits.reading (i := i) (fun _ hs => Sound.afterAll hs es) content
    rw [Event.after]
    exact h.perform fun _ hs => Fits.writeTemp (f := id) dir type hread hs
  | .checksum i a es content =>
    have hread := Fits.reading (i := i) (fun _ hs => Sound.afterAll hs es) content
    rw [Event.after]
    exact h.perform fun _ hs => Fits.checksum (f := id) a hread hs
  | .handOut i source backends dir => exact h.handOut i source backends dir
  | .invalidate i =>
    rw [after_invalidate]
    exact h.emptied i rfl
  | .drop i =>
    rw [after_drop]
    exact h.emptied i rfl
  | .lose l => exact h.lose l

theorem Sound.afterAll [MediaTypes] {s : Caches ι} (h : Sound d₀ s) (es : List (Event ι)) :
    Sound d₀ (afterAll es s) := by
  match es with
  | [] => exact h
  | e :: es =>
    rw [Caches.afterAll]
    exact (h.after e).afterAll es

end

omit [DecidableEq ι] in
/-- New caches remember nothing. -/
theorem sound_start (ht : d.Tree) (hnames : d.names.NeverTwice) :
    Sound d (start d : Caches ι) where
  tree := ht
  names := hnames
  named := nofun
  plain := nofun
  single := nofun
  tracked := nofun
  owned := nofun
  origin := .inl
  initial hb := .inr ⟨hb, fun _ => nofun⟩

/-! ### All states -/

/-- A call that fails remembers nothing itself: the cache is as it was, or as reading the content
has left it, which began when nothing but files that are gone had been forgotten. -/
theorem cache_of_writeTemp_error [MediaTypes] {τ : Type} {dir type : Option String}
    {read : Scene.Action τ ElementError Bytes} {s : Scene τ} {e : ElementError}
    (h : (Scene.writeTemp dir type read s).1 = .error e) :
    (Scene.writeTemp dir type read s).2.cache = s.cache ∨
      ∃ d, (s.cache.prune d).temps ⊆ s.cache.temps ∧
        (Scene.writeTemp dir type read s).2.cache =
          (read { s with cache := s.cache.prune d, disk := d }).2.cache := by
  have hs' := Scene.enterDirs_disk dir s
  generalize dir.elim s.disk _ = d at hs'
  rw [Scene.writeTemp_apply] at h ⊢
  rcases hr : (dir.mapM Scene.enterDir : Scene.Action τ ElementError _) s with ⟨e' | dir', s'⟩
  · rw [hr] at hs'
    cases hs'
    exact .inl rfl
  rw [hr] at h hs'
  cases hs'
  dsimp only at h ⊢
  cases hc : (Scene.pruned { s with disk := d }).cache.current? dir' with
  | some t =>
    rw [hc] at h
    cases h
  | none =>
    rw [hc] at h
    refine .inr ⟨d, List.filter_subset_self _, ?_⟩
    dsimp only [Scene.pruned] at h ⊢
    rcases hread : read { s with cache := s.cache.prune d, disk := d } with ⟨e' | b, s''⟩
    · rfl
    rw [hread] at h
    dsimp only at h ⊢
    rcases hw : Disk.writeTemp (dir'.getD d.tempDir) (type.elim "" MediaType.suffix) b
      s''.disk with ⟨f | p, d'⟩
    · rfl
    · rw [hw] at h
      cases h

/-- In every state that caches on one disk can get into if no temporary file is given a name for the
second time: a file that is there has been made by a cache exactly if a tracked path of the cache
leads to it, and no path is tracked by two caches; every file has been there from the beginning or
made by a cache, and what has been there from the beginning is still there as it was, made by no
cache, unless somebody else has deleted it. Invalidating a cache and dropping it deletes the files
that it tracks and nothing else. And a request for a temporary file that fails adds nothing to what
is tracked but what has been added while the content was read. -/
theorem exclusively_owned [MediaTypes] (ht : d.Tree) (hnames : d.names.NeverTwice)
    (es : List (Event ι)) :
    let s := afterAll es (start d : Caches ι)
    (∀ i l, s.disk.HoldsFile l →
      (l ∈ s.made i ↔ ∃ t ∈ (s.cache i).temps, s.disk.locate t.path = .ok l)) ∧
    (∀ i j, i ≠ j → ∀ t ∈ (s.cache i).temps, ∀ t' ∈ (s.cache j).temps, t.path ≠ t'.path) ∧
    (∀ l, s.disk.HoldsFile l → d.HoldsFile l ∨ ∃ i, l ∈ s.made i) ∧
    (∀ l b, d.node? l = some (.file b) →
      l ∈ s.lost ∨ s.disk.node? l = some (.file b) ∧ ∀ i, l ∉ s.made i) ∧
    (∀ i, ∀ e ∈ [Event.invalidate i, Event.drop i],
      ((e.after s).cache i).temps = [] ∧ (∀ j, j ≠ i → (e.after s).cache j = s.cache j) ∧
      ∀ l, (s.Tracks i l → (e.after s).disk.node? l = none) ∧
        (¬ s.Tracks i l → (e.after s).disk.node? l = s.disk.node? l)) ∧
    (∀ (dir type : Option String) (read : Scene.Action (Caches ι) ElementError Bytes)
      (s : Scene (Caches ι)) (e : ElementError), (Scene.writeTemp dir type read s).1 = .error e →
        (Scene.writeTemp dir type read s).2.cache = s.cache ∨
          ∃ d, (s.cache.prune d).temps ⊆ s.cache.temps ∧
            (Scene.writeTemp dir type read s).2.cache =
              (read { s with cache := s.cache.prune d, disk := d }).2.cache) := by
  have h : Sound d (afterAll es (start d : Caches ι)) := (sound_start ht hnames).afterAll es
  generalize afterAll es (start d : Caches ι) = s at h
  refine ⟨fun i l hl => ?_, fun i j hij t ht t' ht' heq => ?_, fun l => h.origin,
    fun l b => h.initial, fun i e he => ?_, fun _ _ _ _ _ => cache_of_writeTemp_error⟩
  · -- A tracked path leads to a file of the cache, and each of its files has one.
    have htracks : s.Tracks i l ↔ l ∈ s.made i := by
      rw [← h.deletes_iff]
      constructor
      · rintro ⟨-, t, ht, he⟩
        obtain ⟨l', hl', he'⟩ := h.tracked t ht
        rwa [he.unique he']
      · exact fun hmade => ⟨hl, h.owned hmade hl⟩
    rw [← htracks]
    exact and_iff_right hl
  · -- Where two paths are the same, they lead to one file, which has been made by one cache.
    obtain ⟨l, hl, he⟩ := h.tracked t ht
    obtain ⟨l', hl', he'⟩ := h.tracked t' ht'
    rw [heq] at he
    rw [he.unique he'] at hl
    exact hij (h.single hl hl')
  · obtain ⟨-, hdelete⟩ := h.deleteAll_exact i
    simp only [List.mem_cons, List.not_mem_nil, or_false] at he
    rcases he with rfl | rfl
    · rw [after_invalidate]
      exact ⟨by rw [cache_put_self]; rfl, fun j hj => cache_put_of_ne hj .., hdelete⟩
    · rw [after_drop]
      exact ⟨by rw [cache_put_self]; rfl, fun j hj => cache_put_of_ne hj .., hdelete⟩

open MediaTypes in
/-- A cache is invalidated while content is read for it, the file that it gets then is lost, and it
makes another one. Each cache has the file that it has made last. -/
theorem exclusively_owned_after_loss :
    let s := afterAll
      [.writeTemp 0 none none [.invalidate 0] (.ok "old".toUTF8),
        .writeTemp 1 (some "a") (some "text/css") [] (.ok "other".toUTF8),
        .lose ["work", "tmp", "dprov-000000"], .writeTemp 0 none none [] (.ok "new".toUTF8)]
      (start (Disk.fresh ["work"] "tmp") : Caches Nat)
    (s.cache 0).temps.map (·.path.text) = ["/work/tmp/dprov-000002"] ∧
    (s.cache 1).temps.map (·.path.text) = ["/work/a/dprov-000001.css"] ∧
    ∀ i l, s.disk.HoldsFile l →
      (l ∈ s.made i ↔ ∃ t ∈ (s.cache i).temps, s.disk.locate t.path = .ok l) :=
  ⟨by decide +kernel, by decide +kernel,
    (exclusively_owned tree_fresh Names.neverTwice_numbered _).1⟩

end Depot.Caches
