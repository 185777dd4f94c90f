import Depot.Proofs.Disk.Locations
import Depot.Proofs.Element.Caches
/-!
# Who owns temporary files

Every file that a cache has made is remembered by it until it is gone, no file is remembered by two
caches, and what no cache has made no cache deletes. Two kinds of steps keep it so: those that make
no files, and the writing of one file under a name that the supply gives.
-/

namespace Depot.Caches

open Disk ContentCache

variable {ι : Type} {s s' : Caches ι} {d₀ d d' : Disk} {i j : ι} {l x : Location}
  {c c' : ContentCache} {p : Path}

/-! ### The invariant -/

/-- The name at a location has been used for a temporary file. -/
def NameUsed (d : Disk) (l : Location) : Prop := ∃ m name, d.names.Used name ∧ l = m ++ [name]

/-- What holds of caches that have started on the disk `d₀`. -/
structure Sound (d₀ : Disk) (s : Caches ι) : Prop where
  tree : s.disk.Tree
  names : s.disk.names.NeverTwice
  named : ∀ {i l}, l ∈ s.made i → NameUsed s.disk l
  plain : ∀ {i l}, l ∈ s.made i → ∀ q, s.disk.node? l ≠ some (.link q)
  /-- No file is made twice. -/
  single : ∀ {i j l}, l ∈ s.made i → l ∈ s.made j → i = j
  /-- What a cache remembers it has made. -/
  tracked : ∀ {i}, ∀ t ∈ (s.cache i).temps, ∃ l ∈ s.made i, s.disk.EndsAt t.path l
  /-- What a cache has made it remembers. -/
  owned : ∀ {i l}, l ∈ s.made i → s.disk.HoldsFile l →
    ∃ t ∈ (s.cache i).temps, s.disk.EndsAt t.path l
  origin : ∀ {l}, s.disk.HoldsFile l → d₀.HoldsFile l ∨ ∃ i, l ∈ s.made i
  initial : ∀ {l b}, d₀.node? l = some (.file b) →
    l ∈ s.lost ∨ s.disk.node? l = some (.file b) ∧ ∀ i, l ∉ s.made i

/-! ### Steps that make no files -/

/-- Directories have been made, files deleted and temporary files that are gone forgotten. -/
structure Shrinks (s s' : Caches ι) : Prop where
  ways : s.disk.KeepsWays s'.disk
  tree : s'.disk.Tree
  names : s'.disk.names = s.disk.names
  made : ∀ {i l}, l ∈ s'.made i ↔ l ∈ s.made i
  node : ∀ {l n}, s'.disk.node? l = some n → n ≠ .dir → s.disk.node? l = some n
  temps : ∀ i, ∀ t ∈ (s'.cache i).temps, t ∈ (s.cache i).temps
  forgotten : ∀ i, ∀ t ∈ (s.cache i).temps, t ∉ (s'.cache i).temps →
    ∀ {l}, s.disk.EndsAt t.path l → ¬ s'.disk.HoldsFile l
  files : ∀ {l b}, s.disk.node? l = some (.file b) →
    s'.disk.node? l = some (.file b) ∨ l ∈ s'.lost ∨ ∃ i, l ∈ s.made i
  lost : s.lost ⊆ s'.lost

theorem Sound.shrinks (h : Sound d₀ s) (hs : s.Shrinks s') : Sound d₀ s' where
  tree := hs.tree
  names := hs.names ▸ h.names
  named hl := by
    unfold NameUsed
    rw [hs.names]
    exact h.named (hs.made.1 hl)
  plain hl q hq := h.plain (hs.made.1 hl) q (hs.node hq nofun)
  single hl hl' := h.single (hs.made.1 hl) (hs.made.1 hl')
  tracked t ht := by
    obtain ⟨l, hl, he⟩ := h.tracked t (hs.temps _ t ht)
    exact ⟨l, hs.made.2 hl, he.mono hs.ways h.tree⟩
  owned := by
    rintro i l hl ⟨b, hb⟩
    obtain ⟨t, ht, he⟩ := h.owned (hs.made.1 hl) ⟨b, hs.node hb nofun⟩
    refine ⟨t, ?_, he.mono hs.ways h.tree⟩
    by_contra hnot
    exact hs.forgotten i t ht hnot he ⟨b, hb⟩
  origin := by
    rintro l ⟨b, hb⟩
    simpa only [hs.made] using h.origin ⟨b, hs.node hb nofun⟩
  initial hl := by
    simp only [hs.made]
    rcases h.initial hl with hlost | ⟨hb, hmade⟩
    · exact .inl (hs.lost hlost)
    · rcases hs.files hb with hb' | hlost | ⟨i, hi⟩
      · exact .inr ⟨hb', hmade⟩
      · exact .inl hlost
      · exact absurd hi (hmade i)

theorem names_deleteAll (temps : List TempFile) (d : Disk) :
    (deleteAll temps d).names = d.names := by
  induction temps generalizing d with
  | nil => rfl
  | cons t temps ih => rw [deleteAll_cons, ih, names_removeFile]

/-! ### The writing of a file -/

/-- A cache has made a file at `x`, under a name taken from the supply, and remembers it. -/
structure Writes (i : ι) (x : Location) (s s' : Caches ι) : Prop where
  same : s.disk.SameBut s'.disk x
  free : s.disk.node? x = none
  file : s'.disk.HoldsFile x
  name : ∃ m name, s.disk.names.Takes s'.disk.names name ∧ x = m ++ [name]
  temps : ∃ t, s.disk.EndsAt t.path x ∧ (s'.cache i).temps = (s.cache i).temps ++ [t]
  others : ∀ j, j ≠ i → s'.cache j = s.cache j
  made : ∀ {j l}, l ∈ s'.made j ↔ l ∈ s.made j ∨ j = i ∧ l = x
  lost : s'.lost = s.lost

/-- The name of the new file is none of those that have been used. -/
theorem Sound.fresh (h : Sound d₀ s) (hw : Writes i x s s') : x ∉ s.made j := by
  intro hx
  obtain ⟨m, name, htakes, rfl⟩ := hw.name
  obtain ⟨m', name', hused, heq⟩ := h.named hx
  cases List.singleton_inj.1 (List.append_inj' heq rfl).2
  exact h.names.fresh htakes hused

theorem Writes.extends (hw : Writes i x s s') : s.disk.Extends s'.disk := hw.same.fills hw.free

theorem Writes.holdsFile (hw : Writes i x s s') (hl : s'.disk.HoldsFile l) (hne : l ≠ x) :
    s.disk.HoldsFile l := by
  obtain ⟨b, hb⟩ := hl
  exact ⟨b, by rw [← hw.same.node hne, hb]⟩

theorem Writes.mem_temps (hw : Writes i x s s') {t : TempFile} (ht : t ∈ (s.cache j).temps) :
    t ∈ (s'.cache j).temps := by
  obtain ⟨t', -, htemps⟩ := hw.temps
  by_cases hj : j = i
  · subst hj
    rw [htemps]
    exact List.mem_append_left _ ht
  · rwa [hw.others j hj]

theorem Sound.writes (h : Sound d₀ s) (hw : Writes i x s s') : Sound d₀ s' := by
  have hways := hw.extends.keepsWays
  obtain ⟨t, ht, htemps⟩ := hw.temps
  constructor
  case tree =>
    obtain ⟨-, m, n, he, rfl⟩ := ht
    exact h.tree.changed hw.same (he.dir h.tree) (by simp [hw.free])
  case names =>
    obtain ⟨_, _, htakes, -⟩ := hw.name
    exact htakes.continues.neverTwice h.names
  case named =>
    intro j l hl
    -- The name of the new file is taken by now, and those of the others have stayed so.
    obtain ⟨m, name, htakes, hx⟩ := hw.name
    rcases hw.made.1 hl with hl | ⟨-, rfl⟩
    · obtain ⟨m', name', hused, rfl⟩ := h.named hl
      exact ⟨m', name', htakes.continues.mono hused, rfl⟩
    · exact ⟨m, name, htakes.used, hx⟩
  case plain =>
    intro j l hl q hq
    rcases hw.made.1 hl with hl | ⟨-, rfl⟩
    · have hne : l ≠ x := fun heq => h.fresh hw (heq ▸ hl)
      exact h.plain hl q (by rw [← hw.same.node hne, hq])
    · obtain ⟨b, hb⟩ := hw.file
      rw [hb] at hq
      cases hq
  case single =>
    -- Two caches cannot have made the new file, as its name was free.
    intro j k l hj hk
    rcases hw.made.1 hj with hj | ⟨rfl, rfl⟩ <;> rcases hw.made.1 hk with hk | ⟨rfl, hk⟩
    · exact h.single hj hk
    · exact absurd (hk ▸ hj) (h.fresh hw)
    · exact absurd hk (h.fresh hw)
    · rfl
  case tracked =>
    intro j t' ht'
    -- Only the cache that has made the file remembers more than before.
    by_cases hj : j = i
    · subst hj
      rw [htemps] at ht'
      rcases List.mem_append.1 ht' with ht' | ht'
      · obtain ⟨l, hl, he⟩ := h.tracked t' ht'
        exact ⟨l, hw.made.2 (.inl hl), he.mono hways h.tree⟩
      · rw [List.mem_singleton.1 ht']
        exact ⟨x, hw.made.2 (.inr ⟨rfl, rfl⟩), ht.mono hways h.tree⟩
    · rw [hw.others j hj] at ht'
      obtain ⟨l, hl, he⟩ := h.tracked t' ht'
      exact ⟨l, hw.made.2 (.inl hl), he.mono hways h.tree⟩
  case owned =>
    intro j l hl hfile
    rcases hw.made.1 hl with hl | ⟨rfl, rfl⟩
    · have hne : l ≠ x := fun heq => h.fresh hw (heq ▸ hl)
      obtain ⟨t', ht', he⟩ := h.owned hl (hw.holdsFile hfile hne)
      exact ⟨t', hw.mem_temps ht', he.mono hways h.tree⟩
    · refine ⟨t, ?_, ht.mono hways h.tree⟩
      rw [htemps]
      exact List.mem_append_right _ (List.mem_singleton_self t)
  case origin =>
    intro l hfile
    by_cases hne : l = x
    · exact .inr ⟨i, hw.made.2 (.inr ⟨rfl, hne⟩)⟩
    · rcases h.origin (hw.holdsFile hfile hne) with h₀ | ⟨j, hj⟩
      · exact .inl h₀
      · exact .inr ⟨j, hw.made.2 (.inl hj)⟩
  case initial =>
    intro l b hb
    -- Nothing that was there from the beginning is overwritten, as the place was free.
    rw [hw.lost]
    rcases h.initial hb with hlost | ⟨hb', hmade⟩
    · exact .inl hlost
    · refine .inr ⟨hw.extends.node hb', fun j hj => ?_⟩
      rcases hw.made.1 hj with hj | ⟨-, rfl⟩
      · exact hmade j hj
      · rw [hw.free] at hb'
        cases hb'

/-! ### A cache at work -/

variable [DecidableEq ι]

@[simp] theorem disk_put (s : Caches ι) (i : ι) (c : ContentCache) (d : Disk) :
    (s.put i c d).disk = d := rfl

@[simp] theorem cache_put_self (s : Caches ι) (i : ι) (c : ContentCache) (d : Disk) :
    (s.put i c d).cache i = c := Function.update_self ..

theorem cache_put_of_ne (h : j ≠ i) (s : Caches ι) (c : ContentCache) (d : Disk) :
    (s.put i c d).cache j = s.cache j := Function.update_of_ne h ..

theorem mem_made_put : l ∈ (s.put i c d).made j ↔
    l ∈ s.made j ∨ j = i ∧ d.HoldsFile l ∧ ¬ s.disk.HoldsFile l := by
  by_cases hj : j = i
  · subst hj
    simp [put]
  · simp [put, hj]

/-- A cache that has done nothing. -/
theorem put_self (s : Caches ι) (i : ι) : s.put i (s.cache i) s.disk = s := by
  have hmade : s.made i ∪ {l | s.disk.HoldsFile l ∧ ¬ s.disk.HoldsFile l} = s.made i := by
    ext l
    simp
  unfold put
  rw [hmade, Function.update_eq_self, Function.update_eq_self]

/-- While a cache is at work, what has become of it and of the disk keeps everything right, and no
file is gone since it began. -/
structure Fits (d₀ : Disk) (s : Caches ι) (i : ι) (c : ContentCache) (d : Disk) : Prop where
  sound : Sound d₀ (s.put i c d)
  kept : ∀ {l}, s.disk.HoldsFile l → d.HoldsFile l

theorem Sound.fits (h : Sound d₀ s) (i : ι) : Fits d₀ s i (s.cache i) s.disk :=
  ⟨by rwa [put_self], id⟩

/-- Making directories makes no files. -/
theorem Fits.built (h : Fits d₀ s i c d) (hb : d.Built d') : Fits d₀ s i c d' := by
  have hfile (l : Location) : d'.HoldsFile l ↔ d.HoldsFile l :=
    exists_congr fun b => hb.node?_file
  have hshrinks : (s.put i c d).Shrinks (s.put i c d') := {
    ways := hb.toExtends.keepsWays
    tree := hb.tree h.sound.tree
    names := hb.names_eq
    made := by simp [mem_made_put, hfile]
    node := fun {l n} hn hdir => by
      rw [disk_put] at hn ⊢
      rwa [hb.node?_eq (by simpa [hn] using hdir)]
    temps := fun _ _ => id
    forgotten := fun _ _ ht hnot => absurd ht hnot
    files := fun hb' => .inl (hb.toExtends.node hb')
    lost := subset_rfl }
  exact ⟨h.sound.shrinks hshrinks, fun hl => (hfile _).2 (h.kept hl)⟩

/-- Temporary files may be forgotten that are gone. -/
theorem Fits.forget (h : Fits d₀ s i c d) (htemps : ∀ t ∈ c'.temps, t ∈ c.temps)
    (hgone : ∀ t ∈ c.temps, t ∉ c'.temps → ∀ {l}, d.EndsAt t.path l → ¬ d.HoldsFile l) :
    Fits d₀ s i c' d := by
  have hshrinks : (s.put i c d).Shrinks (s.put i c' d) := {
    ways := .refl d
    tree := h.sound.tree
    names := rfl
    made := by simp [mem_made_put]
    node := fun hn _ => hn
    temps := fun j => by
      by_cases hj : j = i
      · subst hj
        simpa using htemps
      · simp [cache_put_of_ne hj]
    forgotten := fun j => by
      by_cases hj : j = i
      · subst hj
        simpa only [cache_put_self, disk_put] using hgone
      · simpa [cache_put_of_ne hj] using fun t ht hnot => absurd ht hnot
    files := .inl
    lost := subset_rfl }
  exact ⟨h.sound.shrinks hshrinks, h.kept⟩

/-- A new temporary file is made by the cache and remembered. -/
theorem Fits.write {dir : Path} {suffix : String} {content : Bytes} (h : Fits d₀ s i c d)
    (hsuffix : IsSuffix suffix) (hw : Disk.writeTemp dir suffix content d = (.ok p, d'))
    (generation : Nat) : Fits d₀ s i (c.track { generation, path := p }) d' := by
  have htree : d.Tree := h.sound.tree
  obtain ⟨m, name, he, htr, hfree, hsame, hfile⟩ := writeTemp_eq_ok htree hw
  obtain ⟨_, htakes, rfl⟩ := writeTemp_name hsuffix hw
  obtain rfl := he.name_of_join
  have hnew (l : Location) : d'.HoldsFile l ↔ d.HoldsFile l ∨ l = m ++ [name] := by
    by_cases hl : l = m ++ [name]
    · exact ⟨fun _ => .inr hl, fun _ => ⟨content, hl ▸ hfile⟩⟩
    · unfold HoldsFile
      rw [hsame.node hl, or_iff_left hl]
  -- Nothing stood there when the call began, as what stood there then still does.
  have hbefore : ¬ s.disk.HoldsFile (m ++ [name]) := by
    intro hl
    obtain ⟨b, hb⟩ := h.kept hl
    rw [hfree] at hb
    cases hb
  have hwrites : Writes i (m ++ [name]) (s.put i c d)
      (s.put i (c.track { generation, path := dir.join (name) }) d') := {
    same := hsame
    free := hfree
    file := ⟨content, hfile⟩
    name := ⟨m, name, htakes, rfl⟩
    temps := ⟨{ generation, path := dir.join (name) }, ⟨htr, m, _, he, rfl⟩,
      by simp [track]⟩
    others := fun j hj => by rw [cache_put_of_ne hj, cache_put_of_ne hj]
    made := fun {j l} => by
      rw [mem_made_put, mem_made_put, hnew]
      constructor
      · rintro (hl | ⟨hj, hl | rfl, hnot⟩)
        · exact .inl (.inl hl)
        · exact .inl (.inr ⟨hj, hl, hnot⟩)
        · exact .inr ⟨hj, rfl⟩
      · rintro ((hl | ⟨hj, hl, hnot⟩) | ⟨hj, rfl⟩)
        · exact .inl hl
        · exact .inr ⟨hj, .inl hl, hnot⟩
        · exact .inr ⟨hj, .inr rfl, hbefore⟩
    lost := rfl }
  exact ⟨h.sound.writes hwrites, fun hl => (hnew _).2 (.inl (h.kept hl))⟩

end Depot.Caches
