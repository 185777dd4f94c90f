import Depot.Proofs.Disk.Deleting
import Depot.Proofs.Set.TreeRuns
/-!
# Removals that fail

Deleting a file may fail for reasons that no disk shows. A removal that stops at such a file has
deleted what the paths after it lead to and nothing else, and leaves an entry with the paths up to
it, the one at which it stopped last. So the key can be removed later. Where links give one
directory two names, a path that stays in the entry may lead to a file that has been deleted under
its other name.
-/

namespace Depot.TreeSet

variable {p : Plugins} {w w' : World} {l m root : Disk.Location} {ls : List Disk.Location}
  {b : Bytes} {r : ElementRef} {rs : List ElementRef} {k : ElementKey} {e : TreeEntry}
  {d d' : Disk} {s s' : InWorld TreeSet} {t : TreeSet} {q x : String} {chunk : Nat}
  {f : Disk.Fault} {delete : Deletion} {entries : Dict ElementKey TreeEntry}

/-! ### Deletions -/

/-- A way of deleting a file that deletes it from the disk or finds it missing there, unless it
fails for another reason. -/
def Deletion.Fallible (delete : Deletion) : Prop :=
  ∀ d l, delete d l = deleteFile d l ∨ ∃ f, f ≠ .notFound ∧ delete d l = .error f

/-- Files are deleted one after the other; those that are missing are passed over. -/
inductive Deletes (delete : Deletion) : Disk → List Disk.Location → Disk → Prop
  | done {d : Disk} : Deletes delete d [] d
  | deleted {d d₁ d' : Disk} {l : Disk.Location} {ls : List Disk.Location}
      (hl : delete d l = .ok d₁) (h : Deletes delete d₁ ls d') : Deletes delete d (l :: ls) d'
  | missing {d d' : Disk} {l : Disk.Location} {ls : List Disk.Location}
      (hl : delete d l = .error .notFound) (h : Deletes delete d ls d') :
      Deletes delete d (l :: ls) d'

namespace Deletion.Fallible

theorem of_ok (h : delete.Fallible) (hl : delete d l = .ok d') : deleteFile d l = .ok d' := by
  rcases h d l with hd | ⟨f, -, hf⟩
  · rw [← hd, hl]
  · rw [hl] at hf
    cases hf

theorem of_notFound (h : delete.Fallible) (hl : delete d l = .error .notFound) :
    deleteFile d l = .error .notFound := by
  rcases h d l with hd | ⟨f, hne, hf⟩
  · rw [← hd, hl]
  · rw [hl] at hf
    cases hf
    exact absurd rfl hne

end Deletion.Fallible

namespace Deletes

theorem sound (h : Deletes delete d ls d') (hf : delete.Fallible) (hd : d.Sound) : d'.Sound := by
  induction h with
  | done => exact hd
  | deleted hl _ ih => exact ih (hd.removeFile (hf.of_ok hl))
  | missing _ _ ih => exact ih hd

theorem cleared (h : Deletes delete d ls d') (hf : delete.Fallible) (ht : d.Tree) :
    d.Cleared d' ls := by
  induction h with
  | done => exact .refl _
  | deleted hl _ ih =>
    have hok := hf.of_ok hl
    exact .deleted ht hok (ih (Disk.tree_of_removeFile ht hok))
  | missing hl _ ih => exact (ih ht).missing (Disk.gone_of_notFound (hf.of_notFound hl))

theorem deleteBack (h : Deletes delete d ls d') : deleteBack delete d ls = (d', none, []) := by
  induction h with
  | done => rfl
  | deleted hl _ ih =>
    rw [TreeSet.deleteBack, hl]
    exact ih
  | missing hl _ ih =>
    rw [TreeSet.deleteBack, hl]
    exact ih

end Deletes

/-- All files of a reversed list are deleted, or all up to one that cannot be. -/
theorem deleteBack_cases (delete : Deletion) (ls : List Disk.Location) (d : Disk) :
    (∃ d', deleteBack delete d ls = (d', none, []) ∧ Deletes delete d ls d') ∨
      ∃ gone p left d' f, deleteBack delete d ls = (d', some (p, f), p :: left) ∧
        ls = gone ++ p :: left ∧ Deletes delete d gone d' ∧ delete d' p = .error f ∧
        f ≠ .notFound := by
  induction ls generalizing d with
  | nil => exact .inl ⟨d, rfl, .done⟩
  | cons l ls ih =>
    unfold deleteBack
    split
    · next d₁ hl =>
      rcases ih d₁ with ⟨d', h, hd⟩ | ⟨gone, p, left, d', f, h, rfl, hd, hp⟩
      · exact .inl ⟨d', h, .deleted hl hd⟩
      · exact .inr ⟨l :: gone, p, left, d', f, h, rfl, .deleted hl hd, hp⟩
    · next hl =>
      rcases ih d with ⟨d', h, hd⟩ | ⟨gone, p, left, d', f, h, rfl, hd, hp⟩
      · exact .inl ⟨d', h, .missing hl hd⟩
      · exact .inr ⟨l :: gone, p, left, d', f, h, rfl, .missing hl hd, hp⟩
    · next f hne hl =>
      refine .inr ⟨[], l, ls, d, f, rfl, rfl, .done, hl, ?_⟩
      rintro rfl
      exact hne rfl

/-- What removing a key comes to: the key is not there, or all files of its entry are deleted from
the last to the first, or the files after one that cannot be deleted are. -/
inductive Removes (delete : Deletion) (k : ElementKey) (s : InWorld TreeSet) :
    Except SetError Unit × InWorld TreeSet → Prop
  | absent (he : s.set.entries.get? k = none) : Removes delete k s (.error (.keyNotFound k), s)
  | removed {e : TreeEntry} {d : Disk} (he : s.set.entries.get? k = some e)
      (hd : Deletes delete s.world.disk e.paths.reverse d) :
      Removes delete k s (.ok (),
        { set := { s.set with entries := s.set.entries.erase k }
          world := { s.world with disk := d } })
  | stopped {e : TreeEntry} {kept gone : List Disk.Location} {p : Disk.Location} {d : Disk}
      {f : Disk.Fault} (he : s.set.entries.get? k = some e) (hp : e.paths = kept ++ p :: gone)
      (hd : Deletes delete s.world.disk gone.reverse d) (hf : delete d p = .error f)
      (hne : f ≠ .notFound) :
      Removes delete k s (.error (.io (pathText p) f),
        { set := { s.set with entries := s.set.entries.insert k { e with paths := kept ++ [p] } }
          world := { s.world with disk := d } })

theorem removes (delete : Deletion) (k : ElementKey) (s : InWorld TreeSet) :
    Removes delete k s (removeKey delete k s) := by
  unfold removeKey
  cases he : s.set.entries.get? k with
  | none => exact .absent he
  | some e =>
    dsimp only
    rcases deleteBack_cases delete e.paths.reverse s.world.disk with
      ⟨d, h, hd⟩ | ⟨gone, p, left, d, f, h, hpaths, hd, hf, hne⟩
    · rw [h]
      exact .removed he hd
    · -- Files are deleted from the last to the first: the reversed list is cut at the one left.
      have hfiles : e.paths = left.reverse ++ p :: gone.reverse := by
        rw [← e.paths.reverse_reverse, hpaths]
        simp
      rw [h]
      dsimp only
      rw [List.reverse_cons]
      exact .stopped he hfiles (by rwa [List.reverse_reverse]) hf hne

/-- A key is removed when each of its files is deleted or missing. -/
theorem removeKey_of_deletes (he : s.set.entries.get? k = some e)
    (hd : Deletes delete s.world.disk e.paths.reverse d) : removeKey delete k s = (.ok (),
      { set := { s.set with entries := s.set.entries.erase k }
        world := { s.world with disk := d } }) := by
  unfold removeKey
  rw [he]
  dsimp only
  rw [hd.deleteBack]

/-! ### The files of entries -/

/-- Files as an entry has them: at least one, each of them once, and all of them below the root of
the set. -/
structure Filed (root : Disk.Location) (ls : List Disk.Location) : Prop where
  ne_nil : ls ≠ []
  nodup : ls.Nodup
  below : ∀ l ∈ ls, ∃ ss, l = root ++ ss ∧ ∀ s ∈ ss, s ≠ "." ∧ s ≠ ".."

/-- The files up to one that is left. -/
theorem Filed.upTo {kept gone : List Disk.Location} {p : Disk.Location}
    (h : Filed root (kept ++ p :: gone)) : Filed root (kept ++ [p]) := by
  have hsub : (kept ++ [p]).Sublist (kept ++ p :: gone) := by simp
  exact ⟨by simp, h.nodup.sublist hsub, fun l hl => h.below l (hsub.subset hl)⟩

/-- Every entry of a set has files. -/
def AllFiled (t : TreeSet) : Prop := ∀ k e, t.entries.get? k = some e → Filed t.root e.paths

namespace AllFiled

theorem insert (h : t.AllFiled) (he : Filed t.root e.paths) :
    { t with entries := t.entries.insert k e }.AllFiled := by
  intro k' e' he'
  have hget : (t.entries.insert k e).get? k' = some e' := he'
  rw [Dict.get?_insert] at hget
  split at hget
  · cases hget
    exact he
  · exact h k' e' hget

theorem erase (h : t.AllFiled) : { t with entries := t.entries.erase k }.AllFiled := by
  intro k' e' he'
  have hget : (t.entries.erase k).get? k' = some e' := he'
  rw [Dict.get?_erase] at hget
  split at hget
  · cases hget
  · exact h k' e' hget

end AllFiled

/-- A scan gives every entry files, whatever links it follows. -/
theorem filed_of_scan (hd : w.disk.Sound) (h : scan p root w = (.ok entries, w'))
    (he : entries.get? k = some e) : Filed root e.paths := by
  rw [scan_apply] at h
  have hpaths : e.paths = filesFor k (w.disk.walk root) := by
    have hall := pathsIn_scanFiles h k
    rw [pathsIn, he] at hall
    exact hall
  refine ⟨paths_ne_nil_of_scanFiles (fun k e he => by cases he) h he, ?_, fun l hl => ?_⟩
  · rw [hpaths]
    exact (Disk.nodup_walkFrom hd).filter _
  · rw [hpaths] at hl
    obtain ⟨ss, hss, hnames⟩ := Disk.mem_walkFrom hd (mem_filesFor.1 hl).1
    exact ⟨ss, hss, fun s hs => ⟨(hnames s hs).1, (hnames s hs).2.1⟩⟩

/-! ### Reachable sets -/

/-- A set that has been opened, added to, removed from and read again, with deletions that fail at
will and any changes of the world in between. -/
inductive Reached : InWorld TreeSet → Prop
  | opened {p : Plugins} {q : String} {chunk : Nat} {w w' : World} {t : TreeSet}
      (hd : w.disk.Sound) (h : openAt p q chunk w = (.ok t, w')) : Reached { set := t, world := w' }
  | added {s : InWorld TreeSet} (rs : List ElementRef) (h : Reached s) : Reached (addEach rs s).2
  | removed {s : InWorld TreeSet} {delete : Deletion} (k : ElementKey) (hf : delete.Fallible)
      (h : Reached s) : Reached (removeKey delete k s).2
  | refreshed {s : InWorld TreeSet} (h : Reached s) : Reached (refresh s).2
  | elsewhere {s : InWorld TreeSet} {w : World} (hd : w.disk.Sound) (h : Reached s) :
      Reached { s with world := w }

/-- What holds in every reachable state. -/
structure Steady (s : InWorld TreeSet) : Prop where
  sound : s.world.disk.Sound
  filed : s.set.AllFiled

theorem sound_makeDirs {q : Disk.Path} (hd : d.Sound) : (Disk.makeDirs q d).2.Sound :=
  hd.built (Disk.makeDirs_built hd.toTree)

theorem sound_writeFile (hd : w.disk.Sound) : (writeFile l b w).2.disk.Sound := by
  have hbuilt := sound_makeDirs (q := .ofLocation l.dropLast) hd
  rw [writeFile_apply]
  revert hbuilt
  rcases Disk.makeDirs (.ofLocation l.dropLast) w.disk with ⟨f | u, d⟩
  · exact id
  · intro hbuilt
    dsimp only
    cases hw : d.writeFile (.ofLocation l) b with
    | error f => exact hbuilt
    | ok d' => exact hbuilt.writeFile hw

theorem sound_deleteAll (hd : d.Sound) : (deleteAll ls d).Sound := by
  induction ls generalizing d with
  | nil => exact hd
  | cons l ls ih =>
    have hone : ((deleteFile d l).toOption.getD d).Sound := by
      cases hl : deleteFile d l with
      | error f => exact hd
      | ok d' => exact hd.removeFile hl
    exact ih hone

namespace Steady

theorem opened (hd : w.disk.Sound) (h : openAt p q chunk w = (.ok t, w')) :
    Steady { set := t, world := w' } := by
  obtain ⟨-, -, rfl, d, hm, -, -, hs⟩ := scan_of_openAt hd.toTree h
  have hbuilt := sound_makeDirs (q := .ofText q) hd
  rw [hm] at hbuilt
  -- The scan builds elements and leaves the disk as it is.
  have hgrown := scan_grown t.plugins t.root { w with disk := d }
  rw [hs] at hgrown
  refine ⟨?_, fun k e he => filed_of_scan (w := { w with disk := d }) hbuilt hs he⟩
  show w'.disk.Sound
  rw [hgrown.disk]
  exact hbuilt

theorem refreshed (h : Steady s) : Steady (refresh s).2 := by
  have hgrown := scan_grown s.set.plugins s.set.root s.world
  rw [refresh_apply]
  cases hs : scan s.set.plugins s.set.root s.world with
  | mk y w =>
    rw [hs] at hgrown
    have hsound : w.disk.Sound := by
      rw [hgrown.disk]
      exact h.sound
    cases y with
    | error e => exact ⟨hsound, h.filed⟩
    | ok entries => exact ⟨hsound, fun k e he => filed_of_scan h.sound hs he⟩

theorem addOne (h : Steady s) (r : ElementRef) : Steady (addOne r s).2 := by
  have hkeyed {x : Except ElementError ElementKey} {w : World}
      (hk : World.uuid r s.world = (x, w)) : w.disk.Sound := by
    have hdisk := (World.recalls_uuid r s.world).disk
    rw [hk] at hdisk
    rw [hdisk]
    exact h.sound
  have hadds := adds r s
  generalize TreeSet.addOne r s = result at hadds ⊢
  cases hadds with
  | unkeyed hk => exact ⟨hkeyed hk, h.filed⟩
  | misplaced hk _ => exact ⟨hkeyed hk, h.filed⟩
  | @unwritten k l e w w' hk _ hw =>
    have hsound := sound_writeFile (l := l)
      (b := (w.source r).descriptor.toValue.prettyText.toUTF8) (hkeyed hk)
    rw [hw] at hsound
    exact ⟨hsound, h.filed⟩
  | @added k l w w' hk hl hw =>
    have hsound := sound_writeFile (l := l)
      (b := (w.source r).descriptor.toValue.prettyText.toUTF8) (hkeyed hk)
    rw [hw] at hsound
    refine ⟨sound_deleteAll hsound, h.filed.insert ?_⟩
    obtain ⟨names, hnames, rfl⟩ := placeOf_eq_ok hl
    refine ⟨List.cons_ne_nil _ _, List.nodup_singleton _, fun l hl => ?_⟩
    obtain rfl := List.mem_singleton.1 hl
    exact ⟨names, rfl, (World.isKey_of_uuid (congrArg Prod.fst hk)).not_step hnames⟩

theorem added (h : Steady s) (rs : List ElementRef) : Steady (addEach rs s).2 := by
  induction rs generalizing s with
  | nil => exact h
  | cons r rs ih =>
    have hone := h.addOne r
    rw [addEach_cons]
    revert hone
    rcases TreeSet.addOne r s with ⟨e | u, s'⟩
    · exact id
    · exact fun hone => ih hone

theorem removed (h : Steady s) (hf : delete.Fallible) (k : ElementKey) :
    Steady (removeKey delete k s).2 := by
  have hremoves := removes delete k s
  generalize removeKey delete k s = result at hremoves ⊢
  cases hremoves with
  | absent => exact h
  | removed _ hd => exact ⟨hd.sound hf h.sound, h.filed.erase⟩
  | stopped he hp hd =>
    have hfiled := h.filed k _ he
    rw [hp] at hfiled
    exact ⟨hd.sound hf h.sound, h.filed.insert hfiled.upTo⟩

end Steady

theorem Reached.steady (h : Reached s) : Steady s := by
  induction h with
  | opened hd h => exact .opened hd h
  | added rs _ ih => exact ih.added rs
  | removed k hf _ ih => exact ih.removed hf k
  | refreshed _ ih => exact ih.refreshed
  | elsewhere hd _ ih => exact ⟨hd, ih.filed⟩

/-! ### Removals -/

/-- What deleting files does to a world: their paths find nothing any more, and nothing is lost but
what they found. -/
structure Empties (root : Disk.Location) (w w' : World) (ls : List Disk.Location) : Prop where
  world : w' = { w with disk := w'.disk }
  cleared : w.disk.Cleared w'.disk ls
  /-- Below a root without links, exactly these locations have become empty. -/
  exact : w.disk.Proper → w.disk.node? root = some .dir → w.disk.NoLinks root →
    w.disk.Without w'.disk ls

theorem Deletes.empties (h : Deletes delete w.disk ls.reverse d) (hf : delete.Fallible)
    (ht : w.disk.Tree) (hls : ∀ l ∈ ls, ∃ ss, l = root ++ ss ∧ ∀ s ∈ ss, s ≠ "." ∧ s ≠ "..") :
    Empties root w { w with disk := d } ls := by
  have hcleared := (h.cleared hf ht).reverse
  exact ⟨rfl, hcleared, fun hd hr hl => hcleared.without hd hr hl hls⟩

/-- What a removal leaves behind that stopped at a path. The paths up to this one are none of those
deleted; what they lead to is as it was, unless a later path led to the same through a link. -/
structure Stopped (delete : Deletion) (k : ElementKey) (p : Disk.Location) (f : Disk.Fault)
    (s s' : InWorld TreeSet) (e : TreeEntry) (kept gone : List Disk.Location) : Prop where
  former : s.set.entries.get? k = some e
  paths : e.paths = kept ++ p :: gone
  /-- The entry has the same element, and the files up to the one at which the removal stopped.
  Nothing else in the set is different. -/
  set : s'.set =
    { s.set with entries := s.set.entries.insert k { e with paths := kept ++ [p] } }
  /-- Only the later paths have been deleted, the last one first. -/
  deletes : Deletes delete s.world.disk gone.reverse s'.world.disk
  empties : Empties s.set.root s.world s'.world gone
  apart : ∀ l ∈ kept ++ [p], l ∉ gone
  /-- What a path of the entry leads to stays as it is where no later path leads. -/
  spared : ∀ l ∈ kept ++ [p], ∀ m, s.world.disk.Finds l m →
    (∀ l' ∈ gone, ¬ s.world.disk.Finds l' m) → s'.world.disk.node? m = s.world.disk.node? m
  fails : delete s'.world.disk p = .error f
  found : f ≠ .notFound

/-- What a removal leaves behind that succeeded. -/
structure Removed (k : ElementKey) (s s' : InWorld TreeSet) (e : TreeEntry) : Prop where
  former : s.set.entries.get? k = some e
  set : s'.set = { s.set with entries := s.set.entries.erase k }
  empties : Empties s.set.root s.world s'.world e.paths

/-- Every entry has a file in every reachable state, however deletions behave. A removal that fails
at a path has deleted the later paths of the entry: they find nothing any more, and nothing on the
disk has changed but what they found. The key keeps its element and the paths up to the one at which
the removal stopped; none of them is a later one, and what one of them leads to is as it was
unless a later path led there too. Whenever all files of an entry are deleted or missing, the
removal succeeds; and after a removal that succeeds the key and its files are gone. -/
theorem removal_consistent (h : Reached s) (hf : delete.Fallible) (k : ElementKey) :
    (∀ k e, s.set.entries.get? k = some e → e.paths ≠ []) ∧
    (∀ x f, (removeKey delete k s).1 = .error (.io x f) → ∃ p e kept gone,
      x = pathText p ∧ Stopped delete k p f s (removeKey delete k s).2 e kept gone) ∧
    (∀ delete' s' e d, s'.set.entries.get? k = some e →
      Deletes delete' s'.world.disk e.paths.reverse d →
      removeKey delete' k s' = (.ok (),
        { set := { s'.set with entries := s'.set.entries.erase k }
          world := { s'.world with disk := d } })) ∧
    ((removeKey delete k s).1 = .ok () → ∃ e, Removed k s (removeKey delete k s).2 e) := by
  obtain ⟨hsound, hfiled⟩ := h.steady
  have hremoves := removes delete k s
  refine ⟨fun k e he => (hfiled k e he).ne_nil, ?_,
    fun delete' s' e d he hd => removeKey_of_deletes he hd, ?_⟩
  · intro x f hx
    generalize removeKey delete k s = result at hremoves hx ⊢
    cases hremoves with
    | absent => cases hx
    | removed => cases hx
    | @stopped e kept gone p d _ he hp hd hdel hne =>
      cases hx
      have hall := hfiled k e he
      rw [hp] at hall
      -- Deletions change nothing but what the paths lead to, also where they fail.
      have hempties : Empties s.set.root s.world { s.world with disk := d } gone := by
        apply hd.empties hf hsound.toTree
        intro l hl
        exact hall.below l (List.mem_append_right _ (List.mem_cons_of_mem _ hl))
      refine ⟨p, e, kept, gone, rfl, he, hp, rfl, hd, hempties, ?_, ?_, hdel, hne⟩
      · -- No path is noted twice, so what is kept and what is gone are apart.
        have hnodup := hall.nodup
        rw [List.append_cons, List.nodup_append] at hnodup
        exact fun l hl hgone => hnodup.2.2 l hl l hgone rfl
      · exact fun l _ m _ hm => hempties.cleared.kept hm
  · intro hok
    generalize removeKey delete k s = result at hremoves hok ⊢
    cases hremoves with
    | absent => cases hok
    | @removed e d he hd =>
      exact ⟨e, he, rfl, hd.empties hf hsound.toTree (hfiled k e he).below⟩
    | stopped => cases hok

/-- The directory `b` has a second name `z`, so that an entry has the file in `b` under two paths,
with one in `c` between them. By now a directory stands in the place of the one in `c`, and the
removal stops there. It keeps the path into `b`, but has deleted the file under its other name. -/
theorem kept_path_loses_file :
    let l₁ : Disk.Location := ["work", "b", "UUID_k.SHA1_a.dataElement"]
    let l₂ : Disk.Location := ["work", "c", "UUID_k.SHA1_b.dataElement"]
    let l₃ : Disk.Location := ["work", "z", "UUID_k.SHA1_a.dataElement"]
    let b := (Source.memory .empty none false).descriptor.toValue.prettyText.toUTF8
    let d (n : Disk.Node) : Disk :=
      (((((Disk.fresh ["work"] "tmp").put ["work", "b"] .dir).put ["work", "c"] .dir).put
        ["work", "z"] (.link (.ofText "b"))).put l₁ (.file b)).put l₂ n
    let t : TreeSet := { root := ["work"], chunk := 1, plugins := { backends := .empty }
                         entries := .ofList [("k", { paths := [l₁, l₂, l₃], element := 0 })] }
    let w := (openAt t.plugins "." 1 (.ofDisk (d (.file b)))).2
    let s : InWorld TreeSet := { set := t, world := { w with disk := d .dir } }
    let s' := (removeKey deleteFile "k" s).2
    Reached s ∧ Deletion.Fallible deleteFile ∧
      (removeKey deleteFile "k" s).1 = .error (.io (pathText l₂) .isDirectory) ∧
      (s'.set.entries.get? "k").map (·.paths) = some [l₁, l₂] ∧
      s.world.disk.contentAt (.ofLocation l₁) = .ok b ∧
      s'.world.disk.contentAt (.ofLocation l₁) = .error .notFound := by
  intro l₁ l₂ l₃ b d t w s s'
  have hdirs :
      (((Disk.fresh ["work"] "tmp").put ["work", "b"] .dir).put ["work", "c"] .dir).Sound :=
    (Disk.Proper.fresh.sound.put (m := ["work"]) .dir rfl (by decide) (by decide)).put
      (m := ["work"]) .dir rfl (by decide) (by decide)
  have hd (n : Disk.Node) : (d n).Sound :=
    ((hdirs.put (m := ["work"]) (.link (.ofText "b")) rfl (by decide) (by decide)).put
      (m := ["work", "b"]) (.file b) rfl (by decide) (by decide)).put
      (m := ["work", "c"]) n rfl (by decide) (by decide)
  -- The set has been opened while there was a file in `c`.
  have hreached : Reached s := by
    have ho : openAt t.plugins "." 1 (.ofDisk (d (.file b))) = (.ok t, w) :=
      Prod.ext (Result.toOption_eq_some.1 (by decide +kernel)) rfl
    exact .elsewhere (hd .dir) (.opened (hd (.file b)) ho)
  have hentry : s.set.entries.get? "k" = some { paths := [l₁, l₂, l₃], element := 0 } := by
    decide +kernel
  -- The last path is deleted first, by way of the link.
  have hback : (deleteBack deleteFile (d .dir) [l₃, l₂, l₁]).2 =
      (some (l₂, .isDirectory), [l₂, l₁]) := by decide +kernel
  have hfails : (removeKey deleteFile "k" s).1 = .error (.io (pathText l₂) .isDirectory) := by
    unfold removeKey
    rw [hentry]
    dsimp only
    rw [show deleteBack deleteFile s.world.disk [l₁, l₂, l₃].reverse = (_, _) from
      Prod.ext rfl hback]
  exact ⟨hreached, fun d l => .inl rfl, hfails, by decide +kernel, by decide +kernel,
    by decide +kernel⟩

/-- The first of two files for a key cannot be deleted. -/
theorem removal_consistent_busy :
    let l₁ : Disk.Location := ["work", "UUID_k.SHA1_a.dataElement"]
    let l₂ : Disk.Location := ["work", "UUID_k.SHA1_b.dataElement"]
    let b := (Source.memory .empty none false).descriptor.toValue.prettyText.toUTF8
    let d := ((Disk.fresh ["work"] "tmp").put l₁ (.file b)).put l₂ (.file b)
    let t : TreeSet := { root := ["work"], chunk := 1, plugins := { backends := .empty }
                         entries := .ofList [("k", { paths := [l₁, l₂], element := 0 })] }
    let s : InWorld TreeSet := { set := t, world := .ofDisk d }
    let delete : Deletion := fun d l => if l = l₁ then .error .busy else deleteFile d l
    Reached s ∧ delete.Fallible ∧
      (removeKey delete "k" s).1 = .error (.io (pathText l₁) .busy) ∧ ∃ p e kept gone,
        pathText l₁ = pathText p ∧
          Stopped delete "k" p .busy s (removeKey delete "k" s).2 e kept gone := by
  intro l₁ l₂ b d t s delete
  have hd : d.Sound :=
    (Disk.Proper.fresh.sound.put (m := ["work"]) (.file b) rfl (by decide) (by decide)).put
      (m := ["work"]) (.file b) rfl (by decide) (by decide)
  have hreached : Reached s := by
    have ho : openAt t.plugins "." 1 (.ofDisk d) = (.ok t, _) :=
      Prod.ext (Result.toOption_eq_some.1 (by decide +kernel)) rfl
    exact .elsewhere hd (.opened hd ho)
  have hfallible : delete.Fallible := by
    intro d l
    by_cases hl : l = l₁
    · exact .inr ⟨.busy, by decide, if_pos hl⟩
    · exact .inl (if_neg hl)
  have hentry : s.set.entries.get? "k" = some { paths := [l₁, l₂], element := 0 } := by
    decide +kernel
  -- The second file is deleted before the first one turns out to be busy.
  have hback : (deleteBack delete d [l₂, l₁]).2 = (some (l₁, .busy), [l₁]) := by decide +kernel
  have hfails : (removeKey delete "k" s).1 = .error (.io (pathText l₁) .busy) := by
    unfold removeKey
    rw [hentry]
    dsimp only
    rw [show deleteBack delete s.world.disk [l₁, l₂].reverse = (_, _) from
      Prod.ext rfl hback]
  exact ⟨hreached, hfallible, hfails,
    (removal_consistent hreached hfallible "k").2.1 _ _ hfails⟩

end Depot.TreeSet
