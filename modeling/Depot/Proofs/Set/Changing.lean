import Depot.Proofs.Disk.Deleting
import Depot.Proofs.Set.Scanning
/-!
# Adding to a tree and removing from it

What a set in a directory tree does to the disk when elements are added or a key is removed. Only
files for the keys concerned change, and the set stays in step with the tree, whether it succeeds
or not.
-/

namespace Depot

open Depot.Action

namespace TreeSet

variable {p : Plugins} {w w' : World} {l root : Disk.Location} {ls : List Disk.Location}
  {b : Bytes} {r : ElementRef} {rs : List ElementRef} {k : ElementKey} {e : TreeEntry}
  {d d' : Disk} {s s' s'' : InWorld TreeSet} {t : TreeSet} {P Q : ElementKey → Prop}

/-! ### Deleting several files -/

/-- Files are all deleted, and none of them stops a removal. -/
theorem delete_files (hd : d.Proper) (hls : ∀ l ∈ ls, ∃ b, d.node? l = some (.file b))
    (hn : ls.Nodup) : d.Without (deleteAll ls d) ls ∧
      deleteBack deleteFile d ls = (deleteAll ls d, none, []) := by
  induction ls generalizing d with
  | nil => exact ⟨⟨rfl, fun m => by simp [deleteAll]⟩, rfl⟩
  | cons l ls ih =>
    obtain ⟨b, hb⟩ := hls l List.mem_cons_self
    have hl : l ≠ [] := Disk.ne_nil_of_node? (d := d) (by simp [hb])
    rw [List.nodup_cons] at hn
    have hdelete : deleteFile d l = .ok (d.drop l) := Disk.removeFile_ofLocation hd hb
    have hstep : deleteAll (l :: ls) d = deleteAll ls (d.drop l) := by
      unfold deleteAll
      rw [List.foldl_cons, hdelete]
      rfl
    have hls' : ∀ m ∈ ls, ∃ b, (d.drop l).node? m = some (.file b) := by
      intro m hm
      rw [Disk.node?_drop hl, if_neg]
      · exact hls m (List.mem_cons_of_mem _ hm)
      · rintro rfl
        exact hn.1 hm
    obtain ⟨⟨hwork, hnode⟩, hback⟩ := ih (hd.drop hb) hls' hn.2
    rw [hstep, deleteBack, hdelete]
    refine ⟨⟨hwork, fun m => ?_⟩, hback⟩
    rw [hnode, Disk.node?_drop hl]
    simp only [List.mem_cons]
    split_ifs <;> simp_all

/-! ### What is left as it is -/

/-- No file is made, changed or deleted but those below a root that are for certain keys. -/
def FilesKept (d d' : Disk) (root : Disk.Location) (P : ElementKey → Prop) : Prop :=
  ∀ m b, (root <+: m → ∀ k, keyAt? m = some k → ¬ P k) →
    (d'.node? m = some (.file b) ↔ d.node? m = some (.file b))

namespace FilesKept

theorem refl : FilesKept d d root P := fun _ _ _ => Iff.rfl

theorem trans {d'' : Disk} (h : FilesKept d d' root P) (h' : FilesKept d' d'' root P) :
    FilesKept d d'' root P := fun m b hm => (h' m b hm).trans (h m b hm)

theorem mono (h : FilesKept d d' root P) (hp : ∀ k, P k → Q k) : FilesKept d d' root Q :=
  fun m b hm => h m b fun hr k hk hpk => hm hr k hk (hp k hpk)

end FilesKept

/-- The files for a key are those that there are, in order. -/
theorem filesFor_walk (hr : d.node? root = some .dir) (hl : d.NoLinks root)
    (hls : ls.Pairwise (compare · · = .lt))
    (h : ∀ m, m ∈ ls ↔ d.FileBelow root m ∧ keyAt? m = some k) :
    filesFor k (d.walk root) = ls := by
  apply eq_of_ascending ((Disk.pairwise_walk hl).filter _) hls
  intro m
  rw [h, ← Disk.mem_walk hr hl]
  exact mem_filesFor

/-- The files for a key are the same where none of them may change. -/
theorem FilesKept.filesFor_walk (h : FilesKept d d' root P) (hk : ¬ P k)
    (hr : d.node? root = some .dir) (hl : d.NoLinks root) (hr' : d'.node? root = some .dir)
    (hl' : d'.NoLinks root) : filesFor k (d'.walk root) = filesFor k (d.walk root) := by
  apply TreeSet.filesFor_walk hr' hl' ((Disk.pairwise_walk hl).filter _)
  intro m
  have hfile {b : Bytes} (hm : keyAt? m = some k) :
      d'.node? m = some (.file b) ↔ d.node? m = some (.file b) := by
    apply h
    intro _ k' hk'
    rw [hm] at hk'
    cases hk'
    exact hk
  rw [show m ∈ (d.walk root).filter _ ↔ _ from mem_filesFor, Disk.mem_walk hr hl]
  unfold Disk.FileBelow
  constructor
  · rintro ⟨⟨hp, b, hb⟩, hm⟩
    exact ⟨⟨hp, b, (hfile hm).2 hb⟩, hm⟩
  · rintro ⟨⟨hp, b, hb⟩, hm⟩
    exact ⟨⟨hp, b, (hfile hm).1 hb⟩, hm⟩

/-! ### Writing a file -/

theorem writeFile_apply : writeFile l b w =
    match Disk.makeDirs (.ofLocation l.dropLast) w.disk with
    | (.error f, d) => (.error (.io (pathText l) f), { w with disk := d })
    | (.ok _, d)    =>
      match d.writeFile (.ofLocation l) b with
      | .error f => (.error (.io (pathText l) f), { w with disk := d })
      | .ok d'   => (.ok (), { w with disk := d' }) := by
  unfold writeFile
  rw [bind_apply]
  unfold World.onDisk
  rw [onPart_apply, mapError_apply]
  rcases Disk.makeDirs (.ofLocation l.dropLast) w.disk with ⟨f | x, d⟩
  · rfl
  · dsimp only [Except.mapError]
    rw [onPart_apply]
    unfold ofStep
    dsimp only
    cases d.writeFile (.ofLocation l) b <;> rfl

/-- A file is written below a root in directories that are made for it. If it cannot be written,
only directories have been made. -/
theorem writeFile_cases (b : Bytes) {names : List String} (hd : w.disk.Proper)
    (hr : w.disk.node? root = some .dir) (hl : w.disk.NoLinks root)
    (hs : ∀ s ∈ names, s ≠ "." ∧ s ≠ "..") : ∃ d, w.disk.Built d ∧
      ((∃ f, writeFile (root ++ names) b w = (.error f, { w with disk := d })) ∨
        ∃ d', writeFile (root ++ names) b w = (.ok (), { w with disk := d' }) ∧ d'.Proper ∧
          d'.NoLinks root ∧ d.KeepsWays d' ∧ d.SameBut d' (root ++ names) ∧
          d'.node? (root ++ names) = some (.file b)) := by
  have hb := Disk.makeDirs_built (p := .ofLocation (root ++ names).dropLast) hd.toTree
  rw [writeFile_apply]
  revert hb
  rcases Disk.makeDirs (.ofLocation (root ++ names).dropLast) w.disk with ⟨f | x, d⟩
  · intro hb
    exact ⟨d, hb, .inl ⟨_, rfl⟩⟩
  · intro hb
    refine ⟨d, hb, ?_⟩
    dsimp only
    cases hw : d.writeFile (.ofLocation (root ++ names)) b with
    | error f => exact .inl ⟨_, rfl⟩
    | ok d' =>
      right
      have hd₁ : d.Proper := hd.built hb
      have hl₁ : d.NoLinks root := hl.built hb
      obtain ⟨xs, s, rfl, hname, hdir, hfree, rfl⟩ :=
        Disk.writeFile_ofLocation_eq_ok hd₁ (hb.toExtends.node hr) hl₁ hs hw
      have hne : root ++ (xs ++ [s]) ≠ [] := by simp
      -- The last name stands in a directory, and there is a file at it or nothing, but no link.
      have hsame : d.SameBut (d.put (root ++ (xs ++ [s])) (.file b)) (root ++ (xs ++ [s])) :=
        .put hne
      refine ⟨_, rfl, ?_, hl₁.put_file hne, ?_, hsame, ?_⟩
      · rw [← List.append_assoc] at hfree hsame ⊢
        exact hd₁.changed hsame hdir hfree hname
      · apply hsame.keepsWays
        intro n hn
        cases n with
        | file b' => exact ⟨b', rfl⟩
        | dir => exact absurd hn hfree
        | link q => exact absurd hn (hl₁ _ q)
      · rw [Disk.node?_put hne, if_pos rfl]

/-- If a file cannot be written, directories have been made at most. -/
theorem writeFile_error (ht : w.disk.Tree) {x : SetError}
    (h : writeFile l b w = (.error x, w')) :
    ∃ d, w.disk.Built d ∧ w' = { w with disk := d } := by
  have hb := Disk.makeDirs_built (p := .ofLocation l.dropLast) ht
  rw [writeFile_apply] at h
  revert hb h
  rcases Disk.makeDirs (.ofLocation l.dropLast) w.disk with ⟨f | x, d⟩
  · rintro ⟨⟩ hb
    exact ⟨d, hb, rfl⟩
  · intro h hb
    dsimp only at h
    cases hw : d.writeFile (.ofLocation l) b with
    | error f =>
      rw [hw] at h
      cases h
      exact ⟨d, hb, rfl⟩
    | ok d' =>
      rw [hw] at h
      cases h

/-! ### Staying in step -/

/-- What adding and removing does to a set and its world: the set stays in step, and no files
change but those for certain keys. -/
structure Becomes (P : ElementKey → Prop) (s s' : InWorld TreeSet) : Prop where
  root : s'.set.root = s.set.root
  plugins : s'.set.plugins = s.set.plugins
  inStep : InStep s'.set s'.world
  gains : s.world.Gains s'.world
  ways : s.world.disk.KeepsWays s'.world.disk
  files : FilesKept s.world.disk s'.world.disk s.set.root P
  knows : ∀ r k, s.world.Knows r k → s'.world.Knows r k

namespace Becomes

theorem refl (h : InStep s.set s.world) : Becomes P s s :=
  ⟨rfl, rfl, h, .refl _, .refl _, .refl, fun _ _ => id⟩

theorem trans (h : Becomes P s s') (h' : Becomes P s' s'') : Becomes P s s'' := by
  constructor
  case root => rw [h'.root, h.root]
  case plugins => rw [h'.plugins, h.plugins]
  case inStep => exact h'.inStep
  case gains => exact h.gains.trans h'.gains
  case ways => exact h.ways.trans h'.ways
  case files =>
    have hfiles := h'.files
    rw [h.root] at hfiles
    exact h.files.trans hfiles
  case knows =>
    intro r k hk
    exact h'.knows r k (h.knows r k hk)

theorem mono (h : Becomes P s s') (hp : ∀ k, P k → Q k) : Becomes Q s s' :=
  { h with files := h.files.mono hp }

end Becomes

/-! ### The files of an entry -/

namespace InStep

variable {m : Disk.Location}

theorem mem_pathsIn (h : InStep t w) :
    m ∈ pathsIn t.entries k ↔ w.disk.FileBelow t.root m ∧ keyAt? m = some k := by
  rw [h.paths, mem_filesFor, Disk.mem_walk h.root h.noLinks]

theorem nodup_pathsIn (h : InStep t w) : (pathsIn t.entries k).Nodup := by
  rw [h.paths]
  refine ((Disk.pairwise_walk h.noLinks).filter _).imp fun {a b} hab => ?_
  rintro rfl
  simp at hab

end InStep

/-- A set whose entry for one key is replaced, together with the files for this key, stays in
step. -/
theorem InStep.replaced {entries : Dict ElementKey TreeEntry} (new : Option TreeEntry)
    (h : InStep t w) (hd : w'.disk.Proper) (hr : w'.disk.node? t.root = some .dir)
    (hl : w'.disk.NoLinks t.root) (hw : w.Gains w')
    (hfiles : FilesKept w.disk w'.disk t.root (· = k))
    (hentries : ∀ k', entries.get? k' = if k' = k then new else t.entries.get? k')
    (hpaths : filesFor k (w'.disk.walk t.root) = new.elim [] (·.paths))
    (hread : ∀ e, new = some e → IsRead t.plugins w' e) :
    InStep { t with entries := entries } w' := by
  refine ⟨hd, hr, hl, fun k' => ?_, fun {k' e} he => ?_⟩
  · -- The files for other keys are the same.
    show pathsIn entries k' = filesFor k' (w'.disk.walk t.root)
    unfold pathsIn
    rw [hentries]
    by_cases hk : k' = k
    · rw [if_pos hk, hk, hpaths]
    · rw [if_neg hk, hfiles.filesFor_walk hk h.root h.noLinks hr hl]
      exact h.paths k'
  · -- The first file of another key has stayed, and with it what the element is read from.
    have he' : entries.get? k' = some e := he
    rw [hentries] at he'
    by_cases hk : k' = k
    · rw [if_pos hk] at he'
      exact hread e he'
    · rw [if_neg hk] at he'
      apply (h.read he').mono hw
      intro m b hm hb
      refine (hfiles m b fun _ k'' hk'' => ?_).2 hb
      have hmem : m ∈ filesFor k' (w.disk.walk t.root) := by
        rw [← h.paths, pathsIn, he']
        exact List.mem_of_mem_head? (by simp [hm])
      rw [(mem_filesFor.1 hmem).2] at hk''
      cases hk''
      exact hk

/-! ### Adding -/

theorem onDisk_change_apply {ε : Type} (change : Disk → Disk) (w : World) :
    (World.onDisk (ofChange change) : World.Action ε Unit) w =
      (.ok (), { w with disk := change w.disk }) := rfl

theorem uuid_apply (r : ElementRef) (s : InWorld TreeSet) : InWorld.uuid r s =
    ((World.uuid r s.world).1.mapError .element, { s with world := (World.uuid r s.world).2 }) :=
  rfl

/-- The key that the place of the file is made of is asked for twice, and remembered. -/
theorem addOne_apply : addOne r s =
    match World.uuid r s.world with
    | (.error e, w) => (.error (.element e), { s with world := w })
    | (.ok k, w)    =>
      match s.set.placeOf k k with
      | .error e => (.error e, { s with world := w })
      | .ok l    =>
        match writeFile l (w.source r).descriptor.toValue.prettyText.toUTF8 w with
        | (.error e, w') => (.error e, { s with world := w' })
        | (.ok _, w')    =>
          (.ok (),
            { set := { s.set with
                entries := s.set.entries.insert k { paths := [l], element := r } },
              world := { w' with
                disk := deleteAll ((pathsIn s.set.entries k).filter (· ≠ l)) w'.disk } }) := by
  unfold addOne
  rw [bind_apply, uuid_apply]
  -- The second question for the key has the same answer and leaves the world as it is.
  have hagain (k : ElementKey) (hk : (World.uuid r s.world).1 = .ok k) := World.uuid_again hk
  revert hagain
  rcases World.uuid r s.world with ⟨e | k, w⟩
  · intro _
    rfl
  intro hagain
  dsimp only [Except.mapError]
  rw [bind_apply, uuid_apply]
  dsimp only at hagain ⊢
  rw [hagain k rfl]
  dsimp only [Except.mapError]
  rw [bind_apply, ofView_apply]
  dsimp only
  cases s.set.placeOf k k with
  | error e => rfl
  | ok l =>
    dsimp only
    rw [bind_apply, get_apply]
    dsimp only
    rw [bind_apply]
    rw [InWorld.onWorld_apply]
    dsimp only
    rcases writeFile l (w.source r).descriptor.toValue.prettyText.toUTF8 w with ⟨e | x, w'⟩
    · rfl
    · dsimp only
      rw [bind_apply, get_apply]
      dsimp only
      rw [bind_apply, InWorld.onWorld_apply, onDisk_change_apply]
      dsimp only
      rw [modify_apply]
      unfold pathsIn
      rfl

/-- What adding an element comes to: it has no key, or the key has no place, or the file cannot be
written; or the file is written and every other file for the key is deleted. -/
inductive Adds (r : ElementRef) (s : InWorld TreeSet) :
    Except SetError Unit × InWorld TreeSet → Prop
  | unkeyed {e : ElementError} {w : World} (hk : World.uuid r s.world = (.error e, w)) :
      Adds r s (.error (.element e), { s with world := w })
  | misplaced {k : ElementKey} {e : SetError} {w : World} (hk : World.uuid r s.world = (.ok k, w))
      (hl : s.set.placeOf k k = .error e) : Adds r s (.error e, { s with world := w })
  | unwritten {k : ElementKey} {l : Disk.Location} {e : SetError} {w w' : World}
      (hk : World.uuid r s.world = (.ok k, w)) (hl : s.set.placeOf k k = .ok l)
      (hw : writeFile l (w.source r).descriptor.toValue.prettyText.toUTF8 w = (.error e, w')) :
      Adds r s (.error e, { s with world := w' })
  | added {k : ElementKey} {l : Disk.Location} {w w' : World}
      (hk : World.uuid r s.world = (.ok k, w)) (hl : s.set.placeOf k k = .ok l)
      (hw : writeFile l (w.source r).descriptor.toValue.prettyText.toUTF8 w = (.ok (), w')) :
      Adds r s (.ok (),
        { set := { s.set with
            entries := s.set.entries.insert k { paths := [l], element := r } },
          world := { w' with
            disk := deleteAll ((pathsIn s.set.entries k).filter (· ≠ l)) w'.disk } })

theorem adds (r : ElementRef) (s : InWorld TreeSet) : Adds r s (addOne r s) := by
  rw [addOne_apply]
  cases hk : World.uuid r s.world with
  | mk x w =>
    cases x with
    | error e => exact .unkeyed hk
    | ok k =>
      dsimp only
      cases hl : s.set.placeOf k k with
      | error e => exact .misplaced hk hl
      | ok l =>
        dsimp only
        cases hw : writeFile l (w.source r).descriptor.toValue.prettyText.toUTF8 w with
        | mk y w' =>
          cases y with
          | error e => exact .unwritten hk hl hw
          | ok u => exact .added hk hl hw

theorem placeOf_eq_ok {sha1 : String} (h : t.placeOf k sha1 = .ok l) :
    ∃ names, DescriptorFile.place? t.chunk k sha1 = some names ∧ l = t.root ++ names := by
  unfold placeOf at h
  split at h
  · next names hn =>
    cases h
    exact ⟨names, hn, rfl⟩
  · cases h

/-- The place for a key is for this key. -/
theorem keyAt?_place {chunk : Nat} {names : List String} (hk : IsKey k)
    (h : DescriptorFile.place? chunk k k = some names) : keyAt? (root ++ names) = some k := by
  obtain ⟨dirs, rfl, -⟩ := DescriptorFile.place?_eq_some h
  unfold keyAt?
  rw [← List.append_assoc, List.getLast?_concat, Option.bind_some]
  exact hk.key?_name hk

/-- The elements and sources are the same where only the disk has changed. -/
theorem gains_disk : w.Gains { w with disk := d } := ⟨le_rfl, fun _ => rfl⟩

/-- What an element does when it is asked for its key leaves the set in step. -/
theorem becomes_uuid (h : InStep s.set s.world) (r : ElementRef) :
    Becomes P s { s with world := (World.uuid r s.world).2 } := by
  have hrec := World.recalls_uuid r s.world
  refine ⟨rfl, rfl, h.mono hrec.gains hrec.disk, hrec.gains, ?_, ?_, fun r' k hk => hk.uuid r⟩
  · show s.world.disk.KeepsWays (World.uuid r s.world).2.disk
    rw [hrec.disk]
    exact .refl _
  · show FilesKept s.world.disk (World.uuid r s.world).2.disk s.set.root P
    rw [hrec.disk]
    exact .refl

/-- New directories leave the set in step. -/
theorem becomes_built (h : InStep s.set s.world) (hb : s.world.disk.Built d) :
    Becomes P s { s with world := { s.world with disk := d } } := by
  have hfiles : FilesKept s.world.disk d s.set.root P := fun m b _ => hb.node?_file
  have hroot := hb.toExtends.node h.root
  have hlinks : d.NoLinks s.set.root := h.noLinks.built hb
  refine ⟨rfl, rfl, ?_, gains_disk, hb.toExtends.keepsWays, hfiles, fun _ _ => id⟩
  refine ⟨h.proper.built hb, hroot, hlinks, fun k => ?_, fun {k e} he => ?_⟩
  · have hkept : FilesKept s.world.disk d s.set.root fun _ => False := fun m b _ => hb.node?_file
    exact (h.paths k).trans
      (hkept.filesFor_walk not_false h.root h.noLinks hroot hlinks).symm
  · exact (h.read he).mono gains_disk fun l b _ hl => hb.toExtends.node hl

/-- The file for an element has been written, and the others for its key are deleted. -/
theorem becomes_added {names : List String} {d' : Disk} (h : InStep s.set s.world)
    (hr : r < s.world.elements.length) (hb : s.set.plugins.Buildable (s.world.source r))
    (hk : keyAt? (s.set.root ++ names) = some k) (hd : d.Proper)
    (hl : d.NoLinks s.set.root) (hways : s.world.disk.KeepsWays d)
    (hfiles : ∀ m b, m ≠ s.set.root ++ names →
      (d.node? m = some (.file b) ↔ s.world.disk.node? m = some (.file b)))
    (hnew : d.node? (s.set.root ++ names) =
      some (.file (s.world.source r).descriptor.toValue.prettyText.toUTF8))
    (hd' : d' = deleteAll ((pathsIn s.set.entries k).filter (· ≠ s.set.root ++ names)) d) :
    Becomes (· = k) s
        { set := { s.set with
            entries := s.set.entries.insert k { paths := [s.set.root ++ names], element := r } },
          world := { s.world with disk := d' } } ∧
      filesFor k (d'.walk s.set.root) = [s.set.root ++ names] := by
  generalize hplace : s.set.root ++ names = l at *
  -- The files that are deleted are the other ones for the key.
  have hold (m : Disk.Location) : m ∈ (pathsIn s.set.entries k).filter (· ≠ l) ↔
      (s.world.disk.FileBelow s.set.root m ∧ keyAt? m = some k) ∧ m ≠ l := by
    rw [List.mem_filter, h.mem_pathsIn]
    simp
  have hnodup : ((pathsIn s.set.entries k).filter (· ≠ l)).Nodup := h.nodup_pathsIn.filter _
  generalize (pathsIn s.set.entries k).filter (· ≠ l) = old at *
  have holdFiles : ∀ m ∈ old, ∃ b, d.node? m = some (.file b) := by
    intro m hm
    obtain ⟨⟨⟨-, b, hb⟩, -⟩, hml⟩ := (hold m).1 hm
    exact ⟨b, (hfiles m b hml).2 hb⟩
  obtain ⟨hw, -⟩ := delete_files hd holdFiles hnodup
  rw [← hd'] at hw
  have hnode (m : Disk.Location) (b : Bytes) : d'.node? m = some (.file b) ↔
      m ∉ old ∧ d.node? m = some (.file b) := by
    rw [hw.node]
    by_cases hm : m ∈ old
    · simp [hm]
    · simp [hm]
  have hlold : l ∉ old := fun hl => ((hold l).1 hl).2 rfl
  have hroot' : d'.node? s.set.root = some .dir :=
    hw.node_of_not_file holdFiles (hways.node h.root (by simp)) (by simp)
  have hlinks' : d'.NoLinks s.set.root := hw.noLinks hl
  -- A file for another key is neither the new one nor one of these.
  have hkept : FilesKept s.world.disk d' s.set.root (· = k) := by
    intro m b hm
    have hml : m ≠ l := by
      rintro rfl
      refine hm ?_ k hk rfl
      rw [← hplace]
      exact List.prefix_append _ _
    rw [hnode, hfiles m b hml, and_iff_right]
    intro hmold
    obtain ⟨⟨⟨hp, -⟩, hmk⟩, -⟩ := (hold m).1 hmold
    exact hm hp k hmk rfl
  -- A walk finds the new file for the key, and no other one is left.
  have hfor : filesFor k (d'.walk s.set.root) = [l] := by
    apply filesFor_walk hroot' hlinks' (List.pairwise_singleton _ _)
    intro m
    rw [List.mem_singleton]
    constructor
    · rintro rfl
      refine ⟨⟨?_, _, (hnode m _).2 ⟨hlold, hnew⟩⟩, hk⟩
      rw [← hplace]
      exact List.prefix_append _ _
    · rintro ⟨⟨hp, b, hb⟩, hmk⟩
      by_contra hml
      obtain ⟨hmold, hb⟩ := (hnode m b).1 hb
      exact hmold ((hold m).2 ⟨⟨⟨hp, b, (hfiles m b hml).1 hb⟩, hmk⟩, hml⟩)
  refine ⟨⟨rfl, rfl, ?_, gains_disk, hways.trans (hw.keepsWays holdFiles), hkept,
    fun _ _ => id⟩, hfor⟩
  refine h.replaced (some { paths := [l], element := r }) (hw.proper holdFiles hd) hroot'
    hlinks' gains_disk hkept (fun _ => Dict.get?_insert) hfor ?_
  rintro e ⟨⟩
  refine ⟨l, [], _, rfl, ?_, hr, describes_descriptor hb⟩
  exact (hnode l _).2 ⟨hlold, hnew⟩

/-- Adding an element changes the files for its key only, and if it succeeds, there is one file for
it. -/
theorem addOne_becomes (h : InStep s.set s.world) (hr : r < s.world.elements.length)
    (hb : s.set.plugins.Buildable (s.world.source r)) :
    Becomes (fun k => (addOne r s).2.world.Knows r k) s (addOne r s).2 ∧
      ((addOne r s).1 = .ok () → ∃ k l, (addOne r s).2.world.Knows r k ∧
        filesFor k ((addOne r s).2.world.disk.walk s.set.root) = [l]) := by
  have hu (P : ElementKey → Prop) : Becomes P s _ := becomes_uuid h r
  have hadds := adds r s
  generalize addOne r s = result at hadds ⊢
  cases hadds with
  | unkeyed hk =>
    rw [hk] at hu
    exact ⟨hu _, nofun⟩
  | misplaced hk _ =>
    rw [hk] at hu
    exact ⟨hu _, nofun⟩
  | @unwritten k l e w w' hk _ hw =>
    -- Directories may have been made for the file.
    rw [hk] at hu
    have hin : InStep s.set w := (hu fun _ => False).inStep
    obtain ⟨d, hbuilt, rfl⟩ := writeFile_error hin.proper.toTree hw
    exact ⟨(hu _).trans (becomes_built hin hbuilt), nofun⟩
  | @added k l w w' hk hl hw =>
    -- The place lies below the root, and what is written there is what a scan would read.
    have hkey := World.isKey_of_uuid (congrArg Prod.fst hk)
    have hknows := World.knows_of_uuid hr (congrArg Prod.fst hk)
    rw [hk] at hu hknows
    obtain ⟨names, hnames, rfl⟩ := placeOf_eq_ok hl
    have hin : InStep s.set w := (hu fun _ => False).inStep
    have hgains : s.world.Gains w := (hu fun _ => False).gains
    obtain ⟨d, hbuilt, ⟨f, hf⟩ | ⟨d', hok, hd', hl', hways, hsame, hnew⟩⟩ := writeFile_cases
      (w.source r).descriptor.toValue.prettyText.toUTF8 hin.proper hin.root hin.noLinks
      (hkey.not_step hnames)
    · rw [hf] at hw
      cases hw
    · rw [hok] at hw
      cases hw
      obtain ⟨hadded, hfor⟩ := becomes_added (s := { s with world := w }) hin
        (hr.trans_le hgains.length) (by rwa [hgains.source hr]) (keyAt?_place hkey hnames) hd' hl'
        (hbuilt.toExtends.keepsWays.trans hways)
        (fun m b hm => by rw [hsame.node hm, hbuilt.node?_file]) hnew rfl
      refine ⟨(hu _).trans (hadded.mono ?_), fun _ => ⟨k, _, hknows, hfor⟩⟩
      rintro _ rfl
      exact hknows

/-- Elements that can be added: they are in the world, and can be built again. -/
def Addable (s : InWorld TreeSet) (rs : List ElementRef) : Prop :=
  ∀ r ∈ rs, r < s.world.elements.length ∧ s.set.plugins.Buildable (s.world.source r)

theorem Addable.becomes (h : Addable s rs) (hs : Becomes P s s') : Addable s' rs := by
  intro r hr
  obtain ⟨hlt, hb⟩ := h r hr
  refine ⟨hlt.trans_le hs.gains.length, ?_⟩
  rwa [hs.plugins, hs.gains.source hlt]

theorem addEach_cons : addEach (r :: rs) s =
    match addOne r s with
    | (.ok _, s')    => addEach rs s'
    | (.error e, s') => (.error e, s') := by
  rw [addEach, bind_apply]
  rcases addOne r s with ⟨_ | _, _⟩ <;> rfl

/-- Adding elements changes the files for their keys only, and if it succeeds, there is one file
for each of them. -/
theorem addEach_becomes (h : InStep s.set s.world) (hrs : Addable s rs) :
    Becomes (fun k => ∃ r ∈ rs, (addEach rs s).2.world.Knows r k) s (addEach rs s).2 ∧
      ((addEach rs s).1 = .ok () → ∀ r ∈ rs, ∃ k l, (addEach rs s).2.world.Knows r k ∧
        filesFor k ((addEach rs s).2.world.disk.walk s.set.root) = [l]) := by
  induction rs generalizing s with
  | nil => exact ⟨.refl h, fun _ r hr => absurd hr List.not_mem_nil⟩
  | cons r rs ih =>
    obtain ⟨hlt, hb⟩ := hrs r List.mem_cons_self
    obtain ⟨hone, hfile⟩ := addOne_becomes h hlt hb
    rw [addEach_cons]
    revert hone hfile
    rcases addOne r s with ⟨e | x, s'⟩
    · intro hone _
      refine ⟨hone.mono fun k hk => ⟨r, List.mem_cons_self, hk⟩, nofun⟩
    · intro hone hfile
      dsimp only at hone hfile ⊢
      have hrs' : Addable s' rs :=
        Addable.becomes (fun r hr => hrs r (List.mem_cons_of_mem _ hr)) hone
      obtain ⟨hall, hfiles⟩ := ih hone.inStep hrs'
      refine ⟨(hone.mono fun k hk => ?_).trans (hall.mono fun k hk => ?_), fun hok r' hr' => ?_⟩
      · exact ⟨r, List.mem_cons_self, hall.knows r k hk⟩
      · obtain ⟨r', hr', hk⟩ := hk
        exact ⟨r', List.mem_cons_of_mem _ hr', hk⟩
      · have hfiles' := hfiles hok
        rw [hone.root] at hfiles'
        rcases List.mem_cons.1 hr' with rfl | hr'
        · obtain ⟨k, l, hk, hl⟩ := hfile rfl
          -- The same key may be added again.
          by_cases hagain : ∃ r'' ∈ rs, (addEach rs s').2.world.Knows r'' k
          · obtain ⟨r'', hr'', hk''⟩ := hagain
            obtain ⟨k', l', hk', hl'⟩ := hfiles' r'' hr''
            cases hk''.unique hk'
            exact ⟨k, l', hall.knows _ _ hk, hl'⟩
          · refine ⟨k, l, hall.knows _ _ hk, ?_⟩
            have hkept := hall.files.filesFor_walk hagain hone.inStep.root hone.inStep.noLinks
            rw [← hall.root] at hkept
            have hkept := hkept hall.inStep.root hall.inStep.noLinks
            rw [hall.root, hone.root] at hkept
            rw [hkept, hl]
        · exact hfiles' r' hr'

/-! ### Removing -/

/-- Removing a key changes the files for this key only. It succeeds if the key is there, and then
there are no more files for it. -/
theorem removeKey_becomes (h : InStep s.set s.world) (k : ElementKey) :
    Becomes (· = k) s (removeKey deleteFile k s).2 ∧
      filesFor k ((removeKey deleteFile k s).2.world.disk.walk s.set.root) = [] ∧
      (removeKey deleteFile k s).1 =
        if (s.set.entries.get? k).isSome then .ok () else .error (.keyNotFound k) := by
  unfold removeKey
  have hmem {m : Disk.Location} := h.mem_pathsIn (k := k) (m := m)
  have hnodup := h.nodup_pathsIn (k := k)
  unfold pathsIn at hmem hnodup
  cases he : s.set.entries.get? k with
  | none =>
    refine ⟨.refl h, ?_, rfl⟩
    rw [← h.paths, pathsIn, he]
    rfl
  | some e =>
    rw [he] at hmem hnodup
    dsimp only [Option.elim] at hmem hnodup ⊢
    have hls : ∀ l ∈ e.paths.reverse, ∃ b, s.world.disk.node? l = some (.file b) := by
      intro l hl
      exact (hmem.1 (List.mem_reverse.1 hl)).1.2
    -- All files for the key can be deleted, as they are files on the disk.
    obtain ⟨hw, hback⟩ := delete_files h.proper hls (List.nodup_reverse.2 hnodup)
    rw [hback]
    dsimp only
    generalize deleteAll e.paths.reverse s.world.disk = d' at *
    have hroot' : d'.node? s.set.root = some .dir :=
      hw.node_of_not_file hls h.root (by simp)
    have hlinks' : d'.NoLinks s.set.root := hw.noLinks h.noLinks
    have hnode (m : Disk.Location) (b : Bytes) : d'.node? m = some (.file b) ↔
        m ∉ e.paths ∧ s.world.disk.node? m = some (.file b) := by
      rw [hw.node]
      by_cases hm : m ∈ e.paths
      · simp [hm]
      · simp [hm]
    have hkept : FilesKept s.world.disk d' s.set.root (· = k) := by
      intro m b hm
      rw [hnode, and_iff_right]
      intro hme
      obtain ⟨⟨hp, -⟩, hmk⟩ := hmem.1 hme
      exact hm hp k hmk rfl
    have hfor : filesFor k (d'.walk s.set.root) = [] := by
      apply filesFor_walk hroot' hlinks' .nil
      intro m
      constructor
      · exact fun hm => absurd hm List.not_mem_nil
      · rintro ⟨⟨hp, b, hb⟩, hmk⟩
        obtain ⟨hme, hb⟩ := (hnode m b).1 hb
        exact absurd (hmem.2 ⟨⟨hp, b, hb⟩, hmk⟩) hme
    refine ⟨⟨rfl, rfl, ?_, gains_disk, hw.keepsWays hls, hkept, fun _ _ => id⟩, hfor, rfl⟩
    apply h.replaced none (hw.proper hls h.proper) hroot' hlinks' gains_disk hkept
      (fun _ => Dict.get?_erase) hfor
    intro e' he'
    cases he'

end TreeSet

end Depot
