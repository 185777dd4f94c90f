import Mathlib.Logic.Relation
import Depot.Proofs.Set.Changing
/-!
# Runs of a set in a directory tree

From the moment a set is opened, whatever is added and removed, what the set knows is what stands
on the disk. So it makes no difference to read the tree again, or to open another set on it.
-/

namespace Depot.TreeSet

open Depot.Action

variable {p : Plugins} {w w' : World} {l : Disk.Location} {r : ElementRef} {rs : List ElementRef}
  {k : ElementKey} {s s' : InWorld TreeSet} {t t' : TreeSet} {q : String} {chunk : Nat}
  {d d' : Disk}

/-! ### Opening -/

theorem openAt_apply : openAt p q chunk w =
    if chunk = 0 ∨ maxChunk < chunk then
      (.error (.storage pluginName (.chunkOutOfRange chunk)), w)
    else
      match Disk.makeDirs (.ofText q) w.disk with
      | (.error f, d) => (.error (.io q f), { w with disk := d })
      | (.ok _, d)    =>
        match d.locate (.ofText q) with
        | .error f => (.error (.io q f), { w with disk := d })
        | .ok l    =>
          match scan p l { w with disk := d } with
          | (.error e, w')    => (.error e, w')
          | (.ok entries, w') => (.ok { root := l, chunk, plugins := p, entries }, w') := by
  unfold openAt
  by_cases hc : chunk = 0 ∨ maxChunk < chunk
  · rw [if_pos hc, if_pos hc]
    rfl
  · rw [if_neg hc, if_neg hc]
    dsimp only
    rw [bind_apply]
    unfold World.onDisk
    rw [onPart_apply, mapError_apply]
    rcases Disk.makeDirs (.ofText q) w.disk with ⟨f | x, d⟩
    · rfl
    · dsimp only [Except.mapError]
      rw [bind_apply, onPart_apply, ofView_apply]
      cases d.locate (.ofText q) with
      | error f => rfl
      | ok l =>
        dsimp only [Except.mapError]
        rw [bind_apply]
        rcases scan p l { w with disk := d } with ⟨_ | _, _⟩ <;> rfl

/-- To open a set is to make its root, to find where that is, and to scan it. -/
theorem scan_of_openAt (ht : w.disk.Tree) (h : openAt p q chunk w = (.ok t, w')) :
    (0 < chunk ∧ chunk ≤ maxChunk) ∧ t.chunk = chunk ∧ t.plugins = p ∧ ∃ d,
      Disk.makeDirs (.ofText q) w.disk = (.ok (), d) ∧ d.locate (.ofText q) = .ok t.root ∧
        d.node? t.root = some .dir ∧ scan p t.root { w with disk := d } = (.ok t.entries, w') := by
  rw [openAt_apply] at h
  split at h
  · cases h
  next hc =>
  cases hm : Disk.makeDirs (.ofText q) w.disk with
  | mk x d =>
    rw [hm] at h
    cases x with
    | error f => cases h
    | ok u =>
      dsimp only at h
      cases hg : d.locate (.ofText q) with
      | error f =>
        rw [hg] at h
        cases h
      | ok l =>
        rw [hg] at h
        dsimp only at h
        -- The root is a directory, as it has been made just now.
        obtain ⟨hp, -⟩ := Disk.locate_eq_ok.1 hg
        obtain ⟨l', hl', hdir⟩ := Disk.isDir_eq_true.1 (Disk.isDir_of_makeDirs ht hp.1 hm)
        rw [hg] at hl'
        cases hl'
        cases hs : scan p l { w with disk := d } with
        | mk x w₁ =>
          rw [hs] at h
          cases x with
          | error e => cases h
          | ok entries =>
            cases h
            exact ⟨by omega, rfl, rfl, d, rfl, hg, hdir, hs⟩

/-- A set that has been opened is in step with its tree, and only directories have been made. -/
theorem openAt_eq_ok (hd : w.disk.Proper) (hl : w.disk.NoLinks t.root)
    (h : openAt p q chunk w = (.ok t, w')) : t.plugins = p ∧ (0 < t.chunk ∧ t.chunk ≤ maxChunk) ∧
      InStep t w' ∧ w'.disk.locate (.ofText q) = .ok t.root ∧ w.disk.Built w'.disk := by
  obtain ⟨hc, rfl, rfl, d, hm, hg, hdir, hs⟩ := scan_of_openAt hd.toTree h
  have hb := Disk.makeDirs_built (p := .ofText q) hd.toTree
  rw [hm] at hb
  obtain ⟨hw, hin⟩ := inStep_of_scan (w := { w with disk := d }) (hd.built hb) hdir (hl.built hb) hs
  refine ⟨rfl, hc, hin, ?_, ?_⟩
  · rw [hw.disk]
    exact hg
  · rw [hw.disk]
    exact hb

/-- A set is opened on a directory that can be scanned. -/
theorem openAt_of_scan {root : Disk.Location} {entries : Dict ElementKey TreeEntry}
    (hq : w.disk.locate (.ofText q) = .ok root) (hr : w.disk.node? root = some .dir)
    (hc : 0 < chunk) (hc' : chunk ≤ maxChunk) (hs : scan p root w = (.ok entries, w')) :
    openAt p q chunk w = (.ok { root, chunk, plugins := p, entries }, w') := by
  have hdir := Disk.isDir_eq_true.2 ⟨_, hq, hr⟩
  rw [openAt_apply, if_neg (by omega), Disk.makeDirs_of_isDir hdir]
  dsimp only
  rw [hq]
  dsimp only
  rw [hs]

/-- A set can be opened on a directory where the first file for every key describes an element. -/
theorem openAt_ok {root : Disk.Location} (hd : w.disk.Proper)
    (hq : w.disk.locate (.ofText q) = .ok root) (hr : w.disk.node? root = some .dir)
    (hc : 0 < chunk) (hc' : chunk ≤ maxChunk)
    (hf : ∀ k l ls, filesFor k (w.disk.walk root) = l :: ls →
      ∃ b s, w.disk.node? l = some (.file b) ∧ Describes p b s) :
    ∃ entries w', scan p root w = (.ok entries, w') ∧
      openAt p q chunk w = (.ok { root, chunk, plugins := p, entries }, w') := by
  have hs : ∃ entries w', scan p root w = (.ok entries, w') := by
    rw [scan_apply]
    exact scanFiles_ok hd fun k l ls _ hl => hf k l ls hl
  obtain ⟨entries, w', hs⟩ := hs
  exact ⟨entries, w', hs, openAt_of_scan hq hr hc hc' hs⟩

/-- A set can be opened on the tree of another, cut into any number of pieces. -/
theorem InStep.openAt (h : InStep t w) (hq : w.disk.locate (.ofText q) = .ok t.root)
    (hc : 0 < chunk) (hc' : chunk ≤ maxChunk) :
    ∃ t' w', openAt t.plugins q chunk w = (.ok t', w') ∧ t'.root = t.root ∧
      t'.plugins = t.plugins ∧ w.Grown w' ∧ InStep t' w' := by
  obtain ⟨entries, w', hs, ho⟩ := openAt_ok h.proper hq h.root hc hc' h.describes_first
  obtain ⟨hw, hin⟩ := inStep_of_scan h.proper h.root h.noLinks hs
  exact ⟨_, w', ho, rfl, rfl, hw, { hin with }⟩

/-! ### Reading again -/

theorem refresh_apply : refresh s =
    match scan s.set.plugins s.set.root s.world with
    | (.error e, w)    => (.error e, { s with world := w })
    | (.ok entries, w) => (.ok (), { set := { s.set with entries := entries }, world := w }) := by
  unfold refresh
  rw [bind_apply, get_apply]
  dsimp only
  rw [bind_apply]
  rw [InWorld.onWorld_apply]
  rcases scan s.set.plugins s.set.root s.world with ⟨_ | _, _⟩ <;> rfl

/-- A tree that a set is in step with can be read again. -/
theorem InStep.refresh (h : InStep s.set s.world) : ∃ entries w,
    refresh s = (.ok (), { set := { s.set with entries := entries }, world := w }) ∧
      s.world.Grown w ∧ InStep { s.set with entries := entries } w := by
  obtain ⟨entries, w, hs⟩ := h.scan
  obtain ⟨hw, hin⟩ := inStep_of_scan h.proper h.root h.noLinks hs
  refine ⟨entries, w, ?_, hw, hin⟩
  rw [refresh_apply, hs]

/-! ### Runs -/

/-- What may happen to the world besides: nothing below the root changes, no way is lost, and the
elements that are there keep their sources. -/
structure Elsewhere (s : InWorld TreeSet) (w : World) : Prop where
  proper : w.disk.Proper
  ways : s.world.disk.KeepsWays w.disk
  below : ∀ ss, w.disk.node? (s.set.root ++ ss) = s.world.disk.node? (s.set.root ++ ss)
  gains : s.world.Gains w

/-- What can happen to a set, whether it succeeds or not. -/
inductive Step : InWorld TreeSet → InWorld TreeSet → Prop
  | added {s : InWorld TreeSet} {rs : List ElementRef} : Addable s rs → Step s (core.addMany rs s).2
  | removed {s : InWorld TreeSet} (k : ElementKey) : Step s (core.remove k s).2
  | refreshed {s : InWorld TreeSet} : Step s (refresh s).2
  | elsewhere {s : InWorld TreeSet} {w : World} : Elsewhere s w → Step s { s with world := w }

theorem Elsewhere.inStep (h : Elsewhere s w) (hs : InStep s.set s.world) : InStep s.set w := by
  have hroot : w.disk.node? s.set.root = some .dir := by
    have := h.below []
    rw [List.append_nil, hs.root] at this
    exact this
  have hlinks : w.disk.NoLinks s.set.root := by
    intro ss q
    rw [h.below]
    exact hs.noLinks ss q
  have hwalk : w.disk.walk s.set.root = s.world.disk.walk s.set.root := by
    apply Disk.walk_congr hs.root hs.noLinks hroot hlinks
    intro l
    unfold Disk.FileBelow
    apply and_congr_right
    rintro ⟨ss, rfl⟩
    rw [h.below]
  refine ⟨h.proper, hroot, hlinks, fun k => ?_, fun {k e} he => ?_⟩
  · rw [hwalk]
    exact hs.paths k
  · apply (hs.read he).mono h.gains
    intro l b hl hb
    have hmem : l ∈ pathsIn s.set.entries k := by
      rw [pathsIn, he]
      exact List.mem_of_mem_head? (by simp [hl])
    obtain ⟨ss, rfl⟩ := (hs.mem_pathsIn.1 hmem).1.1
    rw [h.below, hb]

/-- Every step leaves the set in step, on the same root, and loses no way. -/
theorem Step.inStep (h : Step s s') (hs : InStep s.set s.world) : InStep s'.set s'.world ∧
    s'.set.root = s.set.root ∧ s'.set.plugins = s.set.plugins ∧
      s.world.disk.KeepsWays s'.world.disk := by
  cases h with
  | added hrs =>
    obtain ⟨hb, -⟩ := addEach_becomes hs hrs
    exact ⟨hb.inStep, hb.root, hb.plugins, hb.ways⟩
  | removed k =>
    obtain ⟨hb, -⟩ := removeKey_becomes hs k
    exact ⟨hb.inStep, hb.root, hb.plugins, hb.ways⟩
  | refreshed =>
    obtain ⟨entries, w, hr, hw, hin⟩ := hs.refresh
    rw [hr]
    refine ⟨hin, rfl, rfl, ?_⟩
    show s.world.disk.KeepsWays w.disk
    rw [hw.disk]
    exact .refl _
  | elsewhere he => exact ⟨he.inStep hs, rfl, rfl, he.ways⟩

/-- A set stays in step in every run. -/
theorem inStep_of_steps (h : Relation.ReflTransGen Step s s') (hs : InStep s.set s.world) :
    InStep s'.set s'.world ∧ s'.set.root = s.set.root ∧ s'.set.plugins = s.set.plugins ∧
      s.world.disk.KeepsWays s'.world.disk := by
  induction h with
  | refl => exact ⟨hs, rfl, rfl, .refl _⟩
  | tail _ hstep ih =>
    obtain ⟨hin, hroot, hplugins, hways⟩ := ih
    obtain ⟨hin', hroot', hplugins', hways'⟩ := hstep.inStep hin
    exact ⟨hin', hroot'.trans hroot, hplugins'.trans hplugins, hways.trans hways'⟩

/-- In every state that comes about after a set has been opened on a tree without links: for every
key the set has exactly the files that there are for it, in the order of a walk, and the element
that the first of them describes. Reading the tree again changes no key and no file. A set that is
opened on the same root, however it cuts digests, has the same keys and files, and elements with the
same content. What has been added has one file each, and what has been removed has none. No files
are made, changed or deleted but those for the keys that are added or removed. -/
theorem in_step_with_disk (hd : w.disk.Proper) (hl : w.disk.NoLinks t.root)
    (ho : openAt p q chunk w = (.ok t, w'))
    (h : Relation.ReflTransGen Step { set := t, world := w' } s) :
    let d := s.world.disk
    let root := s.set.root
    (∀ k, pathsIn s.set.entries k = filesFor k (d.walk root)) ∧
    (∀ k l, l ∈ pathsIn s.set.entries k ↔ d.FileBelow root l ∧ keyAt? l = some k) ∧
    (∀ k e, s.set.entries.get? k = some e → IsRead p s.world e) ∧
    (∃ t₁ w₁, refresh s = (.ok (), { set := t₁, world := w₁ }) ∧ w₁.disk = d ∧
      t₁.entries.keys = s.set.entries.keys ∧ ∀ k, t₁.path? k = s.set.path? k) ∧
    (root = t.root ∧ d.locate (.ofText q) = .ok root ∧
      ∀ q' chunk', d.locate (.ofText q') = .ok root → 0 < chunk' → chunk' ≤ maxChunk →
        ∃ t₁ w₁, openAt p q' chunk' s.world = (.ok t₁, w₁) ∧ w₁.disk = d ∧
          t₁.entries.keys = s.set.entries.keys ∧
          ∀ k, t₁.path? k = s.set.path? k ∧ ∀ e, s.set.entries.get? k = some e →
            ∃ e₁, t₁.entries.get? k = some e₁ ∧
              w₁.source e₁.element = s.world.source e.element ∧
              w₁.contentOf e₁.element = s.world.contentOf e.element) ∧
    (∀ rs s₁, Addable s rs → core.addMany rs s = (.ok (), s₁) → ∀ r ∈ rs, ∃ k l,
      (World.uuid r s₁.world).1 = .ok k ∧ filesFor k (s₁.world.disk.walk root) = [l]) ∧
    (∀ k, ∃ s₁, core.remove k s =
        (if (s.set.entries.get? k).isSome then .ok () else .error (.keyNotFound k), s₁) ∧
      filesFor k (s₁.world.disk.walk root) = []) ∧
    (∀ rs, Addable s rs → FilesKept d (core.addMany rs s).2.world.disk root fun k =>
      ∃ r ∈ rs, (World.uuid r (core.addMany rs s).2.world).1 = .ok k) ∧
    (∀ k, FilesKept d (core.remove k s).2.world.disk root (· = k)) ∧
    FilesKept w.disk w'.disk t.root (fun _ => False) := by
  intro d root
  obtain ⟨hp, -, hin, hq, hbuilt⟩ := openAt_eq_ok hd hl ho
  -- A set is in step with the disk when it is opened, and every step keeps it so.
  obtain ⟨hs, hroot, hplugins, hways⟩ := inStep_of_steps h hin
  have hps : s.set.plugins = p := hplugins.trans hp
  refine ⟨hs.paths, fun k l => hs.mem_pathsIn, fun k e he => ?_, ?_, ⟨hroot, ?_, ?_⟩, ?_, ?_, ?_,
    ?_, fun m b _ => hbuilt.node?_file⟩
  · rw [← hps]
    exact hs.read he
  · -- What is read again is in step with the same disk, and two such sets agree.
    obtain ⟨entries, w₁, hr, hw, hin₁⟩ := hs.refresh
    have hs₁ := hs.mono hw.gains hw.disk
    obtain ⟨hkeys, hpaths⟩ := hs₁.agree hin₁ rfl rfl
    exact ⟨_, w₁, hr, hw.disk, hkeys, fun k => (hpaths k).1⟩
  · show s.world.disk.locate _ = .ok s.set.root
    rw [hroot]
    -- No step closes the ways that led to the root.
    obtain ⟨hf, hlead⟩ := Disk.locate_eq_ok.1 hq
    apply Disk.locate_eq_ok.2
    refine ⟨hf, ?_⟩
    rw [hways.workDir]
    apply hlead.mono hways
    intro b hb
    rw [hin.root] at hb
    cases hb
  · -- Neither the path to the root nor the length of the pieces has a part in what is read.
    intro q' chunk' hq' hc hc'
    obtain ⟨t₁, w₁, ho₁, hroot₁, hplugins₁, hw, hin₁⟩ := hs.openAt hq' hc hc'
    rw [hps] at ho₁
    have hs₁ := hs.mono hw.gains hw.disk
    obtain ⟨hkeys, hagree⟩ := hs₁.agree hin₁ hroot₁ hplugins₁
    refine ⟨t₁, w₁, ho₁, hw.disk, hkeys, fun k => ⟨(hagree k).1, fun e he => ?_⟩⟩
    obtain ⟨e₁, he₁, hsource⟩ := (hagree k).2 e he
    obtain ⟨-, -, -, -, -, hlt, -⟩ := hs.read he
    refine ⟨e₁, he₁, hsource.trans (hw.gains.source hlt), ?_⟩
    rw [World.contentOf_congr hsource, hw.contentOf hlt]
  · -- What is added has one file.
    intro rs s₁ hrs hok r hr
    obtain ⟨-, hfiles⟩ := addEach_becomes hs hrs
    have hok' : addEach rs s = (.ok (), s₁) := hok
    rw [hok'] at hfiles
    obtain ⟨k, l, hk, hone⟩ := hfiles rfl r hr
    exact ⟨k, l, by rw [hk.uuid_eq], hone⟩
  · -- What is removed has none.
    intro k
    obtain ⟨-, hnone, hresult⟩ := removeKey_becomes hs k
    refine ⟨_, ?_, hnone⟩
    rw [← hresult]
    rfl
  · -- Other keys keep their files.
    intro rs hrs
    obtain ⟨hb, -⟩ := addEach_becomes hs hrs
    apply hb.files.mono
    rintro k ⟨r, hr, hk⟩
    refine ⟨r, hr, ?_⟩
    show (World.uuid r (addEach rs s).2.world).1 = _
    rw [hk.uuid_eq]
  · intro k
    exact (removeKey_becomes hs k).1.files

/-- An element in memory is added to a new tree. -/
theorem in_step_with_disk_memory :
    let w : World := { World.ofDisk (.fresh ["work"] "tmp") with
      elements := [.ofSource (.memory .empty none false)] }
    let p : Plugins := { backends := .empty }
    let t : TreeSet := { root := ["work", "set"], chunk := 3, plugins := p, entries := .empty }
    let w' : World := { w with disk := w.disk.put ["work", "set"] .dir }
    let s := (core.addMany [0] { set := t, world := w' }).2
    openAt p "set" 3 w = (.ok t, w') ∧ ∃ t₁ w₁, openAt p "set" 40 s.world = (.ok t₁, w₁) ∧
      t₁.entries.keys = s.set.entries.keys := by
  intro w p t w' s
  have ho : openAt p "set" 3 w = (.ok t, w') := rfl
  have hl : w.disk.NoLinks t.root := by
    intro ss q hq
    have hq' : (Disk.fresh ["work"] "tmp").node? (["work", "set"] ++ ss) = some (.link q) := hq
    rw [Disk.node?_fresh] at hq'
    split at hq' <;> cases hq'
  have hrs : Addable { set := t, world := w' } [0] := by
    intro r hr
    rw [List.mem_singleton.1 hr]
    exact ⟨Nat.one_pos, _, Plugins.builds_descriptor (s := .memory .empty none false) trivial⟩
  have hrun : Relation.ReflTransGen Step { set := t, world := w' } s := .single (.added hrs)
  obtain ⟨-, -, -, -, ⟨-, hq, hopen⟩, -⟩ :=
    in_step_with_disk (p := p) Disk.Proper.fresh hl ho hrun
  obtain ⟨t₁, w₁, ho₁, -, hkeys, -⟩ := hopen "set" 40 hq (by decide) (by decide)
  exact ⟨ho, t₁, w₁, ho₁, hkeys⟩

end Depot.TreeSet
