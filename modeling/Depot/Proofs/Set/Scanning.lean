import Depot.Proofs.Disk.Walking
import Depot.Proofs.Rebuilding.Elements
import Depot.Proofs.Set.FileNames
import Depot.Proofs.World.Growth
import Depot.Set.Tree
/-!
# Reading descriptor files

Below a directory without links, a scan notes for every key exactly the files that are for it, and
builds the element that the first of them describes. It changes nothing in the world but that there
are new elements.
-/

namespace Depot

open Json Depot.Action

variable {p : Plugins} {w w' : World} {l root : Disk.Location} {ls : List Disk.Location}
  {b : Bytes} {s s' : Source} {r : ElementRef} {k : ElementKey} {e : TreeEntry}
  {entries entries' : Dict ElementKey TreeEntry} {t t' : TreeSet}

namespace TreeSet

/-! ### One file -/

/-- A file holds a descriptor, and elements with a source are built from it. -/
def Describes (p : Plugins) (b : Bytes) (s : Source) : Prop :=
  ∃ o d, Object.ofBytes? b = some o ∧ Descriptor.ofObject Plugins.elementContract o = .ok d ∧
    p.Builds d s

theorem Describes.unique (h : Describes p b s) (h' : Describes p b s') : s = s' := by
  obtain ⟨o, d, ho, hd, hs⟩ := h
  obtain ⟨o', d', ho', hd', hs'⟩ := h'
  rw [ho] at ho'
  cases ho'
  rw [hd] at hd'
  cases hd'
  exact hs.unique hs'

/-- The file that is written for an element describes it. -/
theorem describes_descriptor (h : p.Buildable s) :
    Describes p s.descriptor.toValue.prettyText.toUTF8 s :=
  ⟨_, _, Source.ofBytes?_descriptor h.accepts, s.ofObject_descriptor _, h.builds⟩

theorem loadFile_apply : loadFile p l w =
    match w.disk.contentAt (.ofLocation l) with
    | .error f => (.error (.io (pathText l) f), w)
    | .ok b    =>
      match Object.ofBytes? b with
      | none   => (.error (.storage (pluginName ++ " entry " ++ pathText l) .fileNotObject), w)
      | some o =>
        match Descriptor.ofObject Plugins.elementContract o with
        | .error e =>
          (.error (.storage (pluginName ++ " entry " ++ pathText l) (.fileNotDescriptor e)), w)
        | .ok d    => ((p.element d w).1.mapError .plugin, (p.element d w).2) := by
  unfold loadFile
  rw [bind_apply, ofView_apply]
  cases w.disk.contentAt (.ofLocation l) with
  | error f => rfl
  | ok b =>
    dsimp only [Except.mapError]
    cases Object.ofBytes? b with
    | none => rfl
    | some o =>
      dsimp only
      cases Descriptor.ofObject Plugins.elementContract o <;> rfl

theorem loadFile_of_describes (hb : w.disk.contentAt (.ofLocation l) = .ok b)
    (h : Describes p b s) : loadFile p l w = World.newElement s w := by
  obtain ⟨o, d, ho, hd, hs⟩ := h
  rw [loadFile_apply, hb]
  dsimp only
  rw [ho]
  dsimp only
  rw [hd]
  dsimp only
  rw [hs]
  rfl

/-- A file that an element has been built from describes a source. -/
theorem describes_of_loadFile (h : loadFile p l w = (.ok r, w')) :
    ∃ b s, w.disk.contentAt (.ofLocation l) = .ok b ∧ Describes p b s := by
  rw [loadFile_apply] at h
  cases hb : w.disk.contentAt (.ofLocation l) with
  | error f =>
    rw [hb] at h
    cases h
  | ok b =>
    rw [hb] at h
    dsimp only at h
    cases ho : Object.ofBytes? b with
    | none =>
      rw [ho] at h
      cases h
    | some o =>
      rw [ho] at h
      dsimp only at h
      cases hd : Descriptor.ofObject Plugins.elementContract o with
      | error e =>
        rw [hd] at h
        cases h
      | ok d =>
        rw [hd] at h
        dsimp only at h
        cases hr : p.element d w with
        | mk x w'' =>
          rw [hr] at h
          cases x with
          | error e => cases h
          | ok r' =>
            -- Whatever builds an element from a descriptor builds it from a source.
            obtain ⟨s, hs, -⟩ := Plugins.builds_of_element hr
            exact ⟨b, s, rfl, o, d, ho, hd, hs⟩

/-- What a file is loaded as depends on its content. -/
theorem loadFile_steady (p : Plugins) (l : Disk.Location) (content : Except Disk.Fault Bytes) :
    ∃ x : Except SetError Source, ∀ w : World, w.disk.contentAt (.ofLocation l) = content →
      loadFile p l w = match x with
        | .ok s    => World.newElement s w
        | .error e => (.error e, w) := by
  -- Reading, parsing, checking and building may fail, each with an error that content decides.
  cases content with
  | error f =>
    refine ⟨.error (.io (pathText l) f), fun w hw => ?_⟩
    rw [loadFile_apply, hw]
  | ok b =>
    cases ho : Object.ofBytes? b with
    | none =>
      refine ⟨.error (.storage (pluginName ++ " entry " ++ pathText l) .fileNotObject),
        fun w hw => ?_⟩
      rw [loadFile_apply, hw]
      dsimp only
      rw [ho]
    | some j =>
      cases hd : Descriptor.ofObject Plugins.elementContract j with
      | error e =>
        refine ⟨.error (.storage (pluginName ++ " entry " ++ pathText l) (.fileNotDescriptor e)),
          fun w hw => ?_⟩
        rw [loadFile_apply, hw]
        dsimp only
        rw [ho]
        dsimp only
        rw [hd]
      | ok d =>
        obtain ⟨x, hx⟩ := p.element_steady d
        refine ⟨x.mapError .plugin, fun w hw => ?_⟩
        rw [loadFile_apply, hw]
        dsimp only
        rw [ho]
        dsimp only
        rw [hd]
        dsimp only
        rw [hx]
        cases x <;> rfl

theorem loadFile_grown (p : Plugins) (l : Disk.Location) (w : World) :
    w.Grown (loadFile p l w).2 := by
  obtain ⟨x, hx⟩ := loadFile_steady p l (w.disk.contentAt (.ofLocation l))
  rw [hx w rfl]
  cases x with
  | error e => exact .refl w
  | ok s => exact .newElement

/-! ### Several files -/

/-- The files that entries have for a key. -/
def pathsIn (entries : Dict ElementKey TreeEntry) (k : ElementKey) : List Disk.Location :=
  (entries.get? k).elim [] (·.paths)

/-- Those of several files that are for a key. -/
def filesFor (k : ElementKey) (ls : List Disk.Location) : List Disk.Location :=
  ls.filter fun l => keyAt? l = some k

@[simp] theorem mem_filesFor : l ∈ filesFor k ls ↔ l ∈ ls ∧ keyAt? l = some k := by
  simp [filesFor]

theorem filesFor_cons (h : keyAt? l = some k) : filesFor k (l :: ls) = l :: filesFor k ls := by
  simp [filesFor, h]

theorem filesFor_cons_of_ne (h : keyAt? l ≠ some k) : filesFor k (l :: ls) = filesFor k ls := by
  simp [filesFor, h]

theorem pathsIn_insert {k' : ElementKey} :
    pathsIn (entries.insert k e) k' = if k' = k then e.paths else pathsIn entries k' := by
  unfold pathsIn
  rw [Dict.get?_insert]
  split_ifs <;> rfl

/-- The element of an entry is the one that its first file describes. -/
def IsRead (p : Plugins) (w : World) (e : TreeEntry) : Prop :=
  ∃ l ls b, e.paths = l :: ls ∧ w.disk.node? l = some (.file b) ∧ e.element < w.elements.length ∧
    Describes p b (w.source e.element)

theorem IsRead.mono (h : IsRead p w e) (hw : w.Gains w')
    (hd : ∀ l b, e.paths.head? = some l → w.disk.node? l = some (.file b) →
      w'.disk.node? l = some (.file b)) : IsRead p w' e := by
  obtain ⟨l, ls, b, hl, hb, hlt, hs⟩ := h
  refine ⟨l, ls, b, hl, ?_, hlt.trans_le hw.length, ?_⟩
  · apply hd l b _ hb
    rw [hl]
    rfl
  · rwa [hw.source hlt]

theorem IsRead.new (hb : w.disk.node? l = some (.file b)) (hs : Describes p b s) :
    IsRead p { w with elements := w.elements ++ [.ofSource s] }
      { paths := [l], element := w.elements.length } := by
  refine ⟨l, [], b, rfl, hb, ?_, ?_⟩
  · simp
  · rwa [World.source_newElement]

theorem scanFiles_cons : scanFiles p entries (l :: ls) w =
    match keyAt? l with
    | none   => scanFiles p entries ls w
    | some k =>
      match entries.get? k with
      | some e => scanFiles p (entries.insert k { e with paths := e.paths ++ [l] }) ls w
      | none   =>
        match loadFile p l w with
        | (.ok r, w')    => scanFiles p (entries.insert k { paths := [l], element := r }) ls w'
        | (.error e, w') => (.error e, w') := by
  rw [scanFiles]
  cases keyAt? l with
  | none => rfl
  | some k =>
    dsimp only
    cases entries.get? k with
    | some e => rfl
    | none =>
      dsimp only
      rw [bind_apply]
      rcases loadFile p l w with ⟨_ | _, _⟩ <;> rfl

/-- One file more is noted in a scan that succeeds: it is for no key, or an entry for its key has it
after the files noted before. -/
theorem scanFiles_cons_eq_ok (h : scanFiles p entries (l :: ls) w = (.ok entries', w')) :
    (keyAt? l = none ∧ scanFiles p entries ls w = (.ok entries', w')) ∨
      ∃ k e w₁, keyAt? l = some k ∧ e.paths = pathsIn entries k ++ [l] ∧
        scanFiles p (entries.insert k e) ls w₁ = (.ok entries', w') := by
  rw [scanFiles_cons] at h
  cases hk : keyAt? l with
  | none =>
    rw [hk] at h
    exact .inl ⟨rfl, h⟩
  | some k =>
    rw [hk] at h
    dsimp only at h
    right
    cases he : entries.get? k with
    | some e =>
      rw [he] at h
      exact ⟨k, _, w, rfl, by simp [pathsIn, he], h⟩
    | none =>
      rw [he] at h
      dsimp only at h
      cases hload : loadFile p l w with
      | mk x w₁ =>
        rw [hload] at h
        cases x with
        | error e => cases h
        | ok r => exact ⟨k, _, w₁, rfl, by simp [pathsIn, he], h⟩

/-- A scan notes the files for every key after those noted before. -/
theorem pathsIn_scanFiles (h : scanFiles p entries ls w = (.ok entries', w')) (k : ElementKey) :
    pathsIn entries' k = pathsIn entries k ++ filesFor k ls := by
  induction ls generalizing entries w with
  | nil =>
    cases h
    simp [filesFor]
  | cons l ls ih =>
    rcases scanFiles_cons_eq_ok h with ⟨hk, h⟩ | ⟨k', e, w₁, hk, he, h⟩
    · rw [ih h, filesFor_cons_of_ne (by simp [hk])]
    · rw [ih h, pathsIn_insert]
      split
      · next hkk =>
        subst hkk
        rw [he, filesFor_cons hk, List.append_assoc]
        rfl
      · next hkk => rw [filesFor_cons_of_ne (by simpa [hk] using Ne.symm hkk)]

/-- A scan makes no entry without a file. -/
theorem paths_ne_nil_of_scanFiles (hne : ∀ k e, entries.get? k = some e → e.paths ≠ [])
    (h : scanFiles p entries ls w = (.ok entries', w')) (he : entries'.get? k = some e) :
    e.paths ≠ [] := by
  induction ls generalizing entries w with
  | nil =>
    cases h
    exact hne k e he
  | cons l ls ih =>
    rcases scanFiles_cons_eq_ok h with ⟨-, h⟩ | ⟨k', e', w₁, -, hpaths, h⟩
    · exact ih hne h
    · refine ih (fun k'' e'' he'' => ?_) h
      rw [Dict.get?_insert] at he''
      split at he''
      · cases he''
        simp [hpaths]
      · exact hne k'' e'' he''

theorem scanFiles_grown : w.Grown (scanFiles p entries ls w).2 := by
  induction ls generalizing entries w with
  | nil => exact .refl w
  | cons l ls ih =>
    rw [scanFiles_cons]
    cases keyAt? l with
    | none => exact ih
    | some k =>
      dsimp only
      cases entries.get? k with
      | some e => exact ih
      | none =>
        dsimp only
        have hload := loadFile_grown p l w
        revert hload
        rcases loadFile p l w with ⟨e | r, w₁⟩
        · exact id
        · intro hload
          exact hload.trans ih

/-- An entry that is new after a scan has the element that its first file describes. -/
theorem isRead_of_scanFiles (hd : w.disk.Proper)
    (hls : ∀ l ∈ ls, ∃ b, w.disk.node? l = some (.file b))
    (hr : ∀ k e, entries.get? k = some e → IsRead p w e)
    (h : scanFiles p entries ls w = (.ok entries', w')) :
    ∀ k e, entries'.get? k = some e → IsRead p w' e := by
  induction ls generalizing entries w with
  | nil =>
    cases h
    exact hr
  | cons l ls ih =>
    have hls' : ∀ l ∈ ls, ∃ b, w.disk.node? l = some (.file b) := by
      intro l' hl'
      exact hls l' (List.mem_cons_of_mem _ hl')
    rw [scanFiles_cons] at h
    cases hk : keyAt? l with
    | none =>
      rw [hk] at h
      exact ih hd hls' hr h
    | some k =>
      rw [hk] at h
      dsimp only at h
      cases he : entries.get? k with
      | some e =>
        -- A further file for a key is noted, and its entry keeps its element.
        rw [he] at h
        refine ih hd hls' (fun k' e' he' => ?_) h
        rw [Dict.get?_insert] at he'
        split at he'
        · cases he'
          obtain ⟨m, ms, b, hm, hrest⟩ := hr k e he
          refine ⟨m, ms ++ [l], b, ?_, hrest⟩
          show e.paths ++ [l] = _
          rw [hm]
          rfl
        · exact hr k' e' he'
      | none =>
        -- The first file for a key is read.
        rw [he] at h
        dsimp only at h
        cases hload : loadFile p l w with
        | mk x w₁ =>
          rw [hload] at h
          cases x with
          | error e => cases h
          | ok r =>
            dsimp only at h
            obtain ⟨b, hb⟩ := hls l List.mem_cons_self
            have hcontent := Disk.contentAt_ofLocation hd hb
            obtain ⟨b', s, hb', hs⟩ := describes_of_loadFile hload
            rw [hcontent] at hb'
            cases hb'
            rw [loadFile_of_describes hcontent hs, World.newElement_apply] at hload
            cases hload
            refine ih (w := { w with elements := w.elements ++ [.ofSource s] }) hd hls'
              (fun k' e' he' => ?_) h
            rw [Dict.get?_insert] at he'
            split at he'
            · cases he'
              exact .new hb hs
            · exact (hr k' e' he').mono World.Grown.newElement.gains fun _ _ _ => id

/-- A scan succeeds if the first file for every key that has no entry yet describes an element. -/
theorem scanFiles_ok (hd : w.disk.Proper)
    (h : ∀ k l ls', entries.get? k = none → filesFor k ls = l :: ls' →
      ∃ b s, w.disk.node? l = some (.file b) ∧ Describes p b s) :
    ∃ entries' w', scanFiles p entries ls w = (.ok entries', w') := by
  induction ls generalizing entries w with
  | nil => exact ⟨entries, w, rfl⟩
  | cons l ls ih =>
    rw [scanFiles_cons]
    cases hk : keyAt? l with
    | none =>
      apply ih hd
      intro k m ms hnone hm
      apply h k m ms hnone
      rwa [filesFor_cons_of_ne (by simp [hk])]
    | some k =>
      dsimp only
      -- A key that still has no entry has its first file among the others.
      have hrest {e : TreeEntry} (k' : ElementKey) (m : Disk.Location) (ms : List Disk.Location)
          (hnone : (entries.insert k e).get? k' = none) (hm : filesFor k' ls = m :: ms) :
          ∃ b s, w.disk.node? m = some (.file b) ∧ Describes p b s := by
        rw [Dict.get?_insert] at hnone
        split at hnone
        · cases hnone
        · next hkk =>
          apply h k' m ms hnone
          rwa [filesFor_cons_of_ne (by simpa [hk] using Ne.symm hkk)]
      cases he : entries.get? k with
      | some e => exact ih hd hrest
      | none =>
        obtain ⟨b, s, hb, hs⟩ := h k l _ he (filesFor_cons hk)
        rw [loadFile_of_describes (Disk.contentAt_ofLocation hd hb) hs, World.newElement_apply]
        dsimp only
        exact ih (w := { w with elements := w.elements ++ [.ofSource s] }) hd hrest

/-! ### A whole tree -/

/-- What a set knows is what stands on the disk: the files for every key, in the order of a walk,
and the element that the first of them describes. -/
structure InStep (t : TreeSet) (w : World) : Prop where
  proper : w.disk.Proper
  root : w.disk.node? t.root = some .dir
  noLinks : w.disk.NoLinks t.root
  paths : ∀ k, pathsIn t.entries k = filesFor k (w.disk.walk t.root)
  read : ∀ {k e}, t.entries.get? k = some e → IsRead t.plugins w e

theorem scan_apply (p : Plugins) (root : Disk.Location) (w : World) :
    scan p root w = scanFiles p .empty (w.disk.walk root) w := by
  unfold scan
  rw [bind_apply, get_apply]

theorem scan_grown (p : Plugins) (root : Disk.Location) (w : World) :
    w.Grown (scan p root w).2 := by
  rw [scan_apply]
  exact scanFiles_grown

theorem file_of_mem_walk (hr : w.disk.node? root = some .dir) (hl : w.disk.NoLinks root)
    (h : l ∈ w.disk.walk root) : ∃ b, w.disk.node? l = some (.file b) :=
  ((Disk.mem_walk hr hl).1 h).2

/-- What has been scanned is in step. -/
theorem inStep_of_scan (hd : w.disk.Proper) (hr : w.disk.node? t.root = some .dir)
    (hl : w.disk.NoLinks t.root) (h : scan t.plugins t.root w = (.ok entries', w')) :
    w.Grown w' ∧ InStep { t with entries := entries' } w' := by
  have hw := scan_grown t.plugins t.root w
  rw [h] at hw
  have hdisk := hw.disk
  rw [scan_apply] at h
  refine ⟨hw, ?_⟩
  constructor
  case proper | root | noLinks => rwa [hdisk]
  case paths =>
    intro k
    rw [hdisk]
    exact pathsIn_scanFiles h k
  case read =>
    exact isRead_of_scanFiles hd (fun l hm => file_of_mem_walk hr hl hm)
      (fun k e he => by cases he) h _ _

namespace InStep

/-- The first file for a key describes the element of its entry. -/
theorem describes (h : InStep t w) (hf : filesFor k (w.disk.walk t.root) = l :: ls) :
    ∃ e b, t.entries.get? k = some e ∧ e.paths = l :: ls ∧ w.disk.node? l = some (.file b) ∧
      Describes t.plugins b (w.source e.element) := by
  rw [← h.paths, pathsIn] at hf
  cases he : t.entries.get? k with
  | none =>
    rw [he] at hf
    cases hf
  | some e =>
    rw [he] at hf
    obtain ⟨m, ms, b, hm, hb, -, hs⟩ := h.read he
    have hpaths : e.paths = l :: ls := hf
    rw [hpaths] at hm
    cases hm
    exact ⟨e, b, rfl, hpaths, hb, hs⟩

theorem describes_first (h : InStep t w) (k : ElementKey) (l : Disk.Location)
    (ls : List Disk.Location) (hl : filesFor k (w.disk.walk t.root) = l :: ls) :
    ∃ b s, w.disk.node? l = some (.file b) ∧ Describes t.plugins b s := by
  obtain ⟨e, b, -, -, hb, hs⟩ := h.describes hl
  exact ⟨b, _, hb, hs⟩

/-- A tree that a set is in step with can be scanned. -/
theorem scan (h : InStep t w) : ∃ entries' w', scan t.plugins t.root w = (.ok entries', w') := by
  rw [scan_apply]
  exact scanFiles_ok h.proper fun k l ls _ hl => h.describes_first k l ls hl

theorem mono (h : InStep t w) (hw : w.Gains w') (hd : w'.disk = w.disk) : InStep t w' := by
  constructor
  case proper =>
    rw [hd]
    exact h.proper
  case root =>
    rw [hd]
    exact h.root
  case noLinks =>
    rw [hd]
    exact h.noLinks
  case paths =>
    intro k
    rw [hd]
    exact h.paths k
  case read =>
    intro k e he
    apply (h.read he).mono hw
    intro l b _
    rw [hd]
    exact id

/-- Two sets that are in step with one tree have the same keys and files, and elements with the
same sources. -/
theorem agree (h : InStep t w) (h' : InStep t' w) (hroot : t'.root = t.root)
    (hp : t'.plugins = t.plugins) : t'.entries.keys = t.entries.keys ∧
      ∀ k, t'.path? k = t.path? k ∧ ∀ e, t.entries.get? k = some e →
        ∃ e', t'.entries.get? k = some e' ∧ w.source e'.element = w.source e.element := by
  -- For each key both sets have the files on the disk, and the first file describes one source.
  have heach (k : ElementKey) : (t.entries.get? k = none ∧ t'.entries.get? k = none) ∨
      ∃ e e', t.entries.get? k = some e ∧ t'.entries.get? k = some e' ∧ e'.paths = e.paths ∧
        w.source e'.element = w.source e.element := by
    cases he : t.entries.get? k with
    | none =>
      left
      refine ⟨rfl, ?_⟩
      cases he' : t'.entries.get? k with
      | none => rfl
      | some e' =>
        obtain ⟨l, ls, -, hl, -⟩ := h'.read he'
        have := h.paths k
        rw [← hroot, ← h'.paths k, pathsIn, pathsIn, he, he'] at this
        cases this.trans hl
    | some e =>
      right
      obtain ⟨l, ls, b, hl, hb, -, hs⟩ := h.read he
      have hf : filesFor k (w.disk.walk t'.root) = l :: ls := by
        rw [hroot, ← h.paths, pathsIn, he]
        exact hl
      obtain ⟨e', b', he', hpaths, hb', hs'⟩ := h'.describes hf
      rw [hb] at hb'
      cases hb'
      rw [hp] at hs'
      exact ⟨e, e', rfl, he', hpaths.trans hl.symm, hs'.unique hs⟩
  constructor
  · apply Dict.keys_congr
    intro k
    rcases heach k with ⟨he, he'⟩ | ⟨e, e', he, he', -⟩
    · rw [he, he']
    · rw [he, he']
      rfl
  · intro k
    unfold path?
    rcases heach k with ⟨he, he'⟩ | ⟨e, e', he, he', hpaths, hs⟩
    · rw [he, he']
      exact ⟨rfl, nofun⟩
    · rw [he, he']
      constructor
      · simp [hpaths]
      · rintro _ ⟨⟩
        exact ⟨e', rfl, hs⟩

end InStep

end TreeSet

end Depot
