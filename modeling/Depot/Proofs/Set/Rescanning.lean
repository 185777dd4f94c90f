import Depot.Proofs.Disk.Spelling
import Depot.Proofs.Set.Loading
import Depot.Proofs.Set.TreeRuns
/-!
# Scanning again

A scan depends on nothing but the disk, whatever links there are below the root: on the same disk it
notes the same files and builds elements with the same sources. So a set can be opened again at the
place of its root.
-/

namespace Depot.TreeSet

open Depot.Action MemorySet

variable {p : Plugins} {w w' w₂ : World} {l root : Disk.Location} {ls : List Disk.Location}
  {r : ElementRef} {k : ElementKey} {t : TreeSet} {q : String} {chunk : Nat} {e e' : TreeEntry}
  {entries entries' entries₂ : Dict ElementKey TreeEntry}

/-- Two entries have the same files, and their elements the same source. -/
def SameEntry (w : World) (e : TreeEntry) (w' : World) (e' : TreeEntry) : Prop :=
  e'.paths = e.paths ∧ ∃ s, Has w s e.element ∧ Has w' s e'.element

/-- Two maps of entries have the same entries under every key. -/
def SameEntries (w : World) (entries : Dict ElementKey TreeEntry) (w' : World)
    (entries' : Dict ElementKey TreeEntry) : Prop :=
  ∀ k, Option.Rel (SameEntry w · w' ·) (entries.get? k) (entries'.get? k)

theorem SameEntry.grown {w₁ w₁' : World} (h : SameEntry w e w' e') (hw : w.Grown w₁)
    (hw' : w'.Grown w₁') : SameEntry w₁ e w₁' e' := by
  obtain ⟨hpaths, s, hs, hs'⟩ := h
  exact ⟨hpaths, s, hs.grown hw, hs'.grown hw'⟩

theorem SameEntries.grown {w₁ w₁' : World} (h : SameEntries w entries w' entries')
    (hw : w.Grown w₁) (hw' : w'.Grown w₁') : SameEntries w₁ entries w₁' entries' := by
  intro k
  have hk := h k
  generalize entries.get? k = found at hk ⊢
  generalize entries'.get? k = found' at hk ⊢
  cases hk with
  | none => exact .none
  | some he => exact .some (he.grown hw hw')

theorem SameEntries.some (h : SameEntries w entries w' entries') (he : entries.get? k = some e) :
    ∃ e', entries'.get? k = some e' ∧ SameEntry w e w' e' := by
  have hk := h k
  rw [he] at hk
  generalize entries'.get? k = found at hk
  cases hk with
  | some he' => exact ⟨_, rfl, he'⟩

theorem SameEntries.none (h : SameEntries w entries w' entries') (he : entries.get? k = none) :
    entries'.get? k = none := by
  have hk := h k
  rw [he] at hk
  generalize entries'.get? k = found at hk
  cases hk
  rfl

theorem SameEntries.insert (h : SameEntries w entries w' entries') (he : SameEntry w e w' e') :
    SameEntries w (entries.insert k e) w' (entries'.insert k e') := by
  intro k'
  rw [Dict.get?_insert, Dict.get?_insert]
  split
  · exact .some he
  · exact h k'

/-- Another file is noted in both. -/
theorem SameEntry.noted (h : SameEntry w e w' e') :
    SameEntry w { e with paths := e.paths ++ [l] } w' { e' with paths := e'.paths ++ [l] } := by
  refine ⟨?_, h.2⟩
  dsimp only
  rw [h.1]

/-- A file that has been loaded is loaded as an element with the same source on the same disk. -/
theorem loadFile_again (hd : w₂.disk = w.disk) (h : loadFile p l w = (.ok r, w')) :
    ∃ s, (World.newElement s : World.Action SetError ElementRef) w = (.ok r, w') ∧
      loadFile p l w₂ = World.newElement s w₂ := by
  obtain ⟨b, s, hb, hs⟩ := describes_of_loadFile h
  refine ⟨s, ?_, loadFile_of_describes (by rw [hd]; exact hb) hs⟩
  rw [← h, loadFile_of_describes hb hs]

theorem scanFiles_again (hd : w₂.disk = w.disk) (hs : SameEntries w entries w₂ entries₂)
    (h : scanFiles p entries ls w = (.ok entries', w')) :
    ∃ entries₂' w₂', scanFiles p entries₂ ls w₂ = (.ok entries₂', w₂') ∧ w.Grown w' ∧
      w₂.Grown w₂' ∧ SameEntries w' entries' w₂' entries₂' := by
  induction ls generalizing entries entries₂ w w₂ with
  | nil =>
    cases h
    exact ⟨_, _, rfl, .refl _, .refl _, hs⟩
  | cons l ls ih =>
    rw [scanFiles_cons] at h
    rw [scanFiles_cons]
    cases hk : keyAt? l with
    | none =>
      rw [hk] at h
      exact ih hd hs h
    | some k =>
      rw [hk] at h
      dsimp only at h ⊢
      cases he : entries.get? k with
      | some e =>
        -- A further file for a key is noted in both entries.
        obtain ⟨e₂, he₂, hsame⟩ := hs.some he
        rw [he] at h
        rw [he₂]
        exact ih hd (hs.insert hsame.noted) h
      | none =>
        -- The first file for a key gives both entries a new element with the same source.
        rw [he] at h
        rw [hs.none he]
        dsimp only at h ⊢
        cases hload : loadFile p l w with
        | mk x w₁ =>
          rw [hload] at h
          cases x with
          | error e => cases h
          | ok r =>
            obtain ⟨s, hnew, hagain⟩ := loadFile_again hd hload
            rw [World.newElement_apply] at hnew hagain
            cases hnew
            rw [hagain]
            dsimp only at h ⊢
            let v : World := { w with elements := w.elements ++ [.ofSource s] }
            let v₂ : World := { w₂ with elements := w₂.elements ++ [.ofSource s] }
            have hv : w.Grown v := .newElement
            have hv₂ : w₂.Grown v₂ := .newElement
            have hdv : v₂.disk = v.disk := hd
            have hloaded : SameEntry v ⟨[l], w.elements.length⟩ v₂ ⟨[l], w₂.elements.length⟩ :=
              ⟨rfl, s, has_newElement, has_newElement⟩
            obtain ⟨entries₂', w₂', hscan, hw, hw₂, hsame⟩ :=
              ih hdv ((hs.grown hv hv₂).insert hloaded) h
            exact ⟨entries₂', w₂', hscan, hv.trans hw, hv₂.trans hw₂, hsame⟩

/-- A scan that has succeeded succeeds again on the same disk, with the same entries. -/
theorem scan_again (hd : w₂.disk = w.disk) (h : scan p root w = (.ok entries, w')) :
    ∃ entries₂ w₂', scan p root w₂ = (.ok entries₂, w₂') ∧ w.Grown w' ∧ w₂.Grown w₂' ∧
      SameEntries w' entries w₂' entries₂ := by
  rw [scan_apply] at h
  rw [scan_apply, hd]
  exact scanFiles_again hd (fun _ => .none) h

/-- A set that has been opened can be opened again at the place of its root. -/
theorem openAt_again (hd : w.disk.Proper) (hn : w.disk.Named)
    (h : openAt p q chunk w = (.ok t, w')) (hw : w₂.disk = w'.disk) :
    ∃ entries w₃, openAt p (pathText t.root) t.chunk w₂ =
      (.ok { t with entries := entries }, w₃) ∧ w₂.Grown w₃ ∧
        SameEntries w' t.entries w₃ entries := by
  obtain ⟨hc, rfl, rfl, d, hm, -, hdir, hs⟩ := scan_of_openAt hd.toTree h
  have hb := Disk.makeDirs_built (p := .ofText q) hd.toTree
  have hparts : ∀ s ∈ (Disk.Path.ofText q).segments, Disk.IsPart s :=
    fun s => Disk.isPart_of_mem_ofText
  have hnamed := hn.makeDirs hd.toTree hparts
  rw [hm] at hb hnamed
  have hdisk : w₂.disk = ({ w with disk := d } : World).disk := by
    obtain ⟨-, -, -, hgrown, -⟩ := scan_again rfl hs
    rw [hw, hgrown.disk]
  obtain ⟨entries, w₃, hscan, -, hgrown, hsame⟩ := scan_again hdisk hs
  refine ⟨entries, w₃, ?_, hgrown, hsame⟩
  refine openAt_of_scan ?_ (by rw [hdisk]; exact hdir) hc.1 hc.2 hscan
  rw [hdisk]
  exact Disk.locate_ofText_pathText (hd.built hb) hnamed hdir

end Depot.TreeSet
