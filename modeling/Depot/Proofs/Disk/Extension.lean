import Mathlib.Tactic.Common
import Depot.Disk.Basic
/-!
# Disks that hold more

What stands where after a place has been filled or emptied. A disk extends another if it holds the
same things in the same places and possibly more; it keeps the ways of another if at least the
directories and the links are the same; and it may be the same as another but for one place.
-/

namespace Depot.Disk

variable {d d' d'' : Disk} {l m : Location} {n : Node}

/-! ### What stands where after a change -/

@[simp] theorem node?_nil : d.node? [] = some .dir := rfl

theorem node?_put (hl : l ≠ []) :
    (d.put l n).node? m = if m = l then some n else d.node? m := by
  unfold node? put
  by_cases hm : m = []
  · subst hm
    simp [Ne.symm hl]
  · simp only [hm, if_false]
    exact Dict.get?_insert

theorem node?_drop (hl : l ≠ []) :
    (d.drop l).node? m = if m = l then none else d.node? m := by
  unfold node? drop
  by_cases hm : m = []
  · subst hm
    simp [Ne.symm hl]
  · simp only [hm, if_false]
    exact Dict.get?_erase

@[simp] theorem workDir_put : (d.put l n).workDir = d.workDir := rfl

@[simp] theorem workDir_drop : (d.drop l).workDir = d.workDir := rfl

theorem ne_nil_of_node? (h : d.node? l ≠ some .dir) : l ≠ [] := by
  rintro rfl
  exact h rfl

/-- A file stands at a location. -/
def HoldsFile (d : Disk) (l : Location) : Prop := ∃ b, d.node? l = some (.file b)

theorem HoldsFile.ne_nil (h : d.HoldsFile l) : l ≠ [] := by
  rintro rfl
  obtain ⟨b, hb⟩ := h
  cases hb

/-! ### Extension -/

/-- What stands on `d` stands in the same place on `d'`. -/
structure Extends (d d' : Disk) : Prop where
  workDir : d'.workDir = d.workDir
  node : ∀ {l n}, d.node? l = some n → d'.node? l = some n

namespace Extends

theorem refl (d : Disk) : d.Extends d := ⟨rfl, id⟩

theorem trans (h : d.Extends d') (h' : d'.Extends d'') : d.Extends d'' :=
  ⟨h'.workDir.trans h.workDir, fun hn => h'.node (h.node hn)⟩

end Extends

/-! ### Ways kept -/

/-- The directories and links of `d` stand in the same places on `d'`. -/
structure KeepsWays (d d' : Disk) : Prop where
  workDir : d'.workDir = d.workDir
  node : ∀ {l n}, d.node? l = some n → (∀ b, n ≠ .file b) → d'.node? l = some n

namespace KeepsWays

theorem refl (d : Disk) : d.KeepsWays d := ⟨rfl, fun h _ => h⟩

theorem trans (h : d.KeepsWays d') (h' : d'.KeepsWays d'') : d.KeepsWays d'' :=
  ⟨h'.workDir.trans h.workDir, fun hn hb => h'.node (h.node hn hb) hb⟩

end KeepsWays

theorem Extends.keepsWays (h : d.Extends d') : d.KeepsWays d' :=
  ⟨h.workDir, fun hn _ => h.node hn⟩

/-! ### Changes in one place -/

/-- The same stands everywhere but at `l`. -/
structure SameBut (d d' : Disk) (l : Location) : Prop where
  workDir : d'.workDir = d.workDir
  node : ∀ {m}, m ≠ l → d'.node? m = d.node? m

namespace SameBut

theorem put (hl : l ≠ []) : d.SameBut (d.put l n) l :=
  ⟨rfl, fun hm => by rw [node?_put hl, if_neg hm]⟩

theorem drop (hl : l ≠ []) : d.SameBut (d.drop l) l :=
  ⟨rfl, fun hm => by rw [node?_drop hl, if_neg hm]⟩

/-- Ways are kept by a change of a free place or of a file. -/
theorem keepsWays (h : d.SameBut d' l) (hl : ∀ n, d.node? l = some n → ∃ b, n = .file b) :
    d.KeepsWays d' := by
  refine ⟨h.workDir, fun {m n} hm hb => ?_⟩
  have hne : m ≠ l := by
    rintro rfl
    obtain ⟨b, rfl⟩ := hl n hm
    exact hb b rfl
  rw [h.node hne, hm]

/-- Filling a free place extends a disk. -/
theorem fills (h : d.SameBut d' l) (hl : d.node? l = none) : d.Extends d' := by
  refine ⟨h.workDir, fun {m n} hm => ?_⟩
  have hne : m ≠ l := by
    rintro rfl
    rw [hl] at hm
    cases hm
  rw [h.node hne, hm]

end SameBut

end Depot.Disk
