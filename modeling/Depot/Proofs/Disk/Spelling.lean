import Depot.Proofs.Disk.Building
import Depot.Proofs.Disk.Locations
/-!
# Paths written out

The text of the path to a location is read back as that path if the names on the way hold something
and no slash. Names on a disk stay like this when directories are made whose paths have been read
from texts.
-/

namespace Depot.Disk

variable {d d' : Disk} {l : Location} {s : String} {p q : Path} {ps : List Path} {cs : List Char}
  {css : List (List Char)}

/-- A name that can stand between the slashes of a text: it holds something, and no slash. -/
def IsPart (s : String) : Prop := s ≠ "" ∧ '/' ∉ s.toList

/-- Every name on the disk can stand in the text of a path. -/
def Named (d : Disk) : Prop := ∀ l s, d.node? (l ++ [s]) ≠ none → IsPart s

/-! ### Texts of paths -/

theorem splitSlashes_eq_splitOn (cs : List Char) : Path.splitSlashes cs = cs.splitOn '/' := by
  induction cs with
  | nil => rfl
  | cons c cs ih =>
    rw [Path.splitSlashes, List.splitOn, List.splitOnP_cons_eq_if_modifyHead, ← List.splitOn, ih]
    split
    · next hc => rw [if_pos (by simpa using hc)]
    · next hc =>
      rw [if_neg (by simpa using hc)]
      cases h : cs.splitOn '/' with
      | nil => exact absurd h (List.splitOn_ne_nil _ _)
      | cons s ss => rfl

/-- Between slashes there is no slash. -/
theorem slash_notMem {xs : List Char} (h : cs ∈ Path.splitSlashes xs) : '/' ∉ cs := by
  induction xs generalizing cs with
  | nil =>
    rw [Path.splitSlashes, List.mem_singleton] at h
    subst h
    exact List.not_mem_nil
  | cons c xs ih =>
    rw [Path.splitSlashes] at h
    split at h
    · rcases List.mem_cons.1 h with rfl | h
      · exact List.not_mem_nil
      · exact ih h
    · next hc =>
      split at h
      · rw [List.mem_singleton] at h
        subst h
        simpa using Ne.symm hc
      · next s ss hs =>
        rw [hs] at ih
        rcases List.mem_cons.1 h with rfl | h
        · simp only [List.mem_cons, not_or]
          exact ⟨Ne.symm hc, ih List.mem_cons_self⟩
        · exact ih (List.mem_cons_of_mem _ h)

/-- The segments of a path that is read from a text can stand in one. -/
theorem isPart_of_mem_ofText {text : String} (h : s ∈ (Path.ofText text).segments) :
    IsPart s := by
  obtain ⟨cs, hcs, rfl⟩ := List.mem_map.1 h
  obtain ⟨hm, hne⟩ := List.mem_filter.1 hcs
  constructor
  · simpa using hne
  · rw [String.toList_ofList]
    exact slash_notMem hm

theorem intercalate_ne_nil (hne : css ≠ []) (h : ∀ cs ∈ css, cs ≠ [] ∧ '/' ∉ cs) :
    ['/'].intercalate css ≠ [] := by
  obtain ⟨cs, css, rfl⟩ := List.exists_cons_of_ne_nil hne
  have hcs := (h cs List.mem_cons_self).1
  cases css with
  | nil => simpa using hcs
  | cons cs' css => simp [List.intercalate_cons_cons]

/-- Names joined by slashes neither begin nor end with a slash. -/
theorem ends_intercalate (h : ∀ cs ∈ css, cs ≠ [] ∧ '/' ∉ cs) :
    (['/'].intercalate css).head? ≠ some '/' ∧ (['/'].intercalate css).getLast? ≠ some '/' := by
  induction css with
  | nil => exact ⟨nofun, nofun⟩
  | cons cs css ih =>
    obtain ⟨⟨hne, hslash⟩, hrest⟩ := List.forall_mem_cons.1 h
    have hhead : cs.head? ≠ some '/' := fun hc => hslash (List.mem_of_head? hc)
    cases css with
    | nil =>
      rw [List.intercalate_singleton]
      exact ⟨hhead, fun hc => hslash (List.mem_of_getLast? hc)⟩
    | cons cs' css =>
      obtain ⟨c, cs, rfl⟩ := List.exists_cons_of_ne_nil hne
      have hlast := (ih hrest).2
      have hnil := intercalate_ne_nil (List.cons_ne_nil _ _) hrest
      rw [List.intercalate_cons_cons]
      refine ⟨hhead, ?_⟩
      rwa [List.getLast?_append, List.getLast?_eq_some_getLast hnil, Option.some_or,
        ← List.getLast?_eq_some_getLast hnil]

/-- The path to a location is read back from its text. -/
theorem ofText_text_ofLocation (h : ∀ s ∈ l, IsPart s) :
    Path.ofText (Path.ofLocation l).text = .ofLocation l := by
  have hparts : ∀ cs ∈ l.map String.toList, cs ≠ [] ∧ '/' ∉ cs := by
    intro cs hcs
    obtain ⟨s, hs, rfl⟩ := List.mem_map.1 hcs
    obtain ⟨hne, hslash⟩ := h s hs
    exact ⟨by simpa using hne, hslash⟩
  obtain ⟨hhead, hlast⟩ := ends_intercalate hparts
  have htext : (Path.ofLocation l).text.toList =
      '/' :: ['/'].intercalate (l.map String.toList) := by
    simp [Path.text, Path.ofLocation, String.toList_intercalate]
  -- Three things are read off a text: segments, slashes before them, and whether one follows.
  have hsegments : (Path.splitSlashes (Path.ofLocation l).text.toList).filter (· ≠ []) =
      l.map String.toList := by
    rw [htext, Path.splitSlashes, if_pos rfl, splitSlashes_eq_splitOn,
      List.filter_cons_of_neg (by simp)]
    cases l with
    | nil => rfl
    | cons s l =>
      rw [List.splitOn_intercalate '/' (fun cs hcs => (hparts cs hcs).2) (by simp)]
      exact List.filter_eq_self.2 fun cs hcs => by simpa using (hparts cs hcs).1
  have hfront : ((Path.ofLocation l).text.toList.takeWhile (· = '/')).length = 1 := by
    rw [htext]
    generalize ['/'].intercalate (l.map String.toList) = xs at hhead
    cases xs with
    | nil => rfl
    | cons c xs =>
      have hc : c ≠ '/' := fun hc => hhead (by rw [hc]; rfl)
      simp [hc]
  have htrailing : (decide (l.map String.toList ≠ []) &&
      decide ((Path.ofLocation l).text.toList.getLast? = some '/')) = false := by
    rw [htext]
    cases l with
    | nil => rfl
    | cons s l =>
      have hnil := intercalate_ne_nil (by simp) hparts
      rw [List.getLast?_cons_of_ne_nil hnil, decide_eq_false hlast, Bool.and_false]
  unfold Path.ofText
  dsimp only
  rw [hsegments, hfront, htrailing]
  simp [Path.ofLocation]

/-! ### Names on a disk -/

theorem Named.part (hn : d.Named) (hd : d.Proper) (hl : d.node? l ≠ none) : ∀ s ∈ l, IsPart s := by
  intro s hs
  obtain ⟨xs, ys, rfl⟩ := List.append_of_mem hs
  apply hn xs s
  by_cases hys : ys = []
  · simpa [hys] using hl
  · rw [hd.above hys (l := xs ++ [s]) (by simpa using hl)]
    simp

theorem named_fresh : (fresh ["work"] "tmp").Named := by
  intro l s hl
  rw [node?_fresh] at hl
  split at hl
  · next h =>
    have hs : s ∈ ["work", "tmp"] := h.subset (by simp)
    simp only [List.mem_cons, List.not_mem_nil, or_false] at hs
    rcases hs with rfl | rfl
    · exact ⟨by decide, by decide⟩
    · exact ⟨by decide, by decide⟩
  · exact absurd rfl hl

theorem Named.makeDir (hn : d.Named) (ht : d.Tree) (hp : ∀ s ∈ p.segments, IsPart s)
    (h : d.makeDir p = .ok d') : d'.Named := by
  obtain ⟨m, s, he, -, rfl⟩ := makeDir_eq_ok ht h
  obtain ⟨ss, hss, -⟩ := he.way
  intro l s' hl
  rw [node?_put (by simp)] at hl
  split at hl
  · next heq =>
    obtain ⟨-, hs⟩ := List.append_inj' heq rfl
    cases hs
    apply hp
    rw [hss]
    simp
  · exact hn l s' hl

theorem Named.ensureDir (hn : d.Named) (ht : d.Tree) (hp : ∀ s ∈ p.segments, IsPart s) :
    (ensureDir p d).2.Named := by
  unfold Disk.ensureDir
  split
  · next d' h => exact hn.makeDir ht hp h
  · exact hn

theorem Named.ensureDirs (hn : d.Named) (ht : d.Tree)
    (hps : ∀ p ∈ ps, ∀ s ∈ p.segments, IsPart s) : (ensureDirs ps d).2.Named := by
  induction ps generalizing d with
  | nil => exact hn
  | cons p ps ih =>
    obtain ⟨hp, hps⟩ := List.forall_mem_cons.1 hps
    have hfirst := hn.ensureDir ht hp
    have hb := ensureDir_built (p := p) ht
    rw [ensureDirs_cons]
    cases hd : Disk.ensureDir p d with
    | mk x d₁ =>
      rw [hd] at hfirst hb
      cases x with
      | error e => exact hfirst
      | ok u => exact ih hfirst (hb.tree ht) hps

/-- Names stay as they are when a directory is made whose path can be written out. -/
theorem Named.makeDirs (hn : d.Named) (ht : d.Tree) (hp : ∀ s ∈ p.segments, IsPart s) :
    (makeDirs p d).2.Named := by
  unfold Disk.makeDirs
  split
  · exact hn
  · apply hn.ensureDirs ht
    intro q hq s hs
    have hm := (List.mem_filter.1 (mem_missing (List.mem_reverse.1 hq))).1
    rcases mem_ancestors hm with rfl | ⟨n, rfl⟩
    · exact hp s hs
    · exact hp s (mem_of_mem_tidySegments (List.mem_of_mem_take hs))

/-! ### Directories at their locations -/

/-- The path to the location of a directory leads there. -/
theorem locate_ofLocation (hd : d.Proper) (hl : d.node? l = some .dir) :
    d.locate (.ofLocation l) = .ok l := by
  refine locate_eq_ok.2 ⟨followable_ofLocation hd (ne_none_of_node? hl), ?_⟩
  exact leads_down (l := []) hd rfl hl (.inr nofun)

/-- So does its text. -/
theorem locate_ofText_pathText (hd : d.Proper) (hn : d.Named) (hl : d.node? l = some .dir) :
    d.locate (.ofText (Path.ofLocation l).text) = .ok l := by
  rw [ofText_text_ofLocation (hn.part hd (ne_none_of_node? hl)), locate_ofLocation hd hl]

end Depot.Disk
