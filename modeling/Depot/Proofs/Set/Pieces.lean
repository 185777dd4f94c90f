import Mathlib
import Depot.Proofs.Set.FileNames
import Depot.Set.Tree
/-!
# Cutting texts into pieces

A text is cut into any number of pieces from one to the number of its characters. The pieces make up
the text, and their lengths are as equal as can be, longer ones first. Cutting goes from character
to character, so that the bytes of every piece are a text again.
-/

namespace Depot

variable {α : Type} {xs : List α} {cs : List Char} {ns : List Nat} {n len start : Nat}

/-! ### Lengths -/

@[simp] theorem length_pieceLengths : (pieceLengths len n).length = n := by
  simp [pieceLengths]

theorem mem_pieceLengths {m : Nat} (h : m ∈ pieceLengths len n) :
    m = len / n ∨ m = len / n + 1 := by
  obtain ⟨i, -, rfl⟩ := List.mem_map.1 h
  split
  · exact .inr rfl
  · exact .inl rfl

/-- A number is added once for each of the first `extra` of `n` pieces. -/
theorem sum_map_range (base extra n : Nat) :
    ((List.range n).map fun i => if i < extra then base + 1 else base).sum =
      n * base + min extra n := by
  induction n with
  | zero => simp
  | succ n ih =>
    rw [List.range_succ, List.map_append, List.sum_append, ih, Nat.succ_mul]
    by_cases h : n < extra
    · simp [h]
      omega
    · simp [h]
      omega

/-- The lengths add up to the whole. -/
theorem sum_pieceLengths (hn : 0 < n) : (pieceLengths len n).sum = len := by
  have hmod := Nat.mod_lt len hn
  unfold pieceLengths
  rw [sum_map_range, Nat.min_eq_left (Nat.le_of_lt hmod)]
  exact Nat.div_add_mod len n

/-- Longer pieces come first. -/
theorem pairwise_pieceLengths : (pieceLengths len n).Pairwise (· ≥ ·) := by
  unfold pieceLengths
  refine List.pairwise_map.2 (List.pairwise_lt_range.imp fun {i j} hij => ?_)
  split_ifs <;> omega

theorem pieceLengths_pos (hn : 0 < n) (hlen : n ≤ len) {m : Nat} (h : m ∈ pieceLengths len n) :
    0 < m := by
  have hpos := Nat.div_pos hlen hn
  rcases mem_pieceLengths h with rfl | rfl <;> omega

/-! ### Pieces -/

/-- Pieces of given lengths have these lengths. -/
theorem map_length_cutInto (h : ns.sum ≤ xs.length) : (cutInto xs ns).map List.length = ns := by
  induction ns generalizing xs with
  | nil => rfl
  | cons n ns ih =>
    rw [List.sum_cons] at h
    rw [cutInto, List.map_cons, ih (by rw [List.length_drop]; omega), List.length_take,
      Nat.min_eq_left (by omega)]

/-- Pieces whose lengths add up to the whole make up the whole. -/
theorem flatten_cutInto (h : ns.sum = xs.length) : (cutInto xs ns).flatten = xs := by
  induction ns generalizing xs with
  | nil =>
    rw [List.eq_nil_of_length_eq_zero h.symm]
    rfl
  | cons n ns ih =>
    rw [List.sum_cons] at h
    rw [cutInto, List.flatten_cons, ih (by rw [List.length_drop]; omega), List.take_append_drop]

theorem partition?_eq_none : partition? cs n = none ↔ n = 0 ∨ cs.length < n := by
  unfold partition?
  split
  · next h => exact iff_of_true rfl h
  · next h => exact iff_of_false nofun h

theorem partition?_eq_some {pieces : List (List Char)} : partition? cs n = some pieces ↔
    0 < n ∧ n ≤ cs.length ∧ pieces = cutInto cs (pieceLengths cs.length n) := by
  unfold partition?
  split
  · next h => exact iff_of_false nofun fun h' => by omega
  · next h =>
    rw [Option.some.injEq, eq_comm]
    exact ⟨fun h' => ⟨by omega, by omega, h'⟩, fun h' => h'.2.2⟩

/-! ### Bytes -/

namespace Text

/-- Where the characters of a text begin among its bytes, and where the last one ends. -/
def boundaries (cs : List Char) : List Nat :=
  (List.range (cs.length + 1)).map fun i => (utf8 (cs.take i)).length

/-- The text that is made up of the bytes from one place to another; none if there are no such
places, or if a character is cut through. -/
def slice? (bytes : List UInt8) (start stop : Nat) : Option String :=
  if start ≤ stop ∧ stop ≤ bytes.length then
    ofBytes? ((bytes.take stop).drop start).toByteArray
  else none

/-- Cuts a text by its bytes: every piece goes from one boundary to another, and the next one begins
where it ends. None if a boundary that is asked for does not exist, or if a piece is no text. -/
def cutBytes? (cs : List Char) : (start : Nat) → List Nat → Option (List String)
  | _, []          => some []
  | start, n :: ns => do
    let first ← (boundaries cs)[start]?
    let last ← (boundaries cs)[start + n]?
    let piece ← slice? (utf8 cs) first last
    return piece :: (← cutBytes? cs (start + n) ns)

theorem getElem?_boundaries (h : start ≤ cs.length) :
    (boundaries cs)[start]? = some (utf8 (cs.take start)).length := by
  unfold boundaries
  rw [List.getElem?_map, List.getElem?_range (by omega)]
  rfl

theorem utf8_append (cs cs' : List Char) : utf8 (cs ++ cs') = utf8 cs ++ utf8 cs' :=
  List.flatMap_append

theorem ofBytes?_utf8 (cs : List Char) : ofBytes? (utf8 cs).toByteArray = some (.ofList cs) :=
  ofBytes?_toUTF8 (.ofList cs)

/-- The bytes between two boundaries are those of the characters between them. -/
theorem slice?_boundaries (front piece back : List Char) :
    slice? (utf8 (front ++ (piece ++ back))) (utf8 front).length
      (utf8 (front ++ piece)).length = some (.ofList piece) := by
  have hbytes : ((utf8 (front ++ (piece ++ back))).take (utf8 (front ++ piece)).length).drop
      (utf8 front).length = utf8 piece := by
    rw [← List.append_assoc, utf8_append (front ++ piece), List.take_left, utf8_append,
      List.drop_left]
  unfold slice?
  rw [if_pos, hbytes, ofBytes?_utf8]
  simp only [utf8_append, List.length_append]
  omega

/-- Cutting by bytes never fails, and gives the pieces that cutting by characters gives. -/
theorem cutBytes?_eq_some (h : start + ns.sum ≤ cs.length) :
    cutBytes? cs start ns = some ((cutInto (cs.drop start) ns).map .ofList) := by
  induction ns generalizing start with
  | nil => rfl
  | cons n ns ih =>
    rw [List.sum_cons] at h
    -- The characters from one boundary to the next one are those that the piece takes.
    have hpiece : slice? (utf8 cs) (utf8 (cs.take start)).length
        (utf8 (cs.take (start + n))).length = some (.ofList ((cs.drop start).take n)) := by
      have hslice := slice?_boundaries (cs.take start) ((cs.drop start).take n)
        ((cs.drop start).drop n)
      rwa [List.take_append_drop, List.take_append_drop, ← List.take_add] at hslice
    rw [cutBytes?, getElem?_boundaries (by omega), getElem?_boundaries (by omega), cutInto,
      List.drop_drop, List.map_cons]
    simp only [Option.bind_eq_bind, Option.bind_some]
    rw [hpiece, ih (by omega)]
    rfl

end Text

/-- A text is not cut exactly if no piece is asked for or more than it has characters. Otherwise
there are as many pieces as are asked for, none of them empty; they make up the text, and their
lengths in characters never increase and differ by one at most. Each of them goes from one boundary
between characters to another that exists, so that cutting the bytes of the text gives the same
pieces and never fails. A digest of forty digits has a place for every number of pieces that a set
may use. -/
theorem cut_evenly (s : String) (n : Nat) :
    (partition? s.toList n = none ↔ n = 0 ∨ s.length < n) ∧
    (∀ pieces, partition? s.toList n = some pieces →
      pieces.length = n ∧ (∀ piece ∈ pieces, piece ≠ []) ∧ pieces.flatten = s.toList ∧
      (pieces.map List.length).Pairwise (· ≥ ·) ∧
      (∀ piece ∈ pieces, ∀ piece' ∈ pieces, piece.length ≤ piece'.length + 1) ∧
      Text.cutBytes? s.toList 0 (pieceLengths s.length n) = some (pieces.map .ofList)) ∧
    ∀ (t : TreeSet) (key : ElementKey) (sha1 : String), sha1.length = 40 → 1 ≤ t.chunk →
      t.chunk ≤ 40 → ∃ l, t.placeOf key sha1 = .ok l := by
  refine ⟨by rw [partition?_eq_none, String.length_toList], fun pieces h => ?_,
    fun t key sha1 hlen hc hc' => ?_⟩
  · obtain ⟨hn, hlen, rfl⟩ := partition?_eq_some.1 h
    have hsum : (pieceLengths s.toList.length n).sum = s.toList.length := sum_pieceLengths hn
    -- The pieces are as long as was computed, and the rest is arithmetic about these lengths.
    have hlengths := map_length_cutInto (Nat.le_of_eq hsum)
    have hmem {piece : List Char}
        (hp : piece ∈ cutInto s.toList (pieceLengths s.toList.length n)) :
        piece.length ∈ pieceLengths s.toList.length n := by
      rw [← hlengths]
      exact List.mem_map_of_mem hp
    refine ⟨?_, fun piece hp => ?_, flatten_cutInto hsum, ?_, fun piece hp piece' hp' => ?_, ?_⟩
    · rw [← List.length_map List.length, hlengths, length_pieceLengths]
    · exact List.ne_nil_of_length_pos (pieceLengths_pos hn hlen (hmem hp))
    · rw [hlengths]
      exact pairwise_pieceLengths
    · rcases mem_pieceLengths (hmem hp) with h₁ | h₁ <;>
        rcases mem_pieceLengths (hmem hp') with h₂ | h₂ <;> omega
    · rw [← String.length_toList]
      exact Text.cutBytes?_eq_some (by omega)
  · rw [← String.length_toList] at hlen
    obtain ⟨names, hnames⟩ := DescriptorFile.exists_place (k := key) hlen hc hc'
    unfold TreeSet.placeOf
    rw [hnames]
    exact ⟨_, rfl⟩

/-- Seven characters, some of several bytes, in three pieces. -/
theorem cut_evenly_three :
    partition? "aé√b𝄞cd".toList 3 = some ["aé√".toList, "b𝄞".toList, "cd".toList] ∧
      ["aé√".toList, "b𝄞".toList, "cd".toList].flatten = "aé√b𝄞cd".toList := by
  have h : partition? "aé√b𝄞cd".toList 3 = some ["aé√".toList, "b𝄞".toList, "cd".toList] := rfl
  obtain ⟨-, hpieces, -⟩ := cut_evenly "aé√b𝄞cd" 3
  obtain ⟨-, -, hflat, -⟩ := hpieces _ h
  exact ⟨h, hflat⟩

end Depot
