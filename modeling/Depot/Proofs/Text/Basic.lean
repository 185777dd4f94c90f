import Mathlib.Data.List.TakeWhile
import Mathlib.Tactic.Common
import Depot.Text.Basic
/-!
# Bytes and parts of texts

What can be evaluated for every number below a bound holds of the bytes or characters with these
numbers, and different texts have different bytes. The rest after a front and before a back, the
sides of the first mark, and what is left when the blanks at both ends are dropped.
-/

namespace Depot.Text

variable {cs cs' front back before rest mark : List Char} {c d : Char}

/-! ### Bytes and characters -/

theorem forall_byte {P : UInt8 → Prop} (h : ∀ n : Fin 256, P (UInt8.ofNat n)) (b : UInt8) :
    P b := by
  have hb := h ⟨b.toNat, b.toNat_lt⟩
  rwa [UInt8.ofNat_toNat] at hb

theorem forall_ascii {P : Char → Prop} (h : ∀ n : Fin 128, P (Char.ofNat n)) (hc : c.toNat < 128) :
    P c := by
  have hc := h ⟨c.toNat, hc⟩
  rwa [Char.ofNat_toNat] at hc

@[simp] theorem utf8_inj : utf8 cs = utf8 cs' ↔ cs = cs' := by
  constructor
  · intro h
    have hbytes : cs.utf8Encode = cs'.utf8Encode := congrArg List.toByteArray h
    have hread := congrArg ByteArray.utf8Decode? hbytes
    simpa using hread
  · rintro rfl
    rfl

/-! ### Fronts and backs -/

@[simp] theorem afterFront_append : afterFront front (front ++ cs) = some cs := by
  simp [afterFront]

theorem afterFront_eq_some : afterFront front cs = some rest ↔ cs = front ++ rest := by
  constructor
  · intro h
    simp only [afterFront, Option.ite_none_right_eq_some, List.isPrefixOf_iff_prefix,
      Option.some.injEq] at h
    obtain ⟨hfront, rfl⟩ := h
    exact (List.prefix_iff_eq_append.1 hfront).symm
  · rintro rfl
    exact afterFront_append

theorem afterFront_cons_of_ne (h : c ≠ d) : afterFront (c :: front) (d :: cs) = none := by
  simp [afterFront, h]

@[simp] theorem beforeBack_append : beforeBack back (cs ++ back) = some cs := by
  simp [beforeBack]

theorem beforeBack_eq_some : beforeBack back cs = some before ↔ cs = before ++ back := by
  constructor
  · intro h
    simp only [beforeBack, Option.ite_none_right_eq_some, List.isSuffixOf_iff_suffix,
      Option.some.injEq] at h
    obtain ⟨⟨front, rfl⟩, rfl⟩ := h
    simp
  · rintro rfl
    exact beforeBack_append

/-! ### Marks -/

/-- A mark is found where its first character stands for the first time. -/
theorem splitAtMark_append (h : c ∉ before) :
    splitAtMark (c :: mark) (before ++ (c :: mark ++ rest)) = some (before, rest) := by
  induction before with
  | nil =>
    show splitAtMark (c :: mark) (c :: (mark ++ rest)) = _
    rw [splitAtMark]
    rw [← List.cons_append, afterFront_append]
  | cons d before ih =>
    simp only [List.mem_cons, not_or] at h
    rw [List.cons_append, splitAtMark, afterFront_cons_of_ne h.1]
    dsimp only
    rw [ih h.2]
    rfl

/-- What stands before a mark, the mark, and what stands after it make up the text. -/
theorem append_of_splitAtMark (h : splitAtMark mark cs = some (before, rest)) :
    cs = before ++ (mark ++ rest) := by
  induction cs generalizing before with
  | nil =>
    simp only [splitAtMark, Option.ite_none_right_eq_some, Option.some.injEq, Prod.mk.injEq] at h
    obtain ⟨rfl, rfl, rfl⟩ := h
    rfl
  | cons c cs ih =>
    rw [splitAtMark] at h
    split at h
    · next rest' ha =>
      cases h
      simpa using afterFront_eq_some.1 ha
    · obtain ⟨⟨before', rest'⟩, hsplit, heq⟩ := Option.map_eq_some_iff.1 h
      cases heq
      rw [ih hsplit, List.cons_append]

/-- A mark whose first character comes once is found at once where it stands after a text without
it: it cannot begin in the text and end behind it. -/
theorem splitAtMark_of_not_infix (hc : c ∉ mark) (h : ¬ c :: mark <:+: before) :
    splitAtMark (c :: mark) (before ++ (c :: mark ++ rest)) = some (before, rest) := by
  induction before with
  | nil =>
    rw [List.nil_append, List.cons_append, splitAtMark, ← List.cons_append, afterFront_append]
  | cons d before ih =>
    have hfront : afterFront (c :: mark) (d :: (before ++ (c :: mark ++ rest))) = none := by
      rw [Option.eq_none_iff_forall_ne_some]
      intro rest' hrest
      have hmark : c :: mark <+: (d :: before) ++ (c :: mark ++ rest) :=
        ⟨rest', (afterFront_eq_some.1 hrest).symm⟩
      rcases List.prefix_or_prefix_of_prefix hmark (List.prefix_append _ _) with hp | ⟨ys, hys⟩
      · exact h hp.isInfix
      · rw [← hys, List.prefix_append_right_inj] at hmark
        cases ys with
        | nil =>
          rw [List.append_nil] at hys
          exact h (hys ▸ List.infix_refl _)
        | cons y ys =>
          -- The mark would begin before the real one and reach its first character.
          obtain rfl : y = d := (List.cons_prefix_cons.1 hmark).1
          obtain ⟨rfl, htail⟩ := List.cons.inj hys
          apply hc
          rw [← htail]
          exact List.mem_append_right _ List.mem_cons_self
    rw [List.cons_append, splitAtMark, hfront]
    dsimp only
    rw [ih fun hi => h (hi.trans (List.suffix_cons _ _).isInfix)]
    rfl

/-- What stands before the first mark has no mark in it. -/
theorem not_infix_of_splitAtMark (hm : mark ≠ []) (h : splitAtMark mark cs = some (before, rest)) :
    ¬ mark <:+: before := by
  induction cs generalizing before with
  | nil =>
    rw [splitAtMark, if_neg hm] at h
    cases h
  | cons d cs ih =>
    have happend := append_of_splitAtMark h
    rw [splitAtMark] at h
    split at h
    · cases h
      rwa [List.infix_nil]
    · next hfront =>
      obtain ⟨⟨before', rest'⟩, hsplit, heq⟩ := Option.map_eq_some_iff.1 h
      cases heq
      rw [List.infix_cons_iff]
      rintro (⟨ys, hys⟩ | hi)
      · rw [← hys, List.append_assoc] at happend
        rw [happend, afterFront_append] at hfront
        cases hfront
      · exact ih hsplit hi

/-- A text is split at the first mark. -/
theorem splitAtMark_eq_some (hc : c ∉ mark) : splitAtMark (c :: mark) cs = some (before, rest) ↔
    cs = before ++ (c :: mark ++ rest) ∧ ¬ c :: mark <:+: before := by
  constructor
  · intro h
    exact ⟨append_of_splitAtMark h, not_infix_of_splitAtMark (List.cons_ne_nil _ _) h⟩
  · rintro ⟨rfl, h⟩
    exact splitAtMark_of_not_infix hc h

/-! ### Blanks -/

theorem dropWhile_of_notBlank (h : ∀ c ∈ cs, isBlank c = false) : cs.dropWhile isBlank = cs := by
  cases cs with
  | nil => rfl
  | cons c cs => simp [h c List.mem_cons_self]

/-- The blanks at both ends are dropped where nothing between them is blank. -/
theorem trim_append (hfront : ∀ c ∈ front, isBlank c = true) (h : ∀ c ∈ cs, isBlank c = false)
    (hback : ∀ c ∈ back, isBlank c = true) : trim (front ++ (cs ++ back)) = cs := by
  unfold trim
  rw [List.dropWhile_append_of_pos hfront]
  cases cs with
  | nil =>
    have hnil : back.dropWhile isBlank = [] := List.dropWhile_eq_nil_iff.2 hback
    simp [hnil]
  | cons c cs =>
    have hfirst : (c :: cs ++ back).dropWhile isBlank = c :: cs ++ back := by
      simp [h c List.mem_cons_self]
    have hlast : (c :: cs).reverse.dropWhile isBlank = (c :: cs).reverse :=
      dropWhile_of_notBlank fun d hd => h d (List.mem_reverse.1 hd)
    rw [hfirst, List.reverse_append, List.dropWhile_append_of_pos (by simpa using hback), hlast,
      List.reverse_reverse]

/-- Nothing but blanks is dropped. -/
theorem exists_trim (cs : List Char) : ∃ front back, cs = front ++ (trim cs ++ back) ∧
    (∀ c ∈ front, isBlank c = true) ∧ ∀ c ∈ back, isBlank c = true := by
  have hback := List.takeWhile_append_dropWhile (p := isBlank) (l := (cs.dropWhile isBlank).reverse)
  refine ⟨cs.takeWhile isBlank, ((cs.dropWhile isBlank).reverse.takeWhile isBlank).reverse,
    ?_, ?_, ?_⟩
  · rw [trim, ← List.reverse_append, hback, List.reverse_reverse, List.takeWhile_append_dropWhile]
  · intro c hc
    exact List.mem_takeWhile_imp hc
  · intro c hc
    exact List.mem_takeWhile_imp (List.mem_reverse.1 hc)

end Depot.Text
