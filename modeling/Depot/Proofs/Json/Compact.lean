import Depot.Proofs.Json.RoundTrip
/-!
# Reading compact texts

The compact text of a value falls into the same tokens as its indented text. The machine that reads
them stops at the first container that is nested too deeply, so that a value is read back exactly
if it is not.
-/

namespace Depot.Json

open Reading

variable {stack : List Frame} {ts : List Token}

namespace Value

/-! ### Tokens -/

section

open Token

mutual

/-- The compact form of a value falls into its tokens. -/
theorem scans_write {rest : List Char} {ts : List Token} (v : Value) (hv : v.Legible)
    (hr : Apart rest) (h : Scans rest ts) : Scans (v.write ++ rest) (v.tokens ++ ts) := by
  match v with
  | .null => exact Scans.word (w := "ull".toList) rfl rfl h
  | .bool true => exact Scans.word (w := "rue".toList) rfl rfl h
  | .bool false => exact Scans.word (w := "alse".toList) rfl rfl h
  | .number n => exact Scans.number hv hr h
  | .string s => exact Scans.word rfl (next?_writeString s rest) h
  | .array vs => exact Scans.sign rfl rfl (scans_writeItems vs hv h)
  | .object ms => exact Scans.sign rfl rfl (scans_writeMembers ms hv h)

/-- The items of an array, up to its end, fall into their tokens. -/
theorem scans_writeItems {rest : List Char} {ts : List Token} (vs : List Value)
    (hv : LegibleItems vs) (h : Scans rest ts) :
    Scans (writeItems vs ++ rest) (itemTokens vs ++ ts) := by
  match vs with
  | [] => exact Scans.sign rfl rfl h
  | [v] =>
    have hend : Scans (']' :: rest) (.closeArray :: ts) := Scans.sign rfl rfl h
    have hv' := scans_write v hv.1 (apart_cons rfl) hend
    simpa only [writeItems, itemTokens, List.append_assoc, List.singleton_append] using hv'
  | v :: w :: vs =>
    have hrest := scans_writeItems (w :: vs) hv.2 h
    have hcomma := Scans.sign (c := ',') rfl rfl hrest
    have hv' := scans_write v hv.1 (apart_cons rfl) hcomma
    simpa only [writeItems, itemTokens, List.append_assoc, List.cons_append] using hv'

theorem scans_writeMembers {rest : List Char} {ts : List Token} (ms : List (String × Value))
    (hm : LegibleMembers ms) (h : Scans rest ts) :
    Scans (writeMembers ms ++ rest) (memberTokens ms ++ ts) := by
  match ms with
  | [] => exact Scans.sign rfl rfl h
  | [(k, v)] =>
    have hend : Scans ('\x7d' :: rest) (.closeObject :: ts) := Scans.sign rfl rfl h
    have hv := scans_write v hm.1 (apart_cons rfl) hend
    have hcolon := Scans.sign (c := ':') rfl rfl hv
    have hk := Scans.word rfl (next?_writeString k _) hcolon
    simpa only [writeMembers, memberTokens, writeString, List.append_assoc, List.cons_append,
      List.nil_append] using hk
  | (k, v) :: m :: ms =>
    have hrest := scans_writeMembers (m :: ms) hm.2 h
    have hcomma := Scans.sign (c := ',') rfl rfl hrest
    have hv := scans_write v hm.1 (apart_cons rfl) hcomma
    have hcolon := Scans.sign (c := ':') rfl rfl hv
    have hk := Scans.word rfl (next?_writeString k _) hcolon
    simpa only [writeMembers, memberTokens, writeString, List.append_assoc, List.cons_append,
      List.nil_append] using hk

end

end

/-- A text that is not empty takes some bytes. -/
theorem size_text_ne_zero {v : Value} (h : v.write ≠ []) : v.text.toUTF8.size ≠ 0 := by
  intro hsize
  have hempty : v.text = "" := String.utf8ByteSize_eq_zero_iff.1 hsize
  unfold text at hempty
  apply h
  rw [← String.toList_ofList (l := v.write), hempty]
  rfl

/-- Reading a compact text is reading the tokens of its value. -/
theorem verbatimBytes?_text_eq {v : Value} (hv : v.Legible) :
    verbatimBytes? v.text.toUTF8 = ofTokens? v.tokens := by
  have hscan : Token.scan? v.text.toList = some v.tokens := by
    have hnil : Token.Apart [] := by simp [Token.Apart]
    have h := scans_write v hv hnil Token.scans_nil
    rw [List.append_nil, List.append_nil] at h
    unfold text
    rw [String.toList_ofList]
    exact h.scan?
  unfold verbatimBytes?
  rw [Text.ofBytes?_toUTF8]
  show verbatim? v.text = _
  unfold verbatim?
  rw [hscan]
  rfl

/-! ### Values that are too deep -/

mutual

/-- The machine refuses a value in which too many containers are open at a time. -/
theorem foldlM_tokens_of_deep (ts : List Token) (v : Value) (stack : List Frame)
    (hs : stack.length ≤ maxDepth) (hd : maxDepth < v.depth + stack.length) :
    (v.tokens ++ ts).foldlM step (.value stack) = none := by
  match v with
  | .null | .bool _ | .number _ | .string _ =>
    rw [depth] at hd
    · omega
    all_goals exact nofun
  | .array vs =>
    rw [depth] at hd
    show (beginValue stack .openArray >>= _) = _
    rw [beginValue]
    split
    · -- There is room for one more container, so it is an item of it that is too deep.
      next hlt =>
      match vs with
      | [] =>
        rw [depthItems] at hd
        omega
      | v :: vs =>
        show (itemTokens (v :: vs) ++ ts).foldlM step (.firstItem stack) = _
        rw [foldlM_firstItem]
        exact foldlM_itemTokens_of_deep ts (v :: vs) [] stack hlt (by omega)
    · rfl
  | .object ms =>
    rw [depth] at hd
    show (beginValue stack .openObject >>= _) = _
    rw [beginValue]
    split
    · -- There is room for one more container, so it is a member of it that is too deep.
      next hlt =>
      match ms with
      | [] =>
        rw [depthMembers] at hd
        omega
      | m :: ms =>
        show (memberTokens (m :: ms) ++ ts).foldlM step (.firstKey stack) = _
        rw [foldlM_firstKey]
        exact foldlM_memberTokens_of_deep ts (m :: ms) [] stack hlt (by omega)
    · rfl

/-- The items before the first one that is too deep are read. -/
theorem foldlM_itemTokens_of_deep (ts : List Token) (vs : List Value) (acc : List Value)
    (stack : List Frame) (hs : stack.length < maxDepth)
    (hd : maxDepth < depthItems vs + (stack.length + 1)) :
    (itemTokens vs ++ ts).foldlM step (.value (.array acc :: stack)) = none := by
  match vs with
  | [] =>
    rw [depthItems] at hd
    omega
  | [v] =>
    rw [depthItems, depthItems] at hd
    rw [itemTokens, List.append_assoc]
    exact foldlM_tokens_of_deep _ v (.array acc :: stack) hs (by rw [List.length_cons]; omega)
  | v :: w :: vs =>
    rw [depthItems] at hd
    rw [itemTokens, List.append_assoc]
    by_cases hv : v.depth + (stack.length + 1) ≤ maxDepth
    · rw [foldlM_tokens _ v (.array acc :: stack) (by rw [List.length_cons]; exact hv)]
      exact foldlM_itemTokens_of_deep ts (w :: vs) (v :: acc) stack hs (by omega)
    · exact foldlM_tokens_of_deep _ v (.array acc :: stack) hs (by rw [List.length_cons]; omega)

theorem foldlM_memberTokens_of_deep (ts : List Token) (ms : List (String × Value))
    (acc : List (String × Value)) (stack : List Frame) (hs : stack.length < maxDepth)
    (hd : maxDepth < depthMembers ms + (stack.length + 1)) :
    (memberTokens ms ++ ts).foldlM step (.key acc stack) = none := by
  match ms with
  | [] =>
    rw [depthMembers] at hd
    omega
  | [(k, v)] =>
    rw [depthMembers, depthMembers] at hd
    show (v.tokens ++ [Token.closeObject] ++ ts).foldlM step (.value (.object acc k :: stack)) = _
    rw [List.append_assoc]
    exact foldlM_tokens_of_deep _ v (.object acc k :: stack) hs (by rw [List.length_cons]; omega)
  | (k, v) :: m :: ms =>
    rw [depthMembers] at hd
    show (v.tokens ++ Token.comma :: memberTokens (m :: ms) ++ ts).foldlM step
      (.value (.object acc k :: stack)) = _
    rw [List.append_assoc]
    by_cases hv : v.depth + (stack.length + 1) ≤ maxDepth
    · rw [foldlM_tokens _ v (.object acc k :: stack) (by rw [List.length_cons]; exact hv)]
      exact foldlM_memberTokens_of_deep ts (m :: ms) ((k, v) :: acc) stack hs (by omega)
    · exact foldlM_tokens_of_deep _ v (.object acc k :: stack) hs
        (by rw [List.length_cons]; omega)

end

/-- A value is read back from its compact text exactly if it is not nested too deeply. -/
theorem verbatimBytes?_text {v : Value} (hv : v.Legible) :
    verbatimBytes? v.text.toUTF8 = if v.depth ≤ maxDepth then some v else none := by
  rw [verbatimBytes?_text_eq hv]
  split
  · next hd => exact ofTokens?_tokens hd
  · next hd =>
    have h := foldlM_tokens_of_deep [] v [] (Nat.zero_le _) (Nat.lt_of_not_le hd)
    rw [List.append_nil] at h
    unfold ofTokens?
    rw [h]
    rfl

end Value

/-- An object is read back from its compact text. -/
theorem Object.ofBytes?_text {o : Object} (ho : o.Ordered)
    (hd : (Value.object o).depth ≤ maxDepth) (hv : (Value.object o).Legible) :
    Object.ofBytes? (Value.object o).text.toUTF8 = some o := by
  unfold Object.ofBytes?
  rw [Value.verbatimBytes?_text hv, if_pos hd]
  show (Value.object o).sorted.object? = _
  rw [Value.sorted_of_ordered _ ho]
  rfl

end Depot.Json
