import Depot.Json.Reader
import Depot.Proofs.Json.Ordered
import Depot.Proofs.Json.Scanning
/-!
# Reading what is written

A value that is not nested too deeply and whose members stand in key order is read back from its
indented text.
-/

namespace Depot

namespace Json

open Reading

variable {stack : List Frame} {ts : List Token}

/-! ### The machine -/

namespace Value

mutual

/-- How many containers stand in one another. -/
def depth : Value → Nat
  | .array items    => depthItems items + 1
  | .object members => depthMembers members + 1
  | _               => 0

/-- The greatest depth of the items. -/
def depthItems : List Value → Nat
  | []      => 0
  | v :: vs => max (depth v) (depthItems vs)

/-- The greatest depth of the members. -/
def depthMembers : List (String × Value) → Nat
  | []           => 0
  | (_, v) :: ms => max (depth v) (depthMembers ms)

end

/-- The first item of an array begins like any other. -/
theorem foldlM_firstItem (v : Value) (vs : List Value) :
    (itemTokens (v :: vs) ++ ts).foldlM step (.firstItem stack) =
      (itemTokens (v :: vs) ++ ts).foldlM step (.value (.array [] :: stack)) := by
  cases vs <;> cases v <;> rfl

/-- The first key of an object is read like any other. -/
theorem foldlM_firstKey (m : String × Value) (ms : List (String × Value)) :
    (memberTokens (m :: ms) ++ ts).foldlM step (.firstKey stack) =
      (memberTokens (m :: ms) ++ ts).foldlM step (.key [] stack) := by
  cases ms <;> rfl

mutual

/-- The machine reads a value from its tokens. -/
theorem foldlM_tokens (ts : List Token) (v : Value) (stack : List Frame)
    (hd : v.depth + stack.length ≤ maxDepth) :
    (v.tokens ++ ts).foldlM step (.value stack) = ts.foldlM step (.after v stack) := by
  match v with
  | .null => rfl
  | .bool b => rfl
  | .number n => rfl
  | .string s => rfl
  | .array [] =>
    have hlt : stack.length < maxDepth := Nat.lt_of_lt_of_le (by rw [depth]; omega) hd
    show (beginValue stack .openArray >>= _) = _
    rw [beginValue, if_pos hlt]
    rfl
  | .array (v :: vs) =>
    rw [depth] at hd
    have hitems := foldlM_itemTokens ts (v :: vs) (by simp) [] stack (by omega)
    show (beginValue stack .openArray >>= _) = _
    rw [beginValue, if_pos (by omega)]
    show (itemTokens (v :: vs) ++ ts).foldlM step (.firstItem stack) = _
    rw [foldlM_firstItem, hitems]
    rfl
  | .object [] =>
    have hlt : stack.length < maxDepth := Nat.lt_of_lt_of_le (by rw [depth]; omega) hd
    show (beginValue stack .openObject >>= _) = _
    rw [beginValue, if_pos hlt]
    rfl
  | .object (m :: ms) =>
    rw [depth] at hd
    have hmembers := foldlM_memberTokens ts (m :: ms) (by simp) [] stack (by omega)
    show (beginValue stack .openObject >>= _) = _
    rw [beginValue, if_pos (by omega)]
    show (memberTokens (m :: ms) ++ ts).foldlM step (.firstKey stack) = _
    rw [foldlM_firstKey, hmembers]
    rfl

/-- The machine reads the items of an array up to its end. -/
theorem foldlM_itemTokens (ts : List Token) (vs : List Value) (hne : vs ≠ []) (acc : List Value)
    (stack : List Frame) (hd : depthItems vs + (stack.length + 1) ≤ maxDepth) :
    (itemTokens vs ++ ts).foldlM step (.value (.array acc :: stack)) =
      ts.foldlM step (.after (.array (acc.reverse ++ vs)) stack) := by
  match vs with
  | [v] =>
    rw [depthItems] at hd
    have hv := foldlM_tokens (.closeArray :: ts) v (.array acc :: stack)
      (by rw [List.length_cons]; omega)
    rw [itemTokens, List.append_assoc, List.singleton_append, hv]
    show ts.foldlM step (.after (.array (v :: acc).reverse) stack) = _
    rw [List.reverse_cons]
  | v :: w :: vs =>
    rw [depthItems] at hd
    have hv := foldlM_tokens (.comma :: (itemTokens (w :: vs) ++ ts)) v (.array acc :: stack)
      (by rw [List.length_cons]; omega)
    have hvs := foldlM_itemTokens ts (w :: vs) (by simp) (v :: acc) stack (by omega)
    rw [itemTokens, List.append_assoc, List.cons_append, hv]
    show (itemTokens (w :: vs) ++ ts).foldlM step (.value (.array (v :: acc) :: stack)) = _
    rw [hvs, List.reverse_cons, List.append_assoc, List.singleton_append]

theorem foldlM_memberTokens (ts : List Token) (ms : List (String × Value)) (hne : ms ≠ [])
    (acc : List (String × Value)) (stack : List Frame)
    (hd : depthMembers ms + (stack.length + 1) ≤ maxDepth) :
    (memberTokens ms ++ ts).foldlM step (.key acc stack) =
      ts.foldlM step (.after (.object (acc.reverse ++ ms)) stack) := by
  match ms with
  | [(k, v)] =>
    rw [depthMembers] at hd
    have hv := foldlM_tokens (.closeObject :: ts) v (.object acc k :: stack)
      (by rw [List.length_cons]; omega)
    show (v.tokens ++ [Token.closeObject] ++ ts).foldlM step (.value (.object acc k :: stack)) = _
    rw [List.append_assoc, List.singleton_append, hv]
    show ts.foldlM step (.after (.object ((k, v) :: acc).reverse) stack) = _
    rw [List.reverse_cons]
  | (k, v) :: m :: ms =>
    rw [depthMembers] at hd
    have hv := foldlM_tokens (.comma :: (memberTokens (m :: ms) ++ ts)) v
      (.object acc k :: stack) (by rw [List.length_cons]; omega)
    have hms := foldlM_memberTokens ts (m :: ms) (by simp) ((k, v) :: acc) stack (by omega)
    show (v.tokens ++ Token.comma :: memberTokens (m :: ms) ++ ts).foldlM step
      (.value (.object acc k :: stack)) = _
    rw [List.append_assoc, List.cons_append, hv]
    show (memberTokens (m :: ms) ++ ts).foldlM step (.key ((k, v) :: acc) stack) = _
    rw [hms, List.reverse_cons, List.append_assoc, List.singleton_append]

end

/-- A value is read from its tokens. -/
theorem ofTokens?_tokens {v : Value} (hd : v.depth ≤ maxDepth) : ofTokens? v.tokens = some v := by
  have h := foldlM_tokens [] v [] hd
  rw [List.append_nil] at h
  unfold ofTokens?
  rw [h]
  rfl

/-- A value is read from its indented text. -/
theorem verbatimBytes?_prettyText {v : Value} (hd : v.depth ≤ maxDepth) (hv : v.Legible) :
    verbatimBytes? v.prettyText.toUTF8 = some v := by
  have hscan : Token.scan? v.prettyText.toList = some v.tokens := by
    have hnil : Token.Apart [] := by simp [Token.Apart]
    have h := scans_writePretty v 0 hv hnil Token.scans_nil
    rw [List.append_nil, List.append_nil] at h
    unfold prettyText
    rw [String.toList_ofList]
    exact h.scan?
  unfold verbatimBytes?
  rw [Text.ofBytes?_toUTF8]
  show verbatim? v.prettyText = _
  unfold verbatim?
  rw [hscan]
  exact ofTokens?_tokens hd

end Value

/-! ### Whole texts -/

/-- A value is read back from its indented text. -/
theorem Value.ofText?_prettyText {v : Value} (ho : v.Ordered) (hd : v.depth ≤ Reading.maxDepth)
    (hv : v.Legible) : ofText? v.prettyText = some v := by
  have hverbatim := verbatimBytes?_prettyText hd hv
  unfold verbatimBytes? at hverbatim
  rw [Text.ofBytes?_toUTF8] at hverbatim
  have hread : verbatim? v.prettyText = some v := hverbatim
  rw [ofText?, hread, Option.map_some, sorted_of_ordered v ho]

/-- An object is read back from its indented text. -/
theorem Object.ofBytes?_prettyText {o : Object} (ho : o.Ordered)
    (hd : (Value.object o).depth ≤ Reading.maxDepth) (hv : (Value.object o).Legible) :
    Object.ofBytes? (Value.object o).prettyText.toUTF8 = some o := by
  unfold Object.ofBytes?
  rw [Value.verbatimBytes?_prettyText hd hv]
  show (Value.object o).sorted.object? = _
  rw [Value.sorted_of_ordered _ ho]
  rfl

end Json

end Depot
