import Mathlib.Tactic.Common
import Depot.Json.Printer
import Depot.Json.Token
/-!
# Scanning what is written

A text that has been written from a value falls into the tokens of the value. A number is the only
token that goes on as long as it can, so that something else must follow it.
-/

namespace Depot.Json

variable {cs rest : List Char} {ts : List Token} {t : Token} {c : Char}

/-! ### Strings -/

namespace Token

/-- The piece that a character of a string is written as. -/
def pieceOf (c : Char) : Piece :=
  if c.toNat < 0x20 ∧ c ≠ '\x08' ∧ c ≠ '\x0c' ∧ c ≠ '\n' ∧ c ≠ '\r' ∧ c ≠ '\t' then .unit c.toNat
  else .char c

theorem hexValue?_digit {n : Nat} (h : n < 16) : hexValue? (Hex.digit n.toUInt8) = some n := by
  have hall : ∀ n : Fin 16, hexValue? (Hex.digit n.val.toUInt8) = some n.val := by decide
  exact hall ⟨n, h⟩

theorem unit?_control {n : Nat} (h : n < 0x20) :
    unit? '0' '0' (Hex.digit (n / 16).toUInt8) (Hex.digit (n % 16).toUInt8) = some n := by
  unfold unit?
  rw [hexValue?_digit (by omega), hexValue?_digit (by omega)]
  have hzero : hexValue? '0' = some 0 := by decide
  rw [hzero]
  show some (((0 * 16 + 0) * 16 + n / 16) * 16 + n % 16) = some n
  simp only [Nat.zero_mul, Nat.zero_add, Nat.div_add_mod']

theorem pieces?_letter {e : Char} (hu : e ≠ 'u') (he : letterEscape? e = some c) (cs : List Char) :
    pieces? ('\\' :: e :: cs) = (pieces? cs).map fun (ps, rest) => (.char c :: ps, rest) := by
  rw [pieces?.eq_def]
  simp only [if_neg hu, he]
  cases pieces? cs <;> rfl

theorem pieces?_unit {n : Nat} {e₁ e₂ e₃ e₄ : Char} (h : unit? e₁ e₂ e₃ e₄ = some n)
    (cs : List Char) : pieces? ('\\' :: 'u' :: e₁ :: e₂ :: e₃ :: e₄ :: cs) =
      (pieces? cs).map fun (ps, rest) => (.unit n :: ps, rest) := by
  rw [pieces?.eq_def]
  simp only [if_true, h]
  cases pieces? cs <;> rfl

/-- A character that stands for itself. -/
theorem pieces?_plain (hq : c ≠ '"') (hb : c ≠ '\\') (hc : ¬c.toNat < 0x20) (cs : List Char) :
    pieces? (c :: cs) = (pieces? cs).map fun (ps, rest) => (.char c :: ps, rest) := by
  rw [pieces?.eq_def]
  split
  · next h => cases h
  · next h =>
    cases h
    exact absurd rfl hq
  · next h =>
    cases h
    exact absurd rfl hb
  · next h =>
    cases h
    rw [if_neg (by simp [hc, hb])]
    cases pieces? cs <;> rfl

/-- A character is read back as its piece. -/
theorem pieces?_escapeChar (c : Char) (cs : List Char) : pieces? (escapeChar c ++ cs) =
    (pieces? cs).map fun (ps, rest) => (pieceOf c :: ps, rest) := by
  unfold escapeChar
  split_ifs with h₁ h₂ h₃ h₄ h₅ h₆ h₇ h₈
  · subst h₁
    exact pieces?_letter (by decide) (by decide) cs
  · subst h₂
    exact pieces?_letter (by decide) (by decide) cs
  · subst h₃
    exact pieces?_letter (by decide) (by decide) cs
  · subst h₄
    exact pieces?_letter (by decide) (by decide) cs
  · subst h₅
    exact pieces?_letter (by decide) (by decide) cs
  · subst h₆
    exact pieces?_letter (by decide) (by decide) cs
  · subst h₇
    exact pieces?_letter (by decide) (by decide) cs
  · unfold pieceOf
    rw [if_pos ⟨h₈, h₃, h₄, h₅, h₆, h₇⟩]
    exact pieces?_unit (unit?_control h₈) cs
  · unfold pieceOf
    rw [if_neg (fun h => h₈ h.1)]
    exact pieces?_plain h₁ h₂ h₈ cs

theorem pieces?_escaped (s cs : List Char) : pieces? (s.flatMap escapeChar ++ '"' :: cs) =
    some (s.map pieceOf, cs) := by
  induction s with
  | nil => rfl
  | cons c s ih =>
    rw [List.flatMap_cons, List.append_assoc, pieces?_escapeChar, ih]
    rfl

theorem join?_cons_pieceOf (c : Char) (ps : List Piece) :
    join? (pieceOf c :: ps) = (join? ps).map (c :: ·) := by
  unfold pieceOf
  split
  · next h =>
    -- no control character is a surrogate
    rw [join?.eq_def]
    dsimp only
    rw [if_neg (by omega), if_neg (by omega), Char.ofNat_toNat]
  · rfl

theorem join?_pieceOf (s : List Char) : join? (s.map pieceOf) = some s := by
  induction s with
  | nil => rfl
  | cons c s ih =>
    rw [List.map_cons, join?_cons_pieceOf, ih]
    rfl

/-- A string literal is read back as the string. -/
theorem next?_writeString (s : String) (cs : List Char) :
    next? (writeString s ++ cs) = some (.string s, cs) := by
  have hs : string? (s.toList.flatMap escapeChar ++ '"' :: cs) = some (s, cs) := by
    unfold string?
    rw [pieces?_escaped]
    show (join? (s.toList.map pieceOf) >>= _) = _
    rw [join?_pieceOf]
    show some (String.ofList s.toList, cs) = _
    rw [String.ofList_toList]
  unfold writeString
  rw [List.cons_append, List.append_assoc]
  show Option.map _ (string? _) = _
  rw [List.singleton_append, hs]
  rfl

/-! ### Numbers -/

/-- A number whose literal is read back as the number. -/
structure Readable (n : Number) : Prop where
  numeric : ∀ c ∈ n.write, isNumeric c = true
  read : Number.ofChars? n.write = some n

/-- A text that does not go on with a number. -/
def Apart (cs : List Char) : Prop := ∀ c, cs.head? = some c → isNumeric c = false

theorem takeWhile_numeric {w : List Char} (hw : ∀ c ∈ w, isNumeric c = true) (hc : Apart cs) :
    (w ++ cs).takeWhile isNumeric = w ∧ (w ++ cs).dropWhile isNumeric = cs := by
  have hcs : cs.takeWhile isNumeric = [] ∧ cs.dropWhile isNumeric = cs := by
    cases cs with
    | nil => exact ⟨rfl, rfl⟩
    | cons c cs => simp [hc c rfl]
  rw [List.takeWhile_append_of_pos hw, List.dropWhile_append_of_pos hw, hcs.1, hcs.2,
    List.append_nil]
  exact ⟨rfl, rfl⟩

/-- What begins with a character of numbers is read as a number. -/
theorem next?_numeric (hc : isNumeric c = true) (cs : List Char) : next? (c :: cs) = do
    let n ← Number.ofChars? ((c :: cs).takeWhile isNumeric)
    return (.number n, (c :: cs).dropWhile isNumeric) := by
  rw [next?.eq_def]
  split <;> first
    | rfl
    | next h =>
      -- no punctuation, word or quote begins with such a character
      cases h
      cases hc

theorem exists_cons_of_readable {n : Number} (hn : Readable n) : ∃ c cs, n.write = c :: cs := by
  cases hw : n.write with
  | nil =>
    have := hn.read
    rw [hw] at this
    cases this
  | cons c cs => exact ⟨c, cs, rfl⟩

theorem next?_number {n : Number} (hn : Readable n) (hc : Apart cs) :
    next? (n.write ++ cs) = some (.number n, cs) := by
  obtain ⟨htake, hdrop⟩ := takeWhile_numeric hn.numeric hc
  obtain ⟨c, w, hw⟩ := exists_cons_of_readable hn
  rw [hw] at htake hdrop ⊢
  rw [List.cons_append] at htake hdrop ⊢
  rw [next?_numeric (hn.numeric c (by simp [hw])), htake, hdrop, ← hw, hn.read]
  rfl

/-! ### Texts -/

/-- A text falls into tokens: it does with every number of steps that is larger than its length. -/
def Scans (cs : List Char) (ts : List Token) : Prop :=
  ∀ fuel, cs.length < fuel → scanWith fuel cs = some ts

theorem Scans.scan? (h : Scans cs ts) : scan? cs = some ts := h _ (Nat.lt_succ_self _)

theorem scans_nil : Scans [] [] := by
  intro fuel h
  cases fuel with
  | zero => cases h
  | succ fuel => rfl

/-- Blanks do not count. -/
theorem Scans.space (hc : isSpace c = true) (h : Scans cs ts) : Scans (c :: cs) ts := by
  intro fuel hf
  have hlt : cs.length < fuel := Nat.lt_of_succ_lt hf
  cases fuel with
  | zero => cases hlt
  | succ fuel =>
    have heq : scanWith (fuel + 1) (c :: cs) = scanWith (fuel + 1) cs := by
      rw [scanWith, scanWith, List.dropWhile_cons_of_pos hc]
    rw [heq, h _ hlt]

theorem Scans.spaces {w : List Char} (hw : ∀ c ∈ w, isSpace c = true) (h : Scans cs ts) :
    Scans (w ++ cs) ts := by
  induction w with
  | nil => exact h
  | cons c w ih =>
    apply Scans.space (hw c List.mem_cons_self)
    exact ih fun c hc => hw c (List.mem_cons_of_mem _ hc)

/-- A text that begins with a token falls into it and what follows. -/
theorem Scans.token (hc : isSpace c = false) (ht : next? (c :: cs) = some (t, rest))
    (hlen : rest.length ≤ cs.length) (h : Scans rest ts) : Scans (c :: cs) (t :: ts) := by
  intro fuel hf
  cases fuel with
  | zero => cases hf
  | succ fuel =>
    rw [scanWith, List.dropWhile_cons_of_neg (by simp [hc])]
    dsimp only
    rw [ht]
    show (scanWith fuel rest >>= fun ts => some (t :: ts)) = _
    rw [h fuel (Nat.lt_of_le_of_lt hlen (Nat.lt_of_succ_lt_succ hf))]
    rfl

/-- A text that begins with the text of a token falls into it and what follows. -/
theorem Scans.word {w : List Char} (hc : isSpace c = false)
    (ht : next? (c :: (w ++ cs)) = some (t, cs)) (h : Scans cs ts) :
    Scans (c :: (w ++ cs)) (t :: ts) := by
  apply Scans.token hc ht _ h
  rw [List.length_append]
  omega

/-- A sign falls into one token. -/
theorem Scans.sign (hc : isSpace c = false) (ht : next? (c :: cs) = some (t, cs))
    (h : Scans cs ts) : Scans (c :: cs) (t :: ts) := Scans.token hc ht (Nat.le_refl _) h

theorem Scans.number {n : Number} (hn : Readable n) (hc : Apart cs) (h : Scans cs ts) :
    Scans (n.write ++ cs) (.number n :: ts) := by
  have ht := next?_number hn hc
  obtain ⟨c, w, hw⟩ := exists_cons_of_readable hn
  rw [hw] at ht ⊢
  refine Scans.word ?_ ht h
  have hnum := hn.numeric c (by simp [hw])
  by_contra hs
  unfold isSpace at hs
  simp only [Bool.not_eq_false, Bool.or_eq_true, decide_eq_true_eq] at hs
  rcases hs with ((rfl | rfl) | rfl) | rfl <;> cases hnum

end Token

/-! ### Values -/

namespace Value

open Token

mutual

/-- The tokens of a value. -/
def tokens : Value → List Token
  | .null           => [.null]
  | .bool b         => [.bool b]
  | .number n       => [.number n]
  | .string s       => [.string s]
  | .array items    => .openArray :: itemTokens items
  | .object members => .openObject :: memberTokens members

/-- The tokens of the items of an array, with the closing bracket. -/
def itemTokens : List Value → List Token
  | []           => [.closeArray]
  | [v]          => tokens v ++ [.closeArray]
  | v :: w :: vs => tokens v ++ .comma :: itemTokens (w :: vs)

/-- The tokens of the members of an object, with the closing brace. -/
def memberTokens : List (String × Value) → List Token
  | []                => [.closeObject]
  | [(k, v)]          => .string k :: .colon :: (tokens v ++ [.closeObject])
  | (k, v) :: m :: ms => .string k :: .colon :: (tokens v ++ .comma :: memberTokens (m :: ms))

end

mutual

/-- Every number is read back. -/
def Legible : Value → Prop
  | .number n       => Readable n
  | .array items    => LegibleItems items
  | .object members => LegibleMembers members
  | _               => True

/-- `Legible` of each item. -/
def LegibleItems : List Value → Prop
  | []      => True
  | v :: vs => Legible v ∧ LegibleItems vs

/-- `Legible` of each member. -/
def LegibleMembers : List (String × Value) → Prop
  | []           => True
  | (_, v) :: ms => Legible v ∧ LegibleMembers ms

end

theorem isSpace_newLine {indent : Nat} : ∀ c ∈ newLine indent, isSpace c = true := by
  intro c hc
  rcases List.mem_cons.1 hc with rfl | hc
  · rfl
  · rw [List.eq_of_mem_replicate hc]
    rfl

theorem apart_newLine {indent : Nat} : Apart (newLine indent ++ cs) := by
  intro c hc
  cases hc
  rfl

theorem apart_cons (hc : isNumeric c = false) : Apart (c :: cs) := by
  intro c' hc'
  cases hc'
  exact hc

mutual

/-- The indented form of a value falls into its tokens. -/
theorem scans_writePretty {rest : List Char} {ts : List Token} (v : Value) (indent : Nat)
    (hv : v.Legible) (hr : Apart rest) (h : Scans rest ts) :
    Scans (v.writePretty indent ++ rest) (v.tokens ++ ts) := by
  match v with
  | .null => exact Scans.word (w := "ull".toList) rfl rfl h
  | .bool true => exact Scans.word (w := "rue".toList) rfl rfl h
  | .bool false => exact Scans.word (w := "alse".toList) rfl rfl h
  | .number n => exact Scans.number hv hr h
  | .string s => exact Scans.word rfl (next?_writeString s rest) h
  | .array [] => exact Scans.sign rfl rfl (Scans.sign rfl rfl h)
  | .array (v :: vs) =>
    have hitems := scans_writePrettyItems (v :: vs) (by simp) (indent + 2) indent hv h
    simp only [writePretty, tokens, List.cons_append, List.append_assoc, List.nil_append]
    exact Scans.sign rfl rfl hitems
  | .object [] => exact Scans.sign rfl rfl (Scans.sign rfl rfl h)
  | .object (m :: ms) =>
    have hmembers := scans_writePrettyMembers (m :: ms) (by simp) (indent + 2) indent hv h
    simp only [writePretty, tokens, List.cons_append, List.append_assoc, List.nil_append]
    exact Scans.sign rfl rfl hmembers

/-- The indented items of an array, up to its end, fall into their tokens. -/
theorem scans_writePrettyItems {rest : List Char} {ts : List Token} (vs : List Value)
    (hne : vs ≠ []) (indent outer : Nat) (hv : LegibleItems vs) (h : Scans rest ts) :
    Scans (writePrettyItems indent vs ++ (newLine outer ++ ']' :: rest)) (itemTokens vs ++ ts) := by
  match vs with
  | [v] =>
    have hend : Scans (newLine outer ++ ']' :: rest) (.closeArray :: ts) :=
      Scans.spaces isSpace_newLine (Scans.sign rfl rfl h)
    have hv' := scans_writePretty v indent hv.1 apart_newLine hend
    simp only [writePrettyItems, itemTokens, List.append_assoc, List.singleton_append]
    exact Scans.spaces isSpace_newLine hv'
  | v :: w :: vs =>
    have hrest := scans_writePrettyItems (w :: vs) (by simp) indent outer hv.2 h
    have hcomma := Scans.sign (c := ',') rfl rfl hrest
    have hv' := scans_writePretty v indent hv.1 (apart_cons rfl) hcomma
    simp only [writePrettyItems, itemTokens, List.append_assoc, List.cons_append]
    exact Scans.spaces isSpace_newLine hv'

theorem scans_writePrettyMembers {rest : List Char} {ts : List Token}
    (ms : List (String × Value)) (hne : ms ≠ []) (indent outer : Nat) (hm : LegibleMembers ms)
    (h : Scans rest ts) :
    Scans (writePrettyMembers indent ms ++ (newLine outer ++ '\x7d' :: rest))
      (memberTokens ms ++ ts) := by
  match ms with
  | [(k, v)] =>
    have hend : Scans (newLine outer ++ '\x7d' :: rest) (.closeObject :: ts) :=
      Scans.spaces isSpace_newLine (Scans.sign rfl rfl h)
    have hv := scans_writePretty v indent hm.1 apart_newLine hend
    have hcolon := Scans.sign (c := ':') rfl rfl (Scans.space (c := ' ') rfl hv)
    have hk := Scans.word rfl (next?_writeString k _) hcolon
    simp only [writePrettyMembers, memberTokens, List.append_assoc, List.cons_append,
      List.nil_append]
    exact Scans.spaces isSpace_newLine hk
  | (k, v) :: m :: ms =>
    have hrest := scans_writePrettyMembers (m :: ms) (by simp) indent outer hm.2 h
    have hcomma := Scans.sign (c := ',') rfl rfl hrest
    have hv := scans_writePretty v indent hm.1 (apart_cons rfl) hcomma
    have hcolon := Scans.sign (c := ':') rfl rfl (Scans.space (c := ' ') rfl hv)
    have hk := Scans.word rfl (next?_writeString k _) hcolon
    simp only [writePrettyMembers, memberTokens, List.append_assoc, List.cons_append]
    exact Scans.spaces isSpace_newLine hk

end

end Value

end Depot.Json
