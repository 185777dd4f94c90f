import Mathlib.Tactic.Common
import Depot.Element.Address
import Depot.Proofs.Text.Basic
/-!
# Base64 there and back

Reading the padded form of some bytes gives the bytes, also where blanks and the symbols of the
other alphabet are allowed: there are none in it.
-/

namespace Depot

namespace Base64

variable {a b c : UInt8} {bs bytes : List UInt8} {n offset : Nat}

/-! ### Symbols -/

/-- The code of the symbol of a six-bit value. -/
def code (n : Nat) : UInt8 := (symbol n).toNat.toUInt8

theorem utf8_symbol (h : n < 64) : String.utf8EncodeChar (symbol n) = [code n] := by
  have hall : ∀ n : Fin 64, String.utf8EncodeChar (symbol n) = [code n] := by decide +kernel
  exact hall ⟨n, h⟩

@[simp] theorem value?_code (h : n < 64) : value? (code n) = some n := by
  have hall : ∀ n : Fin 64, value? (code n) = some n.val := by decide +kernel
  exact hall ⟨n, h⟩

theorem code_ne_pad (h : n < 64) : code n ≠ pad := by
  intro hp
  have := value?_code h
  rw [hp] at this
  cases this

/-! ### The last quad -/

theorem lastSymbols_code (h : n < 64) (place : Nat) : lastSymbols offset place none (code n :: bs) =
    (lastSymbols offset (place + 1) none bs).map (code n :: ·) := by
  rw [lastSymbols, if_neg (code_ne_pad h)]
  simp only [value?_code h]

variable {v w x y : Nat}

theorem decodeLast_two (hv : v < 64) (hw : w < 64) (hlast : w % 16 = 0) :
    decodeLast offset [code v, code w, pad, pad] = .ok [.ofNat (v * 4 + w / 16)] := by
  have hs : lastSymbols offset 0 none [code v, code w, pad, pad] = .ok [code v, code w] := by
    rw [lastSymbols_code hv, lastSymbols_code hw]
    rfl
  unfold decodeLast
  rw [hs]
  simp [hv, hw, hlast, bind, Except.bind, pure, Except.pure]

theorem decodeLast_three (hv : v < 64) (hw : w < 64) (hx : x < 64) (hlast : x % 4 = 0) :
    decodeLast offset [code v, code w, code x, pad] =
      .ok [.ofNat (v * 4 + w / 16), .ofNat (w % 16 * 16 + x / 4)] := by
  have hs : lastSymbols offset 0 none [code v, code w, code x, pad] =
      .ok [code v, code w, code x] := by
    rw [lastSymbols_code hv, lastSymbols_code hw, lastSymbols_code hx]
    rfl
  unfold decodeLast
  rw [hs]
  simp [hv, hw, hx, hlast, bind, Except.bind, pure, Except.pure]

theorem decodeLast_four (hv : v < 64) (hw : w < 64) (hx : x < 64) (hy : y < 64) :
    decodeLast offset [code v, code w, code x, code y] =
      .ok [.ofNat (v * 4 + w / 16), .ofNat (w % 16 * 16 + x / 4), .ofNat (x % 4 * 64 + y)] := by
  have hs : lastSymbols offset 0 none [code v, code w, code x, code y] =
      .ok [code v, code w, code x, code y] := by
    rw [lastSymbols_code hv, lastSymbols_code hw, lastSymbols_code hx, lastSymbols_code hy]
    rfl
  unfold decodeLast
  rw [hs]
  simp [hv, hw, hx, hy, bind, Except.bind, pure, Except.pure]

/-- A quad that is not the last. -/
theorem decodeFrom_quad (hv : v < 64) (hw : w < 64) (hx : x < 64) (hy : y < 64) (hbs : bs ≠ []) :
    decodeFrom offset (code v :: code w :: code x :: code y :: bs) =
      (decodeFrom (offset + 4) bs).map fun bytes => .ofNat (v * 4 + w / 16) ::
        .ofNat (w % 16 * 16 + x / 4) :: .ofNat (x % 4 * 64 + y) :: bytes := by
  cases bs with
  | nil => exact absurd rfl hbs
  | cons e rest =>
    have hvalues : values offset [code v, code w, code x, code y] = .ok [v, w, x, y] := by
      simp [values, hv, hw, hx, hy, Except.map]
    rw [decodeFrom, hvalues]

/-! ### There and back -/

theorem utf8_cons_symbol (h : n < 64) (cs : List Char) :
    Text.utf8 (symbol n :: cs) = code n :: Text.utf8 cs := by
  show String.utf8EncodeChar (symbol n) ++ Text.utf8 cs = _
  rw [utf8_symbol h]
  rfl

theorem ofNat_eq (h : n = a.toNat) : UInt8.ofNat n = a := by
  rw [h, UInt8.ofNat_toNat]

/-- The bytes of a padded form are read back. -/
theorem decodeFrom_encode (bytes : List UInt8) (offset : Nat) :
    decodeFrom offset (Text.utf8 (encode bytes)) = .ok bytes := by
  fun_induction encode bytes generalizing offset with
  | case1 => rfl
  | case2 a n =>
    have ha := a.toNat_lt
    rw [utf8_cons_symbol (by omega), utf8_cons_symbol (by omega)]
    show decodeLast offset [_, _, pad, pad] = _
    rw [decodeLast_two (by omega) (by omega) (by omega), ofNat_eq (a := a) (by omega)]
  | case3 a b n =>
    have ha := a.toNat_lt
    have hb := b.toNat_lt
    rw [utf8_cons_symbol (by omega), utf8_cons_symbol (by omega), utf8_cons_symbol (by omega)]
    show decodeLast offset [_, _, _, pad] = _
    rw [decodeLast_three (by omega) (by omega) (by omega) (by omega), ofNat_eq (a := a) (by omega),
      ofNat_eq (a := b) (by omega)]
  | case4 a b c rest n ih =>
    have ha := a.toNat_lt
    have hb := b.toNat_lt
    have hc := c.toNat_lt
    have h₁ : UInt8.ofNat (n / 262144 * 4 + n / 4096 % 64 / 16) = a := ofNat_eq (by omega)
    have h₂ : UInt8.ofNat (n / 4096 % 64 % 16 * 16 + n / 64 % 64 / 4) = b := ofNat_eq (by omega)
    have h₃ : UInt8.ofNat (n / 64 % 64 % 4 * 64 + n % 64) = c := ofNat_eq (by omega)
    rw [utf8_cons_symbol (by omega), utf8_cons_symbol (by omega), utf8_cons_symbol (by omega),
      utf8_cons_symbol (by omega)]
    -- The last quad is read by other rules, but a full one gives the same bytes by these.
    by_cases hrest : Text.utf8 (encode rest) = []
    · have hnil : rest = [] := by
        have := ih offset
        rw [hrest] at this
        cases this
        rfl
      rw [hrest, hnil]
      show decodeLast offset [_, _, _, _] = _
      rw [decodeLast_four (by omega) (by omega) (by omega) (by omega), h₁, h₂, h₃]
    · rw [decodeFrom_quad (by omega) (by omega) (by omega) (by omega) hrest, ih, h₁, h₂, h₃]
      rfl

/-- A padded form is made of symbols and padding. -/
theorem mem_encode {s : Char} (hs : s ∈ encode bytes) : (∃ n < 64, s = symbol n) ∨ s = '=' := by
  fun_induction encode bytes with
  | case1 => cases hs
  | case2 a n =>
    have ha := a.toNat_lt
    simp only [List.mem_cons, List.not_mem_nil, or_false, or_self] at hs
    rcases hs with rfl | rfl | rfl
    · exact .inl ⟨n / 64, by omega, rfl⟩
    · exact .inl ⟨n % 64, by omega, rfl⟩
    · exact .inr rfl
  | case3 a b n =>
    have ha := a.toNat_lt
    have hb := b.toNat_lt
    simp only [List.mem_cons, List.not_mem_nil, or_false] at hs
    rcases hs with rfl | rfl | rfl | rfl
    · exact .inl ⟨n / 4096, by omega, rfl⟩
    · exact .inl ⟨n / 64 % 64, by omega, rfl⟩
    · exact .inl ⟨n % 64, by omega, rfl⟩
    · exact .inr rfl
  | case4 a b c rest n ih =>
    have ha := a.toNat_lt
    have hb := b.toNat_lt
    have hc := c.toNat_lt
    simp only [List.mem_cons] at hs
    rcases hs with rfl | rfl | rfl | rfl | hs
    · exact .inl ⟨n / 262144, by omega, rfl⟩
    · exact .inl ⟨n / 4096 % 64, by omega, rfl⟩
    · exact .inl ⟨n / 64 % 64, by omega, rfl⟩
    · exact .inl ⟨n % 64, by omega, rfl⟩
    · exact ih hs

/-- What holds of the symbols and of padding holds of every character of a padded form. -/
theorem forall_encode {p : Char → Prop} (hsymbol : ∀ n : Fin 64, p (symbol n)) (hpad : p '=') :
    ∀ s ∈ encode bytes, p s := by
  intro s hs
  rcases mem_encode hs with ⟨n, hn, rfl⟩ | rfl
  · exact hsymbol ⟨n, hn⟩
  · exact hpad

theorem length_encode (bytes : List UInt8) : (encode bytes).length % 4 = 0 := by
  fun_induction encode bytes with
  | case1 => rfl
  | case2 | case3 => simp
  | case4 a b c rest n ih =>
    simp only [List.length_cons]
    omega

theorem length_utf8 {cs : List Char} (h : ∀ s ∈ cs, (String.utf8EncodeChar s).length = 1) :
    (Text.utf8 cs).length = cs.length := by
  induction cs with
  | nil => rfl
  | cons s cs ih =>
    show (String.utf8EncodeChar s ++ Text.utf8 cs).length = _
    rw [List.length_append, h s List.mem_cons_self, ih fun s hs => h s (List.mem_cons_of_mem _ hs),
      List.length_cons, Nat.add_comm]

/-- Reading the padded form of some bytes gives the bytes. -/
theorem decode_encode (bytes : List UInt8) : decode (Text.utf8 (encode bytes)) = .ok bytes := by
  have hlen : (Text.utf8 (encode bytes)).length % 4 = 0 := by
    rw [length_utf8, length_encode]
    exact forall_encode (by decide +kernel) (by decide +kernel)
  unfold decode
  rw [if_neg (by omega), decodeFrom_encode]

end Base64

namespace Source

open Base64

/-- Bytes as a list, from any place on. -/
theorem toList_loop (bytes : Bytes) (i : Nat) (front : List UInt8) :
    ByteArray.toList.loop bytes i front = front.reverse ++ bytes.data.toList.drop i := by
  rw [ByteArray.toList.loop]
  split
  · next hi =>
    rw [toList_loop bytes (i + 1), List.reverse_cons, List.append_assoc, List.singleton_append]
    have hlt : i < bytes.data.toList.length := by simpa using hi
    have hget : bytes.get! i = bytes.data.toList[i] := by
      show bytes.data[i]! = _
      rw [getElem!_pos bytes.data i (by simpa using hlt), Array.getElem_toList]
    rw [hget, ← List.drop_eq_getElem_cons hlt]
  · next hi =>
    rw [List.drop_eq_nil_of_le, List.append_nil]
    simpa using hi
termination_by bytes.size - i

theorem toArray_toList (bytes : Bytes) : (⟨bytes.toList.toArray⟩ : Bytes) = bytes := by
  have h : bytes.toList = bytes.data.toList := toList_loop bytes 0 []
  rw [h]

/-- The padded form of some content is read back. -/
theorem readBase64_encode (content : Bytes) :
    readBase64 (encode content.toList) = .ok content := by
  have hblank : ∀ s ∈ encode content.toList, Text.isBlank s = false :=
    forall_encode (by decide +kernel) (by decide +kernel)
  have hstandard : ∀ s ∈ encode content.toList, standardSymbol s = s :=
    forall_encode (by decide +kernel) (by decide +kernel)
  have htrim : Text.trim (encode content.toList) = encode content.toList := by
    have htrim : Text.trim ([] ++ (encode content.toList ++ [])) = _ :=
      Text.trim_append nofun hblank nofun
    rwa [List.append_nil, List.nil_append] at htrim
  unfold readBase64
  rw [htrim, List.map_congr_left hstandard, List.map_id', decode_encode]
  show Except.ok (⟨content.toList.toArray⟩ : Bytes) = _
  rw [toArray_toList]

end Source

end Depot
