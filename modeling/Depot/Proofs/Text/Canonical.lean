import Depot.Action
import Depot.Proofs.Text.Base64
import Depot.Proofs.Text.Basic
/-!
# Only padded forms are read

Bytes are read from their padded form and from no other text: every symbol that is accepted is the
symbol of its value, padding only fills up the last quad, and the bits that no byte fills are zero.
-/

namespace Depot.Base64

variable {b : UInt8} {bs bytes quad symbols text : List UInt8} {cs : List Char}
  {n v w x y offset place : Nat} {vs : List Nat} {padAt : Option Nat}

/-! ### Symbols -/

/-- The bytes that are read as symbols are the codes of the symbols. -/
theorem value?_eq_some : value? b = some v ↔ v < 64 ∧ b = code v := by
  constructor
  · have hall : ∀ b, ∀ v ∈ value? b, v < 64 ∧ b = code v :=
      Text.forall_byte (P := fun b => ∀ v ∈ value? b, v < 64 ∧ b = code v) (by decide +kernel)
    exact hall b v
  · rintro ⟨hv, rfl⟩
    exact value?_code hv

/-- The codes of values, all of them of six bits. -/
def IsCodes (bs : List UInt8) (vs : List Nat) : Prop := bs = vs.map code ∧ ∀ v ∈ vs, v < 64

theorem isCodes_cons (hv : value? b = some v) (h : IsCodes bs vs) :
    IsCodes (b :: bs) (v :: vs) := by
  obtain ⟨hlt, rfl⟩ := value?_eq_some.1 hv
  obtain ⟨rfl, hvs⟩ := h
  exact ⟨rfl, List.forall_mem_cons.2 ⟨hlt, hvs⟩⟩

theorem isCodes_of_values (h : values offset bs = .ok vs) : IsCodes bs vs := by
  fun_induction values offset bs generalizing vs with
  | case1 =>
    cases h
    exact ⟨rfl, nofun⟩
  | case2 => cases h
  | case3 offset b bs v hv ih =>
    obtain ⟨vs, hvs, rfl⟩ := Result.map_eq_ok.1 h
    exact isCodes_cons hv (ih hvs)

/-- The symbols of a last quad stand before its padding, and none follows where padding has
begun. -/
theorem lastSymbols_eq_ok (h : lastSymbols offset place padAt quad = .ok symbols) :
    ∃ vs k, IsCodes symbols vs ∧ quad = symbols ++ List.replicate k pad ∧
      (padAt.isSome = true → symbols = []) := by
  fun_induction lastSymbols offset place padAt quad generalizing symbols with
  | case1 =>
    cases h
    exact ⟨[], 0, ⟨rfl, nofun⟩, rfl, fun _ => rfl⟩
  | case2 => cases h
  | case3 place padAt bs _ ih =>
    obtain ⟨vs, k, hvs, rfl, hnone⟩ := ih h
    obtain rfl : symbols = [] := hnone (by cases padAt <;> rfl)
    exact ⟨vs, k + 1, hvs, rfl, fun _ => rfl⟩
  | case4 => cases h
  | case5 => cases h
  | case6 place b bs _ v hv ih =>
    obtain ⟨symbols, hsymbols, rfl⟩ := Result.map_eq_ok.1 h
    obtain ⟨vs, k, hvs, rfl, -⟩ := ih hsymbols
    exact ⟨v :: vs, k, isCodes_cons hv hvs, rfl, nofun⟩

/-! ### Padded forms, quad by quad -/

theorem toNat_ofNat (h : n < 256) : (UInt8.ofNat n).toNat = n := by
  rw [UInt8.toNat_ofNat', Nat.mod_eq_of_lt h]

theorem utf8_encode_one (hv : v < 64) (hw : w < 64) (hlast : w % 16 = 0) :
    Text.utf8 (encode [.ofNat (v * 4 + w / 16)]) = [code v, code w, pad, pad] := by
  have h₁ : (v * 4 + w / 16) * 16 / 64 = v := by omega
  have h₂ : (v * 4 + w / 16) * 16 % 64 = w := by omega
  simp only [encode, toNat_ofNat (n := v * 4 + w / 16) (by omega), h₁, h₂, utf8_cons_symbol hv,
    utf8_cons_symbol hw]
  rfl

theorem utf8_encode_two (hv : v < 64) (hw : w < 64) (hx : x < 64) (hlast : x % 4 = 0) :
    Text.utf8 (encode [.ofNat (v * 4 + w / 16), .ofNat (w % 16 * 16 + x / 4)]) =
      [code v, code w, code x, pad] := by
  have h₁ : ((v * 4 + w / 16) * 256 + (w % 16 * 16 + x / 4)) * 4 / 4096 = v := by omega
  have h₂ : ((v * 4 + w / 16) * 256 + (w % 16 * 16 + x / 4)) * 4 / 64 % 64 = w := by omega
  have h₃ : ((v * 4 + w / 16) * 256 + (w % 16 * 16 + x / 4)) * 4 % 64 = x := by omega
  simp only [encode, toNat_ofNat (n := v * 4 + w / 16) (by omega),
    toNat_ofNat (n := w % 16 * 16 + x / 4) (by omega), h₁, h₂, h₃, utf8_cons_symbol hv,
    utf8_cons_symbol hw, utf8_cons_symbol hx]
  rfl

theorem utf8_encode_three (hv : v < 64) (hw : w < 64) (hx : x < 64) (hy : y < 64)
    (bytes : List UInt8) :
    Text.utf8 (encode (.ofNat (v * 4 + w / 16) :: .ofNat (w % 16 * 16 + x / 4) ::
      .ofNat (x % 4 * 64 + y) :: bytes)) =
      code v :: code w :: code x :: code y :: Text.utf8 (encode bytes) := by
  have h₁ : (((v * 4 + w / 16) * 256 + (w % 16 * 16 + x / 4)) * 256 + (x % 4 * 64 + y)) / 262144 =
      v := by omega
  have h₂ : (((v * 4 + w / 16) * 256 + (w % 16 * 16 + x / 4)) * 256 + (x % 4 * 64 + y)) / 4096 %
      64 = w := by omega
  have h₃ : (((v * 4 + w / 16) * 256 + (w % 16 * 16 + x / 4)) * 256 + (x % 4 * 64 + y)) / 64 % 64 =
      x := by omega
  have h₄ : (((v * 4 + w / 16) * 256 + (w % 16 * 16 + x / 4)) * 256 + (x % 4 * 64 + y)) % 64 =
      y := by omega
  simp only [encode, toNat_ofNat (n := v * 4 + w / 16) (by omega),
    toNat_ofNat (n := w % 16 * 16 + x / 4) (by omega), toNat_ofNat (n := x % 4 * 64 + y) (by omega),
    h₁, h₂, h₃, h₄, utf8_cons_symbol hv, utf8_cons_symbol hw, utf8_cons_symbol hx,
    utf8_cons_symbol hy]

/-! ### Reading -/

/-- A last quad that is read is the padded form of one, two or three bytes. -/
theorem utf8_encode_of_decodeLast (h : decodeLast offset quad = .ok bytes) :
    quad = Text.utf8 (encode bytes) := by
  unfold decodeLast at h
  obtain ⟨symbols, hsymbols, h⟩ := Result.bind_eq_ok.1 h
  obtain ⟨vs, k, ⟨rfl, hvs⟩, rfl, -⟩ := lastSymbols_eq_ok hsymbols
  have hvalues : (vs.map code).map (fun b => (value? b).getD 0) = vs := by
    rw [List.map_map]
    refine (List.map_congr_left fun v hv => ?_).trans (List.map_id vs)
    simp [hvs v hv]
  simp only [bind, Except.bind, hvalues, List.length_append, List.length_map,
    List.length_replicate, throw, throwThe, MonadExceptOf.throw, pure, Except.pure] at h
  split at h
  · cases h
  next hshort =>
  split at h
  · cases h
  next hfour =>
  rw [not_ne_iff] at hfour
  -- As many symbols as there are before the padding.
  match vs with
  | [] | [_] => simp at hshort
  | [v, w] =>
    obtain ⟨hv, hw⟩ : v < 64 ∧ w < 64 := by simpa using hvs
    obtain rfl : k = 2 := by simp only [List.length_cons, List.length_nil] at hfour; omega
    dsimp only at h
    split at h
    · cases h
    · next hlast =>
      cases h
      exact (utf8_encode_one hv hw (not_ne_iff.1 hlast)).symm
  | [v, w, x] =>
    obtain ⟨hv, hw, hx⟩ : v < 64 ∧ w < 64 ∧ x < 64 := by simpa using hvs
    obtain rfl : k = 1 := by simp only [List.length_cons, List.length_nil] at hfour; omega
    dsimp only at h
    split at h
    · cases h
    · next hlast =>
      cases h
      exact (utf8_encode_two hv hw hx (not_ne_iff.1 hlast)).symm
  | [v, w, x, y] =>
    obtain ⟨hv, hw, hx, hy⟩ : v < 64 ∧ w < 64 ∧ x < 64 ∧ y < 64 := by simpa using hvs
    obtain rfl : k = 0 := by simp only [List.length_cons, List.length_nil] at hfour; omega
    cases h
    exact (utf8_encode_three hv hw hx hy []).symm
  | _ :: _ :: _ :: _ :: _ :: _ =>
    simp only [List.length_cons] at hfour
    omega

/-- Bytes that are read from quads have these quads as their padded form. -/
theorem utf8_encode_of_decodeFrom (h : decodeFrom offset text = .ok bytes) :
    text = Text.utf8 (encode bytes) := by
  fun_induction decodeFrom offset text generalizing bytes with
  | case1 =>
    cases h
    rfl
  | case2 offset a b c d e rest v w x y hvalues ih =>
    obtain ⟨bytes, hbytes, rfl⟩ := Result.map_eq_ok.1 h
    obtain ⟨hcodes, hvs⟩ := isCodes_of_values hvalues
    obtain ⟨hv, hw, hx, hy⟩ : v < 64 ∧ w < 64 ∧ x < 64 ∧ y < 64 := by simpa using hvs
    rw [utf8_encode_three hv hw hx hy, ← ih hbytes]
    exact congrArg (· ++ e :: rest) hcodes
  | case3 offset a b c d e rest vs hne hvalues =>
    obtain ⟨hcodes, -⟩ := isCodes_of_values hvalues
    match vs with
    | [v, w, x, y] => exact absurd rfl (hne v w x y)
    | [] | [_] | [_, _] | [_, _, _] | _ :: _ :: _ :: _ :: _ :: _ => simp at hcodes
  | case4 => cases h
  | case5 => exact utf8_encode_of_decodeLast h

/-- Bytes are read from their padded form and from no other text. -/
theorem decode_eq_ok : decode text = .ok bytes ↔ text = Text.utf8 (encode bytes) := by
  constructor
  · intro h
    unfold decode at h
    dsimp only at h
    split at h
    · cases h
    · exact utf8_encode_of_decodeFrom h
  · rintro rfl
    exact decode_encode bytes

end Depot.Base64
