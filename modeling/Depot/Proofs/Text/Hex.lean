import Mathlib.Tactic.Common
import Depot.Proofs.Text.Basic
import Depot.Text.Hex
/-!
# Hexadecimal text, exactly

The texts that bytes are read from are those that become the digits of these bytes when capitals are
made small. Nothing else is read, whatever the characters in it: the bytes of a character beyond
ASCII are the codes of no digits.
-/

namespace Depot.Hex

variable {c : Char} {cs : List Char} {b v : UInt8} {bs bytes bytes' vs : List UInt8} {index n : Nat}

/-- A hexadecimal digit of either case. -/
def IsDigit (c : Char) : Prop :=
  '0' ≤ c ∧ c ≤ '9' ∨ 'a' ≤ c ∧ c ≤ 'f' ∨ 'A' ≤ c ∧ c ≤ 'F'

instance : DecidablePred IsDigit := fun c =>
  inferInstanceAs (Decidable ('0' ≤ c ∧ c ≤ '9' ∨ 'a' ≤ c ∧ c ≤ 'f' ∨ 'A' ≤ c ∧ c ≤ 'F'))

/-! ### Half bytes -/

theorem forall_half {P : UInt8 → Prop} (h : ∀ n : Fin 16, P (UInt8.ofNat n)) (hv : v < 16) :
    P v := by
  have hv := h ⟨v.toNat, hv⟩
  rwa [UInt8.ofNat_toNat] at hv

/-- The halves of some bytes, the high one of each first. -/
def halves (bytes : List UInt8) : List UInt8 := bytes.flatMap fun b => [b / 16, b % 16]

@[simp] theorem halves_nil : halves [] = [] := rfl

@[simp] theorem halves_cons (b : UInt8) (bytes : List UInt8) :
    halves (b :: bytes) = b / 16 :: b % 16 :: halves bytes := rfl

theorem length_halves (bytes : List UInt8) : (halves bytes).length = 2 * bytes.length := by
  induction bytes with
  | nil => rfl
  | cons b bytes ih =>
    rw [halves_cons, List.length_cons, List.length_cons, ih, List.length_cons]
    omega

theorem encode_eq_map (bytes : List UInt8) : encode bytes = (halves bytes).map digit := by
  rw [encode, halves, List.map_flatMap]
  rfl

theorem lt_of_mem_halves (h : v ∈ halves bytes) : v < 16 := by
  obtain ⟨b, -, hv⟩ := List.mem_flatMap.1 h
  have hb := b.toNat_lt
  simp only [List.mem_cons, List.not_mem_nil, or_false] at hv
  rw [UInt8.lt_iff_toNat_lt]
  rcases hv with rfl | rfl
  · rw [UInt8.toNat_div]
    show b.toNat / 16 < 16
    omega
  · rw [UInt8.toNat_mod]
    show b.toNat % 16 < 16
    omega

/-- A byte is put together from its halves, and from nothing else. -/
theorem halves_iff {h l : UInt8} (hh : h < 16) (hl : l < 16) :
    b / 16 = h ∧ b % 16 = l ↔ h * 16 + l = b := by
  rw [UInt8.lt_iff_toNat_lt] at hh hl
  simp only [← UInt8.toNat_inj, UInt8.toNat_div, UInt8.toNat_mod, UInt8.toNat_add, UInt8.toNat_mul]
  have hb := b.toNat_lt
  change h.toNat < 16 at hh
  change l.toNat < 16 at hl
  show b.toNat / 16 = h.toNat ∧ b.toNat % 16 = l.toNat ↔
    (h.toNat * 16 % 256 + l.toNat) % 256 = b.toNat
  omega

/-! ### Digits -/

theorem value?_lt (h : value? b = some v) : v < 16 := by
  have hall : ∀ b, (value? b).all (· < 16) = true := Text.forall_byte (by decide +kernel)
  have hb := hall b
  rw [h] at hb
  simpa using hb

/-- Pairs of digits are read if all are digits, each for a half byte. -/
theorem decodePairs_eq_ok (heven : bs.length % 2 = 0) :
    decodePairs index bs = .ok bytes ↔ bs.map value? = (halves bytes).map some := by
  fun_induction decodePairs index bs generalizing bytes with
  | case1 index hi lo rest hhi => cases bytes <;> simp [hhi]
  | case2 index hi lo rest h hlo hhi => cases bytes <;> simp [hlo]
  | case3 index hi lo rest h l hlo hhi ih =>
    have hrest : rest.length % 2 = 0 := by
      simp only [List.length_cons] at heven
      omega
    cases bytes with
    | nil => cases decodePairs (index + 2) rest <;> simp [Except.map]
    | cons b bytes =>
      have hpair : some h = some (b / 16) ∧ some l = some (b % 16) ↔ h * 16 + l = b := by
        rw [← halves_iff (value?_lt hhi) (value?_lt hlo), Option.some_inj, Option.some_inj]
        exact and_congr eq_comm eq_comm
      have hmap : (decodePairs (index + 2) rest).map ((h * 16 + l) :: ·) = .ok (b :: bytes) ↔
          h * 16 + l = b ∧ decodePairs (index + 2) rest = .ok bytes := by
        cases decodePairs (index + 2) rest <;> simp [Except.map]
      rw [hmap, ih hrest, ← hpair]
      simp [hhi, hlo, and_assoc]
  | case4 bs index hpairs =>
    match bs with
    | [] => cases bytes <;> simp
    | [_] => simp at heven
    | hi :: lo :: rest => exact absurd rfl (hpairs hi lo rest)

/-- The code of a character of ASCII is that of a digit if it becomes the digit when made small. -/
theorem value?_eq_some (hc : c.toNat < 128) (hv : v < 16) :
    value? (UInt8.ofNat c.toNat) = some v ↔ c.toLower = digit v :=
  forall_half (P := fun v => value? (UInt8.ofNat c.toNat) = some v ↔ c.toLower = digit v)
    (Text.forall_ascii (P := fun c => ∀ n : Fin 16,
      value? (UInt8.ofNat c.toNat) = some (UInt8.ofNat n) ↔ c.toLower = digit (UInt8.ofNat n))
      (by decide +kernel) hc) hv

theorem toNat_digit (hv : v < 16) : (digit v).toNat < 128 :=
  forall_half (P := fun v => (digit v).toNat < 128) (by decide +kernel) hv

/-- Nothing beyond ASCII becomes a digit. -/
theorem toLower_ne_digit (hc : 128 ≤ c.toNat) (hv : v < 16) : c.toLower ≠ digit v := by
  have hlower : c.toLower = c := dif_neg fun h => by
    have hz : c.toNat ≤ 90 := h.2
    omega
  have hdigit := toNat_digit hv
  rintro heq
  rw [← heq, hlower] at hdigit
  omega

/-- The bytes of a character beyond ASCII begin with one that is the code of no digit. -/
theorem exists_utf8 (hc : 128 ≤ c.toNat) :
    ∃ b bs, String.utf8EncodeChar c = b :: bs ∧ value? b = none := by
  have hall : ∀ n : Fin 256, 128 ≤ n.val → value? (UInt8.ofNat n) = none := by decide +kernel
  have hnone (n : Nat) (hn : 128 ≤ n) (hlt : n < 256) : value? (UInt8.ofNat n) = none :=
    hall ⟨n, hlt⟩ hn
  change 128 ≤ c.val.toNat at hc
  unfold String.utf8EncodeChar
  dsimp only
  rw [if_neg (by omega)]
  split
  · exact ⟨_, _, rfl, hnone _ (by omega) (by omega)⟩
  split
  · exact ⟨_, _, rfl, hnone _ (by omega) (by omega)⟩
  · exact ⟨_, _, rfl, hnone _ (by omega) (by omega)⟩

/-- Half bytes are read from the text that becomes their digits when capitals are made small. -/
theorem map_value?_utf8 (hvs : ∀ v ∈ vs, v < 16) :
    (Text.utf8 cs).map value? = vs.map some ↔ cs.map Char.toLower = vs.map digit := by
  induction cs generalizing vs with
  | nil => cases vs <;> simp [Text.utf8]
  | cons c cs ih =>
    have hutf8 : Text.utf8 (c :: cs) = String.utf8EncodeChar c ++ Text.utf8 cs := rfl
    rw [hutf8]
    cases vs with
    | nil => simp [String.utf8EncodeChar_ne_nil]
    | cons v vs =>
      obtain ⟨hv, hvs⟩ := List.forall_mem_cons.1 hvs
      by_cases hc : c.toNat < 128
      · have hcode : String.utf8EncodeChar c = [UInt8.ofNat c.toNat] :=
          if_pos (Nat.le_of_lt_succ hc)
        simp [hcode, value?_eq_some hc hv, ih hvs]
      · obtain ⟨b, bs, hb, hnone⟩ := exists_utf8 (Nat.le_of_not_lt hc)
        simp [hb, hnone, toLower_ne_digit (Nat.le_of_not_lt hc) hv]

/-! ### Texts -/

/-- Bytes are read from exactly the texts that become their digits when capitals are made small. -/
theorem decode_utf8_eq_ok :
    decode (Text.utf8 cs) = .ok bytes ↔ cs.map Char.toLower = encode bytes := by
  rw [encode_eq_map, ← map_value?_utf8 fun v => lt_of_mem_halves, decode]
  split
  · next hodd =>
    refine iff_of_false nofun fun h => ?_
    have hlength := congrArg List.length h
    rw [List.length_map, List.length_map, length_halves] at hlength
    omega
  · next hodd => exact decodePairs_eq_ok (by omega)

/-- Digits are written small. -/
theorem map_toLower_encode (bytes : List UInt8) :
    (encode bytes).map Char.toLower = encode bytes := by
  rw [encode_eq_map, List.map_map]
  refine List.map_congr_left fun v hv => ?_
  exact forall_half (P := fun v => (digit v).toLower = digit v) (by decide +kernel)
    (lt_of_mem_halves hv)

theorem IsDigit.lt (h : IsDigit c) : c.toNat < 128 := by
  have hle : c.toNat ≤ 57 ∨ c.toNat ≤ 102 ∨ c.toNat ≤ 70 := h.imp (·.2) (.imp (·.2) (·.2))
  omega

/-- A digit of either case becomes the digit of a half byte when made small, and nothing else
does. -/
theorem isDigit_iff : IsDigit c ↔ ∃ v < 16, c.toLower = digit v := by
  constructor
  · intro h
    obtain ⟨n, hn⟩ := Text.forall_ascii (P := fun c => IsDigit c →
      ∃ n : Fin 16, c.toLower = digit (UInt8.ofNat n)) (by decide +kernel) h.lt h
    have hlt : ∀ n : Fin 16, UInt8.ofNat n < 16 := by decide +kernel
    exact ⟨_, hlt n, hn⟩
  · rintro ⟨v, hv, hc⟩
    have hascii : c.toNat < 128 := by
      by_contra hbeyond
      exact toLower_ne_digit (Nat.le_of_not_lt hbeyond) hv hc
    have hdigit : IsDigit (digit v) := forall_half (P := fun v => IsDigit (digit v))
      (by decide +kernel) hv
    rw [← hc] at hdigit
    exact Text.forall_ascii (P := fun c => IsDigit c.toLower → IsDigit c) (by decide +kernel) hascii
      hdigit

/-- The texts that some number of bytes are read from are those of twice as many digits. -/
theorem exists_encode_iff : (∃ bytes, cs.map Char.toLower = encode bytes ∧ bytes.length = n) ↔
    (∀ c ∈ cs, IsDigit c) ∧ cs.length = 2 * n := by
  constructor
  · rintro ⟨bytes, hcs, rfl⟩
    refine ⟨fun c hc => isDigit_iff.2 ?_, ?_⟩
    · have hmem : c.toLower ∈ encode bytes := hcs ▸ List.mem_map_of_mem hc
      rw [encode_eq_map] at hmem
      obtain ⟨v, hv, heq⟩ := List.mem_map.1 hmem
      exact ⟨v, lt_of_mem_halves hv, heq.symm⟩
    · rw [← length_encode, ← hcs, List.length_map]
  · rintro ⟨hdigits, hlength⟩
    induction n generalizing cs with
    | zero => exact ⟨[], by rw [List.length_eq_zero_iff.1 hlength]; rfl, rfl⟩
    | succ n ih =>
      match cs, hlength with
      | hi :: lo :: cs, hlength =>
        simp only [List.forall_mem_cons] at hdigits
        obtain ⟨hhi, hlo, hdigits⟩ := hdigits
        obtain ⟨h, hlt, hh⟩ := isDigit_iff.1 hhi
        obtain ⟨l, hlt', hl⟩ := isDigit_iff.1 hlo
        obtain ⟨bytes, hcs, hbytes⟩ := ih hdigits (by simpa [Nat.mul_succ] using hlength)
        obtain ⟨hhigh, hlow⟩ := (halves_iff hlt hlt').2 rfl
        refine ⟨(h * 16 + l) :: bytes, ?_, by rw [List.length_cons, hbytes]⟩
        rw [encode_eq_map, halves_cons, hhigh, hlow]
        simp [hh, hl, hcs, encode_eq_map]

end Depot.Hex
