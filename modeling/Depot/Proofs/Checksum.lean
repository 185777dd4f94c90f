import Mathlib.Data.List.TakeWhile
import Depot.Checksum
import Depot.Proofs.Text.Hex
/-!
# Checksums and their texts

A checksum is read from exactly the texts that name an algorithm before the first colon and have two
hexadecimal digits after it for each byte of the digest. Case does not count, and some algorithms
have two names. Of all these texts one is the text of the checksum. However a checksum has been
made, its digest has the length that its algorithm gives.
-/

namespace Depot

/-! ### Names of algorithms -/

/-- The names of an algorithm that are understood, in lower case. -/
def Algorithm.spellings : Algorithm → List String
  | md5    => ["md5"]
  | sha1   => ["sha1", "sha-1"]
  | sha256 => ["sha256", "sha-256"]
  | blake3 => ["blake3"]

theorem Algorithm.ofName?_eq_some {name : String} {a : Algorithm} :
    ofName? name = some a ↔ lower name ∈ a.spellings := by
  unfold ofName? ofLowerName?
  generalize lower name = s
  constructor
  · intro h
    split at h
    · next hs => cases h; simp [spellings, hs]
    split at h
    · next hs => cases h; simpa [spellings] using hs
    split at h
    · next hs => cases h; simpa [spellings] using hs
    split at h
    · next hs => cases h; simp [spellings, hs]
    · cases h
  · intro h
    have hall : ∀ a : Algorithm, ∀ s ∈ a.spellings, ofLowerName? s = some a := by
      intro a
      cases a <;> decide +kernel
    exact hall a s h

namespace Checksum

variable {c c' : Checksum} {a : Algorithm} {d : List UInt8} {cs : List Char}
  {s name digits : String}

theorem algorithm?_eq_ok : algorithm? name = .ok a ↔ Algorithm.lower name ∈ a.spellings := by
  rw [← Algorithm.ofName?_eq_some, algorithm?]
  cases Algorithm.ofName? name <;> simp

/-! ### Digests -/

theorem ofDigest_eq_ok : ofDigest a d = .ok c ↔ c.algorithm = a ∧ c.digest = d := by
  unfold ofDigest
  obtain ⟨a', d', hd'⟩ := c
  split
  · next hd => simp [eq_comm]
  · next hd =>
    refine iff_of_false nofun ?_
    rintro ⟨rfl, rfl⟩
    exact hd hd'

theorem exists_ofDigest_iff : (∃ c, ofDigest a d = .ok c) ↔ d.length = a.digestLength := by
  constructor
  · rintro ⟨c, hc⟩
    obtain ⟨rfl, rfl⟩ := ofDigest_eq_ok.1 hc
    exact c.length_digest
  · exact fun h => ⟨⟨a, d, h⟩, dif_pos h⟩

theorem ofHex_eq_ok :
    ofHex a cs = .ok c ↔ c.algorithm = a ∧ cs.map Char.toLower = Hex.encode c.digest := by
  rw [ofHex, ← Hex.decode_utf8_eq_ok]
  cases Hex.decode (Text.utf8 cs) with
  | error e => simp
  | ok d =>
    dsimp only
    rw [ofDigest_eq_ok, Except.ok.injEq, eq_comm (a := d)]

/-- The digits of a digest are as many as the algorithm has it, of either case. -/
theorem exists_ofHex_iff : (∃ c, ofHex a cs = .ok c) ↔
    (∀ x ∈ cs, Hex.IsDigit x) ∧ cs.length = 2 * a.digestLength := by
  rw [← Hex.exists_encode_iff]
  constructor
  · rintro ⟨c, hc⟩
    obtain ⟨rfl, hcs⟩ := ofHex_eq_ok.1 hc
    exact ⟨c.digest, hcs, c.length_digest⟩
  · rintro ⟨d, hcs, hd⟩
    exact ⟨⟨a, d, hd⟩, ofHex_eq_ok.2 ⟨rfl, hcs⟩⟩

theorem toList_hex (c : Checksum) : c.hex.toList = Hex.encode c.digest := String.toList_ofList

theorem lower_eq_hex : Algorithm.lower digits = c.hex ↔
    digits.toList.map Char.toLower = Hex.encode c.digest := by
  rw [← String.toList_inj, toList_hex, Algorithm.lower, String.toList_ofList]

/-! ### Texts -/

/-- What stands before the first colon names the algorithm. -/
theorem ofText_of_name (hname : ':' ∉ name.toList) :
    ofText (name ++ ":" ++ digits) = (algorithm? name).bind fun a => ofHex a digits.toList := by
  have hkeep : ∀ x ∈ name.toList, decide (x ≠ ':') = true := fun x hx => by
    simpa using ne_of_mem_of_not_mem hx hname
  have hlist : (name ++ ":" ++ digits).toList = name.toList ++ ':' :: digits.toList := by simp
  unfold ofText
  rw [hlist, List.dropWhile_append_of_pos hkeep, List.takeWhile_append_of_pos hkeep]
  simp [bind]

/-- The texts that a checksum is read from. -/
theorem ofText_eq_ok : ofText s = .ok c ↔ ∃ name digits : String, s = name ++ ":" ++ digits ∧
    ':' ∉ name.toList ∧ Algorithm.lower name ∈ c.algorithm.spellings ∧
    Algorithm.lower digits = c.hex := by
  constructor
  · intro h
    by_cases hs : ':' ∈ s.toList
    · obtain ⟨name, digits, hlist, hname⟩ := List.eq_append_cons_of_mem hs
      have hsplit : s = .ofList name ++ ":" ++ .ofList digits := by
        rw [← String.toList_inj, hlist]
        simp
      refine ⟨.ofList name, .ofList digits, hsplit, by simpa using hname, ?_⟩
      rw [hsplit, ofText_of_name (by simpa using hname)] at h
      cases ha : algorithm? (.ofList name) with
      | error e =>
        rw [ha] at h
        cases h
      | ok a =>
        rw [ha] at h
        obtain ⟨rfl, hdigits⟩ := ofHex_eq_ok.1 h
        exact ⟨algorithm?_eq_ok.1 ha, lower_eq_hex.2 hdigits⟩
    · have hnone : s.toList.dropWhile (· ≠ ':') = [] :=
        List.dropWhile_eq_nil_iff.2 fun x hx => by simpa using ne_of_mem_of_not_mem hx hs
      rw [ofText, hnone] at h
      cases h
  · rintro ⟨name, digits, rfl, hname, ha, hdigits⟩
    rw [ofText_of_name hname, algorithm?_eq_ok.2 ha]
    exact ofHex_eq_ok.2 ⟨rfl, lower_eq_hex.1 hdigits⟩

/-- What is written is read back. -/
theorem ofText_text (c : Checksum) : ofText c.text = .ok c := by
  have hname : ∀ a : Algorithm, ':' ∉ a.name.toList ∧ Algorithm.lower a.name ∈ a.spellings := by
    intro a
    cases a <;> decide +kernel
  refine ofText_eq_ok.2 ⟨c.algorithm.name, c.hex, rfl, (hname _).1, (hname _).2, ?_⟩
  rw [lower_eq_hex, toList_hex, Hex.map_toLower_encode]

theorem text_inj : c.text = c'.text ↔ c = c' := by
  refine ⟨fun h => ?_, fun h => h ▸ rfl⟩
  have hread := ofText_text c
  rw [h, ofText_text] at hread
  exact (Except.ok.inj hread).symm

theorem ofJson?_eq_some {v : Json.Value} :
    ofJson? v = some c ↔ ∃ s, v = .string s ∧ ofText s = .ok c := by
  unfold ofJson?
  split
  · next s =>
    cases hs : ofText s <;> simp [Except.toOption, hs]
  · next hv =>
    refine iff_of_false nofun ?_
    rintro ⟨s, rfl, -⟩
    exact hv s rfl

/-! ### Short forms -/

/-- There are four bytes in every digest, and the short form is made of their digits. -/
theorem toList_short (c : Checksum) :
    4 ≤ c.digest.length ∧ c.short.toList = c.hex.toList.take 8 ∧ c.short.toList.length = 8 := by
  have hlength : 4 ≤ c.digest.length := by
    rw [c.length_digest]
    cases c.algorithm <;> decide
  have hshort : c.short.toList = Hex.encode (c.digest.take 4) := String.toList_ofList
  have hfirst : (Hex.encode (c.digest.take 4)).length = 8 := by
    rw [Hex.length_encode, List.length_take, Nat.min_eq_left hlength]
  have hhex : Hex.encode c.digest =
      Hex.encode (c.digest.take 4) ++ Hex.encode (c.digest.drop 4) := by
    rw [Hex.encode, Hex.encode, Hex.encode, ← List.flatMap_append, List.take_append_drop]
  refine ⟨hlength, ?_, by rw [hshort, hfirst]⟩
  rw [hshort, toList_hex, hhex, List.take_left' hfirst]

/-! ### All laws -/

/-- A text of an algorithm and digits: a name of the algorithm in any case, without a colon, a
colon, and two digits of either case for each byte of a digest. -/
def Spells (a : Algorithm) (digits s : String) : Prop :=
  ∃ name : String, s = name ++ ":" ++ digits ∧ ':' ∉ name.toList ∧
    Algorithm.lower name ∈ a.spellings ∧ (∀ x ∈ digits.toList, Hex.IsDigit x) ∧
    digits.toList.length = 2 * a.digestLength

/-- A text that spells a checksum is read, and becomes the text with the first name and small
digits. -/
theorem Spells.read (h : Spells a digits s) :
    ∃ c, ofText s = .ok c ∧ c.text = a.name ++ ":" ++ Algorithm.lower digits := by
  obtain ⟨name, hs, hname, ha, hdigits⟩ := h
  obtain ⟨d, hd, hlength⟩ := Hex.exists_encode_iff.2 hdigits
  have hhex : Algorithm.lower digits = hex ⟨a, d, hlength⟩ := lower_eq_hex.2 hd
  exact ⟨⟨a, d, hlength⟩, ofText_eq_ok.2 ⟨name, digits, hs, hname, ha, hhex⟩, by rw [text, hhex]⟩

theorem exists_ofText_iff : (∃ c, ofText s = .ok c) ↔ ∃ a digits, Spells a digits s := by
  constructor
  · rintro ⟨c, hc⟩
    obtain ⟨name, digits, hs, hname, ha, hdigits⟩ := ofText_eq_ok.1 hc
    exact ⟨c.algorithm, digits, name, hs, hname, ha,
      Hex.exists_encode_iff.1 ⟨c.digest, lower_eq_hex.1 hdigits, c.length_digest⟩⟩
  · rintro ⟨a, digits, h⟩
    obtain ⟨c, hc, -⟩ := h.read
    exact ⟨c, hc⟩

/-- The texts that a checksum can be read from are those that spell one; the text of the checksum is
then the name of the algorithm, a colon and the digits in lower case. The text of every checksum is
read as this checksum, and different checksums have different texts. A checksum is made of a digest,
or of digits, exactly if there are as many as the algorithm has it, and of a JSON value if this is a
string from which it is read. So all digests have the right length: the short form is always there,
and the digest of content is never refused. -/
theorem text_exact :
    (∀ s, (∃ c, ofText s = .ok c) ↔ ∃ a digits, Spells a digits s) ∧
    (∀ a digits s, Spells a digits s →
      ∃ c, ofText s = .ok c ∧ c.text = a.name ++ ":" ++ Algorithm.lower digits) ∧
    (∀ c, ofText c.text = .ok c) ∧
    (∀ c c', c = c' ↔ text c = text c') ∧
    (∀ a d, (∃ c, ofDigest a d = .ok c) ↔ d.length = a.digestLength) ∧
    (∀ a d c, ofDigest a d = .ok c → c.algorithm = a ∧ c.digest = d) ∧
    (∀ a cs, (∃ c, ofHex a cs = .ok c) ↔
      (∀ x ∈ cs, Hex.IsDigit x) ∧ cs.length = 2 * a.digestLength) ∧
    (∀ a cs c, ofHex a cs = .ok c → c.algorithm = a ∧ c.hex.toList = cs.map Char.toLower) ∧
    (∀ v c, ofJson? v = some c ↔ ∃ s, v = .string s ∧ ofText s = .ok c) ∧
    (∀ a data, ofDigest a (a.digest data) = .ok (ofBytes a data)) ∧
    (∀ c : Checksum, c.digest.length = c.algorithm.digestLength ∧ 4 ≤ c.digest.length ∧
      c.short.toList = c.hex.toList.take 8 ∧ c.short.toList.length = 8) := by
  refine ⟨fun s => exists_ofText_iff, fun a digits s h => h.read, ofText_text,
    fun c c' => text_inj.symm, fun a d => exists_ofDigest_iff, fun a d c => ofDigest_eq_ok.1,
    fun a cs => exists_ofHex_iff, fun a cs c h => ?_, fun v c => ofJson?_eq_some,
    fun a data => ofDigest_eq_ok.2 ⟨rfl, rfl⟩, fun c => ⟨c.length_digest, toList_short c⟩⟩
  obtain ⟨ha, hcs⟩ := ofHex_eq_ok.1 h
  exact ⟨ha, (toList_hex c).trans hcs.symm⟩

end Checksum

end Depot
