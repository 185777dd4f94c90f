import Mathlib.Data.List.Forall2
import Depot.Proofs.Text.Canonical
/-!
# Addresses of content in memory

The addresses that content in memory is read from are the empty one, those that go on with base64
after `base64://`, and those with a media type and base64 after `data:`. The base64 is the padded
form of the content, with symbols from either alphabet, and may have blanks around it.
-/

namespace Depot.Source

open Text

variable {address encoded media : String} {content : Bytes} {cs ss : List Char} {s : Source}
  {type : Option String}

/-! ### Base64 in either alphabet -/

/-- A character that is written for a symbol: the symbol itself, or what the alphabet for addresses
has in its place. -/
def StandsFor (c s : Char) : Prop := c = s ∨ c = '-' ∧ s = '+' ∨ c = '_' ∧ s = '/'

/-- A text of some content in base64: the padded form, each symbol in either alphabet, between
blanks. -/
def Holds (encoded : String) (content : Bytes) : Prop :=
  ∃ front symbols back, encoded.toList = front ++ (symbols ++ back) ∧
    (∀ c ∈ front, isBlank c = true) ∧ (∀ c ∈ back, isBlank c = true) ∧
    List.Forall₂ StandsFor symbols (Base64.encode content.toList)

theorem standardSymbol_eq_iff {c s : Char} (hs : s ≠ '-' ∧ s ≠ '_') :
    standardSymbol c = s ↔ StandsFor c s := by
  unfold standardSymbol StandsFor
  split
  · next hc =>
    subst hc
    simp [hs.1.symm, eq_comm]
  split
  · next hc =>
    subst hc
    simp [hs.2.symm, eq_comm]
  · next hdash hbar => simp [hdash, hbar]

theorem map_standardSymbol_eq_iff (hss : ∀ s ∈ ss, s ≠ '-' ∧ s ≠ '_') :
    cs.map standardSymbol = ss ↔ List.Forall₂ StandsFor cs ss := by
  induction ss generalizing cs with
  | nil => simp
  | cons s ss ih =>
    obtain ⟨hs, hss⟩ := List.forall_mem_cons.1 hss
    cases cs with
    | nil => simp
    | cons c cs => simp [standardSymbol_eq_iff hs, ih hss]

theorem isBlank_standardSymbol (c : Char) : isBlank (standardSymbol c) = isBlank c := by
  unfold standardSymbol
  split
  · next hc => rw [hc]; rfl
  split
  · next hc => rw [hc]; rfl
  · rfl

theorem map_standardSymbol_encode {bytes : List UInt8} :
    cs.map standardSymbol = Base64.encode bytes ↔
      List.Forall₂ StandsFor cs (Base64.encode bytes) :=
  map_standardSymbol_eq_iff (Base64.forall_encode (by decide +kernel) (by decide +kernel))

theorem toArray_eq_iff {bytes : List UInt8} :
    (⟨bytes.toArray⟩ : Bytes) = content ↔ bytes = content.toList := by
  constructor
  · rintro rfl
    exact (toList_loop ⟨bytes.toArray⟩ 0 []).symm
  · rintro rfl
    exact toArray_toList content

/-- Content is read from exactly the texts that hold it in base64. -/
theorem readBase64_eq_ok : readBase64 encoded.toList = .ok content ↔ Holds encoded content := by
  have hread : readBase64 encoded.toList = .ok content ↔
      (trim encoded.toList).map standardSymbol = Base64.encode content.toList := by
    rw [readBase64, Result.map_eq_ok]
    simp only [toArray_eq_iff, Base64.decode_eq_ok, utf8_inj, exists_eq_right]
  rw [hread]
  constructor
  · intro h
    obtain ⟨front, back, hlist, hfront, hback⟩ := exists_trim encoded.toList
    exact ⟨front, _, back, hlist, hfront, hback, map_standardSymbol_encode.1 h⟩
  · rintro ⟨front, symbols, back, hlist, hfront, hback, hsymbols⟩
    have hmap := map_standardSymbol_encode.2 hsymbols
    have hblank : ∀ c ∈ symbols, isBlank c = false := by
      intro c hc
      have hc := List.mem_map_of_mem (f := standardSymbol) hc
      rw [hmap] at hc
      rw [← isBlank_standardSymbol]
      exact Base64.forall_encode (p := fun s => isBlank s = false) (by decide +kernel)
        (by decide +kernel) _ hc
    rw [hlist, trim_append hfront hblank hback, hmap]

/-! ### Media types -/

/-- A text that can be a media type: letters and digits of ASCII and a few marks, not none. -/
def IsMediaType (media : String) : Prop :=
  media ≠ "" ∧ ∀ c ∈ media.toList, c.isAlphanum = true ∨ c ∈ ['/', '_', '-', '+', '.']

theorem isTypeLike_iff : isTypeLike media.toList = true ↔ IsMediaType media := by
  simp [isTypeLike, IsMediaType]

theorem IsMediaType.semicolon_notMem (h : IsMediaType media) : ';' ∉ media.toList := by
  intro hc
  have hmark := h.2 _ hc
  revert hmark
  decide

/-! ### Addresses -/

/-- The addresses of content in memory, with the content and its type. -/
inductive Inline : String → Bytes → Option String → Prop
  | empty : Inline "" .empty none
  | base64 {encoded : String} {content : Bytes} (hne : encoded ≠ "") (h : Holds encoded content) :
      Inline ("base64://" ++ encoded) content none
  | data {media encoded : String} {content : Bytes} (hmedia : IsMediaType media)
      (hne : encoded ≠ "") (h : Holds encoded content) :
      Inline ("data:" ++ media ++ ";base64," ++ encoded) content (some media)

theorem base64Scheme_eq : base64Scheme = 'b' :: "ase64://".toList := rfl

theorem dataScheme_eq : dataScheme = 'd' :: "ata:".toList := rfl

theorem base64Marker_eq : base64Marker = ';' :: "base64,".toList := rfl

theorem toList_base64 (encoded : String) :
    ("base64://" ++ encoded).toList = base64Scheme ++ encoded.toList := String.toList_append

theorem toList_data (media encoded : String) : ("data:" ++ media ++ ";base64," ++ encoded).toList =
    dataScheme ++ (media.toList ++ (base64Marker ++ encoded.toList)) := by
  rw [String.toList_append, String.toList_append, String.toList_append, List.append_assoc,
    List.append_assoc]
  rfl

/-- Content is read from its addresses. -/
theorem Inline.read (h : Inline address content type) :
    ofInlineAddress address = .ok (.memory content type false) := by
  cases h with
  | empty => rfl
  | base64 hne h =>
    unfold ofInlineAddress
    simp only [toList_base64, afterFront_append, readBase64_eq_ok.2 h]
    simp [base64Scheme_eq, hne]
  | @data media encoded _ hmedia hne h =>
    have hscheme (cs : List Char) : afterFront base64Scheme (dataScheme ++ cs) = none := by
      rw [base64Scheme_eq, dataScheme_eq]
      exact afterFront_cons_of_ne (by decide)
    have hsplit : splitAtMark base64Marker (media.toList ++ (base64Marker ++ encoded.toList)) =
        some (media.toList, encoded.toList) := by
      rw [base64Marker_eq]
      exact splitAtMark_append hmedia.semicolon_notMem
    unfold ofInlineAddress
    simp only [toList_data, hscheme, afterFront_append, hsplit, readBase64_eq_ok.2 h]
    simp [dataScheme_eq, isTypeLike_iff.2 hmedia, hne]

theorem exists_toList (cs : List Char) : ∃ text : String, text.toList = cs :=
  ⟨.ofList cs, String.toList_ofList⟩

/-- Every other address is refused. -/
theorem inline_or_refused (address : String) : (∃ content type, Inline address content type) ∨
    ∃ flaw, ofInlineAddress address = .error (.invalidAddress address flaw) := by
  unfold ofInlineAddress
  dsimp only
  split
  · -- No address at all.
    next hnil =>
    obtain rfl : address = "" := by simpa using hnil
    exact .inl ⟨_, _, .empty⟩
  split
  · -- The first form: all that follows the scheme is the content.
    next cs hscheme =>
    obtain ⟨encoded, rfl⟩ := exists_toList cs
    obtain rfl : address = "base64://" ++ encoded := by
      rw [← String.toList_inj, toList_base64, afterFront_eq_some.1 hscheme]
    split
    · exact .inr ⟨_, rfl⟩
    next hne =>
    cases hread : readBase64 encoded.toList with
    | error e => exact .inr ⟨_, rfl⟩
    | ok content =>
      exact .inl ⟨_, _, .base64 (by simpa using hne) (readBase64_eq_ok.1 hread)⟩
  split
  · exact .inr ⟨_, rfl⟩
  next rest hscheme =>
  split
  · exact .inr ⟨_, rfl⟩
  next cs cs' hsplit =>
    -- The second form: a mark parts the media type from the content.
  obtain ⟨media, rfl⟩ := exists_toList cs
  obtain ⟨encoded, rfl⟩ := exists_toList cs'
  obtain rfl : address = "data:" ++ media ++ ";base64," ++ encoded := by
    rw [← String.toList_inj, toList_data, afterFront_eq_some.1 hscheme,
      append_of_splitAtMark hsplit]
  split
  · exact .inr ⟨_, rfl⟩
  next hform =>
  obtain ⟨hmedia, hne⟩ := not_or.1 hform
  cases hread : readBase64 encoded.toList with
  | error e => exact .inr ⟨_, rfl⟩
  | ok content =>
    have hmedia : IsMediaType media := isTypeLike_iff.1 (Bool.of_not_eq_false hmedia)
    exact .inl ⟨_, _, .data hmedia (by simpa using hne) (readBase64_eq_ok.1 hread)⟩

/-- Content and its media are read from exactly the addresses that give them. -/
theorem ofInlineAddress_eq_ok : ofInlineAddress address = .ok s ↔
    ∃ content type, s = .memory content type false ∧ Inline address content type := by
  constructor
  · intro h
    rcases inline_or_refused address with ⟨content, type, hinline⟩ | ⟨flaw, hflaw⟩
    · rw [hinline.read] at h
      exact ⟨content, type, (Except.ok.inj h).symm, hinline⟩
    · rw [hflaw] at h
      cases h
  · rintro ⟨content, type, rfl, h⟩
    exact h.read

/-! ### Exactness -/

/-- Anything that is written out is written with symbols. -/
theorem ne_empty_of_symbols {symbols : String} (hne : content ≠ .empty)
    (h : List.Forall₂ StandsFor symbols.toList (Base64.encode content.toList)) : symbols ≠ "" := by
  rintro rfl
  have hbytes : content.toList = [] := by
    have hread := Base64.decode_encode content.toList
    rw [List.forall₂_nil_left_iff.1 h] at hread
    exact (Except.ok.inj hread).symm
  exact hne (toArray_eq_iff.2 hbytes.symm).symm

/-- What is read from an address is content in memory that may be replaced, from exactly the
addresses that give this content and type: nothing from the empty one, and else what stands in
base64 after `base64://`, or after `data:`, a media type and `;base64,`. So all content that is not
empty is read from its padded form, whichever of its symbols are those of the alphabet for
addresses. Every address that gives no content is refused as such. -/
theorem inline_addresses_exact :
    (∀ address s, ofInlineAddress address = .ok s ↔
      ∃ content type, s = .memory content type false ∧ Inline address content type) ∧
    (∀ content : Bytes, content ≠ .empty → ∀ symbols : String,
      List.Forall₂ StandsFor symbols.toList (Base64.encode content.toList) →
      ofInlineAddress ("base64://" ++ symbols) = .ok (.memory content none false) ∧
      ∀ media, IsMediaType media → ofInlineAddress ("data:" ++ media ++ ";base64," ++ symbols) =
        .ok (.memory content (some media) false)) ∧
    (∀ address, (¬ ∃ content type, Inline address content type) →
      ∃ flaw, ofInlineAddress address = .error (.invalidAddress address flaw)) := by
  refine ⟨fun address s => ofInlineAddress_eq_ok, ?_, ?_⟩
  · intro content hcontent symbols hsymbols
    have hne := ne_empty_of_symbols hcontent hsymbols
    have hholds : Holds symbols content :=
      ⟨[], symbols.toList, [], by simp, nofun, nofun, hsymbols⟩
    refine ⟨(Inline.base64 hne hholds).read, fun media hmedia => ?_⟩
    exact (Inline.data hmedia hne hholds).read
  · intro address hnone
    exact (inline_or_refused address).resolve_left hnone

theorem inline_addresses_exact_mixed :
    ofInlineAddress "base64://-/_+" = .ok (.memory ⟨#[0xfb, 0xff, 0xfe]⟩ none false) ∧
    ofInlineAddress "data:text/plain;base64,-/_+" =
      .ok (.memory ⟨#[0xfb, 0xff, 0xfe]⟩ (some "text/plain") false) := by
  have hsymbols : List.Forall₂ StandsFor "-/_+".toList
      (Base64.encode (ByteArray.toList ⟨#[0xfb, 0xff, 0xfe]⟩)) :=
    map_standardSymbol_encode.1 (by decide +kernel)
  obtain ⟨-, hread, -⟩ := inline_addresses_exact
  obtain ⟨hbase64, hdata⟩ := hread ⟨#[0xfb, 0xff, 0xfe]⟩ (by decide) "-/_+" hsymbols
  exact ⟨hbase64, hdata "text/plain" (isTypeLike_iff.1 (by decide +kernel))⟩

end Depot.Source
