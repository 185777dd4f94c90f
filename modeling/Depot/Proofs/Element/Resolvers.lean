import Depot.Proofs.Element.Inline
/-!
# Resolvers in any order

No address is accepted by resolvers of two kinds, so the order in which resolvers are asked does not
matter: an address is resolved if one of them accepts it, to what this one reads from it. If none
does, each gives its reason. A resolver that fails otherwise ends the search where it stands.
-/

namespace Depot

open Text

/-! ### Files and web pages -/

namespace Source

variable {address : String} {s : Source}

/-- What files are read from goes on with an absolute path. -/
theorem ofFileAddress_eq_ok : ofFileAddress address = .ok s ↔
    ∃ path : String, address = "file://" ++ path ∧ path.toList.head? = some '/' ∧
      s = .file path none false := by
  have htoList (path : String) : ("file://" ++ path).toList = fileScheme ++ path.toList :=
    String.toList_append
  constructor
  · intro h
    unfold ofFileAddress at h
    split at h
    · cases h
    next cs hscheme =>
    obtain ⟨path, rfl⟩ := exists_toList cs
    split at h
    · next hroot =>
      cases h
      refine ⟨path, ?_, hroot, by simp⟩
      rw [← String.toList_inj, htoList, afterFront_eq_some.1 hscheme]
    · cases h
  · rintro ⟨path, rfl, hroot, rfl⟩
    simp [ofFileAddress, htoList, hroot]

theorem file_or_refused (address : String) : (∃ s, ofFileAddress address = .ok s) ∨
    ∃ flaw, ofFileAddress address = .error (.invalidAddress address flaw) := by
  unfold ofFileAddress
  split
  · exact .inr ⟨_, rfl⟩
  split
  · exact .inl ⟨_, rfl⟩
  · exact .inr ⟨_, rfl⟩

/-- What a web page is read from names the scheme, and the page has this address. -/
theorem web_or_refused (address : String) :
    (ofSchemedWebAddress address = .ok (.web address defaultTimeout) ∧
      ∃ rest, address.toList = 'h' :: rest) ∨
    ∃ flaw, ofSchemedWebAddress address = .error (.invalidAddress address flaw) := by
  unfold ofSchemedWebAddress
  split
  · next hscheme =>
    have hfirst : ∃ rest, address.toList = 'h' :: rest := by
      unfold afterWebScheme at hscheme
      cases hs : afterFront httpsScheme address.toList with
      | some rest => exact ⟨_, afterFront_eq_some.1 hs⟩
      | none =>
        rw [hs, Option.none_or] at hscheme
        obtain ⟨rest, hrest⟩ := Option.isSome_iff_exists.1 hscheme
        exact ⟨_, afterFront_eq_some.1 hrest⟩
    rw [ofWebAddress, if_pos hscheme, ofFullWebAddress]
    split
    · exact .inr ⟨_, rfl⟩
    split
    · exact .inr ⟨_, rfl⟩
    · exact .inl ⟨rfl, hfirst⟩
  · exact .inr ⟨_, rfl⟩

end Source

namespace Resolver

variable {address : String} {r r' : Resolver} {rs rs' front back : List Resolver}
  {reasons reasons' : List (String × String)} {s : Source} {e : ElementError}

/-! ### Single resolvers -/

/-- A resolver reads something from an address. -/
def Accepts (r : Resolver) (address : String) : Prop := ∃ s, r.read address = .ok s

/-- A resolver finds that an address is none of its own, and says why. -/
def Refuses (r : Resolver) (address reason : String) : Prop :=
  ∃ flaw, r.read address = .error (.invalidAddress address flaw) ∧ flaw.message = reason

/-- Resolvers refuse an address, for these reasons and in this order. -/
def Refuse (rs : List Resolver) (address : String) (reasons : List (String × String)) : Prop :=
  List.Forall₂ (fun r reason => r.name = reason.1 ∧ r.Refuses address reason.2) rs reasons

/-- The kinds of resolvers. -/
def kinds : List Resolver := [memory, file, web]

/-- The only kind that can accept addresses that begin so. -/
def ofInitial : Option Char → Resolver
  | some 'f' => file
  | some 'h' => web
  | _        => memory

theorem eq_ofInitial (hr : r ∈ kinds) (h : r.Accepts address) :
    r = ofInitial address.toList.head? := by
  obtain ⟨s, hs⟩ := h
  simp only [kinds, List.mem_cons, List.not_mem_nil, or_false] at hr
  rcases hr with rfl | rfl | rfl
  · obtain ⟨content, type, -, hinline⟩ := Source.ofInlineAddress_eq_ok.1 hs
    cases hinline with
    | empty => rfl
    | base64 =>
      rw [Source.toList_base64]
      rfl
    | data =>
      rw [Source.toList_data]
      rfl
  · obtain ⟨path, rfl, -⟩ := Source.ofFileAddress_eq_ok.1 hs
    rw [String.toList_append]
    rfl
  · rcases Source.web_or_refused address with ⟨-, rest, hrest⟩ | ⟨flaw, hflaw⟩
    · rw [hrest]
      rfl
    · cases hs.symm.trans hflaw

/-- No address is accepted by resolvers of two kinds. -/
theorem eq_of_accepts (hr : r ∈ kinds) (hr' : r' ∈ kinds) (h : r.Accepts address)
    (h' : r'.Accepts address) : r = r' :=
  (eq_ofInitial hr h).trans (eq_ofInitial hr' h').symm

/-- Resolvers of all kinds fail by refusing only. -/
theorem accepts_or_refuses (hr : r ∈ kinds) (address : String) :
    r.Accepts address ∨ ∃ reason, r.Refuses address reason := by
  simp only [kinds, List.mem_cons, List.not_mem_nil, or_false] at hr
  rcases hr with rfl | rfl | rfl
  · refine (Source.inline_or_refused address).imp ?_ ?_
    · rintro ⟨content, type, hinline⟩
      exact ⟨_, hinline.read⟩
    · rintro ⟨flaw, hflaw⟩
      exact ⟨_, flaw, hflaw, rfl⟩
  · refine (Source.file_or_refused address).imp id ?_
    rintro ⟨flaw, hflaw⟩
    exact ⟨_, flaw, hflaw, rfl⟩
  · refine (Source.web_or_refused address).imp ?_ ?_
    · rintro ⟨hread, -⟩
      exact ⟨_, hread⟩
    · rintro ⟨flaw, hflaw⟩
      exact ⟨_, flaw, hflaw, rfl⟩

/-- What a resolver reads is of its kind. -/
theorem pluginName_of_read (hr : r ∈ kinds) (h : r.read address = .ok s) :
    s.pluginName = r.name := by
  simp only [kinds, List.mem_cons, List.not_mem_nil, or_false] at hr
  rcases hr with rfl | rfl | rfl
  · obtain ⟨content, type, rfl, -⟩ := Source.ofInlineAddress_eq_ok.1 h
    rfl
  · obtain ⟨path, -, -, rfl⟩ := Source.ofFileAddress_eq_ok.1 h
    rfl
  · rcases Source.web_or_refused address with ⟨hread, -⟩ | ⟨flaw, hflaw⟩
    · cases h.symm.trans hread
      rfl
    · cases h.symm.trans hflaw

/-! ### Lists of resolvers -/

/-- The first resolver decides by accepting. -/
theorem resolveFrom_accepted (h : r.read address = .ok s) :
    resolveFrom address reasons (r :: rs) = .ok s := by
  simp [resolveFrom, h]

/-- A resolver that refuses leaves the address to the others. -/
theorem resolveFrom_refused {reason : String} (h : r.Refuses address reason) :
    resolveFrom address reasons (r :: rs) =
      resolveFrom address (reasons ++ [(r.name, reason)]) rs := by
  obtain ⟨flaw, hflaw, rfl⟩ := h
  simp [resolveFrom, hflaw]

/-- A resolver that fails otherwise ends the search. -/
theorem resolveFrom_failed (h : r.read address = .error e)
    (he : ∀ a flaw, e ≠ .invalidAddress a flaw) :
    resolveFrom address reasons (r :: rs) = .error e := by
  rw [resolveFrom]
  split
  · next hok => cases h.symm.trans hok
  · next a flaw hflaw => exact absurd (Except.error.inj (h.symm.trans hflaw)) (he a flaw)
  · next e' _ he' => exact h.symm.trans he' ▸ rfl

/-- Resolvers that refuse leave the address to those after them, and their reasons are kept. -/
theorem resolveFrom_append (h : Refuse front address reasons') :
    resolveFrom address reasons (front ++ rs) = resolveFrom address (reasons ++ reasons') rs := by
  induction h generalizing reasons with
  | nil => simp
  | @cons r reason front reasons' hr _ ih =>
    obtain ⟨hname, hrefuses⟩ := hr
    rw [List.cons_append, resolveFrom_refused hrefuses, ih, hname, List.append_assoc]
    rfl

theorem not_accepts_of_refuses {reason : String} (h : r.Refuses address reason) :
    ¬ r.Accepts address := by
  rintro ⟨s, hs⟩
  obtain ⟨flaw, hflaw, -⟩ := h
  cases hs.symm.trans hflaw

theorem not_accepts_of_refuse (h : Refuse rs address reasons) : ∀ r ∈ rs, ¬ r.Accepts address := by
  induction h with
  | nil => exact nofun
  | cons hr _ ih => exact List.forall_mem_cons.2 ⟨not_accepts_of_refuses hr.2, ih⟩

/-- Either all resolvers of a list refuse, or one accepts after others that refuse. -/
theorem refuse_or_accepted (hrs : ∀ r ∈ rs, r ∈ kinds) (address : String) :
    (∃ reasons, Refuse rs address reasons) ∨
    ∃ front r back reasons s, rs = front ++ r :: back ∧ Refuse front address reasons ∧
      r.read address = .ok s := by
  induction rs with
  | nil => exact .inl ⟨[], .nil⟩
  | cons r rs ih =>
    obtain ⟨hr, hrs⟩ := List.forall_mem_cons.1 hrs
    rcases accepts_or_refuses hr address with ⟨s, hs⟩ | ⟨reason, hreason⟩
    · exact .inr ⟨[], r, rs, [], s, rfl, .nil, hs⟩
    rcases ih hrs with ⟨reasons, hreasons⟩ | ⟨front, r', back, reasons, s, rfl, hfront, hs⟩
    · exact .inl ⟨(r.name, reason) :: reasons, .cons ⟨rfl, hreason⟩ hreasons⟩
    · exact .inr ⟨r :: front, r', back, (r.name, reason) :: reasons, s, rfl,
        .cons ⟨rfl, hreason⟩ hfront, hs⟩

theorem exists_refuse (hrs : ∀ r ∈ rs, r ∈ kinds) (hnone : ∀ r ∈ rs, ¬ r.Accepts address) :
    ∃ reasons, Refuse rs address reasons := by
  rcases refuse_or_accepted hrs address with hrefuse | ⟨front, r, back, -, s, rfl, -, hs⟩
  · exact hrefuse
  · exact absurd ⟨s, hs⟩ (hnone r (by simp))

/-! ### Resolving -/

/-- An address that all resolvers refuse is refused for all their reasons. -/
theorem resolve_refused (h : Refuse rs address reasons) :
    resolve rs address = .error (.invalidAddress address (.refused reasons)) := by
  have happend : resolveFrom address [] (rs ++ []) = resolveFrom address ([] ++ reasons) [] :=
    resolveFrom_append h
  rwa [List.append_nil, List.nil_append] at happend

theorem resolve_accepted (hfront : Refuse front address reasons) (h : r.read address = .ok s) :
    resolve (front ++ r :: back) address = .ok s := by
  rw [resolve, resolveFrom_append hfront, resolveFrom_accepted h]

/-- An address is resolved to what a resolver that accepts it reads. -/
theorem resolve_eq_ok (hrs : ∀ r ∈ rs, r ∈ kinds) :
    resolve rs address = .ok s ↔ ∃ r ∈ rs, r.read address = .ok s := by
  rcases refuse_or_accepted hrs address with ⟨reasons, hrefuse⟩ |
    ⟨front, r, back, reasons, s', rfl, hfront, hs'⟩
  · rw [resolve_refused hrefuse]
    refine iff_of_false nofun ?_
    rintro ⟨r, hr, hs⟩
    exact not_accepts_of_refuse hrefuse r hr ⟨s, hs⟩
  · rw [resolve_accepted hfront hs']
    constructor
    · rintro heq
      cases heq
      exact ⟨r, by simp, hs'⟩
    · rintro ⟨r', hr', hs⟩
      obtain rfl := eq_of_accepts (hrs r (by simp)) (hrs r' hr') ⟨s', hs'⟩ ⟨s, hs⟩
      exact hs'.symm.trans hs

/-- A resolver that fails otherwise fails the whole search unless one before it accepts. -/
theorem resolve_failed_iff (hfront : ∀ r ∈ front, r ∈ kinds) (h : r.read address = .error e)
    (he : ∀ a flaw, e ≠ .invalidAddress a flaw) :
    resolve (front ++ r :: back) address = .error e ↔ ∀ r' ∈ front, ¬ r'.Accepts address := by
  constructor
  · intro hfailed
    rcases refuse_or_accepted hfront address with ⟨reasons, hrefuse⟩ |
      ⟨front', r', back', reasons, s, rfl, hfront', hs⟩
    · exact not_accepts_of_refuse hrefuse
    · rw [List.append_assoc, List.cons_append, resolve_accepted hfront' hs] at hfailed
      cases hfailed
  · intro hnone
    obtain ⟨reasons, hrefuse⟩ := exists_refuse hfront hnone
    rw [resolve, resolveFrom_append hrefuse, resolveFrom_failed h he]

theorem message_refused (hne : rs ≠ []) (h : Refuse rs address reasons) :
    (AddressFlaw.refused reasons).message =
      "; ".intercalate (reasons.map fun reason => reason.1 ++ ": " ++ reason.2) := by
  cases h with
  | nil => exact absurd rfl hne
  | cons => rfl

/-- No address is accepted by resolvers of two kinds, and what a resolver reads is of its kind. So a
list of resolvers of these kinds, in any order and with repetitions, resolves an address exactly if
one of them accepts it, and every list with the same resolvers resolves it to the same. If none
accepts it, it is refused, for the reasons of all entries of the list in their order. A resolver
between them that fails otherwise fails the search exactly if none before it accepts the address. -/
theorem resolve_in_any_order (address : String) :
    (∀ r ∈ kinds, ∀ r' ∈ kinds, r.Accepts address → r'.Accepts address → r = r') ∧
    (∀ r ∈ kinds, ∀ s, r.read address = .ok s → s.pluginName = r.name) ∧
    ∀ rs, (∀ r ∈ rs, r ∈ kinds) →
      ((∃ s, resolve rs address = .ok s) ↔ ∃ r ∈ rs, r.Accepts address) ∧
      (∀ s, resolve rs address = .ok s ↔ ∃ r ∈ rs, r.read address = .ok s) ∧
      (∀ rs', (∀ r, r ∈ rs' ↔ r ∈ rs) →
        ∀ s, resolve rs' address = .ok s ↔ resolve rs address = .ok s) ∧
      ((∀ r ∈ rs, ¬ r.Accepts address) → ∃ reasons, Refuse rs address reasons ∧
        resolve rs address = .error (.invalidAddress address (.refused reasons)) ∧
        (rs ≠ [] → (AddressFlaw.refused reasons).message =
          "; ".intercalate (reasons.map fun reason => reason.1 ++ ": " ++ reason.2))) ∧
      (∀ front back other e, front ++ back = rs → other.read address = .error e →
        (∀ a flaw, e ≠ .invalidAddress a flaw) →
        (resolve (front ++ other :: back) address = .error e ↔
          ∀ r ∈ front, ¬ r.Accepts address)) := by
  refine ⟨fun r hr r' hr' => eq_of_accepts hr hr', fun r hr s => pluginName_of_read hr,
    fun rs hrs => ⟨?_, fun s => resolve_eq_ok hrs, ?_, ?_, ?_⟩⟩
  · simp only [resolve_eq_ok hrs, Accepts]
    constructor
    · rintro ⟨s, r, hr, hs⟩
      exact ⟨r, hr, s, hs⟩
    · rintro ⟨r, hr, s, hs⟩
      exact ⟨s, r, hr, hs⟩
  · -- Which resolver accepts does not depend on where it stands.
    intro rs' hsame s
    have hrs' : ∀ r ∈ rs', r ∈ kinds := fun r hr => hrs r ((hsame r).1 hr)
    simp only [resolve_eq_ok hrs, resolve_eq_ok hrs', hsame]
  · intro hnone
    obtain ⟨reasons, hrefuse⟩ := exists_refuse hrs hnone
    exact ⟨reasons, hrefuse, resolve_refused hrefuse, fun hne => message_refused hne hrefuse⟩
  · rintro front back other e rfl h he
    exact resolve_failed_iff (fun r hr => hrs r (List.mem_append_left _ hr)) h he

/-- A resolver that cannot be reached. -/
def unreachable : Resolver :=
  ⟨"Broken", fun address => .error (.retrieval address (.other "resolver broken"))⟩

theorem resolve_in_any_order_file :
    resolve [web, file, file, memory] "file:///a" = .ok (.file "/a" none false) ∧
    resolve [web, unreachable, file] "file:///a" =
      .error (.retrieval "file:///a" (.other "resolver broken")) := by
  have hread : file.read "file:///a" = .ok (.file "/a" none false) := by decide +kernel
  have hother : ¬ web.Accepts "file:///a" :=
    not_accepts_of_refuses ⟨.notWeb, by decide +kernel, rfl⟩
  obtain ⟨-, -, hlists⟩ := resolve_in_any_order "file:///a"
  constructor
  · obtain ⟨-, hresolve, -⟩ := hlists [web, file, file, memory] (by simp [kinds])
    exact (hresolve _).2 ⟨file, by simp, hread⟩
  · obtain ⟨-, -, -, -, hfailed⟩ := hlists [web, file] (by simp [kinds])
    refine (hfailed [web] [file] unreachable _ rfl rfl nofun).2 ?_
    simpa using hother

end Resolver

end Depot
