import Mathlib.Data.List.Basic
import Depot.MediaType
import Depot.Proofs.Disk.Files
/-!
# Names of temporary files

What the supply has given can be read from the name of a temporary file, whatever suffix for a media
type stands after it. If the supply gives nothing twice, the name of a new file is none of those
that have been used. Numbers are such a supply.
-/

namespace Depot.Disk

variable {d d' : Disk} {m : Location} {s suffix suffix' : String} {p dir : Path} {n n' fuel : Nat}
  {c : Char} {content : Bytes} {names names' names'' : Names}

/-! ### Names -/

/-- What may stand after what the supply gives: nothing, or something that begins with a dot. -/
def IsSuffix (s : String) : Prop := ∀ c, s.toList.head? = some c → c = '.'

/-- Two lists of letters and digits with something after them that begins with neither are the same,
one by one. -/
theorem eq_of_append_eq {xs ys us vs : List Char} (hxs : ∀ c ∈ xs, c.isAlphanum = true)
    (hys : ∀ c ∈ ys, c.isAlphanum = true) (hus : ∀ c, us.head? = some c → c = '.')
    (hvs : ∀ c, vs.head? = some c → c = '.') (h : xs ++ us = ys ++ vs) : xs = ys := by
  have htake {xs us : List Char} (hxs : ∀ c ∈ xs, c.isAlphanum = true)
      (hus : ∀ c, us.head? = some c → c = '.') :
      (xs ++ us).takeWhile Char.isAlphanum = xs := by
    rw [List.takeWhile_append_of_pos hxs]
    cases us with
    | nil => simp
    | cons c us =>
      cases hus c rfl
      rw [List.takeWhile_cons_of_neg (by decide), List.append_nil]
  rw [← htake hxs hus, h, htake hys hvs]

/-- What the supply has given can be read from the name of a temporary file. -/
theorem part_of_tempName (hs : IsSuffix suffix) (hs' : IsSuffix suffix')
    (h : tempName names n suffix = tempName names n' suffix') :
    names.part n = names.part n' := by
  have hlists := congrArg String.toList h
  simp only [tempName, String.toList_append, List.append_assoc,
    List.append_cancel_left_eq] at hlists
  exact String.toList_inj.1 (eq_of_append_eq (names.plain n) (names.plain n') hs hs' hlists)

/-- The suffix for a media type, if there is any, begins with a dot. -/
theorem isSuffix_of_type [MediaTypes] (type : Option String) :
    IsSuffix (type.elim "" MediaType.suffix) := by
  have hempty : IsSuffix "" := nofun
  cases type with
  | none => exact hempty
  | some type =>
    show IsSuffix (MediaType.suffix type)
    unfold MediaType.suffix
    split
    · exact hempty
    · intro c hc
      split at hc
      · cases hc
        rfl
      · split at hc
        · simpa [eq_comm] using hc
        · cases hc

/-! ### Supplies -/

namespace Names

/-- The supply gives nothing twice. -/
def NeverTwice (names : Names) : Prop := Function.Injective names.part

/-- A name has been used for a temporary file. -/
def Used (names : Names) (s : String) : Prop :=
  ∃ n suffix, IsSuffix suffix ∧ n < names.used ∧ s = tempName names n suffix

/-- The same supply, from which more may have been taken. -/
structure Continues (names names' : Names) : Prop where
  part : names'.part = names.part
  used : names.used ≤ names'.used

/-- A name has been taken that nobody has had a turn for. -/
def Takes (names names' : Names) (s : String) : Prop :=
  ∃ n suffix, IsSuffix suffix ∧ names.used ≤ n ∧ names' = { names with used := n + 1 } ∧
    s = tempName names n suffix

namespace Continues

theorem refl (names : Names) : names.Continues names := ⟨rfl, Nat.le_refl _⟩

theorem of_eq (h : names' = names) : names.Continues names' := h ▸ refl names

theorem trans (h : names.Continues names') (h' : names'.Continues names'') :
    names.Continues names'' := ⟨h'.part.trans h.part, Nat.le_trans h.used h'.used⟩

theorem neverTwice (h : names.Continues names') (hnames : names.NeverTwice) :
    names'.NeverTwice := by
  unfold NeverTwice
  rwa [h.part]

theorem mono (h : names.Continues names') (hs : names.Used s) : names'.Used s := by
  obtain ⟨n, suffix, hsuffix, hn, rfl⟩ := hs
  exact ⟨n, suffix, hsuffix, Nat.lt_of_lt_of_le hn h.used, by rw [tempName, tempName, h.part]⟩

end Continues

theorem Takes.continues (h : names.Takes names' s) : names.Continues names' := by
  obtain ⟨n, suffix, -, hn, rfl, -⟩ := h
  exact ⟨rfl, Nat.le_succ_of_le hn⟩

theorem Takes.used (h : names.Takes names' s) : names'.Used s := by
  obtain ⟨n, suffix, hsuffix, -, rfl, rfl⟩ := h
  exact ⟨n, suffix, hsuffix, Nat.lt_succ_self n, rfl⟩

/-- What is taken has not been used, if nothing is given twice. -/
theorem NeverTwice.fresh (hnames : names.NeverTwice) (h : names.Takes names' s) :
    ¬ names.Used s := by
  rintro ⟨n', suffix', hsuffix', hlt, hs⟩
  obtain ⟨n, suffix, hsuffix, hn, -, rfl⟩ := h
  have hsame : n = n' := hnames (part_of_tempName hsuffix hsuffix' hs)
  omega

end Names

/-! ### Numbers -/

/-- The number that digits stand for, to base 62. -/
def valueOf (cs : List Char) : Nat := cs.foldl (fun n c => n * 62 + nameDigits.idxOf c) 0

theorem valueOf_concat (cs : List Char) (c : Char) :
    valueOf (cs ++ [c]) = valueOf cs * 62 + nameDigits.idxOf c := by
  simp [valueOf]

theorem valueOf_zeros (k : Nat) (cs : List Char) :
    valueOf (List.replicate k '0' ++ cs) = valueOf cs := by
  have hzeros : (List.replicate k '0').foldl (fun n c => n * 62 + nameDigits.idxOf c) 0 = 0 := by
    induction k with
    | zero => rfl
    | succ k ih => exact ih
  rw [valueOf, List.foldl_append, hzeros, valueOf]

theorem idxOf_getD_nameDigits (h : n < 62) : nameDigits.idxOf (nameDigits.getD n '0') = n := by
  revert h n
  decide +kernel

/-- Digits stand for the number that they are the digits of. -/
theorem valueOf_digits62 (h : n < fuel) : valueOf (digits62 fuel n) = n := by
  induction fuel generalizing n with
  | zero => cases h
  | succ fuel ih =>
    have hdigit := idxOf_getD_nameDigits (Nat.mod_lt n (by decide : 0 < 62))
    rw [digits62]
    split
    · next hn =>
      rw [← List.nil_append [_], valueOf_concat, hdigit, Nat.mod_eq_of_lt hn]
      exact Nat.zero_add n
    · rw [valueOf_concat, ih (by omega), hdigit]
      omega

theorem valueOf_sixDigits (n : Nat) : valueOf (sixDigits n) = n := by
  rw [sixDigits, valueOf_zeros, valueOf_digits62 (Nat.lt_succ_self n)]

/-- No number comes twice. -/
theorem Names.neverTwice_numbered : Names.numbered.NeverTwice := by
  intro n n' h
  rw [← valueOf_sixDigits n, String.ofList_injective h, valueOf_sixDigits]

/-! ### What takes names -/

theorem le_freeName (d : Disk) (l : Location) (suffix : String) (fuel n : Nat) :
    n ≤ d.freeName l suffix fuel n := by
  induction fuel generalizing n with
  | zero => exact Nat.le_refl n
  | succ fuel ih =>
    rw [freeName]
    split
    · exact Nat.le_of_succ_le (ih (n + 1))
    · exact Nat.le_refl n

theorem names_createFile (h : d.createFile p content = .ok d') : d'.names = d.names := by
  unfold createFile at h
  split at h <;> cases h
  rfl

/-- For a temporary file that has been written a name has been taken. -/
theorem writeTemp_name (hs : IsSuffix suffix)
    (h : writeTemp dir suffix content d = (.ok p, d')) :
    ∃ name, d.names.Takes d'.names name ∧ p = dir.join name := by
  unfold writeTemp at h
  split at h
  · cases h
  split at h
  · dsimp only at h
    split at h
    · cases h
    · next hc =>
      cases h
      exact ⟨_, ⟨_, suffix, hs, le_freeName .., by rw [names_createFile hc], rfl⟩, rfl⟩
  · cases h

theorem Ends.name_of_join (h : d.Ends (dir.join s) m suffix) : suffix = s := by
  obtain ⟨ss, hss, -⟩ := h.way
  obtain ⟨-, hs⟩ := List.append_inj' hss rfl
  cases hs
  rfl

theorem names_removeFile (d : Disk) (p : Path) :
    ((d.removeFile p).toOption.getD d).names = d.names := by
  unfold removeFile
  split
  · rfl
  · rfl
  · split
    · rfl
    · split <;> rfl

theorem Built.names_eq (h : d.Built d') : d'.names = d.names := by
  induction h with
  | refl => rfl
  | step _ _ _ _ _ ih => exact ih

theorem names_makeDirs (p : Path) (d : Disk) : (makeDirs p d).2.names = d.names := by
  have hone (p : Path) (d : Disk) : (ensureDir p d).2.names = d.names := by
    unfold ensureDir makeDir
    rcases d.resolveSteps false p p.segments with _ | _ | _ <;> rfl
  have hall (ps : List Path) (d : Disk) : (ensureDirs ps d).2.names = d.names := by
    induction ps generalizing d with
    | nil => rfl
    | cons p ps ih =>
      rw [ensureDirs, Action.bind_apply, ← hone p d]
      rcases ensureDir p d with ⟨_ | _, d'⟩
      · rfl
      · exact ih d'
  unfold makeDirs
  split
  · rfl
  · exact hall _ d

end Depot.Disk
