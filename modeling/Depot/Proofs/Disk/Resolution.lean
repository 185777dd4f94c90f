import Mathlib.Tactic.Common
import Depot.Proofs.Disk.Extension
/-!
# Ways through a disk

The successful ways from a directory down some names, one rule for each kind of step. Following
names is the same as taking such a way, so that facts about paths are inductions on ways: what
names lead to stays where it is on a disk that keeps the ways, and a way down some names and one
more passes a directory before the last.
-/

namespace Depot.Disk

/-- A name that can stand in a directory. -/
def IsName (s : String) : Prop := s ≠ "." ∧ s ≠ ".." ∧ s.utf8ByteSize ≤ maxName

instance IsName.decidable (s : String) : Decidable (IsName s) :=
  inferInstanceAs (Decidable (_ ∧ _ ∧ _))

/-- Names lead from a directory to a target, with at most `links` links on the way. -/
inductive Leads (d : Disk) (last : Bool) : Nat → Location → List String → Target → Prop
  | here {links l} : Leads d last links l [] (.found l)
  | dot {links l ss t} : Leads d last links l ss t → Leads d last links l ("." :: ss) t
  | up {links l ss t} : Leads d last links l.dropLast ss t → Leads d last links l (".." :: ss) t
  | free {links l s} : IsName s → d.node? (l ++ [s]) = none →
      Leads d last links l [s] (.free l s)
  | dir {links l s ss t} : IsName s → d.node? (l ++ [s]) = some .dir →
      Leads d last links (l ++ [s]) ss t → Leads d last links l (s :: ss) t
  | file {links l s b} : IsName s → d.node? (l ++ [s]) = some (.file b) →
      Leads d last links l [s] (.found (l ++ [s]))
  | lastLink {links l s q} : IsName s → d.node? (l ++ [s]) = some (.link q) → last = false →
      Leads d last links l [s] (.found (l ++ [s]))
  | link {links l s ss q t} : IsName s → d.node? (l ++ [s]) = some (.link q) →
      ¬(ss = [] ∧ last = false) → Leads d last links (q.start l) (q.steps ++ ss) t →
      Leads d last (links + 1) l (s :: ss) t

variable {d d' : Disk} {last : Bool} {links k : Nat} {l m g : Location} {s : String}
  {ss : List String} {t : Target} {p q : Path}

/-! ### Following is taking a way -/

@[simp] theorem follow_nil : d.follow last links l [] = .ok (.found l) := by
  unfold follow
  rfl

/-- Names are followed one after the other. -/
theorem follow_cons : d.follow last links l (s :: ss) =
    if s = "." then d.follow last links l ss
    else if s = ".." then d.follow last links l.dropLast ss
    else if maxName < s.utf8ByteSize then .error .nameTooLong
    else
      match d.node? (l ++ [s]) with
      | none           => if ss = [] then .ok (.free l s) else .error .notFound
      | some .dir      => d.follow last links (l ++ [s]) ss
      | some (.file _) => if ss = [] then .ok (.found (l ++ [s])) else .error .notDirectory
      | some (.link q) =>
        if ss = [] ∧ last = false then .ok (.found (l ++ [s]))
        else
          match links with
          | 0         => .error .tooManyLinks
          | links + 1 => d.follow last links (q.start l) (q.steps ++ ss) := by
  rw [follow.eq_def]
  simp only [advance]
  by_cases h₁ : s = "."
  · simp only [if_pos h₁]
    rw [follow.eq_def d last links l ss]
  by_cases h₂ : s = ".."
  · simp only [if_neg h₁, if_pos h₂]
    rw [follow.eq_def d last links l.dropLast ss]
  by_cases h₃ : maxName < s.utf8ByteSize
  · simp only [if_neg h₁, if_neg h₂, if_pos h₃]
  simp only [if_neg h₁, if_neg h₂, if_neg h₃]
  cases d.node? (l ++ [s]) with
  | none =>
    dsimp only
    split_ifs <;> rfl
  | some n =>
    cases n with
    | dir =>
      dsimp only
      rw [follow.eq_def d last links (l ++ [s]) ss]
    | file b =>
      dsimp only
      split_ifs <;> rfl
    | link q =>
      dsimp only
      split_ifs <;> rfl

/-- The way that following has taken, if links can be followed one by one. -/
theorem leads_of_follow_aux
    (ih : ∀ {k l ss t}, links = k + 1 → d.follow last k l ss = .ok t → d.Leads last k l ss t)
    (h : d.follow last links l ss = .ok t) : d.Leads last links l ss t := by
  induction ss generalizing l with
  | nil =>
    rw [follow_nil] at h
    cases h
    exact .here
  | cons s ss ihs =>
    -- The first name of the path: a dot, two dots, or a name at which there may be anything.
    rw [follow_cons] at h
    split at h
    · next hs => exact hs ▸ .dot (ihs h)
    next h₁ =>
    split at h
    · next hs => exact hs ▸ .up (ihs h)
    next h₂ =>
    split at h
    · cases h
    next h₃ =>
    have hs : IsName s := ⟨h₁, h₂, Nat.le_of_not_lt h₃⟩
    split at h
    · next hn =>
      split at h
      · next he =>
        cases h
        subst he
        exact .free hs hn
      · cases h
    · next hn => exact .dir hs hn (ihs h)
    · next hn =>
      split at h
      · next he =>
        cases h
        subst he
        exact .file hs hn
      · cases h
    · next hn =>
      split at h
      · next he =>
        cases h
        obtain ⟨rfl, hl⟩ := he
        exact .lastLink hs hn hl
      · next he =>
        split at h
        · cases h
        · exact .link hs hn he (ih rfl h)

theorem leads_of_follow (h : d.follow last links l ss = .ok t) : d.Leads last links l ss t := by
  induction links generalizing l ss t with
  | zero => exact leads_of_follow_aux (by simp) h
  | succ links ih =>
    refine leads_of_follow_aux (fun {k l ss t} hk hf => ?_) h
    cases hk
    exact ih hf

theorem follow_of_leads (h : d.Leads last links l ss t) : d.follow last links l ss = .ok t := by
  induction h with
  | here => exact follow_nil
  | dot _ ih => rw [follow_cons, if_pos rfl, ih]
  | up _ ih => rw [follow_cons, if_neg (by decide), if_pos rfl, ih]
  | free hs hn =>
    rw [follow_cons, if_neg hs.1, if_neg hs.2.1, if_neg (Nat.not_lt.2 hs.2.2), hn]
    rfl
  | dir hs hn _ ih =>
    rw [follow_cons, if_neg hs.1, if_neg hs.2.1, if_neg (Nat.not_lt.2 hs.2.2), hn]
    exact ih
  | file hs hn =>
    rw [follow_cons, if_neg hs.1, if_neg hs.2.1, if_neg (Nat.not_lt.2 hs.2.2), hn]
    rfl
  | lastLink hs hn hl =>
    rw [follow_cons, if_neg hs.1, if_neg hs.2.1, if_neg (Nat.not_lt.2 hs.2.2), hn]
    exact if_pos ⟨rfl, hl⟩
  | link hs hn hl _ ih =>
    rw [follow_cons, if_neg hs.1, if_neg hs.2.1, if_neg (Nat.not_lt.2 hs.2.2), hn]
    simp only [if_neg hl]
    exact ih

/-- Following names succeeds exactly along a way. -/
theorem follow_eq_ok : d.follow last links l ss = .ok t ↔ d.Leads last links l ss t :=
  ⟨leads_of_follow, follow_of_leads⟩

/-! ### The first step of a way -/

theorem leads_dot : d.Leads last links l ("." :: ss) t ↔ d.Leads last links l ss t := by
  rw [← follow_eq_ok, ← follow_eq_ok, follow_cons, if_pos rfl]

theorem leads_up : d.Leads last links l (".." :: ss) t ↔ d.Leads last links l.dropLast ss t := by
  rw [← follow_eq_ok, ← follow_eq_ok, follow_cons, if_neg (by decide), if_pos rfl]

theorem follow_name (hs : IsName s) : d.follow last links l (s :: ss) =
    match d.node? (l ++ [s]) with
    | none           => if ss = [] then .ok (.free l s) else .error .notFound
    | some .dir      => d.follow last links (l ++ [s]) ss
    | some (.file _) => if ss = [] then .ok (.found (l ++ [s])) else .error .notDirectory
    | some (.link q) =>
      if ss = [] ∧ last = false then .ok (.found (l ++ [s]))
      else
        match links with
        | 0         => .error .tooManyLinks
        | links + 1 => d.follow last links (q.start l) (q.steps ++ ss) := by
  rw [follow_cons, if_neg hs.1, if_neg hs.2.1, if_neg (Nat.not_lt.2 hs.2.2)]

theorem leads_dir (hs : IsName s) (hn : d.node? (l ++ [s]) = some .dir) :
    d.Leads last links l (s :: ss) t ↔ d.Leads last links (l ++ [s]) ss t := by
  rw [← follow_eq_ok, ← follow_eq_ok, follow_name hs, hn]

theorem leads_file {b : Bytes} (hs : IsName s) (hn : d.node? (l ++ [s]) = some (.file b)) :
    d.Leads last links l (s :: ss) t ↔ ss = [] ∧ t = .found (l ++ [s]) := by
  rw [← follow_eq_ok, follow_name hs, hn]
  dsimp only
  split_ifs with h <;> simp [h, eq_comm]

/-- A link is either the end of a way or followed. -/
theorem leads_link (hs : IsName s) (hn : d.node? (l ++ [s]) = some (.link q))
    (hw : d.Leads last links l (s :: ss) t) : ss = [] ∧ last = false ∨
      ∃ k, links = k + 1 ∧ d.Leads last k (q.start l) (q.steps ++ ss) t := by
  rw [← follow_eq_ok, follow_name hs, hn] at hw
  dsimp only at hw
  split_ifs at hw with h
  · exact .inl h
  · cases links with
    | zero => cases hw
    | succ k => exact .inr ⟨k, rfl, follow_eq_ok.1 hw⟩

/-! ### Ways on other disks -/

namespace Leads

/-- Names lead to something on every disk that keeps the ways, if it is no file or a file there
as well. -/
theorem mono (h : d.KeepsWays d')
    (hg : ∀ b, d.node? g = some (.file b) → ∃ b', d'.node? g = some (.file b'))
    (hw : d.Leads last links l ss (.found g)) : d'.Leads last links l ss (.found g) := by
  generalize ht : Target.found g = t at hw
  induction hw with
  | here => exact .here
  | dot _ ih => exact .dot (ih ht)
  | up _ ih => exact .up (ih ht)
  | free => cases ht
  | dir hs hn _ ih => exact .dir hs (h.node hn (by simp)) (ih ht)
  | file hs hn =>
    cases ht
    obtain ⟨b', hb⟩ := hg _ hn
    exact .file hs hb
  | lastLink hs hn hl => exact .lastLink hs (h.node hn (by simp)) hl
  | link hs hn hl _ ih => exact .link hs (h.node hn (by simp)) hl (ih ht)

/-! ### The last name of a way -/

/-- A way down some names and one more passes a directory before the last name. -/
theorem split (hw : d.Leads last links l (ss ++ [s]) t) :
    ∃ m k, d.Leads true links l (ss ++ ["."]) (.found m) ∧ d.Leads last k m [s] t := by
  -- Each step of the way is at the last name or before it.
  generalize hx : ss ++ [s] = xs at hw
  induction hw generalizing ss with
  | here => simp at hx
  | dot hw ih =>
    rcases List.append_eq_cons_iff.1 hx with ⟨rfl, hx⟩ | ⟨ss, rfl, rfl⟩
    · cases hx
      exact ⟨_, _, .dot .here, .dot hw⟩
    · obtain ⟨m, k, h₁, h₂⟩ := ih rfl
      exact ⟨m, k, .dot h₁, h₂⟩
  | up hw ih =>
    rcases List.append_eq_cons_iff.1 hx with ⟨rfl, hx⟩ | ⟨ss, rfl, rfl⟩
    · cases hx
      exact ⟨_, _, .dot .here, .up hw⟩
    · obtain ⟨m, k, h₁, h₂⟩ := ih rfl
      exact ⟨m, k, .up h₁, h₂⟩
  | dir hs hn hw ih =>
    rcases List.append_eq_cons_iff.1 hx with ⟨rfl, hx⟩ | ⟨ss, rfl, rfl⟩
    · cases hx
      exact ⟨_, _, .dot .here, .dir hs hn hw⟩
    · obtain ⟨m, k, h₁, h₂⟩ := ih rfl
      exact ⟨m, k, .dir hs hn h₁, h₂⟩
  | free hs hn =>
    obtain ⟨rfl, hx⟩ := (List.append_eq_singleton_iff.1 hx).resolve_right (by simp)
    cases hx
    exact ⟨_, 0, .dot .here, .free hs hn⟩
  | file hs hn =>
    obtain ⟨rfl, hx⟩ := (List.append_eq_singleton_iff.1 hx).resolve_right (by simp)
    cases hx
    exact ⟨_, 0, .dot .here, .file hs hn⟩
  | lastLink hs hn hl =>
    obtain ⟨rfl, hx⟩ := (List.append_eq_singleton_iff.1 hx).resolve_right (by simp)
    cases hx
    exact ⟨_, 0, .dot .here, .lastLink hs hn hl⟩
  | @link links l' a ss' q t hs hn hl hw ih =>
    -- The steps of the target of a link come before the names that are left.
    rcases List.append_eq_cons_iff.1 hx with ⟨rfl, hx⟩ | ⟨ss, rfl, rfl⟩
    · cases hx
      exact ⟨_, _, .dot .here, .link hs hn hl hw⟩
    · obtain ⟨m, k, h₁, h₂⟩ := ih (List.append_assoc q.steps ss _)
      refine ⟨m, k, .link hs hn (by simp) ?_, h₂⟩
      simpa using h₁

/-- A way to a directory goes on with more names. -/
theorem join {ss' : List String} (hne : ss' ≠ [])
    (hw : d.Leads true links l (ss ++ ["."]) (.found m))
    (hs : ∀ k, d.Leads last k m ss' t) : d.Leads last links l (ss ++ ss') t := by
  -- The dot at the end makes the way stop at the directory, and gives place to the other names.
  generalize hx : ss ++ ["."] = xs at hw
  generalize hg : Target.found m = g at hw
  induction hw generalizing ss with
  | here => simp at hx
  | dot hw ih =>
    rcases List.append_eq_cons_iff.1 hx with ⟨rfl, hx⟩ | ⟨ss, rfl, rfl⟩
    · cases hx
      cases hw
      cases hg
      exact hs _
    · exact .dot (ih rfl hg)
  | up _ ih =>
    rcases List.append_eq_cons_iff.1 hx with ⟨rfl, hx⟩ | ⟨ss, rfl, rfl⟩
    · simp at hx
    · exact .up (ih rfl hg)
  | dir hn hd _ ih =>
    rcases List.append_eq_cons_iff.1 hx with ⟨rfl, hx⟩ | ⟨ss, rfl, rfl⟩
    · cases hx
      exact absurd rfl hn.1
    · exact .dir hn hd (ih rfl hg)
  | free => cases hg
  | file hn =>
    obtain ⟨-, hx⟩ := (List.append_eq_singleton_iff.1 hx).resolve_right (by simp)
    cases hx
    exact absurd rfl hn.1
  | lastLink _ _ hl => cases hl
  | @link links l' a xs q t hn hd _ _ ih =>
    rcases List.append_eq_cons_iff.1 hx with ⟨rfl, hx⟩ | ⟨ss, rfl, rfl⟩
    · cases hx
      exact absurd rfl hn.1
    · refine .link hn hd (by simp [hne]) ?_
      simpa using ih (List.append_assoc q.steps ss _) hg

/-- A way to a directory may end with a dot. -/
theorem snoc_dot (hw : d.Leads true links l ss (.found m)) (hm : d.node? m = some .dir) :
    d.Leads true links l (ss ++ ["."]) (.found m) := by
  generalize hg : Target.found m = g at hw
  induction hw with
  | here =>
    cases hg
    exact .dot .here
  | dot _ ih => exact .dot (ih hg)
  | up _ ih => exact .up (ih hg)
  | free => cases hg
  | dir hs hn _ ih => exact .dir hs hn (ih hg)
  | file _ hn =>
    cases hg
    rw [hm] at hn
    cases hn
  | lastLink _ _ hl => cases hl
  | link hs hn _ _ ih =>
    refine .link hs hn (by simp) ?_
    simpa using ih hg

/-- Dots can be left out of a way. -/
theorem drop_dots (xs ss : List String) (hw : d.Leads true links l (xs ++ ss) (.found m)) :
    d.Leads true links l (xs ++ ss.filter (· ≠ ".")) (.found m) := by
  -- The first names keep their dots, so that a link in the way may put its steps there.
  generalize hx : xs ++ ss = ys at hw
  generalize hg : Target.found m = g at hw
  induction hw generalizing xs ss with
  | here =>
    obtain ⟨rfl, rfl⟩ := List.append_eq_nil_iff.1 hx
    exact .here
  | dot _ ih =>
    rcases List.append_eq_cons_iff.1 hx with ⟨rfl, rfl⟩ | ⟨xs, rfl, rfl⟩
    · have := ih [] _ rfl hg
      simpa using this
    · exact .dot (ih _ _ rfl hg)
  | up _ ih =>
    rcases List.append_eq_cons_iff.1 hx with ⟨rfl, rfl⟩ | ⟨xs, rfl, rfl⟩
    · exact .up (ih [] _ rfl hg)
    · exact .up (ih _ _ rfl hg)
  | free => cases hg
  | dir hs hn _ ih =>
    rcases List.append_eq_cons_iff.1 hx with ⟨rfl, rfl⟩ | ⟨xs, rfl, rfl⟩
    · simpa [hs.1] using Leads.dir hs hn (ih [] _ rfl hg)
    · exact .dir hs hn (ih _ _ rfl hg)
  | file hs hn =>
    rcases List.append_eq_cons_iff.1 hx with ⟨rfl, rfl⟩ | ⟨xs, rfl, hx⟩
    · simpa [hs.1] using Leads.file hs hn
    · simp only [List.cons_append, List.cons.injEq, List.append_eq_nil_iff, true_and] at hx
      obtain ⟨rfl, rfl⟩ := hx
      exact .file hs hn
  | lastLink _ _ hl => cases hl
  | @link _ _ _ _ q _ hs hn _ _ ih =>
    rcases List.append_eq_cons_iff.1 hx with ⟨rfl, rfl⟩ | ⟨xs, rfl, rfl⟩
    · simpa [hs.1] using Leads.link hs hn (by simp) (ih _ _ rfl hg)
    · refine .link hs hn (by simp) ?_
      have := ih (q.steps ++ xs) ss (List.append_assoc q.steps xs ss) hg
      simpa using this

/-- The dot at the end of a way can be left out. -/
theorem undot (hw : d.Leads true links l (ss ++ ["."]) (.found m)) :
    d.Leads true links l ss (.found m) := by
  simpa using hw.drop_dots ss ["."]

/-- A way may stop at a link instead of following it at the end. -/
theorem stop (hw : d.Leads true links l ss (.found m)) :
    ∃ g, d.Leads false links l ss (.found g) := by
  generalize hg : Target.found m = t at hw
  induction hw with
  | here => exact ⟨_, .here⟩
  | dot _ ih => exact (ih hg).imp fun _ => .dot
  | up _ ih => exact (ih hg).imp fun _ => .up
  | free => cases hg
  | dir hs hn _ ih => exact (ih hg).imp fun _ => .dir hs hn
  | file hs hn => exact ⟨_, .file hs hn⟩
  | lastLink _ _ hlast => cases hlast
  | @link _ _ _ ss _ _ hs hn _ _ ih =>
    by_cases he : ss = []
    · subst he
      exact ⟨_, .lastLink hs hn rfl⟩
    · exact (ih hg).imp fun _ => .link hs hn (by simp [he])

/-- A way to a directory passes one after each of its names. -/
theorem prefix_dir (xs ss : List String)
    (hw : d.Leads true links l (xs ++ ss ++ ["."]) (.found m)) :
    ∃ g, d.Leads true links l (xs ++ ["."]) (.found g) := by
  induction ss generalizing xs with
  | nil => exact ⟨m, by simpa using hw⟩
  | cons s ss ih =>
    obtain ⟨g, hg⟩ := ih (xs ++ [s]) (by simpa using hw)
    obtain ⟨g', _, hg', -⟩ := hg.undot.split
    exact ⟨g', hg'⟩

theorem unique {t' : Target} (h : d.Leads last links l ss t) (h' : d.Leads last links l ss t') :
    t = t' := by
  have := (follow_of_leads h).symm.trans (follow_of_leads h')
  cases this
  rfl

end Leads

/-! ### Trees of directories -/

/-- Everything stands in a directory, and so does the process. -/
structure Tree (d : Disk) : Prop where
  workDir : d.node? d.workDir = some .dir
  parent : ∀ {l s}, d.node? (l ++ [s]) ≠ none → d.node? l = some .dir

theorem node?_start (hl : d.node? l = some .dir) : d.node? (q.start l) = some .dir := by
  unfold Path.start
  split
  · rfl
  · exact hl

namespace Tree

/-- The directory above a directory is one. -/
theorem node?_dropLast (ht : d.Tree) (hl : d.node? l = some .dir) :
    d.node? l.dropLast = some .dir := by
  rcases List.eq_nil_or_concat l with rfl | ⟨m, s, rfl⟩
  · rfl
  · rw [List.concat_eq_append] at hl ⊢
    rw [List.dropLast_concat]
    exact ht.parent (s := s) (by simp [hl])

end Tree

/-- What a way down a tree ends with: something that stands there, or a free name in a
directory. -/
def Target.Fits (d : Disk) : Target → Prop
  | .found l  => d.node? l ≠ none
  | .free l s => d.node? l = some .dir ∧ d.node? (l ++ [s]) = none ∧ IsName s

namespace Leads

theorem fits (ht : d.Tree) (hl : d.node? l = some .dir) (hw : d.Leads last links l ss t) :
    t.Fits d := by
  induction hw with
  | here => simp [Target.Fits, hl]
  | dot _ ih => exact ih hl
  | up _ ih => exact ih (ht.node?_dropLast hl)
  | free hs hn => exact ⟨hl, hn, hs⟩
  | dir _ hn _ ih => exact ih hn
  | file _ hn => simp [Target.Fits, hn]
  | lastLink _ hn _ => simp [Target.Fits, hn]
  | link _ _ _ _ ih => exact ih (node?_start hl)

/-- A way that ends with a dot ends in a directory. -/
theorem dir_of_dot (ht : d.Tree) (hl : d.node? l = some .dir)
    (hw : d.Leads last links l (ss ++ ["."]) t) : ∃ m, t = .found m ∧ d.node? m = some .dir := by
  generalize hx : ss ++ ["."] = xs at hw
  induction hw generalizing ss with
  | here => simp at hx
  | dot hw ih =>
    rcases List.append_eq_cons_iff.1 hx with ⟨rfl, hx⟩ | ⟨ss, rfl, rfl⟩
    · cases hx
      cases hw
      exact ⟨_, rfl, hl⟩
    · exact ih hl rfl
  | up _ ih =>
    rcases List.append_eq_cons_iff.1 hx with ⟨rfl, hx⟩ | ⟨ss, rfl, rfl⟩
    · simp at hx
    · exact ih (ht.node?_dropLast hl) rfl
  | dir hn hd _ ih =>
    rcases List.append_eq_cons_iff.1 hx with ⟨rfl, hx⟩ | ⟨ss, rfl, rfl⟩
    · cases hx
      exact absurd rfl hn.1
    · exact ih hd rfl
  | free hn | file hn | lastLink hn =>
    obtain ⟨-, hx⟩ := (List.append_eq_singleton_iff.1 hx).resolve_right (by simp)
    cases hx
    exact absurd rfl hn.1
  | @link links l a ss' q t hn hd _ _ ih =>
    rcases List.append_eq_cons_iff.1 hx with ⟨rfl, hx⟩ | ⟨ss, rfl, rfl⟩
    · cases hx
      exact absurd rfl hn.1
    · exact ih (node?_start hl) (List.append_assoc q.steps ss _)

end Leads

end Depot.Disk
