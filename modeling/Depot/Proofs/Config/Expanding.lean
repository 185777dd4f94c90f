import Depot.Proofs.Config.FlatForms
/-!
# Expanding any flat map

Expanding puts the entries of a flat map in place in the order of their paths, so that a path comes
before all that go on from it. An entry is refused where its path leads through a value that is not
an object, or ends at an object with members. An object that has been put in place is open to the
entries whose paths go on from it: they add members to it and replace what it holds. So what an
entry has put in place is found there as far as no other path goes on from it to there.
-/

namespace Depot.Config

open Json

variable {v u : Value} {o o' n flat before after : Object} {e e' : String × Value} {k : String}
  {p q r s : List String}

/-! ### Following a path -/

/-- What stands at the end of a path through objects. -/
def follow? : List String → Value → Option Value
  | [], v                => some v
  | k :: path, .object o => (Assoc.get? k o).bind (follow? path)
  | _ :: _, _            => none

@[simp] theorem follow?_nil (v : Value) : follow? [] v = some v := by
  cases v <;> rfl

@[simp] theorem follow?_cons_object :
    follow? (k :: p) (.object o) = (Assoc.get? k o).bind (follow? p) := rfl

theorem follow?_empty (hp : p ≠ []) : follow? p (.object []) = none := by
  cases p with
  | nil => exact absurd rfl hp
  | cons k p => rfl

/-! ### Putting one entry in place -/

/-- The members among which something is put that goes below a place: those of the object that
stands there, or none if nothing does. -/
def membersAt? : Option Value → Option Object
  | none             => some []
  | some (.object n) => some n
  | some _           => none

theorem insertPath_cons (hp : p ≠ []) : insertPath (k :: p) v o =
    (membersAt? (Assoc.get? k o)).bind fun n =>
      (insertPath p v n).map fun n' => Assoc.insert k (.object n') o := by
  obtain ⟨l, p, rfl⟩ := List.exists_cons_of_ne_nil hp
  rw [insertPath]
  cases Assoc.get? k o with
  | none => rfl
  | some w => cases w <;> rfl

theorem insertPath_cons_eq_some (hp : p ≠ []) : insertPath (k :: p) v o = some o' ↔
    ∃ n n', membersAt? (Assoc.get? k o) = some n ∧ insertPath p v n = some n' ∧
      Assoc.insert k (.object n') o = o' := by
  simp [insertPath_cons hp, Option.bind_eq_some_iff]

theorem insertPath_singleton_eq_some (h : insertPath [k] v o = some o') :
    o' = Assoc.insert k v o := by
  rw [insertPath] at h
  split at h
  · cases h
  · exact (Option.some.inj h).symm

/-- Below a place stands what is among its members. -/
theorem follow?_of_membersAt? (h : membersAt? (Assoc.get? k o) = some n) (hp : p ≠ []) :
    follow? (k :: p) (.object o) = follow? p (.object n) := by
  rw [follow?_cons_object]
  cases hw : Assoc.get? k o with
  | none =>
    rw [hw] at h
    cases h
    rw [follow?_empty hp, Option.bind_none]
  | some w =>
    rw [hw] at h
    cases w with
    | object m =>
      cases h
      rfl
    | null | bool _ | number _ | string _ | array _ => cases h

/-- A value that has been put in place is found there. -/
theorem follow?_insertPath (hp : p ≠ []) (h : insertPath p v o = some o') (r : List String) :
    follow? (p ++ r) (.object o') = follow? r v := by
  induction p generalizing o o' with
  | nil => exact absurd rfl hp
  | cons k p ih =>
    by_cases hnil : p = []
    · subst hnil
      rw [insertPath_singleton_eq_some h]
      simp [Assoc.get?_insert]
    · obtain ⟨n, n', -, hn', rfl⟩ := (insertPath_cons_eq_some hnil).1 h
      simpa [Assoc.get?_insert] using ih hnil hn'

/-- On the way to a value that has been put in place there are objects. -/
theorem follow?_insertPath_above (h : insertPath p v o = some o') (hs : s <+: p) (hne : s ≠ p) :
    ∃ n, follow? s (.object o') = some (.object n) := by
  induction p generalizing o o' s with
  | nil => exact absurd (List.prefix_nil.1 hs) hne
  | cons k p ih =>
    cases s with
    | nil => exact ⟨o', rfl⟩
    | cons k' s =>
      obtain ⟨rfl, hs'⟩ := List.cons_prefix_cons.1 hs
      have hne' : s ≠ p := fun heq => hne (heq ▸ rfl)
      have hnil : p ≠ [] := by
        rintro rfl
        exact hne' (List.prefix_nil.1 hs')
      obtain ⟨n, n', -, hn', rfl⟩ := (insertPath_cons_eq_some hnil).1 h
      simpa [Assoc.get?_insert] using ih hn' hs' hne'

theorem Apart.tail (h : Apart (k :: p) (k :: s)) : Apart p s :=
  ⟨fun hp => h.1 (List.cons_prefix_cons.2 ⟨rfl, hp⟩),
    fun hs => h.2 (List.cons_prefix_cons.2 ⟨rfl, hs⟩)⟩

theorem Apart.ne_nil (h : Apart p s) : s ≠ [] := by
  rintro rfl
  exact h.2 List.nil_prefix

/-- Everything else stays where it is. -/
theorem follow?_insertPath_of_apart (h : insertPath p v o = some o') (hs : Apart p s) :
    follow? s (.object o') = follow? s (.object o) := by
  induction p generalizing o o' s with
  | nil => exact absurd List.nil_prefix hs.1
  | cons k p ih =>
    obtain ⟨k', s, rfl⟩ := List.exists_cons_of_ne_nil hs.ne_nil
    have hother (w : Value) (hk : k' ≠ k) :
        follow? (k' :: s) (.object (Assoc.insert k w o)) = follow? (k' :: s) (.object o) := by
      simp [Assoc.get?_insert, hk]
    by_cases hnil : p = []
    · subst hnil
      rw [insertPath_singleton_eq_some h, hother]
      rintro rfl
      exact hs.1 (List.cons_prefix_cons.2 ⟨rfl, List.nil_prefix⟩)
    · obtain ⟨n, n', hn, hn', rfl⟩ := (insertPath_cons_eq_some hnil).1 h
      by_cases hk : k' = k
      · subst hk
        rw [follow?_of_membersAt? hn hs.tail.ne_nil, ← ih hn' hs.tail]
        simp [Assoc.get?_insert]
      · exact hother _ hk

/-- Whether a value keeps what stands on a path from being put in place: it stands on the way and is
not an object, or at the end and is an object with members. -/
def Blocks (p s : List String) (u : Value) : Prop :=
  s <+: p ∧ if s = p then ∃ m ms, u = .object (m :: ms) else ∀ n, u ≠ .object n

theorem blocks_cons : Blocks (k :: p) (k :: s) u ↔ Blocks p s u := by
  simp [Blocks, List.cons_prefix_cons]

/-- What keeps a value from its place stands at the first name of the path or below it. -/
theorem exists_blocks_cons :
    (∃ s u, s ≠ [] ∧ follow? s (.object o) = some u ∧ Blocks (k :: p) s u) ↔
      (∃ u, Assoc.get? k o = some u ∧ Blocks (k :: p) [k] u) ∨
        ∃ s u, s ≠ [] ∧ follow? (k :: s) (.object o) = some u ∧ Blocks p s u := by
  constructor
  · rintro ⟨s, u, hs, hu, hb⟩
    obtain ⟨k', s, rfl⟩ := List.exists_cons_of_ne_nil hs
    obtain ⟨rfl, -⟩ := List.cons_prefix_cons.1 hb.1
    by_cases hnil : s = []
    · subst hnil
      exact .inl ⟨u, by simpa using hu, hb⟩
    · exact .inr ⟨s, u, hnil, hu, blocks_cons.1 hb⟩
  · rintro (⟨u, hu, hb⟩ | ⟨s, u, -, hu, hb⟩)
    · exact ⟨[k], u, List.cons_ne_nil k [], by simpa using hu, hb⟩
    · exact ⟨k :: s, u, List.cons_ne_nil k s, hu, blocks_cons.2 hb⟩

/-- A value can be put in place unless something keeps it from there. -/
theorem insertPath_eq_none_iff (hp : p ≠ []) : insertPath p v o = none ↔
    ∃ s u, s ≠ [] ∧ follow? s (.object o) = some u ∧ Blocks p s u := by
  induction p generalizing o with
  | nil => exact absurd rfl hp
  | cons k p ih =>
    rw [exists_blocks_cons]
    by_cases hnil : p = []
    · subst hnil
      -- The last name of the path: only an object with members is in the way, as there is no below.
      have hbelow : ¬ ∃ s u, s ≠ [] ∧ follow? (k :: s) (.object o) = some u ∧ Blocks [] s u := by
        rintro ⟨s, u, hs, -, hb⟩
        exact hs (List.prefix_nil.1 hb.1)
      rw [or_iff_left hbelow, insertPath]
      simp only [Blocks, List.prefix_refl, true_and, if_true]
      split
      · next m ms h => exact iff_of_true rfl ⟨_, h, m, ms, rfl⟩
      · next h =>
        refine iff_of_false (Option.some_ne_none _) ?_
        rintro ⟨u, hu, m, ms, rfl⟩
        exact h _ _ hu
    · rw [insertPath_cons hnil]
      have hne : [k] ≠ k :: p := by simpa using Ne.symm hnil
      cases hw : membersAt? (Assoc.get? k o) with
      | none =>
        -- What is here has no members, and the path would go on through it.
        refine iff_of_true rfl (.inl ?_)
        cases hg : Assoc.get? k o with
        | none => rw [hg] at hw; cases hw
        | some w =>
          refine ⟨w, rfl, List.cons_prefix_cons.2 ⟨rfl, List.nil_prefix⟩, ?_⟩
          rw [if_neg hne]
          rintro n rfl
          rw [hg] at hw
          cases hw
      | some n =>
        -- What is here has members, so that what is in the way stands among them.
        have hopen : ¬ ∃ u, Assoc.get? k o = some u ∧ Blocks (k :: p) [k] u := by
          rintro ⟨u, hu, -, hb⟩
          rw [if_neg hne] at hb
          rw [hu] at hw
          cases u with
          | object m => exact hb m rfl
          | null | bool _ | number _ | string _ | array _ => cases hw
        rw [or_iff_right hopen, Option.bind_some, Option.map_eq_none_iff, ih hnil]
        refine exists_congr fun s => exists_congr fun u => and_congr_right fun hs => ?_
        rw [follow?_of_membersAt? hw hs]

/-! ### The order of paths -/

theorem prefix_intercalate {sep : List Char} {xs ys : List (List Char)} (h : xs <+: ys) :
    sep.intercalate xs <+: sep.intercalate ys := by
  induction xs generalizing ys with
  | nil => exact List.nil_prefix
  | cons x xs ih =>
    obtain ⟨zs, rfl⟩ := h
    cases xs with
    | nil => cases zs <;> simp [List.intercalate_cons_cons]
    | cons x' xs =>
      rw [List.cons_append, List.cons_append, List.intercalate_cons_cons,
        List.intercalate_cons_cons]
      exact (List.prefix_append_right_inj _).2 (ih (List.prefix_append (x' :: xs) zs))

/-- A path comes before all that go on from it. -/
theorem compare_of_prefix {s t : String} (h : splitPath s <+: splitPath t) (hne : s ≠ t) :
    compare s t = .lt := by
  have hchars : s.toList <+: t.toList := by
    rw [← joinPath_splitPath s, ← joinPath_splitPath t]
    simp only [joinPath, String.toList_intercalate]
    exact prefix_intercalate (h.map String.toList)
  rcases List.le_iff_lt_or_eq.1 hchars.le with hlt | heq
  · exact compareOfLessAndEq_eq_lt.2 (String.lt_iff.2 hlt)
  · exact absurd (String.toList_injective heq) hne

/-- One entry goes on from another. -/
def GoesOn (e e' : String × Value) : Prop := splitPath e.1 <+: splitPath e'.1 ∧ e.1 ≠ e'.1

theorem GoesOn.ne (h : GoesOn e e') : splitPath e.1 ≠ splitPath e'.1 := by
  intro heq
  apply h.2
  rw [← joinPath_splitPath e.1, heq, joinPath_splitPath]

/-! ### Putting all entries in place -/

/-- What an object is in which the entries of a flat map have been put in place: what an entry has
put there is found as far as no other goes on from it to there, nothing goes on from an entry but an
object, and where no entry leads there is nothing. -/
structure Holds (flat o : Object) : Prop where
  kept : ∀ e ∈ flat, ∀ r,
    (∀ e' ∈ flat, GoesOn e e' → Apart (splitPath e'.1) (splitPath e.1 ++ r)) →
      follow? (splitPath e.1 ++ r) (.object o) = follow? r e.2
  isObject : ∀ e ∈ flat, ∀ e' ∈ flat, GoesOn e e' → ∃ n, e.2 = .object n
  nothingElse : ∀ s, s ≠ [] → (∀ e ∈ flat, ¬ splitPath e.1 <+: s) →
    follow? s (.object o) = none ∨
      ∃ e ∈ flat, s <+: splitPath e.1 ∧ ∃ n, follow? s (.object o) = some (.object n)

theorem holds_nil : Holds [] [] :=
  ⟨nofun, nofun, fun _ hs _ => .inl (follow?_empty hs)⟩

/-- An entry whose value is not an object or from which nothing goes on is found. -/
theorem Holds.entry (h : Holds flat o) (he : e ∈ flat) (hlast : ∀ e' ∈ flat, ¬ GoesOn e e') :
    follow? (splitPath e.1) (.object o) = some e.2 := by
  have := h.kept e he [] fun e' he' hgo => absurd hgo (hlast e' he')
  rwa [List.append_nil, follow?_nil] at this

section

variable (hlt : ∀ e' ∈ before, compare e'.1 e.1 = .lt)

include hlt

theorem key_ne : ∀ e' ∈ before, e'.1 ≠ e.1 := by
  intro e' he' heq
  have := hlt e' he'
  simp [heq] at this

/-- None of the entries that are there goes on from a new one. -/
theorem not_prefix_before : ∀ e' ∈ before, ¬ splitPath e.1 <+: splitPath e'.1 := by
  intro e' he' hp
  have hgt := compare_of_prefix hp (key_ne hlt e' he').symm
  rw [Std.OrientedCmp.gt_of_lt (hlt e' he')] at hgt
  cases hgt

/-- A new entry that cannot be put in place goes on from one that is there. -/
theorem Holds.goesOn_of_none (h : Holds before o)
    (hnone : insertPath (splitPath e.1) e.2 o = none) : ∃ e' ∈ before, GoesOn e' e := by
  obtain ⟨s, u, hs, hu, hsp, hb⟩ := (insertPath_eq_none_iff (splitPath_ne_nil e.1)).1 hnone
  by_contra hnot
  have habove : ∀ e' ∈ before, ¬ splitPath e'.1 <+: s := fun e' he' hp =>
    hnot ⟨e', he', hp.trans hsp, key_ne hlt e' he'⟩
  rcases h.nothingElse s hs habove with hfree | ⟨e', he', hway, n, hobject⟩
  · rw [hu] at hfree
    cases hfree
  · rw [hu] at hobject
    cases hobject
    split at hb
    · next heq => exact not_prefix_before hlt e' he' (heq ▸ hway)
    · exact hb n rfl

/-- A new entry takes its place among those that are there. -/
theorem Holds.put (h : Holds before o) (hsome : insertPath (splitPath e.1) e.2 o = some o') :
    Holds (before ++ [e]) o' := by
  constructor
  case kept =>
    intro e₁ he₁ r hapart
    rcases List.mem_append.1 he₁ with he₁ | he₁
    · -- The new entry does not touch what an entry before it has put in place.
      have hnew : Apart (splitPath e.1) (splitPath e₁.1 ++ r) := by
        by_cases hp : splitPath e₁.1 <+: splitPath e.1
        · exact hapart e (by simp) ⟨hp, key_ne hlt e₁ he₁⟩
        · refine ⟨fun hpre => ?_, fun hpre => hp ((List.prefix_append _ r).trans hpre)⟩
          rcases List.prefix_or_prefix_of_prefix hpre (List.prefix_append _ r) with hpre | hpre
          · exact not_prefix_before hlt e₁ he₁ hpre
          · exact hp hpre
      rw [follow?_insertPath_of_apart hsome hnew]
      exact h.kept e₁ he₁ r fun e' he' => hapart e' (List.mem_append_left _ he')
    · rw [List.mem_singleton.1 he₁]
      exact follow?_insertPath (splitPath_ne_nil e.1) hsome r
  case isObject =>
    intro e₁ he₁ e₂ he₂ hgo
    rcases List.mem_append.1 he₁ with he₁ | he₁ <;> rcases List.mem_append.1 he₂ with he₂ | he₂
    · exact h.isObject e₁ he₁ e₂ he₂ hgo
    · rw [List.mem_singleton.1 he₂] at hgo
      -- If the new entry is the first to go on from an old one, it has gone in there.
      by_cases hlast : ∃ e' ∈ before, GoesOn e₁ e'
      · obtain ⟨e', he', hgo'⟩ := hlast
        exact h.isObject e₁ he₁ e' he' hgo'
      · have hfound := h.entry he₁ fun e' he' hgo' => hlast ⟨e', he', hgo'⟩
        by_contra hnot
        have hnone : insertPath (splitPath e.1) e.2 o = none := by
          refine (insertPath_eq_none_iff (splitPath_ne_nil e.1)).2
            ⟨_, _, splitPath_ne_nil e₁.1, hfound, hgo.1, ?_⟩
          rw [if_neg hgo.ne]
          exact fun n hn => hnot ⟨n, hn⟩
        rw [hsome] at hnone
        cases hnone
    · rw [List.mem_singleton.1 he₁] at hgo
      exact absurd hgo.1 (not_prefix_before hlt e₂ he₂)
    · rw [List.mem_singleton.1 he₁, List.mem_singleton.1 he₂] at hgo
      exact absurd rfl hgo.2
  case nothingElse =>
    intro s hs habove
    have hnot := habove e (by simp)
    -- On the way to the new entry there are objects only; elsewhere nothing has changed.
    by_cases hway : s <+: splitPath e.1
    · have hne : s ≠ splitPath e.1 := fun heq => hnot (heq ▸ List.prefix_refl s)
      exact .inr ⟨e, by simp, hway, follow?_insertPath_above hsome hway hne⟩
    · rw [follow?_insertPath_of_apart hsome ⟨hnot, hway⟩]
      rcases h.nothingElse s hs fun e' he' => habove e' (List.mem_append_left _ he') with
        hfree | ⟨e', he', hobject⟩
      · exact .inl hfree
      · exact .inr ⟨e', List.mem_append_left _ he', hobject⟩

end

/-- Entries are put in place one by one, in the order of their paths, up to one that goes on from
another. -/
theorem expandFrom_cases (h : Holds before o) (ho : Assoc.Ordered (before ++ after)) :
    (∃ e ∈ before ++ after, ∃ e' ∈ before ++ after, GoesOn e e' ∧
      expandFrom o after = .error (.conflict e'.1)) ∨
    ∃ c, expandFrom o after = .ok c ∧ Holds (before ++ after) c := by
  induction after generalizing before o with
  | nil =>
    rw [List.append_nil]
    exact .inr ⟨o, rfl, h⟩
  | cons e after ih =>
    have hlt : ∀ e' ∈ before, compare e'.1 e.1 = .lt := fun e' he' =>
      (List.pairwise_append.1 ho).2.2 e' he' e List.mem_cons_self
    rw [expandFrom]
    cases hput : insertPath (splitPath e.1) e.2 o with
    | none =>
      obtain ⟨e', he', hgo⟩ := h.goesOn_of_none hlt hput
      exact .inl ⟨e', List.mem_append_left _ he', e, by simp, hgo, rfl⟩
    | some o' =>
      rw [← List.singleton_append, ← List.append_assoc] at ho ⊢
      exact ih (h.put hlt hput) ho

/-- A flat map is refused only for an entry that goes on from another. What it is expanded to holds
every entry from which no other goes on, and every value that is not an object; of an entry from
which others go on, whose value is an object, what they do not replace. Where no entry leads there
is nothing but the objects on the way to entries. -/
theorem expanded (ho : Assoc.Ordered flat) :
    (∃ e ∈ flat, ∃ e' ∈ flat, GoesOn e e' ∧ expand flat = .error (.conflict e'.1)) ∨
    ∃ c, expand flat = .ok c ∧
      (∀ e ∈ flat, ((∀ n, e.2 ≠ .object n) ∨ ∀ e' ∈ flat, ¬ GoesOn e e') →
        follow? (splitPath e.1) (.object c) = some e.2) ∧
      (∀ e ∈ flat, ∀ e' ∈ flat, GoesOn e e' → ∃ n, e.2 = .object n) ∧
      (∀ e ∈ flat, ∀ r,
        (∀ e' ∈ flat, GoesOn e e' → Apart (splitPath e'.1) (splitPath e.1 ++ r)) →
          follow? (splitPath e.1 ++ r) (.object c) = follow? r e.2) ∧
      (∀ s, s ≠ [] → (∀ e ∈ flat, ¬ splitPath e.1 <+: s) →
        follow? s (.object c) = none ∨
          ∃ e ∈ flat, s <+: splitPath e.1 ∧ ∃ n, follow? s (.object c) = some (.object n)) := by
  have hall : Assoc.Ordered ([] ++ flat) := ho
  rcases expandFrom_cases holds_nil hall with hfails | ⟨c, hc, h⟩
  · exact .inl hfails
  · refine .inr ⟨c, hc, fun e he hlast => h.entry he fun e' he' hgo => ?_, h.isObject, h.kept,
      h.nothingElse⟩
    rcases hlast with hscalar | hlast
    · obtain ⟨n, hn⟩ := h.isObject e he e' he' hgo
      exact hscalar n hn
    · exact hlast e' he' hgo

/-- An object takes up what another entry puts below it, and keeps its own member. -/
theorem expanded_member :
    let flat : Object := [("a", .object [("b", .null)]), ("a.c", .bool true)]
    Assoc.Ordered flat ∧
      ∃ c, expand flat = .ok c ∧ follow? ["a", "b"] (.object c) = some .null := by
  intro flat
  have ho : Assoc.Ordered flat := by decide +kernel
  have hok : expand flat = .ok [("a", .object [("b", .null), ("c", .bool true)])] := rfl
  refine ⟨ho, ?_⟩
  rcases expanded ho with ⟨_, _, _, _, _, herror⟩ | ⟨c, hc, -, -, hkept, -⟩
  · rw [hok] at herror
    cases herror
  · have ha : splitPath "a" = ["a"] := by decide +kernel
    have hac : splitPath "a.c" = ["a", "c"] := by decide +kernel
    refine ⟨c, hc, ?_⟩
    have hmember := hkept ("a", .object [("b", .null)]) List.mem_cons_self ["b"] ?_
    · rwa [ha] at hmember
    · intro e' he' hgo
      simp only [flat, List.mem_cons, List.not_mem_nil, or_false] at he'
      rcases he' with rfl | rfl
      · exact absurd rfl hgo.2
      · simp [Apart, ha, hac]

/-- An entry replaces what an object holds that another entry has put in place: there is no
conflict, and the object is not found at its path. -/
theorem replaced_within_object :
    ∃ c, expand [("a", .object [("b", .null)]), ("a.b", .bool true)] = .ok c ∧
      follow? (splitPath "a") (.object c) ≠ some (.object [("b", .null)]) ∧
      follow? (splitPath "a.b") (.object c) = some (.bool true) :=
  ⟨[("a", .object [("b", .bool true)])], rfl, by decide +kernel, by decide +kernel⟩

end Depot.Config
