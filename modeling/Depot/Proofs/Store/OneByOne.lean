import Mathlib.Data.List.Induction
import Depot.Proofs.Store.Runs
/-!
# Several keys, one by one

A store that has no operations of its own on several keys works on them one after the other. Values
are set in this way as a store in memory sets them all at once. Keys are removed in this way as a
store in memory removes them exactly if one of them is missing or none is named twice: the look that
comes first finds a key that is named twice, but when its second turn comes it is gone.
-/

namespace Depot

open Json Depot.Action

variable {σ : Type} {s : StoreCore σ} {Is : Table → σ → Prop} {st : σ} {t : Table} {k : Key}
  {ks before after : List Key}

/-! ### Stores that are tables -/

/-- A store whose state is a table, and that does with a key what the table does. It can be changed,
and nothing fails but the removal of a key that is missing. -/
structure StoreCore.ActsAsTable (s : StoreCore σ) (Is : Table → σ → Prop) : Prop where
  writable : ∀ {t st}, Is t st → s.isReadOnly st = false
  lookup : ∀ {t st} k, Is t st → ∃ st', s.lookup k st = (.ok (t.get? k), st') ∧ Is t st'
  set : ∀ {t st} k v, Is t st → ∃ st', s.set k v st = (.ok (), st') ∧ Is (t.insert k v) st'
  remove : ∀ {t st k}, Is t st → t.contains k = true →
    ∃ st', s.remove k st = (.ok (), st') ∧ Is (t.erase k) st'
  missing : ∀ {t st k}, Is t st → t.contains k = false →
    ∃ st', s.remove k st = (.error (.keyNotFound k), st') ∧ Is t st'

/-- The first key that has come before in a list. -/
theorem exists_first_repetition (h : ¬ ks.Nodup) :
    ∃ before k after, ks = before ++ k :: after ∧ before.Nodup ∧ k ∈ before := by
  induction ks using List.reverseRecOn with
  | nil => exact absurd List.nodup_nil h
  | append_singleton ks k ih =>
    by_cases hks : ks.Nodup
    · refine ⟨ks, k, [], rfl, hks, ?_⟩
      by_contra hk
      exact h (List.nodup_append_comm.1 (List.nodup_cons.2 ⟨hk, hks⟩))
    · obtain ⟨before, k', after, rfl, hbefore, hk'⟩ := ih hks
      exact ⟨before, k', after ++ [k], by simp, hbefore, hk'⟩

/-- A table without several keys has all others. -/
theorem contains_foldl_erase : (ks.foldl (·.erase ·) t).contains k = true ↔
    k ∉ ks ∧ t.contains k = true := by
  unfold Dict.contains
  rw [Dict.get?_foldl_erase]
  split_ifs with hk <;> simp [hk]

namespace StoreCore.ActsAsTable

variable (h : s.ActsAsTable Is)

include h

theorem ensureWritable (hst : Is t st) : s.ensureWritable st = (.ok (), st) := by
  unfold StoreCore.ensureWritable
  rw [ofView_apply, h.writable hst]
  rfl

theorem has (k : Key) (hst : Is t st) :
    ∃ st', s.has k st = (.ok (t.contains k), st') ∧ Is t st' := by
  obtain ⟨st', hl, hst'⟩ := h.lookup k hst
  refine ⟨st', ?_, hst'⟩
  unfold StoreCore.has
  rw [bind_apply, hl]
  rfl

/-! ### Setting values -/

theorem setEach (es : List (Key × Value)) (hst : Is t st) :
    ∃ st', s.setEach es st = (.ok (), st') ∧ Is (t.insertAll es) st' := by
  induction es generalizing t st with
  | nil => exact ⟨st, rfl, hst⟩
  | cons e es ih =>
    obtain ⟨k, v⟩ := e
    obtain ⟨st₁, hset, hst₁⟩ := h.set k v hst
    obtain ⟨st', hall, hst'⟩ := ih hst₁
    refine ⟨st', ?_, hst'⟩
    rw [StoreCore.setEach, bind_apply, hset]
    exact hall

/-- Values that are set one by one are all set in the end. -/
theorem setMany (es : List (Key × Value)) (hst : Is t st) :
    ∃ st', s.setMany es st = (.ok (), st') ∧ Is (t.insertAll es) st' := by
  obtain ⟨st', hall, hst'⟩ := h.setEach es hst
  refine ⟨st', ?_, hst'⟩
  unfold StoreCore.setMany
  rw [bind_apply, h.ensureWritable hst]
  exact hall

/-! ### Removing keys -/

/-- The look at the keys finds the first one that is missing. -/
theorem requireEach (ks : List Key) (hst : Is t st) :
    ∃ st', s.requireEach ks st =
        ((ks.find? fun k => !t.contains k).elim (.ok ()) fun k => .error (.keyNotFound k), st') ∧
      Is t st' := by
  induction ks generalizing st with
  | nil => exact ⟨st, rfl, hst⟩
  | cons k ks ih =>
    obtain ⟨st₁, hhas, hst₁⟩ := h.has k hst
    rw [StoreCore.requireEach, bind_apply, hhas, List.find?_cons]
    cases t.contains k with
    | true => exact ih hst₁
    | false => exact ⟨st₁, rfl, hst₁⟩

/-- Keys that are there, none named twice, are removed one by one. What follows is done without
them. -/
theorem removeEach_append (hst : Is t st) (hall : ∀ k ∈ before, t.contains k = true)
    (hnodup : before.Nodup) : ∃ st', Is (before.foldl (·.erase ·) t) st' ∧
      ∀ after, s.removeEach (before ++ after) st = s.removeEach after st' := by
  induction before generalizing t st with
  | nil => exact ⟨st, hst, fun _ => rfl⟩
  | cons k before ih =>
    obtain ⟨hk, hall⟩ := List.forall_mem_cons.1 hall
    obtain ⟨hnot, hnodup⟩ := List.nodup_cons.1 hnodup
    obtain ⟨st₁, hremove, hst₁⟩ := h.remove hst hk
    have hall₁ : ∀ k' ∈ before, (t.erase k).contains k' = true := by
      intro k' hk'
      have hne : k' ∉ [k] := by
        rw [List.mem_singleton]
        rintro rfl
        exact hnot hk'
      exact contains_foldl_erase.2 ⟨hne, hall k' hk'⟩
    obtain ⟨st', hst', hafter⟩ := ih hst₁ hall₁ hnodup
    refine ⟨st', hst', fun after => ?_⟩
    rw [List.cons_append, StoreCore.removeEach, bind_apply, hremove]
    exact hafter after

/-- Keys are removed one by one after the look at them. -/
theorem removeMany_apply (ks : List Key) (hst : Is t st) : ∃ st', Is t st' ∧ s.removeMany ks st =
    match ks.find? fun k => !t.contains k with
    | some k => (.error (.keyNotFound k), st')
    | none   => s.removeEach ks st' := by
  obtain ⟨st', hlook, hst'⟩ := h.requireEach ks hst
  refine ⟨st', hst', ?_⟩
  unfold StoreCore.removeMany
  rw [bind_apply, h.ensureWritable hst]
  dsimp only
  rw [bind_apply, hlook]
  cases ks.find? fun k => !t.contains k <;> rfl

/-- If a key is missing, the first one that is missing is named, and nothing is removed. -/
theorem removeMany_of_missing (hst : Is t st) (hk : (ks.find? fun k => !t.contains k) = some k) :
    ∃ st', s.removeMany ks st = (.error (.keyNotFound k), st') ∧ Is t st' := by
  obtain ⟨st', hst', happly⟩ := h.removeMany_apply ks hst
  rw [hk] at happly
  exact ⟨st', happly, hst'⟩

/-- If all keys are there, the table is left without those that come before the first one that is
named for the second time, and this one is said to be missing. -/
theorem removeMany_of_repetition (hst : Is t st)
    (hall : ∀ k' ∈ before ++ k :: after, t.contains k' = true) (hnodup : before.Nodup)
    (hk : k ∈ before) : ∃ st', s.removeMany (before ++ k :: after) st =
      (.error (.keyNotFound k), st') ∧ Is (before.foldl (·.erase ·) t) st' := by
  have hnone : ((before ++ k :: after).find? fun k => !t.contains k) = none := by
    rw [List.find?_eq_none]
    intro k' hk'
    simp [hall k' hk']
  obtain ⟨st₁, hst₁, happly⟩ := h.removeMany_apply (before ++ k :: after) hst
  obtain ⟨st₂, hst₂, hafter⟩ := h.removeEach_append hst₁
    (fun k' hk' => hall k' (List.mem_append_left _ hk')) hnodup
  have hgone : (before.foldl (·.erase ·) t).contains k = false := by
    rw [Bool.eq_false_iff, Ne, contains_foldl_erase]
    exact fun hc => hc.1 hk
  obtain ⟨st', hmissing, hst'⟩ := h.missing hst₂ hgone
  refine ⟨st', ?_, hst'⟩
  rw [happly, hnone]
  dsimp only
  rw [hafter, StoreCore.removeEach, bind_apply, hmissing]

/-- If all keys are there and none is named twice, all are removed. -/
theorem removeMany_of_nodup (hst : Is t st) (hall : ∀ k ∈ ks, t.contains k = true)
    (hnodup : ks.Nodup) :
    ∃ st', s.removeMany ks st = (.ok (), st') ∧ Is (ks.foldl (·.erase ·) t) st' := by
  have hnone : (ks.find? fun k => !t.contains k) = none := by
    rw [List.find?_eq_none]
    intro k' hk'
    simp [hall k' hk']
  obtain ⟨st₁, hst₁, happly⟩ := h.removeMany_apply ks hst
  obtain ⟨st', hst', hafter⟩ := h.removeEach_append hst₁ hall hnodup
  refine ⟨st', ?_, hst'⟩
  rw [happly, hnone]
  dsimp only
  rw [← List.append_nil ks, hafter]
  rfl

end StoreCore.ActsAsTable

namespace World

variable {w : World} {r : StoreRef} {cache : Option ElementRef}

/-! ### Plain stores -/

/-- The world has a plain store that can be changed and reached, with a table. -/
def HasPlain (r : StoreRef) (t : Table) (w : World) : Prop :=
  r < w.stores.length ∧ w.store r = { kind := .plain false false, table := t }

theorem HasPlain.reach (h : HasPlain r t w) : w.reach r = .ok t := by
  unfold World.reach
  rw [h.2]

theorem HasPlain.writable (h : HasPlain r t w) : w.plainIsReadOnly r = false := by
  unfold plainIsReadOnly
  rw [h.2]

theorem HasPlain.putTable (h : HasPlain r t w) (t' : Table) :
    HasPlain r t' (World.putTable r t' w) :=
  ⟨by simpa using h.1, by rw [store_putTable h.1, h.2]⟩

/-- A plain store is the table that it has. -/
theorem actsAsTable_plainStore (r : StoreRef) :
    (plainStore r).toStoreCore.ActsAsTable (HasPlain r) where
  writable h := h.writable
  lookup {t w} k h := by
    refine ⟨w, ?_, h⟩
    show ((w.reach r).map (·.get? k), w) = _
    rw [h.reach]
    rfl
  set {t w} k v h := by
    refine ⟨World.putTable r (t.insert k v) w, ?_, h.putTable _⟩
    show changePlain r _ w = _
    rw [changePlain_apply, h.writable, h.reach]
    rfl
  remove {t w k} h hk := by
    refine ⟨World.putTable r (t.erase k) w, ?_, h.putTable _⟩
    show changePlain r (tableWithout k) w = _
    rw [changePlain_apply, h.writable, h.reach]
    simp only [tableWithout, hk]
    rfl
  missing {t w k} h hk := by
    refine ⟨w, ?_, h⟩
    show changePlain r (tableWithout k) w = _
    rw [changePlain_apply, h.writable, h.reach]
    simp only [tableWithout, hk]
    rfl

/-! ### Next to a store in memory -/

/-- A store in memory makes a change as its table does, unless its cache element fails. -/
theorem mutate_onTable (change : Table → Except StoreError Table) (hm : IsMemoryStore w r cache)
    (hw : w.cacheIsReadOnly r = false)
    (hf : ∀ f, (mutate r change w).1 ≠ .error (.element f)) :
    match change (w.store r).table with
    | .ok t    => (mutate r change w).1 = .ok () ∧ ((mutate r change w).2.store r).table = t
    | .error e => (mutate r change w).1 = .error e ∧
      ((mutate r change w).2.store r).table = (w.store r).table := by
  have hcases := mutates r change w
  generalize mutate r change w = x at hf hcases ⊢
  cases hcases with
  | locked hr => cases hw.symm.trans hr
  | refused ht =>
    rw [ht]
    exact ⟨rfl, rfl⟩
  | made ht _ =>
    rw [ht]
    dsimp only
    rw [store_putTable hm.store]
    exact ⟨rfl, rfl⟩
  | unwritten => exact absurd rfl (hf _)
  | @written t e w' ht hc hset =>
    obtain rfl := hm.cacheOf.symm.trans hc
    have hm' := (hm.setBytes t.encode).1
    rw [hset] at hm'
    rw [ht]
    dsimp only
    rw [store_putTable hm'.store]
    exact ⟨rfl, rfl⟩

/-- A store in memory sets values with the result that setting them one by one has. -/
theorem set_one_by_one (h : s.ActsAsTable Is) (hm : IsMemoryStore w r cache)
    (hw : w.cacheIsReadOnly r = false) (hst : Is (w.store r).table st) {es : List (Key × Value)}
    (hf : ∀ f, ((memoryStore r).setMany es w).1 ≠ .error (.element f)) :
    (s.setMany es st).1 = .ok () ∧ ((memoryStore r).setMany es w).1 = .ok () ∧
      (((memoryStore r).setMany es w).2.store r).table = (w.store r).table.insertAll es ∧
      Is (((memoryStore r).setMany es w).2.store r).table (s.setMany es st).2 := by
  obtain ⟨hown, htable⟩ := mutate_onTable (fun t => .ok (t.insertAll es)) hm hw hf
  obtain ⟨st', heach, hst'⟩ := h.setMany es hst
  rw [← htable] at hst'
  rw [heach]
  exact ⟨rfl, hown, htable, hst'⟩

section

variable (hm : IsMemoryStore w r cache) (hw : w.cacheIsReadOnly r = false)
  (hf : ∀ f, ((memoryStore r).removeMany ks w).1 ≠ .error (.element f))

include hm hw hf

/-- A store in memory names the first key that is missing. -/
theorem removeMany_of_missing
    (hk : (ks.find? fun k => !(w.store r).table.contains k) = some k) :
    ((memoryStore r).removeMany ks w).1 = .error (.keyNotFound k) ∧
      (((memoryStore r).removeMany ks w).2.store r).table = (w.store r).table := by
  have hown := mutate_onTable (tableWithoutAll ks) hm hw hf
  unfold tableWithoutAll at hown
  rw [hk] at hown
  exact hown

/-- A store in memory removes keys that are all there. -/
theorem removeMany_of_present (hall : ∀ k ∈ ks, (w.store r).table.contains k = true) :
    ((memoryStore r).removeMany ks w).1 = .ok () ∧
      (((memoryStore r).removeMany ks w).2.store r).table =
        ks.foldl (·.erase ·) (w.store r).table := by
  have hnone : (ks.find? fun k => !(w.store r).table.contains k) = none := by
    rw [List.find?_eq_none]
    intro k hk
    simp [hall k hk]
  have hown := mutate_onTable (tableWithoutAll ks) hm hw hf
  unfold tableWithoutAll at hown
  rw [hnone] at hown
  exact hown

/-- Removing keys one by one is removing them all at once exactly if one of them is missing or none
is named twice. -/
theorem remove_one_by_one_iff (h : s.ActsAsTable Is) (hst : Is (w.store r).table st) :
    ((s.removeMany ks st).1 = ((memoryStore r).removeMany ks w).1 ∧
      Is (((memoryStore r).removeMany ks w).2.store r).table (s.removeMany ks st).2) ↔
      (∃ k ∈ ks, (w.store r).table.contains k = false) ∨ ks.Nodup := by
  cases hk : ks.find? fun k => !(w.store r).table.contains k with
  | some k =>
    obtain ⟨hown, htable⟩ := removeMany_of_missing hm hw hf hk
    obtain ⟨st', heach, hst'⟩ := h.removeMany_of_missing hst hk
    rw [heach, hown, htable]
    refine iff_of_true ⟨rfl, hst'⟩ (.inl ⟨k, List.mem_of_find?_eq_some hk, ?_⟩)
    simpa using List.find?_some hk
  | none =>
    have hall : ∀ k ∈ ks, (w.store r).table.contains k = true := by
      simpa using hk
    obtain ⟨hown, htable⟩ := removeMany_of_present hm hw hf hall
    rw [hown, htable]
    by_cases hnodup : ks.Nodup
    · obtain ⟨st', heach, hst'⟩ := h.removeMany_of_nodup hst hall hnodup
      rw [heach]
      exact iff_of_true ⟨rfl, hst'⟩ (.inr hnodup)
    · obtain ⟨before, k, after, rfl, hbefore, hk⟩ := exists_first_repetition hnodup
      obtain ⟨st', heach, -⟩ := h.removeMany_of_repetition hst hall hbefore hk
      rw [heach]
      refine iff_of_false (fun heq => by cases heq.1) ?_
      rintro (⟨k', hk', hnot⟩ | hnodup')
      · cases (hall k' hk').symm.trans hnot
      · exact hnodup hnodup'

end

/-- Next to a store in memory with the same table whose cache element, if it has one, does not fail:
a store that works on several keys one by one sets values with the same result. It removes keys with
the same result and leaves the same table exactly if a key is missing or none is named twice. If a
key is missing, both name the first such key and remove nothing. If none is missing, the store in
memory removes them all; one that works one by one stops at the first key that is named for the
second time, says that it is missing, and has removed those before it. -/
theorem several_one_by_one (h : s.ActsAsTable Is) (hm : IsMemoryStore w r cache)
    (hw : w.cacheIsReadOnly r = false) (hst : Is (w.store r).table st) :
    let t := (w.store r).table
    (∀ es, let own := (memoryStore r).setMany es w
      let each := s.setMany es st
      (∀ f, own.1 ≠ .error (.element f)) →
      each.1 = .ok () ∧ own.1 = .ok () ∧ (own.2.store r).table = t.insertAll es ∧
        Is (own.2.store r).table each.2) ∧
    (∀ ks, let own := (memoryStore r).removeMany ks w
      let each := s.removeMany ks st
      (∀ f, own.1 ≠ .error (.element f)) →
      (each.1 = own.1 ∧ Is (own.2.store r).table each.2 ↔
        (∃ k ∈ ks, t.contains k = false) ∨ ks.Nodup) ∧
      (∀ k, (ks.find? fun k => !t.contains k) = some k →
        own.1 = .error (.keyNotFound k) ∧ (own.2.store r).table = t ∧
          each.1 = .error (.keyNotFound k) ∧ Is t each.2) ∧
      ((∀ k ∈ ks, t.contains k = true) →
        own.1 = .ok () ∧ (own.2.store r).table = ks.foldl (·.erase ·) t ∧
        ∀ before k after, ks = before ++ k :: after → before.Nodup → k ∈ before →
          each.1 = .error (.keyNotFound k) ∧ Is (before.foldl (·.erase ·) t) each.2)) := by
  refine ⟨fun es => set_one_by_one h hm hw hst, fun ks hf =>
    ⟨remove_one_by_one_iff hm hw hf h hst, fun k hk => ?_, fun hall => ?_⟩⟩
  · -- A key is missing.
    obtain ⟨hown, htable⟩ := removeMany_of_missing hm hw hf hk
    obtain ⟨st', heach, hst'⟩ := h.removeMany_of_missing hst hk
    rw [heach]
    exact ⟨hown, htable, rfl, hst'⟩
  · -- All keys are there, and one is named for the second time.
    obtain ⟨hown, htable⟩ := removeMany_of_present hm hw hf hall
    refine ⟨hown, htable, fun before k after hks hbefore hk => ?_⟩
    subst hks
    obtain ⟨st', heach, hst'⟩ := h.removeMany_of_repetition hst hall hbefore hk
    rw [heach]
    exact ⟨rfl, hst'⟩

/-- Of three keys the first is named again at the end: a plain store next to a store in memory has
lost the first two then, and says that the first is missing. -/
theorem several_one_by_one_plain :
    let t : Table := (Dict.empty.insert (.int 1) .null).insert (.int 2) .null
    let w : World := { ofDisk (Disk.fresh ["work"] "tmp") with
      stores := [{ kind := .memory none, table := t }, { kind := .plain false false, table := t }] }
    let ks : List Key := [.int 1, .int 2, .int 1]
    ((memoryStore 0).removeMany ks w).1 = .ok () ∧
      ((plainStore 1).removeMany ks w).1 = .error (.keyNotFound (.int 1)) ∧
      HasPlain 1 ((t.erase (.int 1)).erase (.int 2)) ((plainStore 1).removeMany ks w).2 := by
  intro t w ks
  have hm : IsMemoryStore w 0 none := ⟨Nat.two_pos, rfl, nofun⟩
  have hst : HasPlain 1 (w.store 0).table w := ⟨Nat.one_lt_two, rfl⟩
  have hf : ∀ f, ((memoryStore 0).removeMany ks w).1 ≠ .error (.element f) := by
    intro f hf
    cases hf
  have hall : ∀ k ∈ ks, t.contains k = true := by decide +kernel
  obtain ⟨-, -, hpresent⟩ :=
    (several_one_by_one (actsAsTable_plainStore 1) hm rfl hst).2 ks hf
  obtain ⟨hown, -, hrepeated⟩ := hpresent hall
  exact ⟨hown, hrepeated [.int 1, .int 2] (.int 1) [] rfl (by decide) (by decide)⟩

/-- A key that is there is named twice: the store in memory removes it, and a plain store fails and
has removed it. -/
theorem half_removed_where_named_twice :
    let t : Table := Dict.empty.insert (.int 1) .null
    let w : World := { ofDisk (Disk.fresh ["work"] "tmp") with
      stores := [{ kind := .memory none, table := t }, { kind := .plain false false, table := t }] }
    let ks : List Key := [.int 1, .int 1]
    ((memoryStore 0).removeMany ks w).1.toOption = some () ∧
      ((plainStore 1).removeMany ks w).1.toOption = none ∧
      (((plainStore 1).removeMany ks w).2.store 1).table = .empty := by
  decide +kernel

end World

end Depot
