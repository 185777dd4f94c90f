import Mathlib.Data.List.Sort
import Mathlib.Data.Option.Basic
import Mathlib.Logic.Function.Basic
import Mathlib.Tactic.Common
import Depot.Dict
/-!
# Finite maps as functions

What a map written as an ordered list of entries is as a function from keys to values, and how its
keys and values are listed.
-/

namespace Depot

universe u v

/-- Lists that ascend in the same way and have the same members are the same. -/
theorem eq_of_ascending_by {α : Type v} {κ : Type u} [Ord κ] [Std.OrientedOrd κ] (f : α → κ)
    {as bs : List α} (ha : as.Pairwise fun a b => compare (f a) (f b) = .lt)
    (hb : bs.Pairwise fun a b => compare (f a) (f b) = .lt) (h : ∀ a, a ∈ as ↔ a ∈ bs) :
    as = bs := by
  have hasymm : Std.Antisymm fun a b : α => compare (f a) (f b) = .lt := by
    constructor
    intro a b hab hba
    have := Std.OrientedCmp.gt_of_lt hab
    rw [hba] at this
    cases this
  have hirrefl : Std.Irrefl fun a b : α => compare (f a) (f b) = .lt := by
    constructor
    intro a haa
    simp at haa
  exact ha.eq_of_mem_iff hb h

/-- Ascending lists with the same members are the same. -/
theorem eq_of_ascending {κ : Type u} [Ord κ] [Std.OrientedOrd κ] {as bs : List κ}
    (ha : as.Pairwise (compare · · = .lt)) (hb : bs.Pairwise (compare · · = .lt))
    (h : ∀ a, a ∈ as ↔ a ∈ bs) : as = bs :=
  eq_of_ascending_by id ha hb h

/-! ### Entries and look-ups -/

namespace Assoc

variable {κ : Type u} {ν : Type v} [Ord κ] {k : κ} {v : ν} {kvs kvs' : List (κ × ν)}

theorem get?_map {ν' : Type v} (f : ν → ν') (k : κ) (kvs : List (κ × ν)) :
    get? k (kvs.map fun e => (e.1, f e.2)) = (get? k kvs).map f := by
  induction kvs with
  | nil => rfl
  | cons e es ih =>
    obtain ⟨a, b⟩ := e
    simp only [List.map_cons, get?]
    split
    · rfl
    · exact ih

/-- An entry that comes after all others is put at the end. -/
theorem insert_last [Std.TransOrd κ] (h : ∀ e ∈ kvs, compare e.1 k = .lt) :
    insert k v kvs = kvs ++ [(k, v)] := by
  induction kvs with
  | nil => rfl
  | cons e kvs ih =>
    have he := Std.OrientedCmp.gt_of_lt (h e List.mem_cons_self)
    obtain ⟨a, b⟩ := e
    rw [insert, he]
    dsimp only
    rw [ih fun e he => h e (List.mem_cons_of_mem _ he)]
    rfl

theorem insertAll_of_ordered [Std.TransOrd κ] {new : List (κ × ν)} (h : Ordered (kvs ++ new)) :
    insertAll kvs new = kvs ++ new := by
  induction new generalizing kvs with
  | nil => exact (List.append_nil _).symm
  | cons e new ih =>
    have hlast : insert e.1 e.2 kvs = kvs ++ [e] := by
      apply insert_last
      intro e' he'
      exact (List.pairwise_append.1 h).2.2 e' he' e List.mem_cons_self
    show insertAll (insert e.1 e.2 kvs) new = _
    rw [List.append_cons] at h ⊢
    rw [hlast, ih h]

/-- Entries in key order are the map that they make up. -/
theorem ofEntries_of_ordered [Std.TransOrd κ] (h : Ordered kvs) : ofEntries kvs = kvs :=
  insertAll_of_ordered h

theorem mem_insertAll_imp {new : List (κ × ν)} {e : κ × ν} (h : e ∈ insertAll kvs new) :
    e ∈ kvs ∨ e ∈ new := by
  induction new generalizing kvs with
  | nil => exact .inl h
  | cons e' new ih =>
    have hor : e ∈ insert e'.1 e'.2 kvs ∨ e ∈ new := ih h
    rcases hor with hold | hnew
    · rcases mem_insert_imp hold with rfl | hold
      · exact .inr List.mem_cons_self
      · exact .inl hold
    · exact .inr (List.mem_cons_of_mem _ hnew)

theorem mem_of_mem_ofEntries {e : κ × ν} (h : e ∈ ofEntries kvs) : e ∈ kvs :=
  (mem_insertAll_imp h).resolve_left List.not_mem_nil

variable [Std.LawfulEqOrd κ]

theorem mem_of_get? (h : get? k kvs = some v) : (k, v) ∈ kvs := by
  induction kvs with
  | nil => cases h
  | cons e es ih =>
    obtain ⟨a, b⟩ := e
    rw [get?] at h
    split at h
    · next ha =>
      cases h
      rw [Std.LawfulEqOrd.compare_eq_iff_eq] at ha
      rw [ha]
      exact List.mem_cons_self
    · exact List.mem_cons_of_mem _ (ih h)

/-- The value under a key is that of the entry with the key. -/
theorem get?_of_mem [Std.TransOrd κ] (ho : Ordered kvs) (h : (k, v) ∈ kvs) :
    get? k kvs = some v := by
  induction kvs with
  | nil => cases h
  | cons e es ih =>
    rw [ordered_cons] at ho
    obtain ⟨a, b⟩ := e
    rcases List.mem_cons.1 h with he | hm
    · cases he
      simp [get?]
    · have hlt := ho.1 _ hm
      have hne : compare k a ≠ .eq := by
        rw [Ne, Std.LawfulEqOrd.compare_eq_iff_eq]
        rintro rfl
        simp at hlt
      rw [get?, if_neg hne]
      exact ih ho.2 hm

/-- Ascending lists of entries with the same look-ups are the same. -/
theorem eq_of_get? [Std.TransOrd κ] (ho : Ordered kvs) (ho' : Ordered kvs')
    (h : ∀ k, get? k kvs = get? k kvs') : kvs = kvs' := by
  apply eq_of_ascending_by Prod.fst ho ho'
  rintro ⟨k, v⟩
  constructor
  · intro hm
    apply mem_of_get?
    rw [← h, get?_of_mem ho hm]
  · intro hm
    apply mem_of_get?
    rw [h, get?_of_mem ho' hm]

/-- After entries in key order have been put in place, a key has the value they give it, or else its
old one. -/
theorem get?_insertAll [Std.TransOrd κ] [DecidableEq κ] {new : List (κ × ν)} (h : Ordered new) :
    get? k (insertAll kvs new) = (get? k new).or (get? k kvs) := by
  induction new generalizing kvs with
  | nil => rfl
  | cons e new ih =>
    obtain ⟨a, b⟩ := e
    obtain ⟨hlt, hnew⟩ := ordered_cons.1 h
    show get? k (insertAll (insert a b kvs) new) = _
    rw [ih hnew, get?_insert, get?_cons]
    by_cases hk : k = a
    · subst hk
      cases hv : get? k new with
      | none => simp
      | some v =>
        have hkk := hlt _ (mem_of_get? hv)
        simp at hkk
    · simp [hk]

end Assoc

namespace Dict

variable {κ : Type u} {ν : Type v} [Ord κ] {d d' : Dict κ ν} {k : κ} {v : ν}

/-- The keys ascend strictly. -/
theorem pairwise_keys : d.keys.Pairwise (compare · · = .lt) :=
  List.pairwise_map.2 d.ordered

@[simp] theorem length_keys : d.keys.length = d.size := List.length_map ..

variable [Std.LawfulEqOrd κ]

/-- The entry under a key is the one with the key. -/
theorem get?_of_mem [Std.TransOrd κ] (h : (k, v) ∈ d.entries) : d.get? k = some v :=
  Assoc.get?_of_mem d.ordered h

theorem mem_of_get? (h : d.get? k = some v) : (k, v) ∈ d.entries := Assoc.mem_of_get? h

/-- Maps with the same look-ups are the same. -/
theorem eq_of_get? [Std.TransOrd κ] (h : ∀ k, d.get? k = d'.get? k) : d = d' := by
  have hentries : d.entries = d'.entries := Assoc.eq_of_get? d.ordered d'.ordered h
  cases d
  cases d'
  cases hentries
  rfl

theorem mem_keys [Std.TransOrd κ] : k ∈ d.keys ↔ (d.get? k).isSome := by
  unfold keys
  rw [List.mem_map]
  constructor
  · rintro ⟨⟨k, v⟩, he, rfl⟩
    rw [get?_of_mem he]
    rfl
  · intro h
    obtain ⟨v, hv⟩ := Option.isSome_iff_exists.1 h
    exact ⟨(k, v), mem_of_get? hv, rfl⟩

/-- The values are those under the keys, in their order. -/
theorem map_get?_keys [Std.TransOrd κ] : d.keys.map d.get? = d.values.map some := by
  unfold keys values
  rw [List.map_map, List.map_map]
  exact List.map_congr_left fun e he => get?_of_mem he

theorem keys_congr [Std.TransOrd κ] {ν' : Type v} {d' : Dict κ ν'}
    (h : ∀ k, (d.get? k).isSome = (d'.get? k).isSome) : d.keys = d'.keys := by
  apply eq_of_ascending pairwise_keys pairwise_keys
  intro k
  rw [mem_keys, mem_keys, h]

/-! ### Other values under the same keys -/

/-- The map with each value replaced by what `f` makes of it. -/
def map {ν' : Type v} (f : ν → ν') (d : Dict κ ν) : Dict κ ν' where
  entries := d.entries.map fun e => (e.1, f e.2)
  ordered := by
    unfold Assoc.Ordered
    rw [List.pairwise_map]
    exact d.ordered

omit [Std.LawfulEqOrd κ] in
theorem get?_map {ν' : Type v} (f : ν → ν') (d : Dict κ ν) (k : κ) :
    (d.map f).get? k = (d.get? k).map f :=
  Assoc.get?_map f k d.entries

omit [Std.LawfulEqOrd κ] in
theorem keys_map {ν' : Type v} (f : ν → ν') (d : Dict κ ν) : (d.map f).keys = d.keys := by
  simp [map, keys]

omit [Std.LawfulEqOrd κ] in
@[simp] theorem map_id (d : Dict κ ν) : d.map id = d := by
  simp [map]

/-! ### Several changes -/

variable [Std.TransOrd κ] [DecidableEq κ]

/-- A map with several values set, as a function. -/
theorem get?_insertAll {es : List (κ × ν)} : (d.insertAll es).get? =
    es.foldl (fun (m : κ → Option ν) e => Function.update m e.1 (some e.2)) d.get? := by
  induction es generalizing d with
  | nil => rfl
  | cons e es ih =>
    have hstep : d.insertAll (e :: es) = (d.insert e.1 e.2).insertAll es := rfl
    rw [hstep, ih, List.foldl_cons]
    congr 1
    funext k
    rw [get?_insert, Function.update_apply]

/-- A value comes from those that have been set or from the map before. -/
theorem mem_of_get?_insertAll {es : List (κ × ν)} (h : (d.insertAll es).get? k = some v) :
    (k, v) ∈ es ∨ d.get? k = some v := by
  induction es generalizing d with
  | nil => exact .inr h
  | cons e es ih =>
    rcases ih (d := d.insert e.1 e.2) h with hm | hd
    · exact .inl (List.mem_cons_of_mem _ hm)
    · rw [get?_insert] at hd
      split at hd
      · next hk =>
        cases hd
        subst hk
        exact .inl List.mem_cons_self
      · exact .inr hd

/-- A key among those that are set has a value then, and so has every key that had one. -/
theorem isSome_get?_insertAll {es : List (κ × ν)} (h : k ∈ es.map (·.1) ∨ (d.get? k).isSome) :
    ((d.insertAll es).get? k).isSome := by
  induction es generalizing d with
  | nil => exact h.resolve_left List.not_mem_nil
  | cons e es ih =>
    refine ih (d := d.insert e.1 e.2) ?_
    rw [get?_insert]
    rcases h with hm | hd
    · rcases List.mem_cons.1 hm with hk | hm
      · right
        rw [if_pos hk]
        rfl
      · exact .inl hm
    · right
      split
      · rfl
      · exact hd

omit [DecidableEq κ] in
/-- A map is that of its entries. -/
theorem ofList_entries (d : Dict κ ν) : ofList d.entries = d := by
  have h : (ofList d.entries).entries = d.entries := Assoc.ofEntries_of_ordered d.ordered
  generalize ofList d.entries = d' at h
  obtain ⟨entries, ordered⟩ := d
  obtain ⟨entries', ordered'⟩ := d'
  cases h
  rfl

/-- The value of the entries under a key, if all of them have one value. -/
theorem get?_ofList_of_mem {es : List (κ × ν)} (h : (k, v) ∈ es)
    (hall : ∀ v', (k, v') ∈ es → v' = v) : (ofList es).get? k = some v := by
  have hsome := isSome_get?_insertAll (d := .empty) (.inl (List.mem_map_of_mem (f := (·.1)) h))
  obtain ⟨v', hv'⟩ := Option.isSome_iff_exists.1 hsome
  rcases mem_of_get?_insertAll hv' with hm | he
  · rw [ofList, hv', hall v' hm]
  · cases he

/-- Maps that agree under every key agree after values that agree have been set. -/
theorem rel_insertAll {ν' : Type v} {R : ν → ν' → Prop} {d' : Dict κ ν'} {es : List (κ × ν)}
    {es' : List (κ × ν')} (h : ∀ k, Option.Rel R (d.get? k) (d'.get? k))
    (hes : List.Forall₂ (fun e e' => e'.1 = e.1 ∧ R e.2 e'.2) es es') :
    ∀ k, Option.Rel R ((d.insertAll es).get? k) ((d'.insertAll es').get? k) := by
  induction hes generalizing d d' with
  | nil => exact h
  | @cons e e' es es' he _ ih =>
    have hstep (k : κ) :
        Option.Rel R ((d.insert e.1 e.2).get? k) ((d'.insert e'.1 e'.2).get? k) := by
      rw [get?_insert, get?_insert, he.1]
      split
      · exact .some he.2
      · exact h k
    exact ih hstep

omit [Std.TransOrd κ] in
/-- A map without several keys, as a function. -/
theorem get?_foldl_erase {ks : List κ} :
    (ks.foldl (·.erase ·) d).get? k = if k ∈ ks then none else d.get? k := by
  induction ks generalizing d with
  | nil => simp
  | cons k' ks ih =>
    rw [List.foldl_cons, ih, get?_erase]
    simp only [List.mem_cons]
    split_ifs <;> simp_all

end Dict

end Depot
