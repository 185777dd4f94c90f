/-!
# Association lists in key order

A finite map is written as the list of its entries with strictly ascending keys. The operations
here work on any list of entries; what they do to look-ups holds of any list too, and an ascending
list stays ascending. Two ascending lists with the same look-ups are equal, so such a list is a
normal form of the map it stands for.
-/

namespace Depot

namespace Assoc

universe u v

variable {κ : Type u} {ν : Type v} [Ord κ]

/-- The value of the first entry under `k`. -/
def get? (k : κ) : List (κ × ν) → Option ν
  | []             => none
  | (k', v) :: kvs => if compare k k' = .eq then some v else get? k kvs

/-- Puts an entry at its place in the order, replacing the one that stands there. -/
def insert (k : κ) (v : ν) : List (κ × ν) → List (κ × ν)
  | []              => [(k, v)]
  | (k', v') :: kvs =>
    match compare k k' with
    | .lt => (k, v) :: (k', v') :: kvs
    | .eq => (k, v) :: kvs
    | .gt => (k', v') :: insert k v kvs

/-- Drops every entry under `k`. -/
def erase (k : κ) (kvs : List (κ × ν)) : List (κ × ν) :=
  kvs.filter fun e => compare k e.1 != .eq

/-- Inserts entries from left to right: of two under one key the later one stays. -/
def insertAll (kvs new : List (κ × ν)) : List (κ × ν) :=
  new.foldl (fun acc e => insert e.1 e.2 acc) kvs

/-- The map of a list of entries in any order; the last entry under a key stays. -/
def ofEntries (kvs : List (κ × ν)) : List (κ × ν) := insertAll [] kvs

/-- The keys ascend strictly. -/
def Ordered (kvs : List (κ × ν)) : Prop :=
  kvs.Pairwise fun a b => compare a.1 b.1 = .lt

instance (kvs : List (κ × ν)) : Decidable (Ordered kvs) :=
  inferInstanceAs (Decidable (List.Pairwise _ _))

/-! ### Look-ups -/

@[simp] theorem get?_nil (k : κ) : get? k ([] : List (κ × ν)) = none := rfl

variable [Std.LawfulEqOrd κ] {k k' : κ} {v : ν} {kvs : List (κ × ν)}

theorem get?_cons [DecidableEq κ] :
    get? k ((k', v) :: kvs) = if k = k' then some v else get? k kvs := by
  simp [get?]

/-- After an insertion the inserted key has the new value and every other key its old one. -/
theorem get?_insert [DecidableEq κ] :
    get? k' (insert k v kvs) = if k' = k then some v else get? k' kvs := by
  induction kvs with
  | nil => simp [insert, get?]
  | cons e kvs ih =>
    obtain ⟨a, b⟩ := e
    simp only [insert]
    split
    · rw [get?_cons]
    · next h =>
      have : k = a := by simpa using h
      subst this
      simp only [get?_cons]
      split <;> rfl
    · next h =>
      have hne : k ≠ a := by
        rintro rfl
        simp at h
      simp only [get?_cons, ih]
      by_cases h₁ : k' = a
      · subst h₁
        simp [Ne.symm hne]
      · simp [h₁]

/-- After an erasure the erased key has no value and every other key its old one. -/
theorem get?_erase [DecidableEq κ] :
    get? k' (erase k kvs) = if k' = k then none else get? k' kvs := by
  induction kvs with
  | nil => simp [erase]
  | cons e kvs ih =>
    obtain ⟨a, b⟩ := e
    by_cases h : k = a
    · subst h
      have : erase k ((k, b) :: kvs) = erase k kvs := by simp [erase]
      rw [this, ih, get?_cons]
      split <;> rfl
    · have : erase k ((a, b) :: kvs) = (a, b) :: erase k kvs := by simp [erase, h]
      rw [this, get?_cons, get?_cons, ih]
      by_cases h₁ : k' = a
      · subst h₁
        simp [Ne.symm h]
      · simp [h₁]

/-! ### Order -/

omit [Std.LawfulEqOrd κ]

@[simp] theorem ordered_nil : Ordered ([] : List (κ × ν)) := List.Pairwise.nil

theorem ordered_cons {e : κ × ν} :
    Ordered (e :: kvs) ↔ (∀ e' ∈ kvs, compare e.1 e'.1 = .lt) ∧ Ordered kvs :=
  List.pairwise_cons

/-- An entry of the list after an insertion is the new one or an old one. -/
theorem mem_insert_imp {e : κ × ν} (h : e ∈ insert k v kvs) : e = (k, v) ∨ e ∈ kvs := by
  induction kvs with
  | nil => simpa [insert] using h
  | cons e' kvs ih =>
    simp only [insert] at h
    split at h
    · simpa using h
    · simp only [List.mem_cons] at h ⊢
      exact h.imp_right .inr
    · simp only [List.mem_cons] at h ⊢
      rcases h with h | h
      · exact .inr (.inl h)
      · exact (ih h).imp_right .inr

theorem ordered_insert [Std.TransOrd κ] [Std.LawfulEqOrd κ] (h : Ordered kvs) :
    Ordered (insert k v kvs) := by
  induction kvs with
  | nil => simp [insert, Ordered]
  | cons e kvs ih =>
    obtain ⟨a, b⟩ := e
    rw [ordered_cons] at h
    simp only [insert]
    split
    · next hlt =>
      refine ordered_cons.2 ⟨fun e' he' => ?_, ordered_cons.2 h⟩
      rcases List.mem_cons.1 he' with rfl | he'
      · exact hlt
      · exact Std.TransCmp.lt_trans hlt (h.1 e' he')
    · next heq =>
      have : k = a := by simpa using heq
      subst this
      exact ordered_cons.2 h
    · next hgt =>
      refine ordered_cons.2 ⟨fun e' he' => ?_, ih h.2⟩
      rcases mem_insert_imp he' with rfl | he'
      · exact Std.OrientedCmp.lt_of_gt hgt
      · exact h.1 e' he'

theorem ordered_erase (h : Ordered kvs) : Ordered (erase k kvs) :=
  List.Pairwise.sublist List.filter_sublist h

theorem ordered_insertAll [Std.TransOrd κ] [Std.LawfulEqOrd κ] {new : List (κ × ν)}
    (h : Ordered kvs) : Ordered (insertAll kvs new) := by
  induction new generalizing kvs with
  | nil => exact h
  | cons e new ih => exact ih (ordered_insert h)

end Assoc

end Depot
