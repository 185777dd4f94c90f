import Depot.Proofs.Store.Runs
import Depot.Proofs.Store.Tables
/-!
# Reopening a store

What a store has written to its cache element can be read back, keys and values as they were, unless
a value is nested too deeply. Nothing refuses such a value: the change is made and written, and from
then on no store can be opened over the element.
-/

namespace Depot

open Json

/-- The values that a request puts into a store. -/
def StoreRequest.stored : StoreRequest → List Value
  | .set _ v    => [v]
  | .setMany es => es.map (·.2)
  | _           => []

namespace World

open Depot.Action StoreRequest Table

variable {w w' : World} {r : StoreRef} {cache : Option ElementRef} {e : ElementRef}
  {q : StoreRequest} {t : Table} {b : Bytes} {x : Except StoreError StoreAnswer} {P : Value → Prop}

/-! ### What a store holds -/

/-- Every value of a map comes from the map before or from the request. -/
theorem next_holds {m : KeyMap} (hm : ∀ k v, m k = some v → P v) (hq : ∀ v ∈ q.stored, P v) :
    ∀ k v, q.next m k = some v → P v := by
  intro k v hv
  cases q with
  | set k' v' =>
    rw [next, Function.update_apply] at hv
    split at hv
    · cases hv
      exact hq v (List.mem_singleton_self v)
    · exact hm k v hv
  | setMany es =>
    -- One entry after the other, so the map in which the next one is put has the property.
    unfold next at hv
    unfold stored at hq
    dsimp only at hv hq
    induction es generalizing m with
    | nil => exact hm k v hv
    | cons e es ih =>
      refine ih (fun k' v' hv' => ?_) (fun v hv => hq v (List.mem_cons_of_mem _ hv)) hv
      dsimp only at hv'
      rw [Function.update_apply] at hv'
      split at hv'
      · cases hv'
        exact hq _ List.mem_cons_self
      · exact hm k' v' hv'
  | remove k' =>
    rw [next, Function.update_apply] at hv
    split at hv
    · cases hv
    · exact hm k v hv
  | removeMany ks =>
    rw [next] at hv
    split at hv
    · dsimp only at hv
      split at hv
      · cases hv
      · exact hm k v hv
    · exact hm k v hv
  | clear => cases hv
  | _ => exact hm k v hv

theorem Outcome.holds (h : Outcome w w' r cache q x)
    (hw : ∀ k v, (w.store r).table.get? k = some v → P v) (hq : ∀ v ∈ q.stored, P v) :
    ∀ k v, (w'.store r).table.get? k = some v → P v := by
  cases h with
  | refused _ _ hw' =>
    subst hw'
    exact hw
  | answered _ hw' =>
    subst hw'
    exact hw
  | changed _ _ ht =>
    have hnext := (answers_onTable (w.store r).table q).2
    rw [ht] at hnext
    dsimp only at hnext
    rw [hnext]
    exact next_holds hw hq
  | unwritten _ _ _ ht =>
    rw [ht]
    exact hw

/-- What holds of every value that is there and of every value that is put in holds of all values
after a run. -/
theorem afterRequests_holds {qs : List StoreRequest} (h : IsMemoryStore w r cache)
    (hw : ∀ k v, (w.store r).table.get? k = some v → P v) (hqs : ∀ q ∈ qs, ∀ v ∈ q.stored, P v) :
    ∀ k v, ((afterRequests r qs w).store r).table.get? k = some v → P v := by
  induction qs generalizing w with
  | nil => exact hw
  | cons q qs ih =>
    obtain ⟨ho, h', -⟩ := ask_outcome h q
    exact ih h' (ho.holds hw (hqs q List.mem_cons_self)) fun q hq =>
      hqs q (List.mem_cons_of_mem _ hq)

/-! ### Opening -/

/-- A store over an element that holds a table has this table, unless a value is nested too
deeply. -/
theorem openStore_of_written (he : e < w.elements.length) (hc : contentOf w e = .ok t.encode)
    (ht : ∀ e ∈ t.entries, Storable e.2) : openStore e w =
      if ∀ e ∈ t.entries, e.2.depth ≤ maxDepth then
        (.ok w.stores.length, { w with stores := w.stores ++ [⟨.memory (some e), t⟩] })
      else (.error (.table (w.source e).locator .notTable), w) := by
  unfold openStore
  rw [bind_apply, loadTable_apply he, hc]
  dsimp only
  rw [tableIn, if_neg t.size_encode_ne_zero, decode?_encode ht]
  by_cases hd : ∀ e ∈ t.entries, e.2.depth ≤ maxDepth
  · rw [if_pos hd, if_pos hd]
    rfl
  · rw [if_neg hd, if_neg hd]

/-- After any run that ends in a change, another store over the same cache element can be opened
exactly if no value is nested too deeply, and then it has the same table: the same keys in the same
order with the same values. -/
theorem reopens_iff (h : IsMemoryStore w r (some e)) (qs : List StoreRequest)
    (hb : contentOf w e = .ok b) (hw : ∀ k v, (w.store r).table.get? k = some v → Storable v)
    (hqs : ∀ q' ∈ qs ++ [q], ∀ v ∈ q'.stored, Storable v) (hch : q.isChange = true)
    (hdone : (q.ask (memoryStore r) (afterRequests r qs w)).1 = .ok .done) :
    let w' := (q.ask (memoryStore r) (afterRequests r qs w)).2
    let t := (w'.store r).table
    openStore e w' =
      if ∀ e ∈ t.entries, e.2.depth ≤ maxDepth then
        (.ok w'.stores.length, { w' with stores := w'.stores ++ [⟨.memory (some e), t⟩] })
      else (.error (.table (w'.source e).locator .notTable), w') := by
  intro w' t
  obtain ⟨h₁, -⟩ := h.afterRequests qs
  obtain ⟨b₁, hb₁⟩ := contentOf_afterRequests qs h rfl hb
  obtain ⟨ho, h₂, -⟩ := ask_outcome h₁ q
  have hwritten : contentOf w' e = .ok t.encode := (ho.writes rfl hb₁).2 hch hdone
  have hstorable : ∀ k v, t.get? k = some v → Storable v :=
    ho.holds (afterRequests_holds h hw fun q' hq' => hqs q' (List.mem_append_left _ hq'))
      (hqs q (List.mem_append_right _ (List.mem_singleton_self q)))
  exact openStore_of_written (h₂.element e rfl).1 hwritten fun e' he' =>
    hstorable e'.1 e'.2 (Dict.get?_of_mem he')

/-- A new store over an element in memory. -/
def overMemory : World :=
  { ofDisk (Disk.fresh ["work"] "tmp") with
    elements := [.ofSource (.memory .empty none false)]
    stores := [{ kind := .memory (some 0), table := .empty }] }

theorem isMemoryStore_overMemory : IsMemoryStore overMemory 0 (some 0) :=
  ⟨Nat.one_pos, rfl, fun _ he => Option.some.inj he ▸
    ⟨Nat.one_pos, ⟨Disk.tree_fresh, .inl ⟨rfl, rfl⟩⟩, nofun⟩⟩

/-- Arrays in one another, so many as given. -/
def nested : Nat → Value
  | 0     => .null
  | n + 1 => .array [nested n]

theorem storable_nested (n : Nat) : Storable (nested n) := by
  apply storable_of_integral
  · induction n with
    | zero => trivial
    | succ n ih => exact ⟨ih, trivial⟩
  · induction n with
    | zero => trivial
    | succ n ih => exact ⟨ih, trivial⟩

theorem depth_nested (n : Nat) : (nested n).depth = n := by
  induction n with
  | zero => rfl
  | succ n ih => rw [nested, Value.depth, Value.depthItems, Value.depthItems, ih, Nat.max_zero]

/-- A value as deep as can be. -/
theorem reopens_iff_deepest :
    let w' := (StoreRequest.ask (memoryStore 0) (.set (.int 1) (nested 125)) overMemory).2
    ∃ w'', openStore 0 w' = (.ok 1, w'') ∧
      (w''.store 1).table.get? (.int 1) = some (nested 125) := by
  intro w'
  have h := reopens_iff (q := .set (.int 1) (nested 125)) isMemoryStore_overMemory []
    (b := .empty) rfl nofun (fun q hq v hv => by
      have hset : q = .set (.int 1) (nested 125) := List.mem_singleton.1 hq
      subst hset
      have hnested : v = nested 125 := List.mem_singleton.1 hv
      rw [hnested]
      exact storable_nested 125) rfl rfl
  dsimp only at h
  rw [if_pos] at h
  · exact ⟨_, h, rfl⟩
  · intro e he
    cases List.mem_singleton.1 he
    exact Nat.le_of_eq (depth_nested 125)

/-- One more container: the value is stored, but no store can be opened over the element any
more. -/
theorem deep_value_not_reopened :
    let set := StoreRequest.ask (memoryStore 0) (.set (.int 1) (nested 126)) overMemory
    set.1 = .ok .done ∧ (set.2.store 0).table.get? (.int 1) = some (nested 126) ∧
      (openStore 0 set.2).1 = .error (.table (set.2.source 0).locator .notTable) := by
  intro set
  refine ⟨rfl, rfl, ?_⟩
  have h := openStore_of_written (w := set.2) (e := 0) (t := (set.2.store 0).table) Nat.one_pos rfl
    fun e he => by
      cases List.mem_singleton.1 he
      exact storable_nested 126
  rw [h, if_neg]
  intro hd
  have := hd (.int 1, nested 126) List.mem_cons_self
  rw [depth_nested] at this
  exact absurd this (by decide)

end World

end Depot
