import Depot.Proofs.FiniteMap
import Depot.Proofs.World.Parts
/-!
# Requests to stores

What a store can be asked for, and what a finite map from keys to values answers. Next to this
stands what a store in memory answers from its table, and that it is the same.
-/

namespace Depot

open Json Depot.Action

/-- What a store can be asked for. -/
inductive StoreRequest where
  | set (k : Key) (v : Value)
  | setMany (es : List (Key × Value))
  | remove (k : Key)
  | removeMany (ks : List Key)
  | clear
  | count
  | keys
  | lookup (k : Key)
  | has (k : Key)
  | get (k : Key)
  | getOr (k : Key) (default : Value)
  | getMany (ks : List Key)
  | values

/-- What a store answers. -/
inductive StoreAnswer where
  | done
  | number (n : Nat)
  | keys (ks : List Key)
  | truth (b : Bool)
  | optional (v : Option Value)
  | value (v : Value)
  | values (vs : List Value)

namespace StoreRequest

/-- Whether a change is asked for. -/
def isChange : StoreRequest → Bool
  | set .. | setMany _ | remove _ | removeMany _ | clear => true
  | _ => false

/-- Asks a store. -/
def ask {σ : Type} (s : KeyValueStore σ) : StoreRequest → Action σ StoreError StoreAnswer
  | set k v         => (fun _ => .done) <$> s.set k v
  | setMany es      => (fun _ => .done) <$> s.setMany es
  | remove k        => (fun _ => .done) <$> s.remove k
  | removeMany ks   => (fun _ => .done) <$> s.removeMany ks
  | clear           => (fun _ => .done) <$> s.clear
  | count           => .number <$> s.count
  | keys            => .keys <$> s.keys
  | lookup k        => .optional <$> s.lookup k
  | has k           => .truth <$> s.has k
  | get k           => .value <$> s.get k
  | getOr k default => .value <$> s.getOr k default
  | getMany ks      => .values <$> s.getMany ks
  | values          => .values <$> s.values

/-! ### Finite maps -/

/-- A map from keys to values. -/
abbrev KeyMap := Key → Option Value

/-- The keys of a map, ascending. -/
def Lists (m : KeyMap) (ks : List Key) : Prop :=
  ks.Pairwise (compare · · = .lt) ∧ ∀ k, k ∈ ks ↔ (m k).isSome

/-- The value under a key that must have one. -/
def valueIn (m : KeyMap) (k : Key) : Except StoreError Value :=
  match m k with
  | some v => .ok v
  | none   => .error (.keyNotFound k)

/-- The answers of a finite map. -/
def Answers (m : KeyMap) : StoreRequest → Except StoreError StoreAnswer → Prop
  | set .., x | setMany _, x | clear, x => x = .ok .done
  | remove k, x        => x = if (m k).isSome then .ok .done else .error (.keyNotFound k)
  | removeMany ks, x   =>
    x = match ks.find? fun k => (m k).isNone with
      | some k => .error (.keyNotFound k)
      | none   => .ok .done
  | count, x           => ∃ ks, Lists m ks ∧ x = .ok (.number ks.length)
  | keys, x            => ∃ ks, Lists m ks ∧ x = .ok (.keys ks)
  | lookup k, x        => x = .ok (.optional (m k))
  | has k, x           => x = .ok (.truth (m k).isSome)
  | get k, x           => x = (valueIn m k).map .value
  | getOr k default, x => x = .ok (.value ((m k).getD default))
  | getMany ks, x      => x = (ks.mapM (valueIn m)).map .values
  | values, x          => ∃ ks vs, Lists m ks ∧ vs.map some = ks.map m ∧ x = .ok (.values vs)

/-- The map after a request. Of several keys none is removed if one is missing. -/
def next (m : KeyMap) : StoreRequest → KeyMap
  | set k v       => Function.update m k (some v)
  | setMany es    => es.foldl (fun (m : KeyMap) e => Function.update m e.1 (some e.2)) m
  | remove k      => Function.update m k none
  | removeMany ks =>
    if ∀ k ∈ ks, (m k).isSome = true then fun k => if k ∈ ks then none else m k else m
  | clear         => fun _ => none
  | _             => m

/-! ### Tables -/

/-- The change of a table that is asked for. -/
def change? : StoreRequest → Option (Table → Except StoreError Table)
  | set k v       => some fun t => .ok (t.insert k v)
  | setMany es    => some fun t => .ok (t.insertAll es)
  | remove k      => some (World.tableWithout k)
  | removeMany ks => some (World.tableWithoutAll ks)
  | clear         => some fun _ => .ok .empty
  | _             => none

/-- What a table answers where no change is asked for. -/
def look (t : Table) : StoreRequest → Except StoreError StoreAnswer
  | count           => .ok (.number t.size)
  | keys            => .ok (.keys t.keys)
  | lookup k        => .ok (.optional (t.get? k))
  | has k           => .ok (.truth (t.get? k).isSome)
  | get k           => (valueIn t.get? k).map .value
  | getOr k default => .ok (.value ((t.get? k).getD default))
  | getMany ks      => (ks.mapM (valueIn t.get?)).map .values
  | values          => (t.keys.mapM (valueIn t.get?)).map .values
  | _               => .ok .done

/-- What a table answers, and the table after it. -/
def onTable (t : Table) (q : StoreRequest) : Except StoreError StoreAnswer × Table :=
  match q.change? with
  | none        => (q.look t, t)
  | some change =>
    match change t with
    | .error e => (.error e, t)
    | .ok t'   => (.ok .done, t')

variable {t t' : Table} {q : StoreRequest} {e : StoreError}

theorem onTable_look (h : q.change? = none) : q.onTable t = (q.look t, t) := by
  unfold onTable
  rw [h]

theorem onTable_change {change : Table → Except StoreError Table} (h : q.change? = some change) :
    q.onTable t =
      match change t with
      | .error e => (.error e, t)
      | .ok t'   => (.ok .done, t') := by
  unfold onTable
  rw [h]

theorem isChange_eq : q.isChange = q.change?.isSome := by
  cases q <;> rfl

theorem lists_keys : Lists t.get? t.keys := ⟨t.pairwise_keys, fun _ => Dict.mem_keys⟩

theorem mapM_valueIn {ks : List Key} {vs : List Value} (h : ks.map t.get? = vs.map some) :
    ks.mapM (valueIn t.get?) = .ok vs := by
  induction ks generalizing vs with
  | nil =>
    cases vs with
    | nil => rfl
    | cons v vs => cases h
  | cons k ks ih =>
    cases vs with
    | nil => cases h
    | cons v vs =>
      simp only [List.map_cons, List.cons.injEq] at h
      rw [List.mapM_cons, ih h.2]
      unfold valueIn
      rw [h.1]
      rfl

/-- A table answers as the map that it is. -/
theorem answers_look (h : q.change? = none) : Answers t.get? q (q.look t) := by
  cases q with
  | set | setMany | remove | removeMany | clear => cases h
  | count => exact ⟨t.keys, lists_keys, by rw [Dict.length_keys]; rfl⟩
  | keys => exact ⟨t.keys, lists_keys, rfl⟩
  | lookup | has | get | getOr | getMany => rfl
  | values =>
    refine ⟨t.keys, t.values, lists_keys, t.map_get?_keys.symm, ?_⟩
    unfold look
    rw [mapM_valueIn t.map_get?_keys]
    rfl

theorem next_of_look (h : q.change? = none) (m : KeyMap) : q.next m = m := by
  cases q with
  | set | setMany | remove | removeMany | clear => cases h
  | _ => rfl

/-- The first key that is missing. -/
theorem find?_missing (ks : List Key) : (ks.find? fun k => !t.contains k) =
    ks.find? fun k => (t.get? k).isNone := by
  simp only [Dict.contains, Option.not_isSome]

/-- A change of a table is the change of the map that it is. -/
theorem answers_change {change : Table → Except StoreError Table} (h : q.change? = some change)
    (ht : change t = .ok t') : Answers t.get? q (.ok .done) ∧ t'.get? = q.next t.get? := by
  cases q with
  | set k v =>
    cases h
    cases ht
    refine ⟨rfl, ?_⟩
    funext k'
    rw [Dict.get?_insert, next, Function.update_apply]
  | setMany es =>
    cases h
    cases ht
    exact ⟨rfl, Dict.get?_insertAll⟩
  | remove k =>
    cases h
    unfold World.tableWithout at ht
    split at ht
    · next hk =>
      cases ht
      refine ⟨(if_pos hk).symm, ?_⟩
      funext k'
      rw [Dict.get?_erase, next, Function.update_apply]
    · cases ht
  | removeMany ks =>
    cases h
    unfold World.tableWithoutAll at ht
    rw [find?_missing] at ht
    split at ht
    · cases ht
    · next hks =>
      cases ht
      refine ⟨by simp only [Answers, hks], ?_⟩
      rw [List.find?_eq_none] at hks
      have hall (k : Key) (hk : k ∈ ks) : (t.get? k).isSome = true := by
        have := hks k hk
        rwa [← Option.not_isSome, Bool.not_eq_true', Bool.not_eq_false] at this
      funext k'
      rw [Dict.get?_foldl_erase, next, if_pos hall]
  | clear =>
    cases h
    cases ht
    exact ⟨rfl, rfl⟩
  | _ => cases h

/-- A change that a table refuses is one that the map refuses, with the same fault. -/
theorem answers_refusal {change : Table → Except StoreError Table} (h : q.change? = some change)
    (ht : change t = .error e) : Answers t.get? q (.error e) ∧ q.next t.get? = t.get? := by
  cases q with
  | set | setMany | clear =>
    cases h
    cases ht
  | remove k =>
    cases h
    unfold World.tableWithout at ht
    split at ht
    · cases ht
    · next hk =>
      cases ht
      refine ⟨(if_neg hk).symm, Function.update_eq_self_iff.2 ?_⟩
      unfold Dict.contains at hk
      rw [Option.not_isSome_iff_eq_none] at hk
      exact hk.symm
  | removeMany ks =>
    cases h
    unfold World.tableWithoutAll at ht
    rw [find?_missing] at ht
    split at ht
    · next k hks =>
      cases ht
      refine ⟨by simp only [Answers, hks], if_neg fun hall => ?_⟩
      have hnone := List.find?_some hks
      rw [← Option.not_isSome, hall k (List.mem_of_find?_eq_some hks)] at hnone
      cases hnone
    · cases ht
  | _ => cases h

/-- A table answers as the map that it is, and becomes the map that comes next. -/
theorem answers_onTable (t : Table) (q : StoreRequest) :
    Answers t.get? q (q.onTable t).1 ∧ (q.onTable t).2.get? = q.next t.get? := by
  unfold onTable
  cases hq : q.change? with
  | none => exact ⟨answers_look hq, (next_of_look hq _).symm⟩
  | some change =>
    dsimp only
    cases ht : change t with
    | error e =>
      obtain ⟨ha, hn⟩ := answers_refusal hq ht
      exact ⟨ha, hn.symm⟩
    | ok t' => exact answers_change hq ht

end StoreRequest

end Depot
