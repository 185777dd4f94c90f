import Depot.Proofs.Store.Memory
/-!
# Runs of a store in memory

In every state that requests lead to, a store in memory answers the next one as a finite map. Every
change that succeeds is in the cache element, every request that fails has changed nothing, a
read-only store never changes, and a cache element that can be written makes no difference to the
answers.
-/

namespace Depot.World

open StoreRequest

variable {w w' : World} {r r' : StoreRef} {cache : Option ElementRef} {e : ElementRef}
  {q : StoreRequest} {qs : List StoreRequest} {b : Bytes} {x : Except StoreError StoreAnswer}

/-- The world after several requests to a store in memory. -/
def afterRequests (r : StoreRef) (qs : List StoreRequest) (w : World) : World :=
  qs.foldl (fun w q => (q.ask (memoryStore r) w).2) w

/-- The answers to several requests. -/
def answers (r : StoreRef) : List StoreRequest → World → List (Except StoreError StoreAnswer)
  | [], _      => []
  | q :: qs, w => (q.ask (memoryStore r) w).1 :: answers r qs (q.ask (memoryStore r) w).2

/-! ### One request -/

namespace Outcome

/-- Unless the store is read-only and a change is asked for, the answer is that of the map that
the table is, or the cache element cannot be written, as it has no content or its backend refuses
the map that comes next. -/
theorem refines (h : Outcome w w' r cache q x)
    (hro : w.cacheIsReadOnly r = false ∨ q.isChange = false) :
    Answers (w.store r).table.get? q x ∧
        (w'.store r).table.get? = q.next (w.store r).table.get? ∨
      ∃ e f, cache = some e ∧ x = .error (.element f) ∧
        ((∀ b, contentOf w e ≠ .ok b) ∨
          ∃ t : Table, t.get? = q.next (w.store r).table.get? ∧
            Element.Refuses (w.scene e) t.encode f) := by
  cases h with
  | refused hch hro' =>
    rw [hch, hro'] at hro
    rcases hro with h | h <;> cases h
  | answered _ hw ht =>
    subst hw
    obtain ⟨ha, hn⟩ := answers_onTable (w'.store r).table q
    rw [ht] at hn
    exact .inl ⟨ha, hn⟩
  | changed _ _ ht =>
    have := answers_onTable (w.store r).table q
    rw [ht] at this
    exact .inl this
  | @unwritten e f next hc _ ht _ _ hwhy =>
    have := (answers_onTable (w.store r).table q).2
    rw [ht] at this
    exact .inr ⟨e, f, hc, rfl, hwhy.imp_right fun hf => ⟨next, this, hf⟩⟩

/-- After a change that has succeeded the cache element holds the table. -/
theorem writes (h : Outcome w w' r cache q x) (hc : cache = some e) (hb : contentOf w e = .ok b) :
    (∃ b', contentOf w' e = .ok b') ∧
      (q.isChange = true → x = .ok .done → contentOf w' e = .ok (w'.store r).table.encode) := by
  cases h with
  | refused _ _ hw =>
    subst hw
    exact ⟨⟨b, hb⟩, nofun⟩
  | answered hq hw =>
    subst hw
    refine ⟨⟨b, hb⟩, fun hch hx => ?_⟩
    rcases hq with hq | ⟨-, f, hf⟩
    · rw [hq] at hch
      cases hch
    · rw [hf] at hx
      cases hx
  | changed _ _ _ hwritten => exact ⟨⟨_, hwritten e b hc hb⟩, fun _ _ => hwritten e b hc hb⟩
  | unwritten hc' _ _ _ hsame =>
    rw [hc] at hc'
    cases hc'
    rw [hb] at hsame
    refine ⟨⟨b, ?_⟩, nofun⟩
    cases hw : contentOf w' e with
    | error f =>
      rw [hw] at hsame
      cases hsame
    | ok b' =>
      rw [hw] at hsame
      cases hsame
      rfl

/-- A request that fails changes neither the table nor the content of the cache element. -/
theorem failed {f : StoreError} (h : Outcome w w' r cache q (.error f)) :
    (w'.store r).table = (w.store r).table ∧ ∀ e, cache = some e →
      (contentOf w' e).toOption = (contentOf w e).toOption := by
  generalize hx : Except.error f = x at h
  cases h with
  | refused _ _ hw =>
    subst hw
    exact ⟨rfl, fun _ _ => rfl⟩
  | answered _ hw =>
    subst hw
    exact ⟨rfl, fun _ _ => rfl⟩
  | changed => cases hx
  | unwritten hc _ _ ht hsame =>
    refine ⟨ht, fun e' hc' => ?_⟩
    rw [hc] at hc'
    cases hc'
    exact hsame

/-- A read-only store refuses changes, and nothing changes. -/
theorem readOnly (h : Outcome w w' r cache q x) (hro : w.cacheIsReadOnly r = true) :
    w' = w ∧ (q.isChange = true → x = .error (.readOnly memoryStoreName)) := by
  cases h with
  | refused _ _ hw => exact ⟨hw, fun _ => rfl⟩
  | answered hq hw =>
    refine ⟨hw, fun hch => ?_⟩
    rcases hq with hq | ⟨hro', -⟩
    · rw [hq] at hch
      cases hch
    · rw [hro] at hro'
      cases hro'
  | changed _ hro' | unwritten _ hro' =>
    rw [hro] at hro'
    cases hro'

/-- The answer of a store that may be changed is that of its table, unless its cache element
cannot be written. -/
theorem onTable (h : Outcome w w' r cache q x) (hro : w.cacheIsReadOnly r = false) :
    (x, (w'.store r).table) = q.onTable (w.store r).table ∨
      cache ≠ none ∧ ∃ f, x = .error (.element f) := by
  cases h with
  | refused _ hro' =>
    rw [hro] at hro'
    cases hro'
  | answered _ hw ht =>
    subst hw
    exact .inl (Prod.ext rfl ht.symm)
  | changed _ _ ht => exact .inl ht.symm
  | @unwritten e f _ hc => exact .inr ⟨by simp [hc], f, rfl⟩

end Outcome

/-! ### Several requests -/

theorem IsMemoryStore.afterRequests (h : IsMemoryStore w r cache) (qs : List StoreRequest) :
    IsMemoryStore (afterRequests r qs w) r cache ∧
      (World.afterRequests r qs w).cacheIsReadOnly r = w.cacheIsReadOnly r := by
  induction qs generalizing w with
  | nil => exact ⟨h, rfl⟩
  | cons q qs ih =>
    obtain ⟨-, h', hro, -⟩ := ask_outcome h q
    obtain ⟨h'', hro'⟩ := ih h'
    exact ⟨h'', hro'.trans hro⟩

/-- A cache element with content keeps having some. -/
theorem contentOf_afterRequests (qs : List StoreRequest) (h : IsMemoryStore w r cache)
    (hc : cache = some e) (hb : contentOf w e = .ok b) :
    ∃ b', contentOf (afterRequests r qs w) e = .ok b' := by
  induction qs generalizing w b with
  | nil => exact ⟨b, hb⟩
  | cons q qs ih =>
    obtain ⟨ho, h', -, -⟩ := ask_outcome h q
    obtain ⟨⟨b', hb'⟩, -⟩ := ho.writes hc hb
    exact ih h' hb'

/-- What the backend of a cache element refuses in the end it has refused from the beginning. -/
theorem refuses_of_afterRequests {f : ElementError} {content : Bytes} (qs : List StoreRequest)
    (h : IsMemoryStore w r cache) (hc : cache = some e)
    (hf : Element.Refuses ((afterRequests r qs w).scene e) content f) :
    Element.Refuses (w.scene e) content f := by
  induction qs generalizing w with
  | nil => exact hf
  | cons q qs ih =>
    obtain ⟨-, h', -, hrefuses⟩ := ask_outcome h q
    exact hrefuses e hc content f (ih h' hf)

theorem afterRequests_readOnly (h : IsMemoryStore w r cache) (hro : w.cacheIsReadOnly r = true) :
    afterRequests r qs w = w := by
  induction qs with
  | nil => rfl
  | cons q qs ih =>
    obtain ⟨ho, -⟩ := ask_outcome h q
    show World.afterRequests r qs (q.ask (memoryStore r) w).2 = w
    rw [(ho.readOnly hro).1]
    exact ih

/-- Stores with the same table give the same answers, unless a cache element cannot be
written. -/
theorem answers_eq (h : IsMemoryStore w r cache) (h' : IsMemoryStore w' r' none)
    (hro : w.cacheIsReadOnly r = false) (ht : (w'.store r').table = (w.store r).table)
    (hf : ∀ f, .error (.element f) ∉ answers r qs w) : answers r qs w = answers r' qs w' := by
  induction qs generalizing w w' with
  | nil => rfl
  | cons q qs ih =>
    obtain ⟨ho, h₁, hro₁, -⟩ := ask_outcome h q
    obtain ⟨ho', h₁', -, -⟩ := ask_outcome h' q
    rw [answers] at hf ⊢
    rw [answers]
    have heq : ((q.ask (memoryStore r) w).1, ((q.ask (memoryStore r) w).2.store r).table) =
        q.onTable (w.store r).table := by
      rcases ho.onTable hro with heq | ⟨-, f, hx⟩
      · exact heq
      · exact absurd (List.mem_cons.2 (.inl hx.symm)) (hf f)
    have heq' : ((q.ask (memoryStore r') w').1, ((q.ask (memoryStore r') w').2.store r').table) =
        q.onTable (w.store r).table := by
      rw [← ht]
      exact (ho'.onTable h'.cacheIsReadOnly).resolve_right fun hx => hx.1 rfl
    obtain ⟨hx, ht₁⟩ := Prod.mk.inj (heq.trans heq'.symm)
    rw [hx]
    congr 1
    exact ih h₁ h₁' (hro₁.trans hro) ht₁.symm fun f hm => hf f (List.mem_cons_of_mem _ hm)

/-- In every state that requests lead to: the next request is answered as by the map that the table
is, and the table becomes the map that comes next, unless the store is read-only or its cache
element cannot be written, as it has no content or its backend refuses the map that comes next; a
cache element that had content holds the table after every change; a request that fails changes
neither the table nor the content of the cache element; if the cache element may not be written,
every change is refused and nothing ever changes; and if it may, and never fails, the answers are
those of a store without one. -/
theorem memoryStore_is_map (h : IsMemoryStore w r cache) (qs : List StoreRequest)
    (q : StoreRequest) :
    let w₁ := afterRequests r qs w
    let x := (q.ask (memoryStore r) w₁).1
    let w₂ := (q.ask (memoryStore r) w₁).2
    (w.cacheIsReadOnly r = false ∨ q.isChange = false →
      Answers (w₁.store r).table.get? q x ∧
          (w₂.store r).table.get? = q.next (w₁.store r).table.get? ∨
        ∃ e f, cache = some e ∧ x = .error (.element f) ∧
          ((∀ b, contentOf w e ≠ .ok b) ∨
            ∃ t : Table, t.get? = q.next (w₁.store r).table.get? ∧
              Element.Refuses (w.scene e) t.encode f)) ∧
    (∀ e b, cache = some e → contentOf w e = .ok b → q.isChange = true → x = .ok .done →
      contentOf w₂ e = .ok (w₂.store r).table.encode) ∧
    (∀ f, x = .error f → (w₂.store r).table = (w₁.store r).table ∧
      ∀ e, cache = some e → (contentOf w₂ e).toOption = (contentOf w₁ e).toOption) ∧
    (w.cacheIsReadOnly r = true →
      w₂ = w ∧ (q.isChange = true → x = .error (.readOnly memoryStoreName))) ∧
    (∀ w' r', IsMemoryStore w' r' none → (w'.store r').table = (w.store r).table →
      w.cacheIsReadOnly r = false → (∀ f, .error (.element f) ∉ answers r qs w) →
      answers r qs w = answers r' qs w') := by
  intro w₁ x w₂
  obtain ⟨h₁, hro₁⟩ := h.afterRequests qs
  obtain ⟨ho, -, -, -⟩ := ask_outcome h₁ q
  refine ⟨fun hro => ?_, fun e b hc hb hch hx => ?_, fun f hx => ?_, fun hro => ?_,
    fun w' r' h' ht hro hf => answers_eq h h' hro ht hf⟩
  · rcases ho.refines (hro.imp_left hro₁.trans) with ha | ⟨e, f, hc, hx, hwhy⟩
    · exact .inl ha
    · -- An element keeps having content, and a backend refuses no more than before.
      refine .inr ⟨e, f, hc, hx, hwhy.imp (fun hno b hb => ?_) fun ⟨t, ht, hf⟩ => ?_⟩
      · obtain ⟨b', hb'⟩ := contentOf_afterRequests qs h hc hb
        exact hno b' hb'
      · exact ⟨t, ht, refuses_of_afterRequests qs h hc hf⟩
  · obtain ⟨b', hb'⟩ := contentOf_afterRequests qs h hc hb
    exact (ho.writes hc hb').2 hch hx
  · have ho' : Outcome w₁ w₂ r cache q x := ho
    rw [hx] at ho'
    exact ho'.failed
  · obtain ⟨hw, hx⟩ := ho.readOnly (hro₁.trans hro)
    exact ⟨hw.trans (afterRequests_readOnly h hro), hx⟩

/-- A store that has been opened over an element in memory and is written to it. -/
theorem memoryStore_is_map_cached :
    let w₀ : World := { ofDisk (Disk.fresh ["work"] "tmp") with
      elements := [.ofSource (.memory .empty none false)] }
    let w : World := { w₀ with stores := [{ kind := .memory (some 0), table := .empty }] }
    let w₁ := afterRequests 0 [.set (.int 1) .null] w
    let w₂ := (ask (memoryStore 0) (.remove (.int 1)) w₁).2
    openStore 0 w₀ = (.ok 0, w) ∧ contentOf w₂ 0 = .ok (w₂.store 0).table.encode := by
  intro w₀ w w₁ w₂
  have ho : openStore 0 w₀ = (.ok 0, w) := rfl
  obtain ⟨h, b, hb⟩ := isMemoryStore_openStore (w := w₀) Nat.one_pos
    ⟨Disk.tree_fresh, .inl ⟨rfl, rfl⟩⟩ nofun ho
  exact ⟨ho, (memoryStore_is_map h [.set (.int 1) .null] (.remove (.int 1))).2.1 0 b rfl hb rfl rfl⟩

end Depot.World
