import Depot.Proofs.Text.Basic
import Depot.Proofs.World.Identity
import Depot.Set.FileName
/-!
# What the names of descriptor files hold

The name of a descriptor file holds its key, and the directories above it are pieces of a digest.
-/

namespace Depot

variable {k : ElementKey} {sha1 n : String}

/-! ### Names -/

namespace DescriptorFile

theorem name_eq (k : ElementKey) (sha1 : String) :
    name k sha1 = "UUID_" ++ k ++ ".SHA1_" ++ sha1 ++ ".dataElement" := by
  apply String.toList_injective
  rw [name, String.toList_ofList]
  simp only [String.toList_append]
  rfl

/-- A name holds a key exactly if it is that of a descriptor file for this key, where the first mark
ends the key. -/
theorem key?_eq_some : key? n = some k ↔
    k ≠ "" ∧ ¬ mark <:+: k.toList ∧ ∃ sha1, sha1 ≠ "" ∧ n = name k sha1 := by
  have hsplit {stem key rest : List Char} :
      Text.splitAtMark mark stem = some (key, rest) ↔
        stem = key ++ (mark ++ rest) ∧ ¬ mark <:+: key := by
    have hdot : '.' ∉ "SHA1_".toList := by decide
    exact Text.splitAtMark_eq_some hdot
  unfold key?
  simp only [Option.bind_eq_bind, Option.bind_eq_some_iff, Text.afterFront_eq_some,
    Text.beforeBack_eq_some, Prod.exists, hsplit]
  constructor
  · rintro ⟨_, hn, _, rfl, key, rest, ⟨rfl, hinfix⟩, hkey⟩
    split at hkey
    · cases hkey
    · next hne =>
      rw [not_or] at hne
      cases hkey
      refine ⟨by simpa using hne.1, by simpa using hinfix, .ofList rest, by simpa using hne.2, ?_⟩
      apply String.toList_injective
      simp [name, hn]
  · rintro ⟨hk, hinfix, sha1, hs, rfl⟩
    refine ⟨_, ?_, _, rfl, k.toList, sha1.toList, ⟨rfl, hinfix⟩, ?_⟩
    · simp [name]
    · simp [hk, hs]

/-- A text without dots has no mark in it. -/
theorem not_infix_mark (hdot : '.' ∉ n.toList) :
    ¬ mark <:+: n.toList := fun h => hdot (h.subset List.mem_cons_self)

/-- The key is read off the name of its file. -/
theorem key?_name (hk : k ≠ "") (hdot : '.' ∉ k.toList) (hs : sha1 ≠ "") :
    key? (name k sha1) = some k :=
  key?_eq_some.2 ⟨hk, not_infix_mark hdot, sha1, hs, rfl⟩

theorem dot_mem_name (k : ElementKey) (sha1 : String) : '.' ∈ (name k sha1).toList := by
  rw [name, String.toList_ofList]
  exact List.mem_append_right _ List.mem_cons_self

/-! ### Places -/

theorem mem_cutInto {α : Type} {xs piece : List α} {ns : List Nat} {x : α}
    (hp : piece ∈ cutInto xs ns) (hx : x ∈ piece) : x ∈ xs := by
  induction ns generalizing xs with
  | nil => cases hp
  | cons n ns ih =>
    rcases List.mem_cons.1 hp with rfl | hp
    · exact List.mem_of_mem_take hx
    · exact List.mem_of_mem_drop (ih hp)

/-- A descriptor file stands in directories that are pieces of the digest. -/
theorem place?_eq_some {chunk : Nat} {names : Disk.Location}
    (h : place? chunk k sha1 = some names) : ∃ dirs, names = dirs ++ [name k sha1] ∧
      ∀ s ∈ dirs, ∀ c ∈ s.toList, c ∈ sha1.toList := by
  unfold place? partition? at h
  split at h
  · cases h
  · cases h
    refine ⟨_, rfl, fun s hs c hc => ?_⟩
    obtain ⟨piece, hp, rfl⟩ := List.mem_map.1 hs
    rw [String.toList_ofList] at hc
    exact mem_cutInto (List.dropLast_subset _ hp) hc

/-- Digests of forty digits have a place for every number of pieces from one to forty. -/
theorem exists_place {chunk : Nat} (hlen : sha1.toList.length = 40) (hc : 0 < chunk)
    (hc' : chunk ≤ 40) : ∃ names, place? chunk k sha1 = some names := by
  unfold place? partition?
  rw [if_neg (by omega)]
  exact ⟨_, rfl⟩

end DescriptorFile

/-! ### Keys -/

namespace IsKey

theorem ne_empty (h : IsKey k) : k ≠ "" := by
  rintro rfl
  have := h.length
  cases this

theorem dot_notMem (h : IsKey k) : '.' ∉ k.toList := by
  intro hdot
  have hmem := h.digits _ hdot
  revert hmem
  decide

theorem key?_name (h : IsKey k) (h' : IsKey sha1) :
    DescriptorFile.key? (DescriptorFile.name k sha1) = some k :=
  DescriptorFile.key?_name h.ne_empty h.dot_notMem h'.ne_empty

/-- No name on the way to a descriptor file is a step. -/
theorem not_step (h : IsKey sha1) {chunk : Nat} {names : Disk.Location}
    (hp : DescriptorFile.place? chunk k sha1 = some names) : ∀ s ∈ names, s ≠ "." ∧ s ≠ ".." := by
  obtain ⟨dirs, rfl, hdirs⟩ := DescriptorFile.place?_eq_some hp
  intro s hs
  rcases List.mem_append.1 hs with hs | hs
  · constructor
    · rintro rfl
      exact h.dot_notMem (hdirs _ hs '.' (by decide))
    · rintro rfl
      exact h.dot_notMem (hdirs _ hs '.' (by decide))
  · have hhead : s.toList.head? = some 'U' := by
      rw [List.mem_singleton.1 hs, DescriptorFile.name, String.toList_ofList]
      rfl
    constructor
    · rintro rfl
      cases hhead
    · rintro rfl
      cases hhead

end IsKey

end Depot
