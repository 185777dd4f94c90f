import Depot.Proofs.Set.Changing
/-!
# Places of descriptor files

Names of descriptor files hold a key in one way only, and the directories above them are never such
names. So a file for one key and digest is neither a file for another nor a directory on the way to
one, however digests are cut.
-/

namespace Depot

variable {t t' : TreeSet} {key key' : ElementKey} {sha1 sha1' : String} {l l' : Disk.Location}
  {dirs dirs' : List String} {last last' : String}

/-- Forty hexadecimal digits, small or large. -/
structure FortyDigits (s : String) : Prop where
  length : s.length = 40
  digits : ∀ c ∈ s.toList, c.toLower ∈ keyDigits

namespace FortyDigits

theorem ne_empty (h : FortyDigits key) : key ≠ "" := by
  rintro rfl
  cases h.length

theorem dot_notMem (h : FortyDigits key) : '.' ∉ key.toList := by
  intro hdot
  have hmem := h.digits _ hdot
  revert hmem
  decide

end FortyDigits

namespace DescriptorFile

/-- Names of files determine keys and digests. -/
theorem name_inj (hk : FortyDigits key) (hk' : FortyDigits key') (hs : FortyDigits sha1)
    (hs' : FortyDigits sha1') (h : name key sha1 = name key' sha1') :
    key = key' ∧ sha1 = sha1' := by
  have hread := key?_name hk.ne_empty hk.dot_notMem hs.ne_empty
  rw [h, key?_name hk'.ne_empty hk'.dot_notMem hs'.ne_empty] at hread
  cases hread
  exact ⟨rfl, by simpa [name] using h⟩

/-- A text without dots is no name of a descriptor file. -/
theorem ne_name (hdot : '.' ∉ last.toList) : last ≠ name key sha1 := by
  rintro rfl
  exact hdot (dot_mem_name key sha1)

/-- A text without dots holds no key. -/
theorem key?_eq_none (hdot : '.' ∉ last.toList) : key? last = none := by
  cases hk : key? last with
  | none => rfl
  | some k =>
    obtain ⟨-, -, sha1, -, hname⟩ := key?_eq_some.1 hk
    exact absurd hname (ne_name hdot)

end DescriptorFile

/-- If a way whose last name is not among the directories of another is the beginning of this, they
are the same. -/
theorem eq_of_prefix_of_notMem (hlast : last ∉ dirs') (h : dirs ++ [last] <+: dirs' ++ [last']) :
    dirs = dirs' ∧ last = last' := by
  rcases List.prefix_concat_iff.1 h with h | h
  · obtain ⟨rfl, hl⟩ := List.append_inj' h rfl
    exact ⟨rfl, List.singleton_inj.1 hl⟩
  · exact absurd (h.subset (List.mem_append_right _ (List.mem_singleton_self _))) hlast

namespace TreeSet

/-- The place of a file is below the root, in directories without dots, under the name for the key
and the digest. -/
theorem exists_dirs_of_placeOf (hs : FortyDigits sha1) (h : t.placeOf key sha1 = .ok l) :
    ∃ dirs, l = t.root ++ (dirs ++ [DescriptorFile.name key sha1]) ∧
      ∀ s ∈ dirs, '.' ∉ s.toList := by
  obtain ⟨names, hnames, rfl⟩ := placeOf_eq_ok h
  obtain ⟨dirs, rfl, hdirs⟩ := DescriptorFile.place?_eq_some hnames
  exact ⟨dirs, rfl, fun s hs' hdot => hs.dot_notMem (hdirs s hs' '.' hdot)⟩

/-- A place that another begins with is the place for the same key and digest. -/
theorem eq_of_placeOf_prefix (hk : FortyDigits key) (hs : FortyDigits sha1)
    (hk' : FortyDigits key') (hs' : FortyDigits sha1') (hroot : t'.root = t.root)
    (h : t.placeOf key sha1 = .ok l) (h' : t'.placeOf key' sha1' = .ok l') (hl : l <+: l') :
    key = key' ∧ sha1 = sha1' := by
  obtain ⟨dirs, rfl, -⟩ := exists_dirs_of_placeOf hs h
  obtain ⟨dirs', rfl, hdirs'⟩ := exists_dirs_of_placeOf hs' h'
  rw [hroot, List.prefix_append_right_inj] at hl
  -- Names of files have dots in them, pieces of digests have none.
  have hlast : DescriptorFile.name key sha1 ∉ dirs' := fun hmem =>
    hdirs' _ hmem (DescriptorFile.dot_mem_name key sha1)
  exact DescriptorFile.name_inj hk hk' hs hs' (eq_of_prefix_of_notMem hlast hl).2

/-- A name holds a key exactly if it is the key between the front and the first mark, with something
between the mark and the back. For keys and digests of forty hexadecimal digits and every number of
pieces that a set may use, there is a place. The last name of a place holds the key; none of the
directories on the way from the root is the name of a descriptor file or holds a key. Different keys
or digests have different places, and no place is on the way to another, whatever the numbers of
pieces are. -/
theorem places_apart :
    (∀ n k, DescriptorFile.key? n = some k ↔ k ≠ "" ∧ ¬ ".SHA1_".toList <:+: k.toList ∧
      ∃ s, s ≠ "" ∧ n = "UUID_" ++ k ++ ".SHA1_" ++ s ++ ".dataElement") ∧
    ∀ (t : TreeSet) key sha1, FortyDigits key → FortyDigits sha1 →
      (1 ≤ t.chunk → t.chunk ≤ 40 → ∃ l, t.placeOf key sha1 = .ok l) ∧
      ∀ l, t.placeOf key sha1 = .ok l →
        keyAt? l = some key ∧
        (∃ dirs, l = t.root ++ (dirs ++ [DescriptorFile.name key sha1]) ∧
          ∀ s ∈ dirs, DescriptorFile.key? s = none ∧ ∀ k d, s ≠ DescriptorFile.name k d) ∧
        ∀ (t' : TreeSet) key' sha1' l', FortyDigits key' → FortyDigits sha1' →
          t'.root = t.root → t'.placeOf key' sha1' = .ok l' →
          (l = l' → key = key' ∧ sha1 = sha1') ∧ (l <+: l' → key = key' ∧ sha1 = sha1') := by
  refine ⟨fun n k => ?_, fun t key sha1 hk hs => ⟨fun hc hc' => ?_, fun l hl => ⟨?_, ?_, ?_⟩⟩⟩
  · rw [DescriptorFile.key?_eq_some]
    simp only [DescriptorFile.name_eq]
    rfl
  · obtain ⟨names, hnames⟩ := DescriptorFile.exists_place (k := key)
      (sha1.length_toList.trans hs.length) hc hc'
    unfold placeOf
    rw [hnames]
    exact ⟨_, rfl⟩
  · obtain ⟨dirs, rfl, -⟩ := exists_dirs_of_placeOf hs hl
    unfold keyAt?
    rw [← List.append_assoc, List.getLast?_concat, Option.bind_some]
    exact DescriptorFile.key?_name hk.ne_empty hk.dot_notMem hs.ne_empty
  · obtain ⟨dirs, rfl, hdirs⟩ := exists_dirs_of_placeOf hs hl
    refine ⟨dirs, rfl, fun s hmem => ?_⟩
    exact ⟨DescriptorFile.key?_eq_none (hdirs s hmem), fun _ _ =>
      DescriptorFile.ne_name (hdirs s hmem)⟩
  · intro t' key' sha1' l' hk' hs' hroot hl'
    -- A place that is on the way to another has its last name, which no directory has.
    have hwithin := eq_of_placeOf_prefix hk hs hk' hs' hroot hl hl'
    exact ⟨fun h => hwithin (h ▸ List.prefix_refl _), hwithin⟩

/-- A key whose digest is cut into forty pieces, and one with large digits. -/
theorem places_apart_forty :
    let t : TreeSet := { root := ["set"], chunk := 40, plugins := { backends := .empty },
                         entries := .empty }
    let key := "aaf4c61ddcc5e8a2dabede0f3b482cd9aea9434d"
    let other := "AAF4C61DDCC5E8A2DABEDE0F3B482CD9AEA9434D"
    FortyDigits key ∧ FortyDigits other ∧ ∃ l l', t.placeOf key key = .ok l ∧
      t.placeOf other key = .ok l' ∧ keyAt? l = some key ∧ keyAt? l' = some other ∧ ¬ l <+: l' := by
  intro t key other
  have hkey : key.toList.all fun c => decide (c.toLower ∈ keyDigits) := by decide
  have hother : other.toList.all fun c => decide (c.toLower ∈ keyDigits) := by decide
  have hk : FortyDigits key :=
    ⟨by decide, fun c hc => of_decide_eq_true (List.all_eq_true.1 hkey c hc)⟩
  have ho : FortyDigits other :=
    ⟨by decide, fun c hc => of_decide_eq_true (List.all_eq_true.1 hother c hc)⟩
  obtain ⟨-, hplaces⟩ := places_apart
  obtain ⟨hplace, hapart⟩ := hplaces t key key hk hk
  obtain ⟨hplace', hapart'⟩ := hplaces t other key ho hk
  obtain ⟨l, hl⟩ := hplace (by decide) (by decide)
  obtain ⟨l', hl'⟩ := hplace' (by decide) (by decide)
  obtain ⟨hread, -, hwithin⟩ := hapart l hl
  refine ⟨hk, ho, l, l', hl, hl', hread, (hapart' l' hl').1, fun h => ?_⟩
  exact absurd ((hwithin t other key l' ho hk rfl hl').2 h).1 (by decide)

end TreeSet

end Depot
