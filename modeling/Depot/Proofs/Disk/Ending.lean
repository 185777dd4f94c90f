import Depot.Proofs.Disk.Resolution
/-!
# Where paths end

A path with a name at its end leads to a directory first, and what it leads to is what stands in
that directory under the name. Ends of paths are kept by every change that keeps the directories
and links, and by a change in one place that no way to a directory passes.
-/

namespace Depot.Disk

variable {d d' : Disk} {last : Bool} {links k : Nat} {l m g : Location} {s : String}
  {ss : List String} {t : Target} {p q : Path} {n : Node} {b : Bytes}

/-! ### Paths and ways -/

/-- A path that can be followed: it is not empty and has no NUL character. -/
def Path.Followable (p : Path) : Prop :=
  p.isEmpty = false ∧ (p.segments.any fun s => s.toList.contains '\x00') = false

theorem resolveSteps_eq_ok : d.resolveSteps last p ss = .ok t ↔
    p.Followable ∧ d.Leads last maxLinks (p.start d.workDir) ss t := by
  rw [← follow_eq_ok]
  unfold resolveSteps Path.Followable
  cases p.isEmpty with
  | true => simp
  | false =>
    cases p.segments.any fun s => s.toList.contains '\x00' with
    | true => simp
    | false => simp

theorem locate_eq_ok : d.locate p = .ok l ↔
    p.Followable ∧ d.Leads true maxLinks (p.start d.workDir) p.steps (.found l) := by
  rw [← resolveSteps_eq_ok]
  unfold locate
  split <;> simp [*]

theorem stat_eq_ok : d.stat p = .ok n ↔ ∃ l, d.locate p = .ok l ∧ d.node? l = some n := by
  unfold stat
  cases hl : d.locate p with
  | error e => simp [Except.bind]
  | ok l => cases hn : d.node? l <;> simp [Except.bind, hn]

theorem contentAt_eq_ok :
    d.contentAt p = .ok b ↔ ∃ l, d.locate p = .ok l ∧ d.node? l = some (.file b) := by
  rw [← stat_eq_ok]
  unfold contentAt
  cases hs : d.stat p with
  | error e => simp
  | ok n => cases n <;> simp

theorem isDir_eq_true :
    d.isDir p = true ↔ ∃ l, d.locate p = .ok l ∧ d.node? l = some .dir := by
  rw [← stat_eq_ok]
  unfold isDir
  cases hs : d.stat p with
  | error e => simp
  | ok n => cases n <;> simp

theorem isFile_eq_true : d.isFile p = true ↔ ∃ b, d.contentAt p = .ok b := by
  unfold isFile contentAt
  cases hs : d.stat p with
  | error e => simp
  | ok n => cases n <;> simp

theorem exists?_eq_true : d.exists? p = true ↔ ∃ n, d.stat p = .ok n := by
  unfold exists?
  cases d.stat p <;> simp [Except.isOk, Except.toBool]

/-- A file keeps its place and content where the ways are kept and the file itself is. -/
theorem contentAt_mono (h : d.KeepsWays d') (hl : d.locate p = .ok l)
    (hb' : d'.node? l = some (.file b)) :
    d'.locate p = .ok l ∧ d'.contentAt p = .ok b := by
  obtain ⟨hp, hw⟩ := locate_eq_ok.1 hl
  have hl' : d'.locate p = .ok l := by
    refine locate_eq_ok.2 ⟨hp, ?_⟩
    rw [h.workDir]
    exact hw.mono h fun _ _ => ⟨b, hb'⟩
  exact ⟨hl', contentAt_eq_ok.2 ⟨l, hl', hb'⟩⟩

/-! ### The end of a path -/

theorem Path.steps_eq (htr : p.trailing = false) : p.steps = p.segments := by
  simp [Path.steps, htr]

theorem Path.steps_cases (p : Path) : p.steps = p.segments ∨ p.steps = p.segments ++ ["."] := by
  unfold Path.steps
  split
  · exact .inr rfl
  · exact .inl rfl

/-- A slash at the end of a path to a directory makes no difference. -/
theorem leads_steps (hw : d.Leads true links l p.segments (.found m))
    (hm : d.node? m = some .dir) : d.Leads true links l p.steps (.found m) := by
  rcases p.steps_cases with hs | hs
  · rwa [hs]
  · rw [hs]
    exact hw.snoc_dot hm

theorem leads_segments (hw : d.Leads true links l p.steps (.found m)) :
    d.Leads true links l p.segments (.found m) := by
  rcases p.steps_cases with hs | hs
  · rwa [hs] at hw
  · rw [hs] at hw
    exact hw.undot

/-- A path leads to the directory `m` and ends there with the name `s`. -/
structure Ends (d : Disk) (p : Path) (m : Location) (s : String) : Prop where
  followable : p.Followable
  name : IsName s
  way : ∃ ss, p.segments = ss ++ [s] ∧
    d.Leads true maxLinks (p.start d.workDir) (ss ++ ["."]) (.found m)

namespace Ends

theorem dir (h : d.Ends p m s) (ht : d.Tree) : d.node? m = some .dir := by
  obtain ⟨ss, -, hw⟩ := h.way
  obtain ⟨m', hm, hd⟩ := hw.dir_of_dot ht (node?_start ht.workDir)
  cases hm
  exact hd

theorem unique {m' : Location} {s' : String} (h : d.Ends p m s) (h' : d.Ends p m' s') :
    m = m' ∧ s = s' := by
  obtain ⟨ss, hs, hw⟩ := h.way
  obtain ⟨ss', hs', hw'⟩ := h'.way
  obtain ⟨rfl, hs⟩ := List.append_inj' (hs.symm.trans hs') rfl
  cases hw.unique hw'
  cases hs
  exact ⟨rfl, rfl⟩

theorem mono (hk : d.KeepsWays d') (ht : d.Tree) (h : d.Ends p m s) : d'.Ends p m s := by
  have hm := h.dir ht
  obtain ⟨ss, hs, hw⟩ := h.way
  refine ⟨h.followable, h.name, ss, hs, ?_⟩
  rw [hk.workDir]
  exact hw.mono hk (by simp [hm])

/-- The name at the end has no NUL character. -/
theorem name_free (h : d.Ends p m s) : s.toList.contains '\x00' = false := by
  obtain ⟨ss, hs, -⟩ := h.way
  have := h.followable.2
  rw [hs, List.any_append] at this
  simpa using (Bool.or_eq_false_iff.1 this).2

/-- Nothing stands at the end of the path. -/
theorem resolveSteps_free (h : d.Ends p m s) (hn : d.node? (m ++ [s]) = none) :
    d.resolveSteps last p p.segments = .ok (.free m s) := by
  obtain ⟨ss, hs, hw⟩ := h.way
  rw [resolveSteps_eq_ok, hs]
  exact ⟨h.followable, hw.join (by simp) fun _ => .free h.name hn⟩

/-- Something stands at the end of the path. -/
theorem resolveSteps_found (h : d.Ends p m s) (hn : d.node? (m ++ [s]) = some n)
    (hl : last = false ∨ ∀ q, n ≠ .link q) :
    d.resolveSteps last p p.segments = .ok (.found (m ++ [s])) := by
  obtain ⟨ss, hs, hw⟩ := h.way
  rw [resolveSteps_eq_ok, hs]
  refine ⟨h.followable, hw.join (by simp) fun _ => ?_⟩
  cases n with
  | dir => exact .dir h.name hn .here
  | file b => exact .file h.name hn
  | link q => exact .lastLink h.name hn (hl.resolve_right fun hq => hq q rfl)

theorem locate (h : d.Ends p m s) (htr : p.trailing = false) (hn : d.node? (m ++ [s]) = some n)
    (hl : ∀ q, n ≠ .link q) : d.locate p = .ok (m ++ [s]) := by
  have : d.resolveSteps true p p.segments = _ := h.resolveSteps_found hn (.inr hl)
  rw [resolveSteps_eq_ok, ← Path.steps_eq htr] at this
  exact locate_eq_ok.2 this

theorem contentAt (h : d.Ends p m s) (htr : p.trailing = false)
    (hn : d.node? (m ++ [s]) = some (.file b)) : d.contentAt p = .ok b :=
  contentAt_eq_ok.2 ⟨_, h.locate htr hn (by simp), hn⟩

/-- What the path leads to is what stands at its end, unless that is a link. -/
theorem locate_eq_ok (h : d.Ends p m s) (htr : p.trailing = false)
    (hl : ∀ q, d.node? (m ++ [s]) ≠ some (.link q)) (hg : d.locate p = .ok g) :
    g = m ++ [s] ∧ d.node? (m ++ [s]) ≠ none := by
  cases hn : d.node? (m ++ [s]) with
  | none =>
    have : d.resolveSteps true p p.segments = _ := h.resolveSteps_free hn
    rw [resolveSteps_eq_ok, ← Path.steps_eq htr] at this
    cases this.2.unique (Disk.locate_eq_ok.1 hg).2
  | some n =>
    rw [h.locate htr hn (fun q hq => hl q (hq ▸ hn))] at hg
    cases hg
    exact ⟨rfl, by simp⟩

end Ends

/-- A path ends with a name, and no slash after it, at a location. -/
def EndsAt (d : Disk) (p : Path) (l : Location) : Prop :=
  p.trailing = false ∧ ∃ m s, d.Ends p m s ∧ l = m ++ [s]

namespace EndsAt

theorem unique {l' : Location} (h : d.EndsAt p l) (h' : d.EndsAt p l') : l = l' := by
  obtain ⟨-, m, s, he, rfl⟩ := h
  obtain ⟨-, m', s', he', rfl⟩ := h'
  obtain ⟨rfl, rfl⟩ := he.unique he'
  rfl

theorem mono (hk : d.KeepsWays d') (ht : d.Tree) (h : d.EndsAt p l) : d'.EndsAt p l := by
  obtain ⟨htr, m, s, he, rfl⟩ := h
  exact ⟨htr, m, s, he.mono hk ht, rfl⟩

/-- What the path leads to is what stands at the location, unless that is a link. -/
theorem locate_iff (h : d.EndsAt p l) (hl : ∀ q, d.node? l ≠ some (.link q)) :
    d.locate p = .ok g ↔ g = l ∧ d.node? l ≠ none := by
  obtain ⟨htr, m, s, he, rfl⟩ := h
  constructor
  · exact he.locate_eq_ok htr hl
  · rintro ⟨rfl, hn⟩
    obtain ⟨n, hn⟩ := Option.ne_none_iff_exists'.1 hn
    exact he.locate htr hn fun q hq => hl q (hq ▸ hn)

end EndsAt

/-- A path that leads anywhere has a name at its end, or leads to a directory. -/
theorem ends_or_dir (ht : d.Tree) (h : d.resolveSteps last p p.segments = .ok t) :
    (∃ m s, d.Ends p m s) ∨ ∃ g, t = .found g ∧ d.node? g = some .dir := by
  obtain ⟨hp, hw⟩ := resolveSteps_eq_ok.1 h
  have hstart := node?_start (q := p) ht.workDir
  rcases List.eq_nil_or_concat p.segments with hs | ⟨ss, s, hs⟩
  · rw [hs] at hw
    cases hw
    exact .inr ⟨_, rfl, hstart⟩
  rw [List.concat_eq_append] at hs
  rw [hs] at hw
  obtain ⟨m, k, hm, hw'⟩ := hw.split
  obtain ⟨m', hm', hd⟩ := hm.dir_of_dot ht hstart
  cases hm'
  have hends (hn : IsName s) : d.Ends p m s := ⟨hp, hn, ss, hs, hm⟩
  cases hw' with
  | dot hw' =>
    cases hw'
    exact .inr ⟨_, rfl, hd⟩
  | up hw' =>
    cases hw'
    exact .inr ⟨_, rfl, ht.node?_dropLast hd⟩
  | free hn => exact .inl ⟨m, s, hends hn⟩
  | dir hn => exact .inl ⟨m, s, hends hn⟩
  | file hn => exact .inl ⟨m, s, hends hn⟩
  | lastLink hn => exact .inl ⟨m, s, hends hn⟩
  | link hn => exact .inl ⟨m, s, hends hn⟩

/-- A path to a free name ends with that name. -/
theorem ends_of_free (ht : d.Tree) (h : d.resolveSteps false p p.segments = .ok (.free m s)) :
    d.Ends p m s ∧ d.node? (m ++ [s]) = none := by
  have hfit := (resolveSteps_eq_ok.1 h).2.fits ht (node?_start ht.workDir)
  refine ⟨?_, hfit.2.1⟩
  rcases ends_or_dir ht h with ⟨m', s', he⟩ | ⟨g, hg, -⟩
  · cases hn : d.node? (m' ++ [s']) with
    | none =>
      rw [he.resolveSteps_free hn] at h
      cases h
      exact he
    | some n =>
      rw [he.resolveSteps_found hn (.inl rfl)] at h
      cases h
  · cases hg

/-- A path to a file has a name at its end. -/
theorem ends_of_contentAt (ht : d.Tree) (h : d.contentAt p = .ok b) :
    p.trailing = false ∧ ∃ m s, d.Ends p m s := by
  obtain ⟨l, hl, hb⟩ := contentAt_eq_ok.1 h
  obtain ⟨hp, hw⟩ := locate_eq_ok.1 hl
  cases htr : p.trailing with
  | true =>
    simp only [Path.steps, htr, if_true] at hw
    obtain ⟨g, hg, hd⟩ := hw.dir_of_dot ht (node?_start ht.workDir)
    cases hg
    rw [hb] at hd
    cases hd
  | false =>
    refine ⟨rfl, ?_⟩
    rw [Path.steps_eq htr] at hw
    rcases ends_or_dir ht (resolveSteps_eq_ok.2 ⟨hp, hw⟩) with he | ⟨g, hg, hd⟩
    · exact he
    · cases hg
      rw [hb] at hd
      cases hd

/-! ### Places that no way to a directory passes -/

/-- No way to a directory passes the place `l`: nothing or a file stands there, or a link to a
file. -/
structure DeadEnd (d : Disk) (l : Location) : Prop where
  notDir : d.node? l ≠ some .dir
  link : ∀ {q}, d.node? l = some (.link q) → ∃ k f b,
    d.Leads true k (q.start l.dropLast) q.steps (.found f) ∧ d.node? f = some (.file b)

namespace Leads

/-- A way that goes on after a file ends there. -/
theorem ends_at_file {xs : List String} {f : Location} (ht : d.Tree) (hl : d.node? l = some .dir)
    (hf : d.node? f = some (.file b)) (hw : d.Leads true k l xs (.found f))
    (hw' : d.Leads last links l (xs ++ ss) t) : ss = [] ∧ (t = .found f ∨ last = false) := by
  generalize hg : Target.found f = g at hw
  induction hw generalizing links with
  | here =>
    cases hg
    rw [hl] at hf
    cases hf
  | dot _ ih => exact ih hl (leads_dot.1 hw') hg
  | up _ ih => exact ih (ht.node?_dropLast hl) (leads_up.1 hw') hg
  | free => cases hg
  | dir hs hd _ ih => exact ih hd ((leads_dir hs hd).1 hw') hg
  | file hs hd =>
    cases hg
    obtain ⟨hss, rfl⟩ := (leads_file hs hd).1 hw'
    exact ⟨by simpa using hss, .inl rfl⟩
  | lastLink _ _ hlast => cases hlast
  | link hs hd _ _ ih =>
    rcases leads_link hs hd hw' with ⟨hss, hlast⟩ | ⟨k', -, hw'⟩
    · exact ⟨(List.append_eq_nil_iff.1 hss).2, .inr hlast⟩
    · exact ih (node?_start hl) (by simpa using hw') hg

/-- Ways to directories stay where nothing but a dead end is changed. -/
theorem around_deadEnd (ht : d.Tree) (hd : d.SameBut d' g) (hg : d.DeadEnd g)
    (hl : d.node? l = some .dir) (hm : d.node? m = some .dir)
    (hw : d.Leads last links l ss (.found m)) : d'.Leads last links l ss (.found m) := by
  have hdir : ∀ {x}, d.node? x = some .dir → d'.node? x = some .dir := by
    intro x hx
    rwa [hd.node]
    rintro rfl
    exact hg.notDir hx
  generalize ht' : Target.found m = t at hw
  induction hw with
  | here => exact .here
  | dot _ ih => exact .dot (ih hl ht')
  | up _ ih => exact .up (ih (ht.node?_dropLast hl) ht')
  | free => cases ht'
  | dir hs hn _ ih => exact .dir hs (hdir hn) (ih hn ht')
  | file _ hn =>
    cases ht'
    rw [hm] at hn
    cases hn
  | lastLink _ hn _ =>
    cases ht'
    rw [hm] at hn
    cases hn
  | @link _ l s ss q _ hs hn hlast hw ih =>
    by_cases hx : l ++ [s] = g
    · -- the link would lead to a file, and from there on to a directory
      subst hx
      obtain ⟨k, f, b, hq, hf⟩ := hg.link hn
      rw [List.dropLast_concat] at hq
      obtain ⟨rfl, h | h⟩ := ends_at_file ht (node?_start hl) hf hq hw
      · rw [← ht'] at h
        cases h
        rw [hm] at hf
        cases hf
      · exact absurd ⟨rfl, h⟩ hlast
    · exact .link hs (by rw [hd.node hx, hn]) hlast (ih (node?_start hl) ht')

end Leads

namespace Ends

/-- A path to a file ends in a dead end. -/
theorem deadEnd (ht : d.Tree) (h : d.Ends p m s) (hb : d.contentAt p = .ok b) :
    d.DeadEnd (m ++ [s]) := by
  obtain ⟨htr, -⟩ := ends_of_contentAt ht hb
  obtain ⟨f, hf, hfb⟩ := contentAt_eq_ok.1 hb
  refine ⟨fun hd => ?_, fun {q} hq => ?_⟩
  · rw [h.locate htr hd (by simp)] at hf
    cases hf
    rw [hfb] at hd
    cases hd
  · obtain ⟨ss, hs, -⟩ := h.way
    obtain ⟨-, hw⟩ := Disk.locate_eq_ok.1 hf
    rw [Path.steps_eq htr, hs] at hw
    obtain ⟨m', k, hm', hw⟩ := hw.split
    obtain ⟨rfl, -⟩ := h.unique ⟨h.followable, h.name, ss, hs, hm'⟩
    rcases leads_link h.name hq hw with ⟨-, hlast⟩ | ⟨k, -, hw⟩
    · cases hlast
    · refine ⟨k, f, b, ?_, hfb⟩
      simpa using hw

/-- The end of a path stays where nothing but a dead end is changed. -/
theorem around_deadEnd (ht : d.Tree) (hd : d.SameBut d' g) (hg : d.DeadEnd g)
    (h : d.Ends p m s) : d'.Ends p m s := by
  have hm := h.dir ht
  obtain ⟨ss, hs, hw⟩ := h.way
  refine ⟨h.followable, h.name, ss, hs, ?_⟩
  rw [hd.workDir]
  exact hw.around_deadEnd ht hd hg (node?_start ht.workDir) hm

end Ends

end Depot.Disk
