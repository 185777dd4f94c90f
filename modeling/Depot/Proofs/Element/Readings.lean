import Depot.Proofs.Disk.TempNames
import Depot.Proofs.Element.Ownership
/-!
# Readings

A cache is asked for checksums and for temporary files of some content, again and again. Whenever
the content has to be read, it may be replaced and the cache invalidated, any number of times,
before the reading is over. What is asked, read and answered is written down.
-/

namespace Depot.Readings

open Disk

/-! ### Changes -/

/-- What may happen to the content and around the cache. -/
inductive Change where
  /-- Other content is stored. The cache does not know of it. -/
  | store (content : Bytes)
  /-- The cache is told that the content has changed. -/
  | invalidate
  /-- Somebody else changes the disk. Names of temporary files that have been used stay used. -/
  | elsewhere (change : Disk → Disk) (names : ∀ d : Disk, d.names.Continues (change d).names)

/-- A reading, from its beginning until the cache has the result. -/
structure Reading where
  /-- What has happened in the meantime. -/
  changes : List Change
  result : Except ElementError Bytes

/-- The content, and the reading that the cache has needed for a call. -/
structure Watched where
  content : Bytes
  reading : Option Reading

/-- The scene after a change. -/
def Change.make : Change → Scene Watched → Scene Watched
  | store content      => fun s => { s with around.content := content }
  | invalidate         => fun s =>
    ((Scene.invalidate : Scene.Action Watched ElementError Unit) s).2
  | elsewhere change _ => fun s => { s with disk := change s.disk }

/-- The scene after several changes. -/
def makeAll (cs : List Change) (s : Scene Watched) : Scene Watched :=
  cs.foldl (fun s c => c.make s) s

/-- How content is read. -/
structure Reader where
  /-- What happens before the content is looked at. -/
  before : List Change
  /-- What reading fails with, if it does. -/
  fault : Option ElementError
  /-- What happens after that, while the cache still waits. -/
  after : List Change

/-- What a reader gives. -/
def Reader.result (r : Reader) (s : Scene Watched) : Except ElementError Bytes :=
  match r.fault with
  | none   => .ok (makeAll r.before s).around.content
  | some e => .error e

/-- What is written down of a reading. -/
def Reader.reading (r : Reader) (s : Scene Watched) : Reading where
  changes := r.before ++ r.after
  result := r.result s

/-- Reads the content and writes the reading down. -/
def Reader.read (r : Reader) : Scene.Action Watched ElementError Bytes := fun s =>
  (r.result s,
    { makeAll r.after (makeAll r.before s) with around.reading := some (r.reading s) })

/-! ### Calls -/

/-- What can happen. -/
inductive Event where
  | checksum (a : Algorithm) (r : Reader)
  | writeTemp (dir type : Option String) (r : Reader)
  | change (c : Change)

/-- What has happened. A call is written down with the reading that it has needed, if any, and with
the answer. -/
inductive Entry where
  | checksum (a : Algorithm) (reading : Option Reading) (answer : Except ElementError Checksum)
  | writeTemp (reading : Option Reading) (answer : Except ElementError Disk.Path)
  | change (c : Change)

/-- A cache and all that has happened to it. -/
structure Run where
  scene : Scene Watched
  /-- The latest first. -/
  past : List Entry

/-- A new cache of some content. -/
def start (d : Disk) (content : Bytes) : Run where
  scene := { cache := .empty, disk := d, around := { content, reading := none } }
  past := []

/-- The scene before a call, which has needed no reading yet. -/
def Run.ready (s : Run) : Scene Watched := { s.scene with around.reading := none }

@[simp] theorem Run.reading_ready (s : Run) : s.ready.around.reading = none := rfl

/-- A call to the cache. -/
def Run.call {α : Type} (s : Run) (x : Scene.Action Watched ElementError α)
    (entry : Option Reading → Except ElementError α → Entry) : Run where
  scene := (x s.ready).2
  past := entry (x s.ready).2.around.reading (x s.ready).1 :: s.past

/-- The run after an event. -/
def Event.after [MediaTypes] : Event → Run → Run
  | checksum a r         => fun s => s.call (Scene.checksum a r.read) (.checksum a)
  | writeTemp dir type r => fun s => s.call (Scene.writeTemp dir type r.read) .writeTemp
  | change c             => fun s => { scene := c.make s.scene, past := .change c :: s.past }

/-- The run after several events. -/
def afterAll [MediaTypes] (es : List Event) (s : Run) : Run := es.foldl (fun s e => e.after s) s

/-! ### What is said of the past -/

namespace Entry

/-- What has happened in the meantime. -/
def changes : Entry → List Change
  | checksum _ reading _ => (reading.map Reading.changes).getD []
  | writeTemp reading _  => (reading.map Reading.changes).getD []
  | change c             => [c]

/-- The cache has been invalidated. -/
def Renews (x : Entry) : Prop := Change.invalidate ∈ x.changes

/-- The content has been read for a checksum. -/
def Reads (x : Entry) (a : Algorithm) : Prop := ∃ r answer, x = .checksum a (some r) answer

/-- The temporary file that has been written. -/
def written? : Entry → Option Disk.Path
  | writeTemp (some _) (.ok p) => some p
  | _                          => none

end Entry

/-- A reading has given some content, and the cache has not been invalidated in the meantime. -/
def Reading.Settled (r : Reading) (b : Bytes) : Prop := r.result = .ok b ∧ .invalidate ∉ r.changes

/-- An entry stands in the past, and all that has happened after it is of one kind. -/
def Since (kind : Entry → Prop) (past : List Entry) (x : Entry) : Prop :=
  ∃ later earlier, past = later ++ x :: earlier ∧ ∀ y ∈ later, kind y

/-- The latest reading for a checksum has given some content, and the cache has not been invalidated
since it began. -/
def Remembered (past : List Entry) (a : Algorithm) (b : Bytes) : Prop :=
  ∃ r : Reading, r.Settled b ∧ Since (fun y => ¬ y.Renews ∧ ¬ y.Reads a) past
    (.checksum a (some r) (.ok (.ofBytes a b)))

/-- A temporary file has been written, and the cache has not been invalidated since the reading of
what it holds began. -/
def Written (past : List Entry) (p : Disk.Path) : Prop :=
  ∃ (r : Reading) (b : Bytes), r.Settled b ∧ Since (fun y => ¬ y.Renews) past
    (.writeTemp (some r) (.ok p))

/-! ### Small facts -/

variable {past : List Entry} {x y : Entry} {kind : Entry → Prop} {a : Algorithm} {b : Bytes}
  {p : Disk.Path} {cs : List Change} {s : Scene Watched} {r : Reader}

theorem since_cons : Since kind (y :: past) x ↔ x = y ∨ kind y ∧ Since kind past x := by
  constructor
  · rintro ⟨_ | ⟨z, later⟩, earlier, he, hl⟩
    · cases he
      exact .inl rfl
    · cases he
      obtain ⟨hy, hl⟩ := List.forall_mem_cons.1 hl
      exact .inr ⟨hy, later, earlier, rfl, hl⟩
  · rintro (rfl | ⟨hy, later, earlier, rfl, hl⟩)
    · exact ⟨[], past, rfl, List.forall_mem_nil _⟩
    · exact ⟨y :: later, earlier, rfl, List.forall_mem_cons.2 ⟨hy, hl⟩⟩

theorem Since.mem (h : Since kind past x) : x ∈ past := by
  obtain ⟨later, earlier, rfl, -⟩ := h
  simp

/-- After an invalidation nothing is remembered. -/
theorem not_remembered (hx : x.Renews) : ¬ Remembered (x :: past) a b := by
  rintro ⟨r, ⟨-, hr⟩, h⟩
  rcases since_cons.1 h with rfl | ⟨hskip, -⟩
  · exact hr hx
  · exact hskip.1 hx

/-- What reads nothing for a checksum leaves it remembered as it is. -/
theorem remembered_cons (hx : ¬ x.Renews) (hr : ¬ x.Reads a) :
    Remembered (x :: past) a b ↔ Remembered past a b := by
  refine exists_congr fun r => and_congr_right fun _ => ?_
  rw [since_cons]
  constructor
  · rintro (rfl | ⟨-, h⟩)
    · exact absurd ⟨_, _, rfl⟩ hr
    · exact h
  · exact fun h => .inr ⟨⟨hx, hr⟩, h⟩

/-- A reading for a checksum is the latest. -/
theorem remembered_checksum {r : Reading} {answer : Except ElementError Checksum} :
    Remembered (.checksum a (some r) answer :: past) a b ↔
      r.Settled b ∧ answer = .ok (.ofBytes a b) := by
  constructor
  · rintro ⟨r', hr', h⟩
    rcases since_cons.1 h with h | ⟨⟨-, hskip⟩, -⟩
    · simp only [Entry.checksum.injEq, Option.some.injEq, true_and] at h
      obtain ⟨rfl, rfl⟩ := h
      exact ⟨hr', rfl⟩
    · exact absurd ⟨_, _, rfl⟩ hskip
  · rintro ⟨hr, rfl⟩
    exact ⟨r, hr, since_cons.2 (.inl rfl)⟩

theorem Written.cons (h : Written past p) (hx : ¬ x.Renews) : Written (x :: past) p := by
  obtain ⟨r, b, hr, h⟩ := h
  exact ⟨r, b, hr, since_cons.2 (.inr ⟨hx, h⟩)⟩

/-! ### What changes do to the cache -/

@[simp] theorem Change.cache_store (content : Bytes) :
    (make (.store content) s).cache = s.cache := rfl

@[simp] theorem Change.cache_elsewhere (change : Disk → Disk) (names) :
    (make (.elsewhere change names) s).cache = s.cache := rfl

theorem makeAll_cons (c : Change) (cs : List Change) (s : Scene Watched) :
    makeAll (c :: cs) s = makeAll cs (c.make s) := rfl

theorem makeAll_append (cs cs' : List Change) (s : Scene Watched) :
    makeAll (cs ++ cs') s = makeAll cs' (makeAll cs s) := List.foldl_append

/-- The cache is as it was, or it has been invalidated and remembers nothing. -/
theorem cache_makeAll (cs : List Change) (s : Scene Watched) :
    .invalidate ∉ cs ∧ (makeAll cs s).cache = s.cache ∨
      .invalidate ∈ cs ∧ s.cache.generation < (makeAll cs s).cache.generation ∧
        (makeAll cs s).cache.checksums = [] ∧ (makeAll cs s).cache.temps = [] := by
  induction cs generalizing s with
  | nil => exact .inl ⟨nofun, rfl⟩
  | cons c cs ih =>
    rw [makeAll_cons]
    cases c with
    | store content => simpa using ih (Change.make (.store content) s)
    | elsewhere change names => simpa using ih (Change.make (.elsewhere change names) s)
    | invalidate =>
      refine .inr ⟨List.mem_cons_self, ?_⟩
      have hstep : s.cache.generation < (Change.invalidate.make s).cache.generation :=
        Nat.lt_succ_self _
      rcases ih (Change.invalidate.make s) with ⟨-, hc⟩ | ⟨-, hlt, hc⟩
      · rw [hc]
        exact ⟨hstep, rfl, rfl⟩
      · exact ⟨hstep.trans hlt, hc⟩

/-- Names stay used. -/
theorem names_makeAll (cs : List Change) (s : Scene Watched) :
    s.disk.names.Continues (makeAll cs s).disk.names := by
  induction cs generalizing s with
  | nil => exact .refl _
  | cons c cs ih =>
    refine .trans ?_ (ih (c.make s))
    cases c with
    | store content => exact .refl _
    | invalidate => exact .of_eq (Caches.names_deleteAll _ _)
    | elsewhere change names => exact names _

theorem read_apply (r : Reader) (s : Scene Watched) : r.read s =
    ((r.reading s).result, { makeAll (r.reading s).changes s with
      around.reading := some (r.reading s) }) := by
  rw [Reader.reading, makeAll_append]
  rfl

end Depot.Readings
