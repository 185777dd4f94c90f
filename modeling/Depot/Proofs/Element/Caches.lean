import Mathlib.Data.Set.Insert
import Depot.Proofs.Disk.TempNames
import Depot.Proofs.Element.Storing
/-!
# Caches on one disk

Several caches write their temporary files on one disk, and somebody else may delete files there.
While the content is read for one cache, anything may happen to all of them.
-/

namespace Depot

open Disk

/-- Caches that share a disk. Where one is dropped, a new one takes its place. What has been made
and what has been lost is not known to the caches themselves. -/
structure Caches (ι : Type) where
  disk : Disk
  cache : ι → ContentCache
  /-- Where files have come to stand while a cache was at work. -/
  made : ι → Set Location
  /-- Where files have been deleted by somebody else. -/
  lost : Set Location

namespace Caches

variable {ι : Type} [DecidableEq ι]

/-- New caches on a disk. -/
def start (d : Disk) : Caches ι :=
  { disk := d, cache := fun _ => .empty, made := fun _ => ∅, lost := ∅ }

/-- The caches after one of them has been at work: what has become of it and of the disk. The files
that have come to stand on the disk it has made. -/
def put (s : Caches ι) (i : ι) (c : ContentCache) (d : Disk) : Caches ι where
  disk := d
  cache := Function.update s.cache i c
  made := Function.update s.made i (s.made i ∪ {l | d.HoldsFile l ∧ ¬ s.disk.HoldsFile l})
  lost := s.lost

/-- A cache in the scene of all caches. -/
def scene (s : Caches ι) (i : ι) : Scene (Caches ι) :=
  { cache := s.cache i, disk := s.disk, around := s }

/-- What an action makes of the caches when one of them performs it. -/
def perform {α : Type} (i : ι) (x : Scene.Action (Caches ι) ElementError α) (s : Caches ι) :
    Caches ι :=
  let s' := (x (s.scene i)).2
  s'.around.put i s'.cache s'.disk

/-- Reads content for a cache. Something happens to the caches in the meantime. -/
def reading (i : ι) (meanwhile : Caches ι → Caches ι) (content : Except ElementError Bytes) :
    Scene.Action (Caches ι) ElementError Bytes := fun s =>
  (content, (meanwhile (s.around.put i s.cache s.disk)).scene i)

/-- What can happen to caches on a disk. -/
inductive Event (ι : Type) where
  /-- A cache is asked for a file. If the content has to be read, other events happen before it is
  there or cannot be had. -/
  | writeTemp (i : ι) (dir type : Option String) (meanwhile : List (Event ι))
      (content : Except ElementError Bytes)
  /-- A cache is asked for a checksum, in the same way. -/
  | checksum (i : ι) (a : Algorithm) (meanwhile : List (Event ι))
      (content : Except ElementError Bytes)
  /-- An element with the cache is asked for a file. -/
  | handOut (i : ι) (source : Source) (backends : List Backend) (dir : Option String)
  | invalidate (i : ι)
  /-- A cache is dropped. -/
  | drop (i : ι)
  /-- A file is deleted by somebody else. -/
  | lose (l : Location)

mutual

/-- The caches after an event. -/
def Event.after [MediaTypes] : Event ι → Caches ι → Caches ι
  | .writeTemp i dir type es content =>
    perform i (Scene.writeTemp dir type (reading i (afterAll es) content))
  | .checksum i a es content =>
    perform i (Scene.checksum a (reading i (afterAll es) content))
  | .handOut i source backends dir => fun s =>
    let s' := (Element.writeTemp dir
      { cache := s.cache i, disk := s.disk, around := { source, backends } }).2
    s.put i s'.cache s'.disk
  | .invalidate i => perform i (Scene.invalidate : Scene.Action (Caches ι) ElementError Unit)
  | .drop i => fun s =>
    let s' := perform i (Scene.close : Scene.Action (Caches ι) ElementError Unit) s
    { s' with cache := Function.update s'.cache i .empty }
  | .lose l => fun s =>
    match s.disk.node? l with
    | some (.file _) => { s with disk := s.disk.drop l, lost := insert l s.lost }
    | _              => s

/-- The caches after several events. -/
def afterAll [MediaTypes] : List (Event ι) → Caches ι → Caches ι
  | []      => id
  | e :: es => fun s => afterAll es (e.after s)

end

variable {i : ι} {s : Caches ι}

theorem after_invalidate [MediaTypes] : (Event.invalidate i).after s =
    s.put i (s.cache i).renew (ContentCache.deleteAll (s.cache i).temps s.disk) := by
  rw [Event.after]
  rfl

theorem after_drop [MediaTypes] : (Event.drop i).after s =
    s.put i .empty (ContentCache.deleteAll (s.cache i).temps s.disk) := by
  have hclose : perform i (Scene.close : Scene.Action (Caches ι) ElementError Unit) s =
      s.put i { s.cache i with temps := [] }
        (ContentCache.deleteAll (s.cache i).temps s.disk) := rfl
  rw [Event.after]
  dsimp only
  rw [hclose]
  unfold put
  dsimp only
  rw [Function.update_idem]

end Caches

end Depot
