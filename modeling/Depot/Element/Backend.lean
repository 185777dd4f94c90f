import Depot.Dict
import Depot.Element.Error
/-!
# Byte backends

A backend keeps bytes by locator. What it is asked for may be refused, and then nothing is done; the
backend in memory refuses nothing.
-/

namespace Depot

/-- What a backend is asked for at a locator. -/
inductive Backend.Operation where
  | read
  | write (content : Bytes)
  | exists
  | delete

/-- Storage for bytes, by locator. -/
structure Backend where
  entries : Dict String Bytes
  /-- Why an operation at a locator is refused, if it is. -/
  refusal? : Backend.Operation → String → Option Trouble

/-- The place of a backend among all backends. -/
abbrev BackendRef := Nat

namespace Backend

/-- A backend in memory without content. -/
def empty : Backend where
  entries := .empty
  refusal? _ _ := none

/-- The content at a locator, if there is any. -/
def read (b : Backend) (locator : String) : Except ElementError (Option Bytes) :=
  match b.refusal? .read locator with
  | some t => .error (.retrieval locator t)
  | none   => .ok (b.entries.get? locator)

/-- Puts content at a locator. -/
def write (b : Backend) (locator : String) (content : Bytes) : Except ElementError Backend :=
  match b.refusal? (.write content) locator with
  | some t => .error (.store locator t)
  | none   => .ok { b with entries := b.entries.insert locator content }

/-- Whether there is content at a locator. -/
def exists? (b : Backend) (locator : String) : Except ElementError Bool :=
  match b.refusal? .exists locator with
  | some t => .error (.retrieval locator t)
  | none   => .ok (b.entries.contains locator)

/-- Deletes the content at a locator, and says whether there was any. -/
def delete (b : Backend) (locator : String) : Except ElementError (Bool × Backend) :=
  match b.refusal? .delete locator with
  | some t => .error (.store locator t)
  | none   => .ok (b.entries.contains locator, { b with entries := b.entries.erase locator })

end Backend

end Depot
