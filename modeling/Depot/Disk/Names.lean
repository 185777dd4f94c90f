/-!
# Names for temporary files

A process takes the names of its temporary files from a supply, one after the other. What the supply
gives is put between a fixed front and a suffix. Whether it ever gives the same twice is not said.
-/

namespace Depot.Disk

/-- A supply of names for temporary files. -/
structure Names where
  /-- What is given at each turn. -/
  part : Nat → String
  /-- Nothing but letters and digits is given. -/
  plain : ∀ n, ∀ c ∈ (part n).toList, c.isAlphanum = true
  /-- How many names are tried for one file. -/
  attempts : Nat
  /-- How many turns there have been. -/
  used : Nat

/-- What temporary files are called at the front. -/
def tempPrefix : String := "dprov-"

/-- The name of a temporary file. -/
def tempName (names : Names) (n : Nat) (suffix : String) : String :=
  tempPrefix ++ names.part n ++ suffix

/-! ### Numbers as names -/

/-- The digits of the numbers in names. -/
def nameDigits : List Char :=
  "0123456789abcdefghijklmnopqrstuvwxyzABCDEFGHIJKLMNOPQRSTUVWXYZ".toList

/-- The digits of a number to base 62, at least one. -/
def digits62 (fuel n : Nat) : List Char :=
  match fuel with
  | 0        => []
  | fuel + 1 =>
    let d := nameDigits.getD (n % 62) '0'
    if n < 62 then [d] else digits62 fuel (n / 62) ++ [d]

/-- The digits of a number to base 62, at least six. -/
def sixDigits (n : Nat) : List Char :=
  let ds := digits62 (n + 1) n
  List.replicate (6 - ds.length) '0' ++ ds

theorem getD_nameDigits (n : Nat) : nameDigits.getD n '0' ∈ nameDigits := by
  rw [List.getD_eq_getElem?_getD]
  cases h : nameDigits[n]? with
  | none => decide
  | some c => exact List.mem_of_getElem? h

theorem mem_nameDigits {c : Char} {fuel n : Nat} (h : c ∈ digits62 fuel n) : c ∈ nameDigits := by
  induction fuel generalizing n with
  | zero => cases h
  | succ fuel ih =>
    rw [digits62] at h
    split at h
    · exact List.mem_singleton.1 h ▸ getD_nameDigits _
    · rcases List.mem_append.1 h with h | h
      · exact ih h
      · exact List.mem_singleton.1 h ▸ getD_nameDigits _

theorem mem_sixDigits {c : Char} {n : Nat} (h : c ∈ sixDigits n) : c ∈ nameDigits := by
  rcases List.mem_append.1 h with h | h
  · rw [(List.mem_replicate.1 h).2]
    decide
  · exact mem_nameDigits h

/-- The numbers in turn. -/
def Names.numbered : Names where
  part n := .ofList (sixDigits n)
  plain n c hc := by
    have hdigits : nameDigits.all Char.isAlphanum = true := by decide +kernel
    exact List.all_eq_true.1 hdigits c (mem_sixDigits (by rwa [String.toList_ofList] at hc))
  attempts := 65536
  used := 0

end Depot.Disk
