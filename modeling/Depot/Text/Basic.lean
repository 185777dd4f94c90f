/-!
# Text

The bytes of a text, which are the UTF-8 forms of its characters, one after the other; the blanks at
its ends; and its parts before and after a fixed front, back or mark.
-/

namespace Depot

/-- Content of an element: any sequence of bytes. -/
abbrev Bytes := ByteArray

/-- Equality of contents is that of their bytes. -/
instance : DecidableEq Bytes := fun a b =>
  decidable_of_iff (a.data = b.data) ByteArray.ext_iff.symm

namespace Text

/-- The UTF-8 form of a list of characters. -/
def utf8 (cs : List Char) : List UInt8 := cs.flatMap String.utf8EncodeChar

/-- The text that bytes encode, if they are well-formed UTF-8. -/
def ofBytes? (bytes : Bytes) : Option String := String.fromUTF8? bytes

theorem ofBytes?_toUTF8 (s : String) : ofBytes? s.toUTF8 = some s := by
  simp [ofBytes?, String.fromUTF8?, String.fromUTF8, s.isValidUTF8]

/-! ### White space -/

/-- The characters with the property White_Space. -/
def isBlank (c : Char) : Bool :=
  let n := c.toNat
  (9 ≤ n && n ≤ 13) || n == 0x20 || n == 0x85 || n == 0xa0 || n == 0x1680 ||
  (0x2000 ≤ n && n ≤ 0x200a) || n == 0x2028 || n == 0x2029 || n == 0x202f || n == 0x205f ||
  n == 0x3000

/-- Every character that core counts as white space is blank. -/
theorem isBlank_of_isWhitespace {c : Char} (h : c.isWhitespace = true) : isBlank c = true := by
  simp only [Char.isWhitespace, Bool.or_eq_true, decide_eq_true_eq] at h
  rcases h with ((rfl | rfl) | rfl) | rfl <;> decide

/-- Drops the blanks at both ends. -/
def trim (cs : List Char) : List Char :=
  ((cs.dropWhile isBlank).reverse.dropWhile isBlank).reverse

/-! ### Parts -/

/-- What follows a front part, if a text has it. -/
def afterFront (front cs : List Char) : Option (List Char) :=
  if front.isPrefixOf cs then some (cs.drop front.length) else none

/-- What precedes an end part, if a text has it. -/
def beforeBack (back cs : List Char) : Option (List Char) :=
  if back.isSuffixOf cs then some (cs.take (cs.length - back.length)) else none

/-- What stands before the first occurrence of a mark and what stands after it. -/
def splitAtMark (mark : List Char) : List Char → Option (List Char × List Char)
  | []      => if mark = [] then some ([], []) else none
  | c :: cs =>
    match afterFront mark (c :: cs) with
    | some rest => some ([], rest)
    | none      => (splitAtMark mark cs).map fun (before, rest) => (c :: before, rest)

end Text

end Depot
