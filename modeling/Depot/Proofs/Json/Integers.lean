import Mathlib.Data.List.TakeWhile
import Depot.Proofs.Json.Scanning
/-!
# Integers are read back

The literal of an integer has neither fraction nor exponent and no zero in front, so that reading it
gives the integer. A value whose numbers are integers is therefore legible.
-/

namespace Depot.Json

namespace Number

open Token

variable {n : Nat} {c : Char}

/-! ### Digits -/

theorem ofDigits_toDigits (n : Nat) : ofDigits (Nat.toDigits 10 n) = n := by
  have hstep : (fun (n : Nat) (c : Char) => n * 10 + (c.toNat - 48)) =
      fun n c => 10 * n + (c.toNat - '0'.toNat) := by
    funext n c
    rw [Nat.mul_comm]
    rfl
  unfold ofDigits
  rw [hstep, ← Nat.ofDigitChars_eq_foldl]
  exact Nat.ofDigitChars_ten_toDigits

theorem isDigit_of_mem (h : c ∈ Nat.toDigits 10 n) : c.isDigit = true :=
  Nat.isDigit_of_mem_toDigits (by decide) (by decide) h

theorem spanDigits_toDigits (n : Nat) :
    spanDigits (Nat.toDigits 10 n) = (Nat.toDigits 10 n, []) := by
  unfold spanDigits
  rw [List.takeWhile_eq_self_iff.2 fun _ => isDigit_of_mem,
    List.dropWhile_eq_nil_iff.2 fun _ => isDigit_of_mem]

/-- Digits begin with a zero only if there is no other. -/
theorem head?_toDigits (h : 0 < n) : (Nat.toDigits 10 n).head? ≠ some '0' := by
  induction n using Nat.strongRecOn with
  | ind n ih =>
    rw [Nat.toDigits_eq_if (by decide)]
    split
    · simpa using Nat.ne_of_gt h
    · next hbig =>
      have hne : (Nat.toDigits 10 (n / 10)).head? ≠ none := by simp
      obtain ⟨c, hc⟩ := Option.ne_none_iff_exists'.1 hne
      have hrest := ih (n / 10) (by omega) (by omega)
      rw [hc] at hrest
      rw [List.head?_append, hc]
      exact hrest

theorem splitWhole_toDigits (n : Nat) :
    splitWhole (Nat.toDigits 10 n) = some (Nat.toDigits 10 n, []) := by
  unfold splitWhole
  rw [spanDigits_toDigits]
  dsimp only
  rcases Nat.eq_zero_or_pos n with rfl | hpos
  · rfl
  · have hhead := head?_toDigits hpos
    split
    · next h => exact absurd h Nat.toDigits_ne_nil
    · next h =>
      rw [h] at hhead
      exact absurd rfl hhead
    · rfl

/-! ### Literals -/

/-- The parts of the literal of an integer. -/
theorem ofChars?_writeInt (i : Int) : Literal.ofChars? (writeInt i) =
    some ⟨decide (i < 0), Nat.toDigits 10 i.natAbs, none, none⟩ := by
  unfold Literal.ofChars? writeInt
  by_cases h : i < 0
  · rw [if_pos h, decide_eq_true h]
    show (splitWhole (Nat.toDigits 10 i.natAbs) >>= _) = _
    rw [splitWhole_toDigits]
    rfl
  · rw [if_neg h, decide_eq_false h]
    have hminus : ∀ cs, Nat.toDigits 10 i.natAbs ≠ '-' :: cs := by
      intro cs hcs
      have : '-'.isDigit = true := isDigit_of_mem (n := i.natAbs) (by simp [hcs])
      cases this
    split
    next negative rest heq =>
    split at heq
    · next cs hcs => exact absurd hcs (hminus cs)
    · cases heq
      rw [splitWhole_toDigits]
      rfl

theorem ofInt?_val (i : Integer) : ofInt? i.val = some (.int i) := by
  unfold ofInt?
  rw [dif_pos ⟨i.lower, i.upper⟩]

theorem integer?_writeInt (i : Integer) :
    Literal.integer? ⟨decide (i.val < 0), Nat.toDigits 10 i.val.natAbs, none, none⟩ =
      some (.int i) := by
  have hlower := i.lower
  unfold Literal.integer?
  dsimp only
  rw [ofDigits_toDigits]
  by_cases h : i.val < 0
  · rw [decide_eq_true h, if_pos rfl, if_neg (by omega), if_pos (by omega),
      show -(i.val.natAbs : Int) = i.val by omega]
    exact ofInt?_val i
  · rw [decide_eq_false h, if_neg (by simp), show (i.val.natAbs : Int) = i.val by omega]
    exact ofInt?_val i

/-- An integer is read back from its literal. -/
theorem readable_int (i : Integer) : Readable (.int i) where
  numeric c hc := by
    have hdigits : ∀ c ∈ Nat.toDigits 10 i.val.natAbs, isNumeric c = true := by
      intro c hc
      unfold isNumeric
      rw [isDigit_of_mem hc]
      rfl
    unfold write writeInt at hc
    dsimp only at hc
    split at hc
    · rcases List.mem_cons.1 hc with rfl | hc
      · rfl
      · exact hdigits c hc
    · exact hdigits c hc
  read := by
    unfold ofChars? write
    dsimp only
    rw [ofChars?_writeInt, Option.bind_eq_bind, Option.bind_some, integer?_writeInt]

/-! ### Machine words -/

theorem int64?_ofInt64 (n : Int64) : (ofInt64 n).int64? = some n := by
  have hlt := n.toInt_lt
  unfold ofInt64 int64?
  dsimp only
  rw [if_pos (by omega), Int64.ofInt_toInt]

theorem nat?_ofUInt64 (n : UInt64) : (ofUInt64 n).nat? = some n.toNat := by
  unfold ofUInt64 nat?
  dsimp only
  rw [if_pos (by omega), Int.toNat_natCast]

end Number

/-! ### Values -/

namespace Value

mutual

/-- Every number is an integer. -/
def Integral : Value → Prop
  | .number (.int _)   => True
  | .number (.float _) => False
  | .array items       => IntegralItems items
  | .object members    => IntegralMembers members
  | _                  => True

/-- `Integral` of each item. -/
def IntegralItems : List Value → Prop
  | []      => True
  | v :: vs => Integral v ∧ IntegralItems vs

/-- `Integral` of each member. -/
def IntegralMembers : List (String × Value) → Prop
  | []           => True
  | (_, v) :: ms => Integral v ∧ IntegralMembers ms

end

mutual

theorem legible_of_integral (v : Value) (h : v.Integral) : v.Legible := by
  match v with
  | .null | .bool _ | .string _ => trivial
  | .number (.int i) => exact Number.readable_int i
  | .array items => exact legibleItems_of_integral items h
  | .object members => exact legibleMembers_of_integral members h

theorem legibleItems_of_integral (vs : List Value) (h : IntegralItems vs) : LegibleItems vs := by
  match vs with
  | [] => trivial
  | v :: vs => exact ⟨legible_of_integral v h.1, legibleItems_of_integral vs h.2⟩

theorem legibleMembers_of_integral (ms : List (String × Value)) (h : IntegralMembers ms) :
    LegibleMembers ms := by
  match ms with
  | [] => trivial
  | (_, v) :: ms => exact ⟨legible_of_integral v h.1, legibleMembers_of_integral ms h.2⟩

end

end Value

end Depot.Json
