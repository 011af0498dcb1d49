/-!
# Integer — the 64-bit integers of the language, in range and in decimal

`Integer.ofInt?` admits the mathematical integers that fit in 64 bits, `Integer.ofChars?` reads an
optional sign and decimal digits, and `Integer.text` writes the decimal form.
-/

namespace Cam.Integer

/-! ## The range -/

/-- The least 64-bit integer, `-2⁶³`. -/
def least : Int := -9223372036854775808

/-- The greatest 64-bit integer, `2⁶³ - 1`. -/
def greatest : Int := 9223372036854775807

/-- The 64-bit integer with the given value, if the value is in range. -/
def ofInt? (i : Int) : Option Int64 :=
  if least ≤ i ∧ i ≤ greatest then some (Int64.ofInt i) else none

/-- Every 64-bit integer is in range. -/
theorem ofInt?_toInt (n : Int64) : ofInt? n.toInt = some n := by
  have hl : least ≤ n.toInt := n.le_toInt
  have hr : n.toInt ≤ greatest := Int.le_of_lt_add_one n.toInt_lt
  rw [ofInt?, if_pos ⟨hl, hr⟩, Int64.ofInt_toInt]

/-- **An admitted integer keeps its value.** -/
theorem toInt_of_ofInt?_eq_some {i : Int} {n : Int64} (h : ofInt? i = some n) : n.toInt = i := by
  unfold ofInt? at h
  split at h
  next hr =>
    cases h
    exact Int64.toInt_ofInt_of_le hr.1 (Int.lt_add_one_of_le hr.2)
  next => cases h

/-- What is refused is out of range. -/
theorem ofInt?_eq_none_iff {i : Int} : ofInt? i = none ↔ i < least ∨ greatest < i := by
  unfold ofInt?
  split
  next hr => simp only [reduceCtorEq, false_iff]; omega
  next hr => simp only [true_iff]; omega

/-! ## Decimal text -/

/-- The value of one or more decimal digits, and of nothing else. -/
def digits? (cs : List Char) : Option Nat :=
  if cs ≠ [] ∧ cs.all Char.isDigit then some (Nat.ofDigitChars 10 cs 0) else none

/-- The value of an optional sign followed by one or more decimal digits. -/
def decimal? : List Char → Option Int
  | '-' :: cs => (digits? cs).map fun n => -(n : Int)
  | '+' :: cs => (digits? cs).map Int.ofNat
  | cs => (digits? cs).map Int.ofNat

/-- Reads a decimal integer that fits in 64 bits. -/
def ofChars? (cs : List Char) : Option Int64 := (decimal? cs).bind ofInt?

/-- Reads the whole text as a decimal integer that fits in 64 bits. -/
def ofText? (text : String) : Option Int64 := ofChars? text.toList

/-- The decimal form: a minus sign if negative, then the digits without leading zeros. -/
def text (n : Int64) : String := n.toInt.repr

/-- The complaint about a text that is no 64-bit integer. -/
def outOfRangeMessage (text : String) : String := "Integer literal out of range: " ++ text

end Cam.Integer
