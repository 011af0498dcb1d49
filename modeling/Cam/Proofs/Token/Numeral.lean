import Mathlib.Algebra.Ring.Int.Defs
import Mathlib.Algebra.Ring.Nat
import Cam.Program.Grammar
import Cam.Proofs.Run.ReadBack
import Cam.Proofs.Token.Layout
import Cam.Proofs.Token.Lines

/-!
# Proofs/Token/Numeral — which texts are integers, and which ones

A numeral is one or more digits, perhaps with a sign before them.  Its value is not bounded: each
digit counts for its place (`Integer.placeValue`).  A text is read as an integer exactly if it is a
numeral and its value fits (`Integer.ofChars?_eq_some_iff`).  The scan, the grammar and the input
all read integers in this way, so what one of them takes for an integer the others take for the same
one (`Integer.read_exactly`).
-/

namespace Cam

namespace Integer

/-! ## Numerals -/

/-- One or more decimal digits. -/
def IsDigits (ds : List Char) : Prop := ds ≠ [] ∧ ∀ c ∈ ds, c.isDigit

/-- The value of digits by their places: with `n` digits after it, a digit counts `10 ^ n` times. -/
def placeValue : List Char → Nat
  | [] => 0
  | c :: ds => (c.toNat - '0'.toNat) * 10 ^ ds.length + placeValue ds

theorem placeValue_cons (c : Char) (ds : List Char) :
    placeValue (c :: ds) = (c.toNat - '0'.toNat) * 10 ^ ds.length + placeValue ds := rfl

/-- A text of an optional sign and one or more digits, and its value. -/
inductive Numeral : List Char → Int → Prop where
  | unsigned {ds : List Char} (h : IsDigits ds) : Numeral ds (placeValue ds)
  | plus {ds : List Char} (h : IsDigits ds) : Numeral ('+' :: ds) (placeValue ds)
  | minus {ds : List Char} (h : IsDigits ds) : Numeral ('-' :: ds) (-placeValue ds)

/-- To read digits from the left, ten times what is read so far and the next one, is to add up their
places. -/
theorem ofDigitChars_eq_placeValue (ds : List Char) : Nat.ofDigitChars 10 ds 0 = placeValue ds := by
  induction ds with
  | nil => exact Nat.ofDigitChars_nil
  | cons c ds ih =>
    rw [Nat.ofDigitChars_cons, Nat.ofDigitChars_eq_ofDigitChars_zero, ih, placeValue_cons,
      Nat.mul_zero, Nat.zero_add, Nat.mul_comm]

theorem digits?_eq_some_iff {ds : List Char} {m : Nat} :
    digits? ds = some m ↔ IsDigits ds ∧ placeValue ds = m := by
  rw [digits?, ofDigitChars_eq_placeValue, Option.ite_none_right_eq_some, List.all_eq_true,
    Option.some_inj]
  rfl

/-- **A text is a numeral if it can be read at all**, and its value is what is read. -/
theorem decimal?_eq_some_iff {cs : List Char} {i : Int} : decimal? cs = some i ↔ Numeral cs i := by
  constructor
  · intro h
    unfold decimal? at h
    split at h
    next ds =>
      obtain ⟨i, hi, rfl⟩ := Option.map_eq_some_iff.1 h
      obtain ⟨m, hm, hcast⟩ := Option.bind_eq_some_iff.1 hi
      obtain ⟨hds, rfl⟩ := digits?_eq_some_iff.1 hm
      cases hcast
      exact .minus hds
    next ds =>
      obtain ⟨m, hm, rfl⟩ := Option.map_eq_some_iff.1 h
      obtain ⟨hds, rfl⟩ := digits?_eq_some_iff.1 hm
      exact .plus hds
    next =>
      obtain ⟨m, hm, rfl⟩ := Option.map_eq_some_iff.1 h
      obtain ⟨hds, rfl⟩ := digits?_eq_some_iff.1 hm
      exact .unsigned hds
  · intro h
    have hdigits {ds : List Char} (hds : IsDigits ds) : digits? ds = some (placeValue ds) :=
      digits?_eq_some_iff.2 ⟨hds, rfl⟩
    cases h with
    | unsigned hds => rw [decimal?_of_isDigit hds.2, hdigits hds]; rfl
    | plus hds => rw [decimal?, hdigits hds]; rfl
    | minus hds => rw [decimal?, hdigits hds]; rfl

/-- No text has two values. -/
theorem Numeral.unique {cs : List Char} {i j : Int} (hi : Numeral cs i) (hj : Numeral cs j) :
    i = j :=
  Option.some.inj ((decimal?_eq_some_iff.2 hi).symm.trans (decimal?_eq_some_iff.2 hj))

/-! ## Integers in a text -/

/-- The values in range are those of the 64-bit integers, each of a single one. -/
theorem ofInt?_eq_some_iff {i : Int} {n : Int64} : ofInt? i = some n ↔ n.toInt = i := by
  refine ⟨toInt_of_ofInt?_eq_some, ?_⟩
  rintro rfl
  exact ofInt?_toInt n

/-- **A text is read as an integer exactly if it is a numeral with that value.** -/
theorem ofChars?_eq_some_iff {cs : List Char} {n : Int64} :
    ofChars? cs = some n ↔ Numeral cs n.toInt := by
  simp only [ofChars?, Option.bind_eq_some_iff, decimal?_eq_some_iff, ofInt?_eq_some_iff]
  constructor
  · rintro ⟨i, hi, rfl⟩
    exact hi
  · exact fun h => ⟨_, h, rfl⟩

/-- …so it is read as some integer exactly if it is a numeral with a value in range. -/
theorem exists_ofChars?_iff {cs : List Char} :
    (∃ n, ofChars? cs = some n) ↔ ∃ i, Numeral cs i ∧ -2 ^ 63 ≤ i ∧ i ≤ 2 ^ 63 - 1 := by
  simp only [ofChars?_eq_some_iff]
  constructor
  · rintro ⟨n, hn⟩
    exact ⟨n.toInt, hn, n.le_toInt, Int.le_sub_one_of_lt n.toInt_lt⟩
  · rintro ⟨i, hi, hleast, hgreatest⟩
    have hn : (Int64.ofInt i).toInt = i :=
      Int64.toInt_ofInt_of_le hleast (Int.lt_of_le_sub_one hgreatest)
    exact ⟨Int64.ofInt i, hn.symm ▸ hi⟩

/-- Digits without a sign have the value of their places. -/
theorem numeral_iff_of_isDigit {ds : List Char} (h : ∀ c ∈ ds, c.isDigit) {i : Int} :
    Numeral ds i ↔ ds ≠ [] ∧ i = placeValue ds := by
  constructor
  · intro hi
    have hne : ds ≠ [] := by
      rintro rfl
      have := decimal?_eq_some_iff.2 hi
      cases this
    exact ⟨hne, hi.unique (.unsigned ⟨hne, h⟩)⟩
  · rintro ⟨hne, rfl⟩
    exact .unsigned ⟨hne, h⟩

end Integer

/-! ## Integers in a source text -/

/-- **A row of digits is a token if its value is in range**, and a fault otherwise. -/
theorem Token.scan_digits (place : Location) {ds rest : List Char} (h : Integer.IsDigits ds)
    (hrest : Halts Char.isDigit rest) :
    scan place (ds ++ rest) =
      if (Integer.placeValue ds : Int) ≤ 2 ^ 63 - 1 then
        (scan (place.after ds) rest).map (⟨String.ofList ds, .int⟩ :: ·)
      else .error ⟨.outOfRange (String.ofList ds), place⟩ := by
  have hfirst := Rule.first?_digits h.1 h.2 hrest
  have htoken := Rule.token?_digits ds rest
  have hsome : (Integer.ofChars? ds).isSome ↔ (Integer.placeValue ds : Int) ≤ 2 ^ 63 - 1 := by
    rw [Integer.isSome_ofChars? h.2, Integer.ofDigitChars_eq_placeValue]
    exact and_iff_right h.1
  split
  next hle =>
    rw [if_pos (hsome.2 hle)] at htoken
    exact scan_piece hfirst htoken
  next hgt =>
    rw [if_neg (mt hsome.1 hgt)] at htoken
    exact scan_fault hfirst htoken

/-- The integer of a token of a source text: the value of its digits. -/
theorem Token.integer_of_ofSource {source : String} {ts : List Token} (h : ofSource source = .ok ts)
    {token : Token} (htoken : token ∈ ts) (htag : token.tag = .int) :
    Integer.IsDigits token.text.toList ∧ ∃ n : Int64,
      Terminal.integer.read? token = some n ∧ n.toInt = Integer.placeValue token.text.toList := by
  obtain ⟨text, tag⟩ := token
  obtain rfl : tag = .int := htag
  obtain ⟨hdigits, hsome⟩ : IsNumber text := fits_of_scan h _ htoken
  obtain ⟨n, hn⟩ := Option.isSome_iff_exists.1 hsome
  obtain ⟨hne, hvalue⟩ :=
    (Integer.numeral_iff_of_isDigit hdigits).1 (Integer.ofChars?_eq_some_iff.1 hn)
  exact ⟨⟨hne, hdigits⟩, n, hn, hvalue⟩

/-- A terminal takes a token that it accepts, and no failure is recorded. -/
theorem Parser.run_token {σ ι : Type} {sort : ι → Type} (g : Grammar sort) {r : Reading σ}
    {t : Terminal} {token : Token} {value : t.Value} (hvalue : t.read? token = some value)
    {pos : Nat}
    (htoken : r.tokens[pos]? = some token) (budget : Nat) (record : σ) :
    (Parser.token t).run g r (budget + 1) pos record = (.matched value (pos + 1), record) := by
  change attemptToken r t pos record = _
  rw [attemptToken, htoken, Option.bind_some, hvalue]
  rfl

/-! ## Blanks around a text -/

namespace Text

/-- Characters that are trimmed make no difference at the end of a text. -/
theorem trim_append {p : Char → Bool} (cs : List Char) {ending : List Char}
    (h : ∀ c ∈ ending, p c) :
    trim p (cs ++ ending) = trim p cs := by
  have hending : ending.dropWhile p = [] := by
    rw [← List.append_nil ending, List.dropWhile_append_of_pos h, List.dropWhile_nil]
  rw [trim, trim, List.dropWhile_append]
  split
  next hnil => rw [hending, List.isEmpty_iff.1 hnil]
  next =>
    have hreverse : ∀ c ∈ ending.reverse, p c := fun c hc => h c (List.mem_reverse.1 hc)
    rw [List.reverse_append, List.dropWhile_append_of_pos hreverse]

theorem trim_dropLastChar {p : Char → Bool} {c : Char} (hc : p c) (cs : List Char) :
    trim p (dropLastChar c cs) = trim p cs := by
  unfold dropLastChar
  split
  next hlast =>
    have hcs : cs.dropLast ++ [c] = cs := List.dropLast_append_getLast? c hlast
    rw [← trim_append cs.dropLast (List.forall_mem_singleton.2 hc), hcs]
  next => rfl

end Text

/-- **A line of input is an integer exactly if it is a numeral in range**, but for blanks around it.
-/
theorem Value.ofLine_eq_integer_iff {line : String} {n : Int64} :
    ofLine line = .integer n ↔ Integer.Numeral (Text.trimBlanks line.toList) n.toInt := by
  have hends : Text.trimBlanks (dropLastChar '\r' (dropLastChar '\n' line.toList)) =
      Text.trimBlanks line.toList :=
    (Text.trim_dropLastChar (by decide) _).trans (Text.trim_dropLastChar (by decide) _)
  rw [← Integer.ofChars?_eq_some_iff, ofLine, hends]
  cases Integer.ofChars? (Text.trimBlanks line.toList) with
  | none => simp
  | some m => simp

namespace Integer

/-- **Integers are read exactly.**

* A text is read as an integer exactly if it is an optional sign and one or more digits, with a
  value in the range of 64 bits.  What is read has that value, and no text has two values.
* The decimal form of every integer is read back as that integer.
* Digits in a source text are a token exactly if their value is in range, and otherwise a fault.
* An integer token of a source text consists of digits.  Wherever it stands, the integer of the
  grammar takes it as the value of these digits, and has no failure to record.
* A line of input is an integer exactly if, but for blanks around it, it is such a text. -/
theorem read_exactly :
    (∀ s, (∃ n, ofText? s = some n) ↔ ∃ i, Numeral s.toList i ∧ -2 ^ 63 ≤ i ∧ i ≤ 2 ^ 63 - 1) ∧
    (∀ s n, ofText? s = some n ↔ Numeral s.toList n.toInt) ∧
    (∀ cs i j, Numeral cs i → Numeral cs j → i = j) ∧
    (∀ n, ofText? (text n) = some n) ∧
    (∀ place ds rest, IsDigits ds → Halts Char.isDigit rest → Token.scan place (ds ++ rest) =
      if (placeValue ds : Int) ≤ 2 ^ 63 - 1 then
        (Token.scan (place.after ds) rest).map (⟨String.ofList ds, .int⟩ :: ·)
      else .error ⟨.outOfRange (String.ofList ds), place⟩) ∧
    (∀ source ts, Token.ofSource source = .ok ts → ∀ token ∈ ts, token.tag = .int →
      IsDigits token.text.toList ∧ ∃ n : Int64, n.toInt = placeValue token.text.toList ∧
        ∀ {σ ι : Type} {sort : ι → Type} (g : Grammar sort) (r : Reading σ) pos budget record,
          r.tokens[pos]? = some token →
          (Parser.token .integer).run g r (budget + 1) pos record =
            (.matched n (pos + 1), record)) ∧
    ∀ line n, Value.ofLine line = .integer n ↔ Numeral (Text.trimBlanks line.toList) n.toInt := by
  refine ⟨fun s => exists_ofChars?_iff, fun s n => ofChars?_eq_some_iff,
    fun cs i j hi hj => hi.unique hj, ofChars?_text,
    fun place ds rest hds hrest => Token.scan_digits place hds hrest,
    fun source ts hts token hmem htag => ?_, fun line n => Value.ofLine_eq_integer_iff⟩
  obtain ⟨hdigits, n, hread, hvalue⟩ := Token.integer_of_ofSource hts hmem htag
  exact ⟨hdigits, n, hvalue, fun g r pos budget record hpos =>
    Parser.run_token g hread hpos budget record⟩

/-- The greatest integer is a token, also with zeros before it, and the parser takes it.  The next
number is a fault, and can be read only with a minus sign. -/
theorem read_exactly_greatest :
    let ts : List Token := [⟨"=", .reserved⟩, ⟨"0009223372036854775807", .int⟩]
    Token.ofSource "= 0009223372036854775807" = .ok ts ∧
      (∃ n : Int64, n.toInt = 9223372036854775807 ∧
        (Parser.token .integer).run Program.grammar (.furthest ts.toArray) 1 1 .start =
          (.matched n 2, .start)) ∧
      Token.scan .start ("9223372036854775808".toList ++ [';']) =
        .error ⟨.outOfRange "9223372036854775808", .start⟩ ∧
      ∃ n, ofText? "-9223372036854775808" = some n ∧ n.toInt = -9223372036854775808 := by
  intro ts
  have hsource : Token.ofSource "= 0009223372036854775807" = .ok ts := by decide +kernel
  have hdigits : IsDigits "9223372036854775808".toList :=
    ⟨by decide, List.all_eq_true.1 (by decide)⟩
  have hplace : placeValue "9223372036854775808".toList = 9223372036854775808 := by decide +kernel
  have hleast : Numeral "-9223372036854775808".toList (-9223372036854775808) := by
    have hminus := Numeral.minus hdigits
    rwa [hplace] at hminus
  obtain ⟨hrange, hvalue, hunique, _, hscan, htoken, _⟩ := read_exactly
  obtain ⟨_, n, hn, hrun⟩ :=
    htoken _ ts hsource ⟨"0009223372036854775807", .int⟩ (by decide) rfl
  obtain ⟨m, hm⟩ := (hrange _).2 ⟨_, hleast, by decide, by decide⟩
  have hrun := hrun Program.grammar (.furthest ts.toArray) 1 0 .start rfl
  refine ⟨hsource, ⟨n, hn, hrun⟩, ?_, m, hm, ?_⟩
  · exact (hscan .start _ [';'] hdigits (.cons rfl)).trans (if_neg (by rw [hplace]; decide))
  · exact hunique _ _ _ ((hvalue _ m).1 hm) hleast

end Integer

end Cam
