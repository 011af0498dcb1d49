import Cam.Proofs.Run.Consumption
import Mathlib.Data.List.Basic

/-!
# Proofs/Run/LineFeed — where a text has line feeds, its bytes have them

In UTF-8 the byte of the line feed stands for nothing else (`Text.mem_utf8EncodeChar_iff`).  So a
text on one line, with a line feed after it, is one line of bytes (`Text.isLine_bytes`), and a line
of input is a text on one line, with at most a line feed after it (`Input.readLine_eq_ok`).
-/

namespace Cam

/-! ## The bytes of a text -/

namespace Text

/-- The text has no line feed. -/
def OneLine (text : String) : Prop := '\n' ∉ text.toList

instance (text : String) : Decidable (OneLine text) := inferInstanceAs (Decidable (_ ∉ _))

@[simp] theorem oneLine_append {s t : String} : OneLine (s ++ t) ↔ OneLine s ∧ OneLine t := by
  simp only [OneLine, String.toList_append, List.mem_append, not_or]

/-- The bytes of a text. -/
def bytes (text : String) : List UInt8 := text.toUTF8.data.toList

/-- The bytes of a text are those of its characters, one after the other. -/
theorem bytes_eq_flatMap (text : String) :
    bytes text = text.toList.flatMap String.utf8EncodeChar := by
  rw [bytes, String.toUTF8_eq_toByteArray, ← String.utf8Encode_toList, List.utf8Encode,
    List.toList_data_toByteArray]

theorem bytes_append (s t : String) : bytes (s ++ t) = bytes s ++ bytes t := by
  simp only [bytes_eq_flatMap, String.toList_append, List.flatMap_append]

/-- **No other character has the byte of the line feed**: the bytes of a character of more than one
byte are at least 128. -/
theorem mem_utf8EncodeChar_iff {c : Char} : 10 ∈ String.utf8EncodeChar c ↔ c = '\n' := by
  constructor
  · intro h
    have hbyte (n : Nat) (hn : 10 = UInt8.ofNat n) : n % 256 = 10 := by
      simpa using congrArg UInt8.toNat hn.symm
    have hval : c.val.toNat = 10 := by
      simp only [String.utf8EncodeChar] at h
      grind
    exact Char.ext (UInt32.toNat.inj hval)
  · rintro rfl
    decide

/-- The byte of the line feed is in the bytes where the line feed is in the text. -/
theorem not_mem_bytes_iff {text : String} : 10 ∉ bytes text ↔ OneLine text := by
  simp [bytes_eq_flatMap, mem_utf8EncodeChar_iff, OneLine]

/-- **A text on one line and a line feed are one line.** -/
theorem isLine_bytes {text : String} (h : OneLine text) : Input.IsLine (bytes (text ++ "\n")) :=
  ⟨bytes text, not_mem_bytes_iff.2 h, bytes_append ..⟩

end Text

/-! ## Lines of input -/

namespace Input

open Text

/-- Bytes that are valid are read as the one text that has them. -/
theorem fromUTF8?_eq_some_iff {array : ByteArray} {text : String} :
    String.fromUTF8? array = some text ↔ text.toByteArray = array := by
  unfold String.fromUTF8?
  split
  next hvalid =>
    rw [Option.some_inj, ← String.toByteArray_inj]
    exact eq_comm
  next hvalid =>
    refine ⟨nofun, ?_⟩
    rintro rfl
    exact absurd text.isValidUTF8 hvalid

/-- Bytes are read as the text that they are the bytes of. -/
theorem decode_eq_ok_iff {line : List UInt8} {text : String} :
    decode line = .ok text ↔ bytes text = line := by
  have hbytes : bytes text = line ↔ String.fromUTF8? line.toByteArray = some text := by
    rw [fromUTF8?_eq_some_iff, bytes, String.toUTF8_eq_toByteArray, ByteArray.ext_iff,
      ← Array.toList_inj, List.toList_data_toByteArray]
  rw [hbytes, decode]
  split
  next heq => rw [heq, Option.some_inj, Except.ok.injEq]
  next heq => simp only [heq, reduceCtorEq]

/-- Without a first line there is no line feed. -/
theorem not_mem_of_firstLine? {input : List UInt8} (h : firstLine? input = none) : 10 ∉ input := by
  induction input with
  | nil => exact List.not_mem_nil
  | cons b input ih =>
    rw [firstLine?] at h
    split at h
    next => cases h
    next hb =>
      have hrest : 10 ∉ input := ih (Option.map_eq_none_iff.1 h)
      exact List.not_mem_cons_of_ne_of_not_mem (Ne.symm hb) hrest

/-- A text whose bytes are a line is a text on one line and a line feed: the first one, behind which
nothing comes. -/
theorem eq_append_of_isLine {text : String} (h : IsLine (bytes text)) :
    ∃ front, OneLine front ∧ text = front ++ "\n" := by
  obtain ⟨line, hline, heq⟩ := h
  have hmem : '\n' ∈ text.toList := by
    by_contra hnot
    exact not_mem_bytes_iff.2 hnot (heq ▸ List.mem_append_right line (List.mem_singleton_self 10))
  obtain ⟨front, back, htext, hfront⟩ := List.eq_append_cons_of_mem hmem
  have hfeed : String.utf8EncodeChar '\n' = [10] := by decide
  rw [bytes_eq_flatMap, htext, List.flatMap_append, List.flatMap_cons, hfeed] at heq
  obtain ⟨-, -, hback⟩ := (List.append_cons_inj_of_notMem hline List.not_mem_nil).1 heq.symm
  have hback : back = [] := by
    cases back with
    | nil => rfl
    | cons c back => exact absurd hback (by simp [String.utf8EncodeChar_ne_nil])
  refine ⟨String.ofList front, by rwa [OneLine, String.toList_ofList], ?_⟩
  rw [← String.toList_inj, htext, hback, String.toList_append, String.toList_ofList]
  rfl

/-- **What is read is a text on one line**, with or without a line feed. -/
theorem readLine_eq_ok {input rest : Input} {line : String}
    (h : input.readLine = (.ok (some line), rest)) :
    ∃ text, OneLine text ∧ (line = text ++ "\n" ∨ line = text) := by
  have hdecode {unread : List UInt8} (h : (decode unread).map some = .ok (some line)) :
      bytes line = unread := by
    cases hunread : decode unread with
    | error fault =>
      rw [hunread] at h
      cases h
    | ok text =>
      rw [hunread] at h
      cases h
      exact decode_eq_ok_iff.1 hunread
  unfold readLine at h
  split at h
  next unread rest' hfirst =>
    have hline : IsLine (bytes line) :=
      hdecode (congrArg Prod.fst h) ▸ (isLine_of_firstLine? hfirst).1
    obtain ⟨text, htext, rfl⟩ := eq_append_of_isLine hline
    exact ⟨text, htext, .inl rfl⟩
  next hfirst =>
    simp only at h
    split at h
    next => cases h
    next =>
      split at h
      next => cases h
      next =>
        have hbytes : bytes line = input.unread := hdecode (congrArg Prod.fst h)
        exact ⟨line, not_mem_bytes_iff.1 (hbytes ▸ not_mem_of_firstLine? hfirst), .inr rfl⟩

end Input

/-! ## Values and their texts -/

open Text

namespace Integer

/-- The decimal form of a number is the digits of its size, after a sign if it is negative. -/
theorem toList_text_cases (n : Int64) :
    0 ≤ n.toInt ∧ (text n).toList = Nat.toDigits 10 n.toInt.natAbs ∨
    n.toInt < 0 ∧ (text n).toList = '-' :: Nat.toDigits 10 n.toInt.natAbs := by
  rw [text]
  cases n.toInt with
  | ofNat m => exact .inl ⟨Int.natCast_nonneg m, Nat.toList_repr⟩
  | negSucc m =>
    have hrepr : (Int.negSucc m).repr = "-" ++ Nat.repr (m + 1) := rfl
    refine .inr ⟨Int.negSucc_lt_zero m, ?_⟩
    rw [hrepr, String.toList_append, Nat.toList_repr]
    rfl

theorem isDigit_toDigits (m : Nat) : ∀ c ∈ Nat.toDigits 10 m, c.isDigit := fun _ hc =>
  Nat.isDigit_of_mem_toDigits (by decide) (by decide) hc

/-- An integer is written with digits, and perhaps a minus sign. -/
theorem mem_text {n : Int64} {c : Char} (h : c ∈ (text n).toList) : c = '-' ∨ c.isDigit := by
  rcases toList_text_cases n with ⟨-, heq⟩ | ⟨-, heq⟩
  · rw [heq] at h
    exact .inr (isDigit_toDigits _ c h)
  · rw [heq] at h
    exact (List.mem_cons.1 h).imp_right (isDigit_toDigits _ c)

theorem oneLine_text (n : Int64) : OneLine (text n) := fun h =>
  (mem_text h).elim (by decide) (by decide)

end Integer

theorem dropLastChar_append (c : Char) (cs : List Char) : dropLastChar c (cs ++ [c]) = cs := by
  simp [dropLastChar]

theorem dropLastChar_of_not_mem {c : Char} {cs : List Char} (h : c ∉ cs) : dropLastChar c cs = cs :=
  if_neg fun hlast => h (List.mem_of_getLast? hlast)

/-- The line feed makes no difference to the value of a line. -/
theorem Value.ofLine_append_feed {text : String} (h : OneLine text) :
    ofLine (text ++ "\n") = ofLine text := by
  have hfeed : dropLastChar '\n' (text ++ "\n").toList = text.toList := by
    rw [String.toList_append]
    exact dropLastChar_append '\n' text.toList
  rw [ofLine, ofLine, hfeed, dropLastChar_of_not_mem h]

/-! ## What is written -/

/-- The lines that are written when the values are printed one after another. -/
def Value.lines (values : List Value) : List UInt8 :=
  values.flatMap fun v => bytes (v.text ++ "\n")

/-- What is written without a fault is written as a whole. -/
theorem Output.written_of_write {o o' : Output} {bytes : ByteArray}
    (h : o.write bytes = (none, o')) : o'.written = o.written ++ bytes := by
  obtain ⟨written, _ | limit, flushFails⟩ := o
  · cases h
    rfl
  · simp only [Output.write] at h
    split at h
    next =>
      cases h
      rfl
    next => cases h

end Cam
