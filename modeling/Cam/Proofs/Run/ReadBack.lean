import Cam.Proofs.Run.LineFeed
import Cam.Proofs.Run.Regime
import Cam.Proofs.Token.Lexeme

/-!
# Proofs/Run/ReadBack — what is printed is read back

A printed value is a line, and a line of input is a value again: an integer if the line can be read
as one, and else a string.  An integer therefore comes back, and so does a string that is on one
line, does not end with a carriage return and cannot be read as an integer (`Value.ofLine_text`).
Since each line ends where the next one starts, a list of such values that are printed one after
another is what as many `input` statements read from the output (`Stmt.input_reads_printed`).
-/

namespace Cam

open Text Input

/-! ## Values that a line stands for -/

theorem Text.trim_eq_self {p : Char → Bool} {cs : List Char} (h : ∀ c ∈ cs, p c = false) :
    trim p cs = cs := by
  have hdrop {ds : List Char} (h : ∀ c ∈ ds, p c = false) : ds.dropWhile p = ds :=
    Halts.dropWhile_eq_self fun c hc => h c (List.mem_of_mem_head? hc)
  rw [trim, hdrop h, hdrop fun c hc => h c (List.mem_reverse.1 hc), List.reverse_reverse]

theorem Text.isBlank_of_isDigit {c : Char} (h : c.isDigit) : isBlank c = false := by
  have hrange : 48 ≤ c.toNat ∧ c.toNat ≤ 57 := by
    simpa [Char.isDigit, UInt32.le_iff_toNat_le] using h
  simp only [isBlank, Bool.or_eq_false_iff, Bool.and_eq_false_iff, decide_eq_false_iff_not,
    beq_eq_false_iff_ne]
  omega

namespace Integer

theorem digits?_toDigits (m : Nat) : digits? (Nat.toDigits 10 m) = some m := by
  have hall : (Nat.toDigits 10 m).all Char.isDigit := List.all_eq_true.2 (isDigit_toDigits m)
  rw [digits?, if_pos ⟨Nat.toDigits_ne_nil, hall⟩, Nat.ofDigitChars_ten_toDigits]

/-- **Every integer is read back from its decimal form**, the least one and its sign included. -/
theorem ofChars?_text (n : Int64) : ofChars? (text n).toList = some n := by
  have hdecimal : decimal? (text n).toList = some n.toInt := by
    rcases toList_text_cases n with ⟨hsign, heq⟩ | ⟨hsign, heq⟩
    · rw [heq, decimal?_of_isDigit (isDigit_toDigits _), digits?_toDigits, Option.map_some,
        Int.ofNat_eq_natCast, Int.natAbs_of_nonneg hsign]
    · have hneg : -(n.toInt.natAbs : Int) = n.toInt := by omega
      rw [heq, decimal?, digits?_toDigits]
      exact congrArg some hneg
  rw [ofChars?, hdecimal, Option.bind_some, ofInt?_toInt]

end Integer

namespace Value

/-- A value that can be told from its text: an integer, or a string on one line that does not end
with a carriage return and, without the blanks around it, cannot be read as an integer. -/
def Legible : Value → Prop
  | .integer _ => True
  | .string s =>
    OneLine s ∧ s.toList.getLast? ≠ some '\r' ∧ Integer.ofChars? (trimBlanks s.toList) = none
  | .boolean _ | .function _ => False

instance : DecidablePred Legible
  | .integer _ => isTrue trivial
  | .string _ => inferInstanceAs (Decidable (_ ∧ _ ∧ _))
  | .boolean _ | .function _ => isFalse id

variable {v : Value}

theorem Legible.oneLine (h : v.Legible) : OneLine v.text := by
  cases v with
  | integer n => exact Integer.oneLine_text n
  | string s => exact h.1
  | boolean | function => exact h.elim

/-- **The text of a legible value is read as the value**, kind included. -/
theorem ofLine_text (h : v.Legible) : ofLine v.text = v := by
  cases v with
  | integer n =>
    have hchars {c : Char} (hc : c ∈ (Integer.text n).toList) : isBlank c = false := by
      rcases Integer.mem_text hc with rfl | hdigit
      · decide
      · exact isBlank_of_isDigit hdigit
    have hreturn : '\r' ∉ (Integer.text n).toList := fun hc => absurd (hchars hc) (by decide)
    simp only [text, ofLine, dropLastChar_of_not_mem (Integer.oneLine_text n),
      dropLastChar_of_not_mem hreturn, trimBlanks, trim_eq_self fun c hc => hchars hc,
      Integer.ofChars?_text]
  | string s =>
    obtain ⟨hline, hreturn, hinteger⟩ := h
    have hs : dropLastChar '\r' s.toList = s.toList := if_neg hreturn
    simp only [text, ofLine, dropLastChar_of_not_mem hline, hs, hinteger, String.ofList_toList]
  | boolean | function => exact h.elim

/-- The line of the value that was printed first is what is read first. -/
theorem readLine_lines (h : OneLine v.text) (values : List Value) :
    (ofBytes (lines (v :: values))).readLine =
      (.ok (some (v.text ++ "\n")), ofBytes (lines values)) := by
  have hdecode : decode (bytes (v.text ++ "\n")) = .ok (v.text ++ "\n") := decode_eq_ok_iff.2 rfl
  rw [lines, List.flatMap_cons, readLine_append (isLine_bytes h), hdecode]
  rfl

end Value

/-! ## Sequences of single statements -/

namespace Stmt

variable {exec : Stmt Nat → EnvId → Action RuntimeError Unit} {budget : Nat} {env : EnvId}

/-- A value that is printed is written as a line, and nothing else changes. -/
theorem single_print {e : Expr} {v : Value} {w w' : World}
    (heval : e.eval (w.store.scope env) = .ok v)
    (h : Action.single exec budget env (.print e) w = .ok () w') :
    w'.store = w.store ∧ w'.output.written = w.output.written ++ (v.text ++ "\n").toUTF8 := by
  simp only [Action.single, bind, EStateM.bind, Action.reading, heval, Action.writeLine] at h
  split at h
  next output hwrite =>
    cases h
    exact ⟨rfl, Output.written_of_write hwrite⟩
  next => cases h

/-- Printing values one after another writes their lines. -/
theorem written_of_prints {es : List Expr} {values : List Value} {w w' : World}
    (hes : es.map (·.eval (w.store.scope env)) = values.map .ok)
    (h : walk (Action.single exec budget env) (es.map .print) w = .ok () w') :
    w'.output.written.data.toList = w.output.written.data.toList ++ Value.lines values := by
  induction es generalizing values w with
  | nil =>
    obtain rfl : values = [] := List.map_eq_nil_iff.1 hes.symm
    rw [List.map_nil, walk_nil] at h
    cases h
    exact (List.append_nil _).symm
  | cons e es ih =>
    obtain ⟨v, values, rfl, heval, hrest⟩ := List.map_eq_cons_iff.1 hes.symm
    rw [List.map_cons, walk_cons (s := .print e) _ nofun] at h
    simp only [bind, EStateM.bind] at h
    split at h
    next w₁ hprint =>
      obtain ⟨hstore, hwritten⟩ := single_print heval.symm hprint
      rw [ih (hstore ▸ hrest.symm) h, hwritten, ByteArray.toList_data_append, List.append_assoc]
      rfl
    next => cases h

/-- The first of the values is read into a variable. -/
theorem single_input {v : Value} (hv : v.Legible) (values : List Value) (name : String)
    (store : Store) (output : Output) :
    Action.single exec budget env (.input name)
        ⟨store, .ofBytes (Value.lines (v :: values)), output⟩ =
      .ok () ⟨store.set env name v, .ofBytes (Value.lines values), output⟩ := by
  simp only [Action.single, bind, EStateM.bind, Action.readValue, Value.readLine_lines hv.oneLine,
    Value.ofLine_append_feed hv.oneLine, Value.ofLine_text hv]
  rfl

/-- As many `input` statements read the values from their lines; under different names, each
variable keeps its value. -/
theorem inputs_read (exec : Stmt Nat → EnvId → Action RuntimeError Unit) (budget : Nat)
    {values : List Value} (hvalues : ∀ v ∈ values, v.Legible)
    {names : List String} (hnames : names.Nodup) (hlength : names.length = values.length)
    {store : Store}
    (halive : store.isAlive env) (output : Output) :
    ∃ store', walk (Action.single exec budget env) (names.map .input)
        ⟨store, .ofBytes (Value.lines values), output⟩ = .ok () ⟨store', .ofBytes [], output⟩ ∧
      names.map (store'.scope env).get? = values.map some ∧
      store.Framed env (· ∈ names) store' := by
  induction values generalizing names store with
  | nil =>
    obtain rfl : names = [] := List.length_eq_zero_iff.1 hlength
    exact ⟨store, by rw [List.map_nil, walk_nil]; rfl, rfl, .refl⟩
  | cons v values ih =>
    obtain ⟨name, names, rfl⟩ := List.exists_cons_of_length_eq_add_one hlength
    obtain ⟨hv, hvalues⟩ := List.forall_mem_cons.1 hvalues
    obtain ⟨hname, hnames⟩ := List.nodup_cons.1 hnames
    have hset : (store.set env name v).isAlive env := (Store.isAlive_set ..).trans halive
    obtain ⟨store', hwalk, hread, hframed⟩ := ih hvalues hnames (Nat.succ.inj hlength) hset
    refine ⟨store', ?_, ?_, ?_⟩
    · rw [List.map_cons, walk_cons (s := .input name) _ nofun]
      simp only [bind, EStateM.bind, single_input hv, hwalk]
    · have hfirst : (store'.scope env).get? name = some v := by
        rw [hframed.kept name hname, Store.get?_scope_set, if_pos ⟨halive, rfl⟩]
      rw [List.map_cons, List.map_cons, hfirst, hread]
    · exact (Store.Framed.set List.mem_cons_self v).trans
        (hframed.mono fun other hother => List.mem_cons_of_mem name hother)

/-! ## The round trip -/

/-- **Input reads back what was printed.**  If printing a list of legible values, each the value of
one expression, has written some bytes, then as many `input` statements into different variables,
run against these bytes in any environment, succeed, leave nothing unread and bind the variables to
those very values; no other variable changes. -/
theorem input_reads_printed {values : List Value} (hvalues : ∀ v ∈ values, v.Legible)
    {prints : Stmt Nat} {es : List Expr} (hprints : prints.singles = es.map .print) {w w' : World}
    (hes : es.map (·.eval (w.store.scope env)) = values.map .ok)
    (hfinishes : prints.Finishes env w (.ok ()) w') {printed : ByteArray}
    (hprinted : w'.output.written = w.output.written ++ printed)
    {inputs : Stmt Nat} {names : List String} (hinputs : inputs.singles = names.map .input)
    (hnames : names.Nodup) (hlength : names.length = values.length)
    {home : EnvId} {store : Store} (halive : store.isAlive home) (output : Output) :
    ∃ store', inputs.Finishes home ⟨store, .ofBytes printed.data.toList, output⟩ (.ok ())
        ⟨store', .ofBytes [], output⟩ ∧
      names.map (store'.scope home).get? = values.map some ∧
      store.Framed home (· ∈ names) store' := by
  have hlines : printed.data.toList = Value.lines values := by
    obtain ⟨_ | budget, hexec⟩ := hfinishes
    · cases hexec
    · rw [Stmt.exec, ← walk_singles, hprints] at hexec
      have hwritten := written_of_prints hes hexec
      rw [hprinted, ByteArray.toList_data_append] at hwritten
      exact List.append_cancel_left hwritten
  obtain ⟨store', hwalk, hread, hframed⟩ :=
    inputs_read (Stmt.exec 0) 0 hvalues hnames hlength halive output
  refine ⟨store', ⟨1, ?_⟩, hread, hframed⟩
  rw [Stmt.exec, ← walk_singles, hinputs, hlines]
  exact hwalk

/-- The least integer, the empty string, and a string with blanks and a carriage return in it, which
are printed in turn. -/
def awkward : Stmt Nat :=
  .seq (.seq (.print (.int (-9223372036854775808))) (.print (.str "\"\"")))
    (.print (.str "\" 7\r-\""))

/-- Three lines are read. -/
def readThree : Stmt Nat := .seq (.input "x") (.seq (.input "y") (.input "z"))

theorem awkward_read_back : ∃ w' printed store',
    awkward.Finishes ⟨0⟩ ⟨Store.empty.create, .ofBytes [], .unlimited⟩ (.ok ()) w' ∧
    w'.output.written = .empty ++ printed ∧
    readThree.Finishes ⟨0⟩ ⟨Store.empty.create, .ofBytes printed.data.toList, .unlimited⟩ (.ok ())
      ⟨store', .ofBytes [], .unlimited⟩ ∧
    ["x", "y", "z"].map (store'.scope ⟨0⟩).get? =
      [some (.integer (-9223372036854775808)), some (.string ""), some (.string " 7\r-")] := by
  let w : World := ⟨Store.empty.create, .ofBytes [], .unlimited⟩
  let w' : World := (awkward.exec 1 ⟨0⟩).leaves w
  let values : List Value := [.integer (-9223372036854775808), .string "", .string " 7\r-"]
  have hprints : awkward.singles =
      [.int (-9223372036854775808), .str "\"\"", .str "\" 7\r-\""].map .print := rfl
  have hfinishes : awkward.Finishes ⟨0⟩ w (.ok ()) w' := ⟨1, by with_unfolding_all rfl⟩
  have hprinted : w'.output.written = w.output.written ++ w'.output.written :=
    ByteArray.empty_append.symm
  have hinputs : readThree.singles = ["x", "y", "z"].map .input := rfl
  have halive : Store.empty.create.isAlive ⟨0⟩ := rfl
  have hvalues : ∀ v ∈ values, v.Legible := by decide +kernel
  obtain ⟨store', hreads, hbound, -⟩ := input_reads_printed hvalues hprints (by decide +kernel)
    hfinishes hprinted hinputs (by decide) rfl halive .unlimited
  exact ⟨w', w'.output.written, store', hfinishes, hprinted, hreads, hbound⟩

end Stmt

end Cam
