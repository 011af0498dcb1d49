import Cam.Proofs.Run.Framing

/-!
# Proofs/Token/Listing — a listing of tokens can be read back

With `--lex` each token is written on a line of its own: its class, a tab, and its text as it stands
in the source.  Nothing is escaped, and nothing has to be.  The first tab of a line ends the class,
whatever tabs there are in the text, and no token has a line feed in it (`Token.Fits.oneLine`).  So
the lines of the listing, each split at its first tab, are the tokens again (`Token.ofListing?`,
`Token.listing_lossless`).
-/

namespace Cam

open Text

/-! ## Texts in files -/

theorem Text.fromUTF8?_toUTF8 (text : String) : String.fromUTF8? text.toUTF8 = some text :=
  Input.fromUTF8?_eq_some_iff.2 rfl

/-- A text is read back from its bytes. -/
theorem Invocation.textOf_toUTF8 (source : String) : textOf (.ok source.toUTF8) = .ok source := by
  simp only [textOf, bind, Except.bind, fromUTF8?_toUTF8]
  rfl

/-! ## Reading a listing -/

/-- The class of that name. -/
def Tag.ofName? (name : String) : Option Tag := [reserved, int, string, id].find? (·.name = name)

/-- The name of a class is read back as the class. -/
@[simp] theorem Tag.ofName?_name (tag : Tag) : ofName? tag.name = some tag := by
  cases tag <;> decide

namespace Token

/-- The token of a line: the name of its class up to the first tab, and its text after that. -/
def ofLine? (line : List Char) : Option Token :=
  match line.dropWhile (· ≠ '\t') with
  | [] => none
  | _ :: text =>
    let name := String.ofList (line.takeWhile (· ≠ '\t'))
    (Tag.ofName? name).map fun tag => ⟨String.ofList text, tag⟩

/-- The tokens of a listing, one for each line.  Every line ends with a line feed, so nothing comes
after the last one. -/
def ofListing? (listing : ByteArray) : Option (List Token) := do
  let text ← String.fromUTF8? listing
  let pieces := text.toList.splitOn '\n'
  if pieces.getLast? = some [] then pieces.dropLast.mapM ofLine? else none

/-! ## Lines -/

/-- **No token has a line feed in its text.** -/
theorem Fits.oneLine {token : Token} (h : token.Fits) : OneLine token.text := by
  obtain ⟨text, tag⟩ := token
  cases tag with
  | reserved =>
    have hreserved : ∀ text ∈ operators ++ keywords, OneLine text := by decide
    exact hreserved text (List.mem_append.2 h)
  | int => exact fun hmem => absurd (h.1 '\n' hmem) (by decide)
  | string => exact IsQuoted.oneLine h
  | id => exact IsName.oneLine h

/-- The name of a class has neither tabs nor line feeds. -/
theorem tag_name_plain (tag : Tag) : ∀ c ∈ tag.name.toList, c ≠ '\t' ∧ c ≠ '\n' := by
  cases tag <;> simp [Tag.name]

theorem Fits.oneLine_listing {token : Token} (h : token.Fits) : OneLine token.listing := by
  have hname : OneLine token.tag.name := fun hmem => (tag_name_plain token.tag '\n' hmem).2 rfl
  exact oneLine_append.2 ⟨oneLine_append.2 ⟨hname, by decide⟩, h.oneLine⟩

theorem toList_listing (token : Token) :
    token.listing.toList = token.tag.name.toList ++ '\t' :: token.text.toList := by
  rw [listing, String.toList_append, String.toList_append, List.append_assoc]
  rfl

/-- **The line of a token is read back as the token**, whatever is in its text. -/
theorem ofLine?_listing (token : Token) : ofLine? token.listing.toList = some token := by
  have hname : ∀ c ∈ token.tag.name.toList, decide (c ≠ '\t') := fun c hc =>
    decide_eq_true (tag_name_plain token.tag c hc).1
  have htab : Halts (· ≠ '\t') ('\t' :: token.text.toList) := .cons (by decide)
  simp only [ofLine?, toList_listing, htab.takeWhile_append hname, htab.dropWhile_append hname,
    String.ofList_toList, Tag.ofName?_name, Option.map_some]

theorem splitOn_lines {lines : List (List Char)} (h : ∀ line ∈ lines, '\n' ∉ line) :
    (lines.flatMap (· ++ ['\n'])).splitOn '\n' = lines ++ [[]] := by
  induction lines with
  | nil => exact List.splitOn_nil '\n'
  | cons line lines ih =>
    obtain ⟨hline, hlines⟩ := List.forall_mem_cons.1 h
    rw [List.flatMap_cons, List.append_assoc, List.singleton_append,
      List.splitOn_append_cons_self_of_not_mem hline, ih hlines, List.cons_append]

/-! ## The listing of a source text -/

/-- The listing of the tokens. -/
def listingOf (ts : List Token) : String := String.join (ts.map fun token => token.listing ++ "\n")

theorem toList_listingOf (ts : List Token) :
    (listingOf ts).toList = (ts.map fun token => token.listing.toList).flatMap (· ++ ['\n']) := by
  rw [listingOf, String.toList_join, List.flatMap_map, List.flatMap_map]
  refine List.flatMap_congr fun token _ => ?_
  rw [String.toList_append]
  rfl

/-- **A listing is read back as the tokens.** -/
theorem ofListing?_listingOf {ts : List Token} (h : ∀ token ∈ ts, token.Fits) :
    ofListing? (listingOf ts).toUTF8 = some ts := by
  have htext := fromUTF8?_toUTF8 (listingOf ts)
  have hlines : ∀ line ∈ ts.map fun token => token.listing.toList, '\n' ∉ line := by
    intro line hline
    obtain ⟨token, htoken, rfl⟩ := List.mem_map.1 hline
    exact (h token htoken).oneLine_listing
  have hread : (ts.map fun token => token.listing.toList).mapM ofLine? = some ts := by
    have hline : (ofLine? ∘ fun token => token.listing.toList) = fun token => pure token :=
      funext ofLine?_listing
    rw [List.mapM_map, hline, List.mapM_pure, List.map_id']
    rfl
  simp only [ofListing?, htext, Option.bind_eq_bind, Option.bind_some, toList_listingOf,
    splitOn_lines hlines, List.getLast?_concat, List.dropLast_concat, if_true, hread]

theorem inLines_listingOf {ts : List Token} (h : ∀ token ∈ ts, token.Fits) :
    InLines ts.length (bytes (listingOf ts)) := by
  refine ⟨ts.map fun token => bytes (token.listing ++ "\n"), List.length_map .., ?_, ?_⟩
  · intro line hline
    obtain ⟨token, htoken, rfl⟩ := List.mem_map.1 hline
    exact isLine_bytes (h token htoken).oneLine_listing
  · rw [listingOf, bytes_join, List.flatMap_map, List.flatMap_def]

/-- With `--lex` the tokens are listed, and nothing else is written. -/
theorem stdout_of_run {i : Invocation} (hlex : i.options.lex) {file : Except FileError ByteArray}
    {source : String} (hfile : Invocation.textOf file = .ok source) {ts : List Token}
    (h : ofSource source = .ok ts) (budget : Nat) (input : List UInt8) :
    ∃ outcome, i.run budget file input = some outcome ∧ outcome.exit = 0 ∧
      outcome.stdout = (listingOf ts).toUTF8 := by
  have hinspects : i.inspects := by rw [Invocation.inspects, hlex, Bool.true_or]
  simp only [Invocation.run, hfile, hinspects, Invocation.inspect, h, hlex, if_true]
  exact ⟨_, rfl, rfl, rfl⟩

/-- **A listing of tokens loses nothing.**  With `--lex` a source text that can be split into tokens
gives a listing with one line for each of them, and these lines, each split at its first tab into
the name of a class and a text, are read back as the tokens in their order.  So texts with the same
listing have the same tokens, and to parse what is read from the listing is to parse the text: it
gives the same tree, or the same error. -/
theorem listing_lossless {source : String} {ts : List Token} (h : ofSource source = .ok ts)
    {i : Invocation} (hlex : i.options.lex) {file : Except FileError ByteArray}
    (hfile : Invocation.textOf file = .ok source) (budget : Nat) (input : List UInt8) :
    ∃ outcome, i.run budget file input = some outcome ∧ outcome.exit = 0 ∧
      InLines ts.length outcome.stdout.data.toList ∧
      ofListing? outcome.stdout = some ts ∧
      (∀ us, ofListing? outcome.stdout = some us →
        Program.ofSource source = (Program.ofTokens us).mapError .parse) ∧
      ∀ (i' : Invocation) (file' : Except FileError ByteArray) (source' : String) (ts' : List Token)
        (budget' : Nat) (input' : List UInt8) (outcome' : Outcome),
        i'.options.lex → Invocation.textOf file' = .ok source' → ofSource source' = .ok ts' →
        i'.run budget' file' input' = some outcome' → outcome'.stdout = outcome.stdout →
        ts' = ts := by
  obtain ⟨outcome, hrun, hexit, hstdout⟩ := stdout_of_run hlex hfile h budget input
  have hread : ofListing? outcome.stdout = some ts :=
    hstdout ▸ ofListing?_listingOf (fits_of_scan h)
  refine ⟨outcome, hrun, hexit, hstdout ▸ inLines_listingOf (fits_of_scan h), hread,
    fun us hus => ?_,
    fun i' file' source' ts' budget' input' outcome' hlex' hfile' h' hrun' hsame => ?_⟩
  · obtain rfl : ts = us := Option.some.inj (hread.symm.trans hus)
    simp only [Program.ofSource, h, Except.mapError, bind, Except.bind]
  · obtain ⟨_, hrun'', -, hstdout'⟩ := stdout_of_run hlex' hfile' h' budget' input'
    obtain rfl := Option.some.inj (hrun'.symm.trans hrun'')
    have hread' := ofListing?_listingOf (fits_of_scan h')
    rw [← hstdout', hsame, hread] at hread'
    exact (Option.some.inj hread').symm

/-- A string with a tab and a carriage return in it, before a comment. -/
theorem listing_lossless_tab :
    let source := "x = \"a\tb\r\" # c"
    ∃ outcome, Invocation.run ⟨⟨true, false, false, false⟩, "x.cam"⟩ 0 (.ok source.toUTF8) [] =
        some outcome ∧
      InLines 3 outcome.stdout.data.toList ∧
      ofListing? outcome.stdout =
        some [⟨"x", .id⟩, ⟨"=", .reserved⟩, ⟨"\"a\tb\r\"", .string⟩] := by
  intro source
  have hlex : ofSource source =
      .ok [⟨"x", .id⟩, ⟨"=", .reserved⟩, ⟨"\"a\tb\r\"", .string⟩] := by decide +kernel
  obtain ⟨outcome, hrun, -, hlines, hread, -, -⟩ :=
    listing_lossless hlex (i := ⟨⟨true, false, false, false⟩, "x.cam"⟩) rfl
      (Invocation.textOf_toUTF8 source) 0 []
  exact ⟨outcome, hrun, hlines, hread⟩

end Token

end Cam
