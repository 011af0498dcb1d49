import Cam.Proofs.Run.Effect

/-!
# Proofs/Run/Consumption — what a run reads, and what it leaves unread

A run takes its input line by line, so what it has taken is a whole number of lines, unless it has
taken everything (`Consumes`).  Of the rest it knows nothing: with other bytes in their place it
does the same (`Stmt.run_consumes`).  For this two runs are kept together as long as there are lines
that both have before them; a run that goes past these has read into the rest or has found the end
of the input (`InStep`).
-/

namespace Cam

namespace Input

/-! ## Lines -/

/-- A line is bytes without a line feed, and then a line feed. -/
def IsLine (line : List UInt8) : Prop := ∃ text, 10 ∉ text ∧ line = text ++ [10]

/-- A whole number of lines. -/
inductive WholeLines : List UInt8 → Prop where
  | nil : WholeLines []
  | cons {line rest : List UInt8} (hline : IsLine line) (hrest : WholeLines rest) :
      WholeLines (line ++ rest)

theorem WholeLines.append {first second : List UInt8} (h : WholeLines first)
    (hsecond : WholeLines second) : WholeLines (first ++ second) := by
  induction h with
  | nil => exact hsecond
  | cons hline _ ih =>
    rw [List.append_assoc]
    exact .cons hline ih

theorem IsLine.wholeLines {line : List UInt8} (h : IsLine line) : WholeLines line := by
  have hcons := WholeLines.cons h .nil
  rwa [List.append_nil] at hcons

theorem IsLine.length_pos {line : List UInt8} (h : IsLine line) : 0 < line.length := by
  obtain ⟨text, -, rfl⟩ := h
  simp

/-- The first line of a text that starts with a line. -/
theorem firstLine?_append {line : List UInt8} (h : IsLine line) (rest : List UInt8) :
    firstLine? (line ++ rest) = some (line, rest) := by
  obtain ⟨text, htext, rfl⟩ := h
  induction text with
  | nil => rfl
  | cons b text ih =>
    have hb : b ≠ 10 := (List.ne_of_not_mem_cons htext).symm
    have htext : 10 ∉ text := List.not_mem_of_not_mem_cons htext
    simp only [List.cons_append, firstLine?, if_neg hb, ih htext, Option.map_some]

theorem isLine_of_firstLine? {bytes line rest : List UInt8}
    (h : firstLine? bytes = some (line, rest)) : IsLine line ∧ bytes = line ++ rest := by
  induction bytes generalizing line with
  | nil => cases h
  | cons b bytes ih =>
    rw [firstLine?] at h
    split at h
    next hb =>
      cases h
      exact ⟨⟨[], List.not_mem_nil, congrArg ([·]) hb⟩, rfl⟩
    next hb =>
      obtain ⟨⟨tail, rest'⟩, hfirst, heq⟩ := Option.map_eq_some_iff.1 h
      cases heq
      obtain ⟨⟨text, htext, rfl⟩, rfl⟩ := ih hfirst
      exact ⟨⟨b :: text, List.not_mem_cons_of_ne_of_not_mem (Ne.symm hb) htext, rfl⟩, rfl⟩

/-- A line that stands first is what is read. -/
theorem readLine_append {line : List UInt8} (h : IsLine line) (rest : List UInt8) :
    (ofBytes (line ++ rest)).readLine = ((decode line).map some, ofBytes rest) := by
  simp only [readLine, ofBytes, firstLine?_append h]

theorem length_unread_readLine_le (i : Input) : i.readLine.2.unread.length ≤ i.unread.length := by
  unfold readLine
  split
  next line rest hfirst =>
    rw [(isLine_of_firstLine? hfirst).2, List.length_append]
    exact Nat.le_add_left ..
  next =>
    split
    · exact Nat.zero_le _
    · split <;> exact Nat.zero_le _

/-- **Reading takes a line, or all there is.** -/
theorem readLine_cases (bytes : List UInt8) :
    (∃ line rest, IsLine line ∧ bytes = line ++ rest ∧ (ofBytes bytes).readLine.2 = ofBytes rest) ∨
    bytes = [] ∧ (ofBytes bytes).readLine = (.ok none, ofBytes []) ∨
    bytes ≠ [] ∧ (ofBytes bytes).readLine.2 = ofBytes [] := by
  cases hfirst : firstLine? bytes with
  | some split =>
    obtain ⟨line, rest⟩ := split
    obtain ⟨hline, rfl⟩ := isLine_of_firstLine? hfirst
    exact .inl ⟨line, rest, hline, rfl, by rw [readLine_append hline]⟩
  | none =>
    cases bytes with
    | nil => exact .inr (.inl ⟨rfl, rfl⟩)
    | cons b bytes => exact .inr (.inr ⟨nofun, by simp [readLine, ofBytes, hfirst]⟩)

end Input

open Input

/-! ## What has been read -/

/-- The input changes only by reading a line. -/
theorem Point.Next.input {p q : Point} (h : p.Next q) :
    q.world.input = p.world.input ∨ q.world.input = p.world.input.readLine.2 := by
  rcases p with ⟨_ | ⟨job, jobs⟩, w⟩ | ⟨e, w⟩
  · cases h
  · obtain rfl := Point.next_iff.1 h
    by_cases hreads : ∃ env name, job.effect w.store = .ok (.read env name)
    · obtain ⟨env, name, heffect⟩ := hreads
      rw [heffect]
      exact .inr (Point.input_after_read jobs w env name)
    · exact .inl (Point.input_after jobs w fun env name heffect => hreads ⟨env, name, heffect⟩)
  · cases h

/-- The input is what is left of the bytes; those that have been read are whole lines, unless
nothing is left. -/
def Consumes (bytes : List UInt8) (input : Input) : Prop :=
  ∃ read rest, read ++ rest = bytes ∧ input = .ofBytes rest ∧ (WholeLines read ∨ rest = [])

theorem Consumes.readLine {bytes : List UInt8} {input : Input} (h : Consumes bytes input) :
    Consumes bytes input.readLine.2 := by
  obtain ⟨read, rest, rfl, rfl, hread⟩ := h
  rcases readLine_cases rest with ⟨line, rest', hline, rfl, hrest⟩ | ⟨rfl, hrest⟩ | ⟨-, hrest⟩
  · have hne : line ++ rest' ≠ [] := fun h => by
      have hpos := hline.length_pos
      simp_all
    have hwhole := (hread.resolve_right hne).append hline.wholeLines
    exact ⟨read ++ line, rest', List.append_assoc .., hrest, .inl hwhole⟩
  · exact ⟨read, [], rfl, congrArg Prod.snd hrest, .inr rfl⟩
  · exact ⟨read ++ rest, [], List.append_nil _, hrest, .inr rfl⟩

theorem Point.Reaches.consumes {bytes : List UInt8} {p q : Point} (h : p.Reaches q)
    (hstart : Consumes bytes p.world.input) : Consumes bytes q.world.input := by
  induction h with
  | refl => exact hstart
  | tail _ hnext ih =>
    rcases hnext.input with hsame | hread
    · rwa [hsame]
    · rw [hread]
      exact ih.readLine

/-! ## Two runs -/

/-- A step leaves no more of the input than there was. -/
theorem Point.Next.length_unread_le {p q : Point} (h : p.Next q) :
    q.world.input.unread.length ≤ p.world.input.unread.length := by
  rcases h.input with hsame | hread
  · exact Nat.le_of_eq (congrArg (·.unread.length) hsame)
  · rw [hread]
    exact p.world.input.length_unread_readLine_le

/-- The world with another input. -/
def World.withInput (input : Input) (w : World) : World := ⟨w.store, input, w.output⟩

/-- The second run is where the first is, with the same lines before it and other bytes after them;
or the first run has read into the rest of its input, or has found its end. -/
inductive InStep (rest rest' : List UInt8) : Point → Point → Prop where
  | ahead {p : Point} {lines : List UInt8} (hlines : WholeLines lines)
      (hinput : p.world.input = .ofBytes (lines ++ rest)) :
      InStep rest rest' p (p.map (World.withInput (.ofBytes (lines ++ rest'))))
  | past {p q : Point} (h : p.world.input.unread.length < rest.length) : InStep rest rest' p q
  | atEnd {name : String} {w : World} {q : Point} :
      InStep rest rest' (.failed (.endOfInput name) w) q

namespace InStep

variable {rest rest' : List UInt8}

/-- An effect other than reading is the same on any input. -/
theorem after_withInput {jobs : List Job} {w : World} {r : Except RuntimeError Effect}
    (h : ∀ env name, r ≠ .ok (.read env name)) (input : Input) :
    Point.after jobs (w.withInput input) r =
      (Point.after jobs w r).map (World.withInput input) := by
  rcases r with e | more | ⟨env, name, value, more⟩ | text | ⟨env, name⟩
  · rfl
  · rfl
  · rfl
  · simp only [Point.after, Effect.next, World.withInput]
    rcases w.output.write (text ++ "\n").toUTF8 with ⟨_ | fault, output⟩ <;> rfl
  · exact absurd rfl (h env name)

/-- Reading takes the same line from both inputs, if there is one before the rest. -/
theorem after_read {jobs : List Job} {store : Store} {output : Output} {lines : List UInt8}
    (hlines : WholeLines lines) (env : EnvId) (name : String) :
    InStep rest rest' (.after jobs ⟨store, .ofBytes (lines ++ rest), output⟩ (.ok (.read env name)))
      (.after jobs ⟨store, .ofBytes (lines ++ rest'), output⟩ (.ok (.read env name))) := by
  cases hlines with
  | nil =>
    rcases readLine_cases rest with ⟨line, more, hline, rfl, hread⟩ | ⟨rfl, hread⟩ | ⟨hne, hread⟩
    · refine .past ?_
      have hpos := hline.length_pos
      rw [Point.input_after_read, List.nil_append, hread, List.length_append]
      exact Nat.lt_add_of_pos_left hpos
    · simp only [Point.after, Effect.next, List.nil_append, hread]
      exact .atEnd
    · refine .past ?_
      rw [Point.input_after_read, List.nil_append, hread]
      exact List.length_pos_iff.2 hne
  | @cons line more hline hmore =>
    simp only [Point.after, Effect.next, List.append_assoc, readLine_append hline]
    cases decode line with
    | error fault => exact .ahead (p := .failed (.stream fault) ⟨store, _, output⟩) hmore rfl
    | ok text =>
      exact .ahead (p := .running jobs ⟨store.set env name (.ofLine text), _, output⟩) hmore rfl

/-- A step with the same effect on both inputs. -/
theorem after {jobs : List Job} {w : World} {lines : List UInt8} (hlines : WholeLines lines)
    (hinput : w.input = .ofBytes (lines ++ rest)) (r : Except RuntimeError Effect) :
    InStep rest rest' (.after jobs w r)
      (.after jobs (w.withInput (.ofBytes (lines ++ rest'))) r) := by
  by_cases hreads : ∃ env name, r = .ok (.read env name)
  · obtain ⟨env, name, rfl⟩ := hreads
    obtain ⟨store, input, output⟩ := w
    obtain rfl : input = .ofBytes (lines ++ rest) := hinput
    exact .after_read hlines env name
  · have hquiet : ∀ env name, r ≠ .ok (.read env name) := fun env name h => hreads ⟨env, name, h⟩
    rw [after_withInput hquiet]
    exact .ahead hlines ((Point.input_after jobs w hquiet).trans hinput)

/-- **A step keeps the two runs together, or the first run goes past the lines.** -/
theorem next {p q p' : Point} (h : InStep rest rest' p q) (hnext : p.Next p') :
    ∃ q', q.Reaches q' ∧ InStep rest rest' p' q' := by
  cases h with
  | ahead hlines hinput =>
    rcases p with ⟨_ | ⟨job, jobs⟩, w⟩ | ⟨e, w⟩
    · cases hnext
    · obtain rfl := Point.next_iff.1 hnext
      exact ⟨_, .single (Point.next_iff.2 rfl), .after hlines hinput _⟩
    · cases hnext
  | past h => exact ⟨q, .refl, .past (Nat.lt_of_le_of_lt hnext.length_unread_le h)⟩
  | atEnd => cases hnext

end InStep

/-! ## Whole runs -/

namespace Stmt

/-- A run concludes alike, whatever its input is. -/
theorem conclude_withInput (input : Input) (env : EnvId) (r : Except RuntimeError Unit)
    (w : World) :
    conclude env r (w.withInput input) =
      ((conclude env r w).1, (conclude env r w).2.withInput input) := by
  have hflush : (w.withInput input).output.flush = w.output.flush := rfl
  simp only [conclude, hflush]
  split <;> rfl

/-- **Input is read line by line, and unread input is irrelevant.**  The bytes that a run reads are
a whole number of lines or all there are.  If they are a whole number of lines, and the run did not
fail at the end of the input, then it ends in the same way, with the same variables and the same
output, whatever follows those bytes, and leaves that unread. -/
theorem run_consumes {p : Stmt Nat} {store : Store} {bytes : List UInt8} {output : Output}
    {r : Except RuntimeError EnvId} {w' : World}
    (h : p.Runs ⟨store, .ofBytes bytes, output⟩ r w') :
    ∃ read rest, read ++ rest = bytes ∧ w'.input = .ofBytes rest ∧
      (WholeLines read ∨ read = bytes) ∧
      (WholeLines read → (∀ name, r ≠ .error (.endOfInput name)) → ∀ rest',
        p.Runs ⟨store, .ofBytes (read ++ rest'), output⟩ r
          ⟨w'.store, .ofBytes rest', w'.output⟩) := by
  obtain ⟨r₁, w₁, hfinishes, hconclude⟩ := runs_iff.1 h
  have hreaches := finishes_iff.1 hfinishes
  have hinput : w'.input = w₁.input := by
    rw [← (streams_conclude store.next r₁ w₁).1]
    exact congrArg (·.2.input) hconclude.symm
  obtain ⟨read, rest, hbytes, hrest, hread⟩ :=
    hreaches.consumes ⟨[], bytes, rfl, rfl, .inl .nil⟩
  rw [Point.world_ended] at hrest
  refine ⟨read, rest, hbytes, hinput.trans hrest, ?_, ?_⟩
  · refine hread.imp_right ?_
    rintro rfl
    rwa [List.append_nil] at hbytes
  · intro hwhole hend rest'
    subst hbytes
    have hstart : InStep rest rest'
        (.running [.run p store.next] ⟨store.create, .ofBytes (read ++ rest), output⟩)
        (.running [.run p store.next] ⟨store.create, .ofBytes (read ++ rest'), output⟩) :=
      .ahead hwhole rfl
    obtain ⟨q, hq, hinStep⟩ := hreaches.simulated InStep.next hstart
    generalize hp : Point.ended r₁ w₁ = p' at hinStep
    cases hinStep with
    | @ahead _ lines hlines hinput' =>
      subst hp
      rw [Point.world_ended, hrest] at hinput'
      have hlines : lines = [] := by simpa [ofBytes] using hinput'
      rw [Point.map_ended, hlines] at hq
      refine runs_iff.2 ⟨r₁, _, finishes_iff.2 hq, ?_⟩
      rw [conclude_withInput, hconclude]
      rfl
    | past hlt =>
      subst hp
      rw [Point.world_ended, hrest] at hlt
      exact absurd hlt (Nat.lt_irrefl _)
    | @atEnd name w q =>
      cases r₁ with
      | ok => cases hp
      | error e =>
        cases hp
        exact absurd (congrArg Prod.fst hconclude).symm (hend name)

/-- A line is read and printed. -/
def echo : Stmt Nat := .seq (.input "x") (.print (.var "x"))

/-- After the line there may be anything, also bytes that are no text. -/
theorem echo_consumes : ∃ w',
    echo.Runs ⟨.empty, .ofBytes [53, 10, 255], .unlimited⟩ (.ok ⟨0⟩) w' ∧
    w'.input = .ofBytes [255] ∧
    echo.Runs ⟨.empty, .ofBytes [53, 10, 97, 10], .unlimited⟩ (.ok ⟨0⟩)
      ⟨w'.store, .ofBytes [97, 10], w'.output⟩ := by
  let w : World := ⟨.empty, .ofBytes [53, 10, 255], .unlimited⟩
  let w' : World := (echo.exec 2 ⟨0⟩).leaves w.fresh
  have hruns : echo.Runs w (.ok ⟨0⟩) w' := ⟨2, by with_unfolding_all rfl⟩
  have hinput : w'.input = .ofBytes [255] := by decide +kernel
  obtain ⟨read, rest, hbytes, hrest, -, hsame⟩ := run_consumes hruns
  obtain rfl : [255] = rest := congrArg Input.unread (hinput.symm.trans hrest)
  have hbytes : read ++ [255] = [53, 10] ++ [255] := hbytes
  obtain rfl : read = [53, 10] := List.append_cancel_right hbytes
  have hwhole : WholeLines [53, 10] := IsLine.wholeLines ⟨[53], by decide, rfl⟩
  exact ⟨w', hruns, hinput, hsame hwhole nofun [97, 10]⟩

end Stmt

end Cam
