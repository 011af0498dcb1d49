import Cam.Proofs.Grammar.Determinacy
import Cam.Proofs.Grammar.Spelling

/-!
# Proofs/Grammar/Failures — the failures of a parse, and what is reported of them

The report after any failures is at the furthest of their places and lists what was wanted there,
each description where it first came up; failures that are recorded again leave it as it is
(`Furthest.error_of_failures`).

The failures of a parse belong to the tokens from the place where it begins.  None of them stands
before that place or past the end of the input, and what was wanted does not stand there
(`Parser.failures_truthful`).  With other tokens put in front, the parse goes the same way further
on (`Parser.no_looking_back`).
-/

namespace Cam

/-! ## The report of a sequence of failures -/

namespace Furthest

variable {f : Furthest} {notes : List (Nat × String)}

theorem position_record (f : Furthest) (pos : Nat) (d : String) :
    (f.record pos d).position = max f.position pos := by
  rcases Nat.lt_trichotomy f.position pos with hlt | rfl | hgt
  · rw [record_of_lt hlt, Nat.max_eq_right (Nat.le_of_lt hlt)]
  · rw [record_here, Nat.max_self]
  · rw [record_of_gt hgt, Nat.max_eq_left (Nat.le_of_lt hgt)]

/-- The record stands at the furthest of the places. -/
theorem position_addAll (f : Furthest) (notes : List (Nat × String)) :
    (f.addAll notes).position = (notes.map Prod.fst).foldl max f.position := by
  induction notes generalizing f with
  | nil => rfl
  | cons note notes ih =>
    rw [List.map_cons, List.foldl_cons, ← position_record f note.1 note.2]
    exact ih (f.record note.1 note.2)

/-- What was wanted at a place, each description where it first came up. -/
def wantedAt (notes : List (Nat × String)) (pos : Nat) : List String :=
  ((notes.filter (·.1 = pos)).map Prod.snd).eraseDups

theorem eraseDups_concat (ds : List String) (d : String) :
    (ds ++ [d]).eraseDups = insert ds.eraseDups d := by
  rw [List.eraseDups_append, insert]
  by_cases hd : d ∈ ds
  · have hrest : [d].removeAll ds = [] := by simp [List.removeAll, hd]
    rw [if_pos (List.mem_eraseDups.2 hd), hrest, List.eraseDups_nil, List.append_nil]
  · have hrest : [d].removeAll ds = [d] := by simp [List.removeAll, hd]
    rw [if_neg (mt List.mem_eraseDups.1 hd), hrest]
    rfl

theorem wantedAt_concat (notes : List (Nat × String)) (note : Nat × String) (pos : Nat) :
    wantedAt (notes ++ [note]) pos =
      if note.1 = pos then insert (wantedAt notes pos) note.2 else wantedAt notes pos := by
  unfold wantedAt
  rw [List.filter_append]
  split
  next heq => simp [heq, eraseDups_concat]
  next hne => simp [hne]

theorem wantedAt_eq_nil {pos : Nat} (h : ∀ note ∈ notes, note.1 < pos) :
    wantedAt notes pos = [] := by
  have hnone : notes.filter (·.1 = pos) = [] := by
    refine List.filter_eq_nil_iff.2 fun note hnote heq => ?_
    exact Nat.ne_of_lt (h note hnote) (of_decide_eq_true heq)
  rw [wantedAt, hnone, List.map_nil, List.eraseDups_nil]

/-- The record lists what was wanted at its place, by induction from the last failure back. -/
theorem expected_recordAll (notes : List (Nat × String)) :
    (recordAll notes).expected = wantedAt notes (recordAll notes).position := by
  rw [← List.reverse_reverse notes]
  induction notes.reverse with
  | nil => rfl
  | cons note notes ih =>
    have hle := (summary_recordAll notes.reverse).le_position
    rw [List.reverse_cons, recordAll_append_singleton, wantedAt_concat]
    obtain ⟨pos, d⟩ := note
    rcases Nat.lt_trichotomy (recordAll notes.reverse).position pos with hlt | rfl | hgt
    · have hnil : wantedAt notes.reverse pos = [] :=
        wantedAt_eq_nil fun other hother => Nat.lt_of_le_of_lt (hle other hother) hlt
      rw [record_of_lt hlt, if_pos rfl, hnil]
      rfl
    · rw [record_here, if_pos rfl, ih]
    · rw [record_of_gt hgt, if_neg (Nat.ne_of_lt hgt), ih]

/-- **The report of a sequence of failures.**  It is at the furthest of their places, or at the
first place if there are none; it lists the descriptions that were recorded there, in the order in
which they first came up and each of them once; and it shows the token that stands there.  Recording
any of the failures again, in any order and number, leaves it as it is. -/
theorem error_of_failures (tokens : Array Token) (notes : List (Nat × String)) :
    let position := (notes.map Prod.fst).max?.getD 0
    (recordAll notes).error tokens = ⟨position, tokens[position]?, wantedAt notes position⟩ ∧
      ∀ again ⊆ notes,
        ((recordAll notes).addAll again).error tokens = (recordAll notes).error tokens := by
  intro position
  have hposition : (recordAll notes).position = position := by
    have hfold := position_addAll start notes
    rw [List.foldl_max] at hfold
    exact hfold.trans (Nat.zero_max _)
  refine ⟨?_, fun again hagain => ?_⟩
  · rw [error, expected_recordAll, hposition]
  · have hcovers : ∀ note ∈ again, (recordAll notes).Covers note := fun note hnote =>
      covers_addAll start notes note (hagain hnote)
    rw [addAll_of_covers hcovers]

/-- Failures up to a place past the end, some of them twice. -/
theorem error_of_failures_past_end :
    let tokens : Array Token := #[⟨"x", .id⟩]
    let notes :=
      [(0, "'if'"), (2, "'then'"), (0, "'print'"), (2, "'do'"), (1, "'='"), (2, "'then'")]
    (recordAll notes).error tokens = ⟨2, none, ["'then'", "'do'"]⟩ ∧
      ((recordAll notes).addAll [(2, "'do'"), (0, "'print'")]).error tokens =
        ⟨2, none, ["'then'", "'do'"]⟩ := by
  intro tokens notes
  obtain ⟨herror, hagain⟩ := error_of_failures tokens notes
  have hreport : (recordAll notes).error tokens = ⟨2, none, ["'then'", "'do'"]⟩ :=
    herror.trans (by decide)
  exact ⟨hreport, (hagain _ (by decide)).trans hreport⟩

end Furthest

/-! ## Nothing is recorded in error -/

/-- The record comes about by parses one after another, from a new record.  Each of them begins at a
place of the input, and comes to its end. -/
inductive Furthest.Reached (tokens : Array Token) : Furthest → Prop where
  | new : Reached tokens .start
  | parse {ι : Type} {sort : ι → Type} {α : Type} {g : Grammar sort} {p : Parser sort α}
      {budget pos : Nat} {reply : Reply α} {record record' : Furthest}
      (before : Reached tokens record) (hpos : pos ≤ tokens.size)
      (hrun : p.run g (.furthest tokens) budget pos record = (reply, record'))
      (hends : reply ≠ .exhausted) : Reached tokens record'

/-- A record that stands at a place of the input stays at such places. -/
theorem Furthest.position_addAll_le {f : Furthest} {notes : List (Nat × String)} {bound : Nat}
    (hf : f.position ≤ bound) (h : ∀ note ∈ notes, note.1 ≤ bound) :
    (f.addAll notes).position ≤ bound := by
  rw [position_addAll, List.foldl_max]
  refine Nat.max_le.2 ⟨hf, ?_⟩
  rcases hmax : (notes.map Prod.fst).max? with _ | place
  · exact hf
  · obtain ⟨note, hnote, rfl⟩ := List.mem_map.1 (List.max?_mem hmax)
    exact h note hnote

namespace Parser

variable {ι : Type} {sort : ι → Type} {α : Type} {g : Grammar sort} {tokens : Array Token}
  {p : Parser sort α} {budget pos : Nat}

/-- What is recorded stands between the place where the parse began and the end of the input. -/
theorem truthful_of_mem_failures (hpos : pos ≤ tokens.size)
    (hends : p.reply g tokens budget pos ≠ .exhausted) {f : Failure}
    (hf : f ∈ p.failures g tokens budget pos) :
    pos ≤ f.position ∧ f.position ≤ tokens.size ∧ f.Truthful tokens := by
  obtain ⟨hle, htruthful⟩ := (ends_of_failures hends).truthful f hf
  exact ⟨hle, htruthful hpos⟩

/-- A parse leaves the record at a place of the input. -/
theorem position_run_le (hpos : pos ≤ tokens.size)
    (hends : p.reply g tokens budget pos ≠ .exhausted) {record : Furthest}
    (hrecord : record.position ≤ tokens.size) :
    (p.run g (.furthest tokens) budget pos record).2.position ≤ tokens.size := by
  rw [run_furthest_eq]
  refine Furthest.position_addAll_le hrecord fun note hnote => ?_
  obtain ⟨f, hf, rfl⟩ := List.mem_map.1 hnote
  exact (truthful_of_mem_failures hpos hends hf).2.1

end Parser

theorem Furthest.Reached.position_le {tokens : Array Token} {record : Furthest}
    (h : Reached tokens record) : record.position ≤ tokens.size := by
  induction h with
  | new => exact Nat.zero_le _
  | @parse _ _ _ g p budget pos reply record record' _ hpos hrun hends ih =>
    have hfst := Parser.fst_run g (.furthest tokens) budget p pos record
    rw [hrun] at hfst
    obtain rfl : reply = p.reply g tokens budget pos := hfst
    have hle := Parser.position_run_le hpos hends ih
    rwa [hrun] at hle

namespace Parser

variable {ι : Type} {sort : ι → Type} {α : Type}

/-- **Nothing is recorded in error.**  A parse that begins at a place of the input and ends goes
forward to another place of the input.  What it wants in vain on the way, also in attempts that it
gives up, is all that it adds to the record; it is wanted at a place between its beginning and the
end of the input, and does not stand there; the end of the input is wanted only where a token
stands.  So the report after such parses is about a place of the input, and shows the token there
unless that place is the end. -/
theorem failures_truthful (g : Grammar sort) (tokens : Array Token) (p : Parser sort α)
    {budget pos : Nat} (hpos : pos ≤ tokens.size)
    (hends : p.reply g tokens budget pos ≠ .exhausted) :
    (∀ v next, p.reply g tokens budget pos = .matched v next → pos ≤ next ∧ next ≤ tokens.size) ∧
      (∀ record, p.run g (.furthest tokens) budget pos record =
        (p.reply g tokens budget pos, record.addAll (p.notes g tokens budget pos))) ∧
      (∀ f ∈ p.failures g tokens budget pos,
        pos ≤ f.position ∧ f.position ≤ tokens.size ∧ f.Truthful tokens) ∧
      ∀ record, Furthest.Reached tokens record →
        let e := (p.run g (.furthest tokens) budget pos record).2.error tokens
        e.position ≤ tokens.size ∧ (e.found = none ↔ e.position = tokens.size) := by
  refine ⟨fun v next hreply => ?_, run_furthest_eq g tokens budget p pos,
    fun f hf => truthful_of_mem_failures hpos hends hf, fun record hrecord => ?_⟩
  · obtain ⟨hle, hsize⟩ := (ends_of_failures hends).le_next hreply
    exact ⟨hle, hsize hpos⟩
  · intro e
    have hle : e.position ≤ tokens.size := position_run_le hpos hends hrecord.position_le
    refine ⟨hle, ?_⟩
    change tokens[e.position]? = none ↔ e.position = tokens.size
    rw [Array.getElem?_eq_none_iff]
    exact ⟨Nat.le_antisymm hle, fun heq => Nat.le_of_eq heq.symm⟩

/-- A program with a number too many, after a parse of the same tokens from the second one on. -/
theorem failures_truthful_trailing :
    let tokens : Array Token := #[⟨"print", .reserved⟩, ⟨"1", .int⟩, ⟨"2", .int⟩]
    let whole := Program.whole.run Program.grammar (.furthest tokens) 32
    ⟨0, .token (.tagged .id)⟩ ∈ Program.whole.failures Program.grammar tokens 32 0 ∧
      ⟨2, .endOfInput⟩ ∈ Program.whole.failures Program.grammar tokens 32 0 ∧
      (∀ f ∈ Program.whole.failures Program.grammar tokens 32 0,
        f.position ≤ 3 ∧ f.Truthful tokens) ∧
      ((whole 0 (whole 1 .start).2).2.error tokens).position = 2 ∧
      ((whole 0 (whole 1 .start).2).2.error tokens).found ≠ none := by
  intro tokens whole
  have hreply : Program.whole.reply Program.grammar tokens 32 0 ≠ .exhausted := by decide +kernel
  have hfirst : (whole 1 .start).1 ≠ .exhausted := by decide +kernel
  have hreached : Furthest.Reached tokens (whole 1 .start).2 :=
    .parse .new (by decide : 1 ≤ tokens.size) (Prod.eta (whole 1 .start)).symm hfirst
  have hname : ⟨0, .token (.tagged .id)⟩ ∈ Program.whole.failures Program.grammar tokens 32 0 := by
    decide +kernel
  have hend : ⟨2, .endOfInput⟩ ∈ Program.whole.failures Program.grammar tokens 32 0 := by
    decide +kernel
  have hposition : ((whole 0 (whole 1 .start).2).2.error tokens).position = 2 := by decide +kernel
  obtain ⟨-, -, hfailures, hreport⟩ :=
    failures_truthful Program.grammar tokens Program.whole (by decide : 0 ≤ tokens.size) hreply
  obtain ⟨-, hfound⟩ := hreport _ hreached
  refine ⟨hname, hend, fun f hf => (hfailures f hf).2, hposition, fun hnone => ?_⟩
  exact absurd (hposition.symm.trans (hfound.1 hnone)) (by decide)

end Parser

/-! ## A parse does not look back -/

/-- The failure, `n` places further on. -/
def Failure.shift (n : Nat) (f : Failure) : Failure := { f with position := n + f.position }

theorem Reading.shifts_tracing (before tokens : Array Token) :
    (tracing tokens).Shifts before.size (List.map (Failure.shift before.size))
      (tracing (before ++ tokens)) := by
  refine ⟨Array.size_append, fun pos => ?_, fun pos wanted failures => ?_⟩
  · change (before ++ tokens)[before.size + pos]? = tokens[pos]?
    rw [Array.getElem?_append_right (Nat.le_add_right _ _), Nat.add_sub_cancel_left]
  · have hmap : List.map (Failure.shift before.size) (failures ++ [⟨pos, wanted⟩]) =
        failures.map (Failure.shift before.size) ++ [⟨before.size + pos, wanted⟩] := List.map_append
    exact hmap.symm

namespace Parser

variable {ι : Type} {sort : ι → Type} {α : Type}

/-- A parse with other tokens in front keeps the same failures, further on. -/
theorem run_behind (g : Grammar sort) (before tokens : Array Token) (budget : Nat)
    (p : Parser sort α) (pos : Nat) :
    p.run g (.tracing (before ++ tokens)) budget (before.size + pos) [] =
      ((p.reply g tokens budget pos).shift before.size,
        (p.failures g tokens budget pos).map (.shift before.size)) := by
  have hrun := shifts_run (Reading.shifts_tracing before tokens) g budget p pos []
  rwa [fst_run] at hrun

/-- **A parse does not look back.**  With other tokens put in front, an expression ends with the
same budgets as without them, and so with any at all if it did without.  It has the same value or
again does not match; it reads up to the same token, and wants the same things in vain in the same
order, all of it further on by the number of tokens in front. -/
theorem no_looking_back (g : Grammar sort) (before tokens : Array Token) (p : Parser sort α)
    (pos : Nat) :
    ((∃ budget, p.reply g (before ++ tokens) budget (before.size + pos) ≠ .exhausted) ↔
        ∃ budget, p.reply g tokens budget pos ≠ .exhausted) ∧
      ∀ budget,
        p.reply g (before ++ tokens) budget (before.size + pos) =
            (p.reply g tokens budget pos).shift before.size ∧
          p.failures g (before ++ tokens) budget (before.size + pos) =
            (p.failures g tokens budget pos).map (.shift before.size) := by
  have hreply : ∀ budget, p.reply g (before ++ tokens) budget (before.size + pos) =
      (p.reply g tokens budget pos).shift before.size := by
    intro budget
    have hfst := congrArg Prod.fst (run_behind g before tokens budget p pos)
    rwa [fst_run] at hfst
  refine ⟨?_, fun budget => ⟨hreply budget, ?_⟩⟩
  · simp only [hreply, ne_eq, Reply.shift_eq_exhausted_iff]
  · exact congrArg Prod.snd (run_behind g before tokens budget p pos)

end Parser

end Cam
