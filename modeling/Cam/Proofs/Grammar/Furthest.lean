import Cam.Proofs.Grammar.Trace

/-!
# Proofs/Grammar/Furthest — the record of the furthest failures, in closed form

After any sequence of failures the record stands at the furthest of their places and lists what was
wanted there, each description once (`Furthest.summary_recordAll`).  A parse under
`Reading.furthest` adds its failures to the record that it starts from (`Parser.run_furthest_eq`).
-/

namespace Cam

namespace Furthest

/-- The record with these failures added in turn, each a place and a description. -/
def addAll (f : Furthest) (notes : List (Nat × String)) : Furthest :=
  notes.foldl (fun f note => f.record note.1 note.2) f

/-- The record of a sequence of failures. -/
def recordAll (notes : List (Nat × String)) : Furthest := start.addAll notes

@[simp] theorem recordAll_append_singleton (notes : List (Nat × String)) (note : Nat × String) :
    recordAll (notes ++ [note]) = (recordAll notes).record note.1 note.2 := by
  rw [recordAll, addAll, List.foldl_append]
  rfl

theorem mem_insert {expected : List String} {d e : String} :
    e ∈ insert expected d ↔ e ∈ expected ∨ e = d := by
  unfold insert
  split
  next h => exact ⟨.inl, fun he => he.elim id fun heq => heq ▸ h⟩
  next h => rw [List.mem_append, List.mem_singleton]

theorem nodup_insert {expected : List String} {d : String} (h : expected.Nodup) :
    (insert expected d).Nodup := by
  unfold insert
  split
  next => exact h
  next hd =>
    refine List.nodup_append.2 ⟨h, List.pairwise_singleton _ _, fun a ha b hb => ?_⟩
    rw [List.mem_singleton.1 hb]
    exact fun heq => hd (heq ▸ ha)

section Record

variable {f : Furthest} {pos : Nat} {d : String}

/-- A further failure starts the record afresh. -/
theorem record_of_lt (h : f.position < pos) : f.record pos d = ⟨pos, [d]⟩ := if_pos h

/-- A failure at the place of the record adds to what it lists. -/
theorem record_here : f.record f.position d = ⟨f.position, insert f.expected d⟩ := by
  rw [record, if_neg (Nat.lt_irrefl _), if_pos rfl]

/-- A nearer failure changes nothing. -/
theorem record_of_gt (h : pos < f.position) : f.record pos d = f := by
  rw [record, if_neg (Nat.not_lt_of_lt h), if_neg (Nat.ne_of_gt h)]

end Record

/-- The record stands at the furthest place and lists what was wanted there, each thing once. -/
structure Summary (notes : List (Nat × String)) (f : Furthest) : Prop where
  le_position : ∀ note ∈ notes, note.1 ≤ f.position
  mem_expected : ∀ d, d ∈ f.expected ↔ (f.position, d) ∈ notes
  nodup : f.expected.Nodup
  position_eq_zero : notes = [] → f.position = 0
  ne_nil : notes ≠ [] → f.expected ≠ []

/-- One more failure keeps the record a summary. -/
theorem Summary.record {notes : List (Nat × String)} {f : Furthest} (h : Summary notes f)
    (pos : Nat) (d : String) : Summary (notes ++ [(pos, d)]) (f.record pos d) := by
  have hne : notes ++ [(pos, d)] ≠ [] := List.append_ne_nil_of_right_ne_nil _ (List.cons_ne_nil _ _)
  rcases Nat.lt_trichotomy f.position pos with hlt | rfl | hgt
  · rw [record_of_lt hlt]
    refine ⟨?_, fun e => ?_, List.pairwise_singleton _ _, fun h => absurd h hne,
      fun _ => List.cons_ne_nil _ _⟩
    · refine List.forall_mem_append.2 ⟨fun note hnote => ?_, List.forall_mem_singleton.2 ?_⟩
      · exact Nat.le_of_lt (Nat.lt_of_le_of_lt (h.le_position note hnote) hlt)
      · exact Nat.le_refl pos
    · have hnew : (pos, e) ∉ notes := fun he => Nat.not_lt.2 (h.le_position _ he) hlt
      simp [hnew]
  · rw [record_here]
    refine ⟨?_, fun e => ?_, nodup_insert h.nodup, fun h => absurd h hne, fun _ hnil => ?_⟩
    · exact List.forall_mem_append.2 ⟨h.le_position, List.forall_mem_singleton.2 (Nat.le_refl _)⟩
    · simp only [mem_insert, h.mem_expected, List.mem_append, List.mem_singleton, Prod.mk.injEq,
        true_and]
    · exact absurd (mem_insert.2 (.inr rfl)) (hnil ▸ List.not_mem_nil)
  · rw [record_of_gt hgt]
    refine ⟨?_, fun e => ?_, h.nodup, fun h => absurd h hne, fun _ => h.ne_nil fun hnil => ?_⟩
    · refine List.forall_mem_append.2 ⟨h.le_position, List.forall_mem_singleton.2 ?_⟩
      exact Nat.le_of_lt hgt
    · simp only [h.mem_expected, List.mem_append, List.mem_singleton, Prod.mk.injEq,
        Nat.ne_of_gt hgt, false_and, or_false]
    · rw [h.position_eq_zero hnil] at hgt
      exact Nat.not_lt_zero _ hgt

/-- **The record of a sequence of failures is its summary**, by induction from the last failure
back. -/
theorem summary_recordAll (notes : List (Nat × String)) : Summary notes (recordAll notes) := by
  rw [← List.reverse_reverse notes]
  induction notes.reverse with
  | nil =>
    exact ⟨List.forall_mem_nil _, fun d => by simp [recordAll, addAll, start], .nil, fun _ => rfl,
      absurd rfl⟩
  | cons note notes ih =>
    rw [List.reverse_cons, recordAll_append_singleton]
    exact ih.record note.1 note.2

end Furthest

/-- A failure as the record of the furthest takes it. -/
def Failure.note (f : Failure) : Nat × String := (f.position, f.wanted.description)

namespace Parser

variable {ι : Type} {sort : ι → Type} {α : Type}

/-- What is wanted in vain during a parse, in turn, as the record of the furthest takes it. -/
def notes (g : Grammar sort) (tokens : Array Token) (budget : Nat) (p : Parser sort α) (pos : Nat) :
    List (Nat × String) :=
  (p.failures g tokens budget pos).map Failure.note

/-- **A parse adds its failures to the record it starts from.** -/
theorem run_furthest_eq (g : Grammar sort) (tokens : Array Token) (budget : Nat) (p : Parser sort α)
    (pos : Nat) (record : Furthest) :
    p.run g (.furthest tokens) budget pos record =
      (p.reply g tokens budget pos, record.addAll (p.notes g tokens budget pos)) := by
  rw [run_eq_noteAll, notes, Furthest.addAll, List.foldl_map]
  rfl

/-- A parse that starts from no failures leaves the record of those that the rules give. -/
theorem run_furthest (g : Grammar sort) (tokens : Array Token) (budget : Nat) (p : Parser sort α)
    (pos : Nat) (h : p.reply g tokens budget pos ≠ .exhausted) :
    ∃ fs, Task.Ends g tokens (.parse p pos) (p.reply g tokens budget pos) fs ∧
      p.run g (.furthest tokens) budget pos .start =
        (p.reply g tokens budget pos, .recordAll (fs.map Failure.note)) :=
  ⟨p.failures g tokens budget pos, ends_of_failures h, run_furthest_eq g tokens budget p pos .start⟩

end Parser

end Cam
