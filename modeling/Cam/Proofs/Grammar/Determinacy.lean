import Cam.Program.Grammar
import Cam.Proofs.Grammar.Furthest

/-!
# Proofs/Grammar/Determinacy — what a parse depends on

The expression, the tokens and the place decide how a parse goes; the budget and the record of
failures do not.  Of two budgets the larger one gives what the smaller one gives, unless that is
used up (`Parser.run_upTo`).  A parse that starts from a record adds to it the failures of the same
parse from no record (`Parser.run_furthest_eq`), and what has been added before changes nothing when
it is added again (`Furthest.addAll_of_covers`).  So a parse that is repeated leaves no trace
(`Parser.run_determined`).
-/

namespace Cam

/-! ## Two budgets -/

namespace Attempt

variable {σ α β : Type}

/-- The second attempt does what the first one does, unless the first one is out of budget. -/
def UpTo (a b : Attempt σ α) : Prop := ∀ record, (a record).1 = .exhausted ∨ b record = a record

namespace UpTo

theorem refl (a : Attempt σ α) : UpTo a a := fun _ => .inr rfl

theorem exhaust (b : Attempt σ α) : UpTo .exhaust b := fun _ => .inl rfl

theorem elim {a b : Attempt σ α} (h : UpTo a b) {hit hit' : α → Nat → Attempt σ β}
    (hhit : ∀ value next, UpTo (hit value next) (hit' value next)) {miss miss' : Attempt σ β}
    (hmiss : UpTo miss miss') : UpTo (a.elim hit miss) (b.elim hit' miss') := by
  intro record
  have hb := h record
  rcases ha : a record with ⟨⟨value, next⟩ | _ | _, record'⟩ <;> rw [ha] at hb
  · rw [elim_of_matched ha, elim_of_matched (hb.resolve_left nofun)]
    exact hhit value next record'
  · rw [elim_of_noMatch ha, elim_of_noMatch (hb.resolve_left nofun)]
    exact hmiss record'
  · rw [elim_of_exhausted ha]
    exact .inl rfl

theorem chain {item item' : Nat → Attempt σ α} {separator separator' : Nat → Attempt σ (α → α → α)}
    (hitem : ∀ pos, UpTo (item pos) (item' pos))
    (hsep : ∀ pos, UpTo (separator pos) (separator' pos)) {m n : Nat} (hmn : m ≤ n) (left : α)
    (pos : Nat) : UpTo (chain item separator m left pos) (chain item' separator' n left pos) := by
  induction m generalizing n left pos with
  | zero => exact .exhaust _
  | succ m ih =>
    obtain ⟨n, rfl⟩ := Nat.exists_eq_add_one.2 (Nat.lt_of_lt_of_le m.succ_pos hmn)
    have hmn := Nat.le_of_succ_le_succ hmn
    exact (hsep pos).elim
      (fun join mid => (hitem mid).elim (fun right next => ih hmn _ next) (.refl _)) (.refl _)

end UpTo

end Attempt

namespace Parser

variable {ι : Type} {sort : ι → Type} {α σ : Type}

open Attempt (UpTo)

/-- **A larger budget gives what a smaller one gives.** -/
theorem run_upTo (g : Grammar sort) (r : Reading σ) {m n : Nat} (hmn : m ≤ n) (p : Parser sort α)
    (pos : Nat) : UpTo (p.run g r m pos) (p.run g r n pos) := by
  induction m generalizing n α p pos with
  | zero => exact .exhaust _
  | succ m ihBudget =>
    obtain ⟨n, rfl⟩ := Nat.exists_eq_add_one.2 (Nat.lt_of_lt_of_le m.succ_pos hmn)
    have hmn := Nat.le_of_succ_le_succ hmn
    change UpTo (p.attempt r m _ pos) (p.attempt r n _ pos)
    induction p generalizing pos with
    | token t => exact .refl _
    | never => exact .refl _
    | seq p q ihp ihq =>
      exact (ihp pos).elim (fun a mid => (ihq mid).elim (fun b next => .refl _) (.refl _)) (.refl _)
    | alt p q ihp ihq => exact (ihp pos).elim (fun a next => .refl _) (ihq pos)
    | map f p ih => exact (ih pos).elim (fun a next => .refl _) (.refl _)
    | chain item separator ihItem ihSep =>
      exact (ihItem pos).elim (UpTo.chain ihItem ihSep hmn) (.refl _)
    | opt p ih => exact (ih pos).elim (fun a next => .refl _) (.refl _)
    | phrase p ih => exact (ih pos).elim (fun a next => .refl _) (.refl _)
    | rule i => exact ihBudget hmn (g i) pos

/-- Budgets that suffice give the same. -/
theorem run_eq_run {g : Grammar sort} {r : Reading σ} {m n : Nat} {p : Parser sort α} {pos : Nat}
    (hm : p.reply g r.tokens m pos ≠ .exhausted) (hn : p.reply g r.tokens n pos ≠ .exhausted) :
    p.run g r m pos = p.run g r n pos := by
  funext record
  rw [← fst_run g r m p pos record] at hm
  rw [← fst_run g r n p pos record] at hn
  rcases Nat.le_total m n with hmn | hnm
  · exact ((run_upTo g r hmn p pos record).resolve_left hm).symm
  · exact (run_upTo g r hnm p pos record).resolve_left hn

end Parser

/-! ## Failures that are recorded again -/

namespace Furthest

/-- The failure is nearer than those of the record, or is one of them. -/
def Covers (f : Furthest) (note : Nat × String) : Prop :=
  note.1 < f.position ∨ note.1 = f.position ∧ note.2 ∈ f.expected

variable {f : Furthest} {note : Nat × String} {notes : List (Nat × String)}

/-- A failure that is covered changes nothing. -/
theorem Covers.record_eq (h : f.Covers note) : f.record note.1 note.2 = f := by
  rcases h with hlt | ⟨heq, hmem⟩
  · exact record_of_gt hlt
  · rw [heq, record_here, insert, if_pos hmem]

/-- A failure is covered once it is recorded. -/
theorem covers_record (f : Furthest) (note : Nat × String) :
    (f.record note.1 note.2).Covers note := by
  obtain ⟨pos, d⟩ := note
  rcases Nat.lt_trichotomy f.position pos with hlt | rfl | hgt
  · rw [record_of_lt hlt]
    exact .inr ⟨rfl, List.mem_singleton_self _⟩
  · rw [record_here]
    exact .inr ⟨rfl, mem_insert.2 (.inr rfl)⟩
  · rw [record_of_gt hgt]
    exact .inl hgt

/-- What is covered stays covered, whatever is recorded. -/
theorem Covers.record (h : f.Covers note) (pos : Nat) (d : String) :
    (f.record pos d).Covers note := by
  rcases Nat.lt_trichotomy f.position pos with hlt | rfl | hgt
  · rw [record_of_lt hlt]
    exact .inl (h.elim (Nat.lt_trans · hlt) fun hhere => hhere.1 ▸ hlt)
  · rw [record_here]
    exact h.imp_right fun hhere => ⟨hhere.1, mem_insert.2 (.inl hhere.2)⟩
  · rwa [record_of_gt hgt]

theorem Covers.addAll (h : f.Covers note) (notes : List (Nat × String)) :
    (f.addAll notes).Covers note := by
  induction notes generalizing f with
  | nil => exact h
  | cons first rest ih => exact ih (h.record first.1 first.2)

/-- All failures are covered once they are added. -/
theorem covers_addAll (f : Furthest) (notes : List (Nat × String)) :
    ∀ note ∈ notes, (f.addAll notes).Covers note := by
  induction notes generalizing f with
  | nil => exact List.forall_mem_nil _
  | cons first rest ih =>
    have hfirst : (f.addAll (first :: rest)).Covers first := (covers_record f first).addAll rest
    exact List.forall_mem_cons.2 ⟨hfirst, ih (f.record first.1 first.2)⟩

/-- **Failures that are covered change nothing.** -/
theorem addAll_of_covers (h : ∀ note ∈ notes, f.Covers note) : f.addAll notes = f := by
  induction notes with
  | nil => rfl
  | cons first rest ih =>
    obtain ⟨hfirst, hrest⟩ := List.forall_mem_cons.1 h
    rw [addAll, List.foldl_cons, hfirst.record_eq]
    exact ih hrest

end Furthest

/-! ## A parse from any record -/

namespace Parser

variable {ι : Type} {sort : ι → Type} {α : Type}

/-- **What is kept of the failures has no say in a parse.**  A parse that ends has one reply and one
sequence of failures, each a place and a description, which belong to the expression, the tokens and
the place: with every budget that suffices, and all large ones do, it gives that reply whatever was
recorded before, and adds those failures to the record in turn.  Once more, it gives the reply again
and leaves the record as it is. -/
theorem run_determined (g : Grammar sort) (tokens : Array Token) (p : Parser sort α) (pos : Nat)
    (h : ∃ budget record, (p.run g (.furthest tokens) budget pos record).1 ≠ .exhausted) :
    ∃ reply notes, reply ≠ .exhausted ∧
      (∀ budget record, (p.run g (.furthest tokens) budget pos record).1 = .exhausted ∨
        p.run g (.furthest tokens) budget pos record = (reply, record.addAll notes)) ∧
      (∃ enough, ∀ budget, enough ≤ budget → ∀ record,
        p.run g (.furthest tokens) budget pos record = (reply, record.addAll notes)) ∧
      ∀ budget record record', p.run g (.furthest tokens) budget pos record = (reply, record') →
        p.run g (.furthest tokens) budget pos record' = (reply, record') := by
  have hfst : ∀ budget record, (p.run g (.furthest tokens) budget pos record).1 =
      p.reply g tokens budget pos := fun budget => fst_run g (.furthest tokens) budget p pos
  obtain ⟨enough, record₀, hreply⟩ := h
  rw [hfst] at hreply
  have hrun : ∀ budget record, p.reply g tokens budget pos ≠ .exhausted →
      p.run g (.furthest tokens) budget pos record =
        (p.reply g tokens enough pos, record.addAll (p.notes g tokens enough pos)) := by
    intro budget record hbudget
    rw [run_eq_run (r := .furthest tokens) hbudget hreply, run_furthest_eq]
  refine ⟨p.reply g tokens enough pos, p.notes g tokens enough pos, hreply, fun budget record => ?_,
    ⟨enough, fun budget hle record => ?_⟩, fun budget record record' hfirst => ?_⟩
  · rw [hfst]
    exact (Classical.em _).imp_right (hrun budget record)
  · have hsame := run_upTo g (.furthest tokens) hle p pos record
    rw [hfst] at hsame
    rw [hsame.resolve_left hreply, run_furthest_eq]
  · have hbudget : p.reply g tokens budget pos ≠ .exhausted := by
      rwa [← hfst budget record, hfirst]
    have hrecord : record' = record.addAll (p.notes g tokens enough pos) :=
      congrArg Prod.snd (hfirst.symm.trans (hrun budget record hbudget))
    rw [hrun budget record' hbudget, hrecord,
      Furthest.addAll_of_covers (Furthest.covers_addAll _ _)]

/-- A program that breaks off after its first word.  What was recorded before stays in front. -/
theorem run_determined_print :
    let tokens : Array Token := #[⟨"print", .reserved⟩]
    Program.whole.run Program.grammar (.furthest tokens) 16 0 ⟨1, ["'='"]⟩ =
      (.noMatch, ⟨1, ["'='", "string literal", "integer", "identifier", "'('"]⟩) ∧
    ∃ notes, ∀ record, Program.whole.run Program.grammar (.furthest tokens) 16 0 record =
      (.noMatch, Furthest.addAll record notes) := by
  intro tokens
  have hrun : Program.whole.run Program.grammar (.furthest tokens) 16 0 ⟨1, ["'='"]⟩ =
      (.noMatch, ⟨1, ["'='", "string literal", "integer", "identifier", "'('"]⟩) := by
    decide +kernel
  have hreply : ∀ record,
      (Program.whole.run Program.grammar (.furthest tokens) 16 0 record).1 = .noMatch := by
    intro record
    rw [fst_run, ← fst_run _ _ _ _ _ ⟨1, ["'='"]⟩, hrun]
  obtain ⟨reply, notes, -, hsame, -⟩ :=
    run_determined Program.grammar tokens Program.whole 0 ⟨16, .start, by rw [hreply]; nofun⟩
  have hsame : ∀ record, Program.whole.run Program.grammar (.furthest tokens) 16 0 record =
      (reply, record.addAll notes) := fun record =>
    (hsame 16 record).resolve_left (by rw [hreply]; nofun)
  obtain rfl : .noMatch = reply := congrArg Prod.fst (hrun.symm.trans (hsame _))
  exact ⟨hrun, notes, hsame⟩

end Parser

end Cam
