import Cam.Grammar.Parser

/-!
# Proofs/Grammar/Reading — what is kept of the failures has no say in a parse

One reading is carried to another by any map between their records that respects a single failure
(`Parser.follows_run`), also where other tokens stand before those of the first
(`Parser.shifts_run`).  So a parse may be studied under the reading that keeps every failure
(`Reading.tracing`), of which every other reading keeps its part (`Parser.run_eq_noteAll`), and its
reply alone under the reading that keeps none (`Reading.silent`), where the replies obey one
equation for each form of expression (`Parser.reply_seq` and so on).
-/

namespace Cam

/-- Something that was wanted at a place where it did not stand. -/
structure Failure where
  /-- The index of the token there. -/
  position : Nat
  wanted : Wanted
  deriving DecidableEq

namespace Reading

/-- The reading that keeps every failure, in the order in which they come up. -/
def tracing (tokens : Array Token) : Reading (List Failure) where
  tokens := tokens
  note pos wanted failures := failures ++ [⟨pos, wanted⟩]

/-- Takes failures into a record, in turn. -/
def noteAll {σ : Type} (r : Reading σ) (fs : List Failure) (record : σ) : σ :=
  fs.foldl (fun record f => r.note f.position f.wanted record) record

/-- The last failure is the last to come into the record. -/
theorem noteAll_append_singleton {σ : Type} (r : Reading σ) (fs : List Failure) (f : Failure)
    (record : σ) :
    r.noteAll (fs ++ [f]) record = r.note f.position f.wanted (r.noteAll fs record) := by
  rw [noteAll, List.foldl_append]
  rfl

/-- The reading that keeps nothing. -/
def silent (tokens : Array Token) : Reading Unit where
  tokens := tokens
  note _ _ _ := ()

@[simp] theorem tokens_tracing (tokens : Array Token) : (tracing tokens).tokens = tokens := rfl

@[simp] theorem tokens_silent (tokens : Array Token) : (silent tokens).tokens = tokens := rfl

end Reading

/-! ## One reading followed by another

The second reading may have other tokens before those of the first one.  Then everything takes place
that many places further on. -/

/-- The reply, `n` places further on. -/
def Reply.shift {α : Type} (n : Nat) : Reply α → Reply α
  | .matched value next => .matched value (n + next)
  | .noMatch => .noMatch
  | .exhausted => .exhausted

@[simp] theorem Reply.shift_zero {α : Type} (reply : Reply α) : reply.shift 0 = reply := by
  cases reply with
  | matched value next => rw [shift, Nat.zero_add]
  | noMatch => rfl
  | exhausted => rfl

/-- Running out of budget does not depend on the place. -/
theorem Reply.shift_eq_exhausted_iff {α : Type} {n : Nat} {reply : Reply α} :
    reply.shift n = .exhausted ↔ reply = .exhausted := by
  cases reply with
  | matched value next => exact ⟨nofun, nofun⟩
  | noMatch => exact ⟨nofun, nofun⟩
  | exhausted => exact ⟨fun _ => rfl, fun _ => rfl⟩

/-- The second reading has the tokens of the first one behind `n` others, and does to the image of a
record what the first one does to the record. -/
structure Reading.Shifts {σ τ : Type} (n : Nat) (φ : σ → τ) (r : Reading σ) (s : Reading τ) :
    Prop where
  size_eq : s.tokens.size = n + r.tokens.size
  getElem?_eq : ∀ pos, s.tokens[n + pos]? = r.tokens[pos]?
  note_eq : ∀ pos wanted record, s.note (n + pos) wanted (φ record) = φ (r.note pos wanted record)

namespace Attempt

variable {σ τ α β : Type} {n : Nat} {φ : σ → τ}

/-- `b` does to the image of a record what `a` does to the record, `n` places further on. -/
def Shifts (n : Nat) (φ : σ → τ) (a : Attempt σ α) (b : Attempt τ α) : Prop :=
  ∀ record, b (φ record) = ((a record).1.shift n, φ (a record).2)

/-- `b` does to the image of a record what `a` does to the record. -/
def Follows (φ : σ → τ) (a : Attempt σ α) (b : Attempt τ α) : Prop :=
  ∀ record, b (φ record) = ((a record).1, φ (a record).2)

namespace Shifts

/-- The ends of an attempt go together by themselves; a rejection does because the readings note
alike.
-/
theorem succeed (value : α) (next : Nat) :
    Shifts n φ (.succeed value next) (.succeed value (n + next)) := fun _ => rfl

theorem refuse : Shifts n φ (.refuse : Attempt σ α) .refuse := fun _ => rfl

theorem exhaust : Shifts n φ (.exhaust : Attempt σ α) .exhaust := fun _ => rfl

theorem reject {r : Reading σ} {s : Reading τ} (h : r.Shifts n φ s) (pos : Nat) (wanted : Wanted) :
    Shifts n φ (.reject (r.note pos wanted) : Attempt σ α) (.reject (s.note (n + pos) wanted)) :=
  fun record => congrArg (Prod.mk _) (h.note_eq pos wanted record)

/-- Attempts that go together, and go on together, stay together. -/
theorem elim {a : Attempt σ α} {b : Attempt τ α} (h : Shifts n φ a b)
    {hit : α → Nat → Attempt σ β} {hit' : α → Nat → Attempt τ β}
    (hhit : ∀ value next, Shifts n φ (hit value next) (hit' value (n + next)))
    {miss : Attempt σ β} {miss' : Attempt τ β} (hmiss : Shifts n φ miss miss') :
    Shifts n φ (a.elim hit miss) (b.elim hit' miss') := by
  intro record
  have hb := h record
  rcases ha : a record with ⟨⟨value, next⟩ | _ | _, record'⟩ <;> rw [ha] at hb
  · rw [elim_of_matched ha, elim_of_matched hb]
    exact hhit value next record'
  · rw [elim_of_noMatch ha, elim_of_noMatch hb]
    exact hmiss record'
  · rw [elim_of_exhausted ha, elim_of_exhausted hb]
    rfl

/-- The rounds of a chain go together if its items and its separators do. -/
theorem chain {item : Nat → Attempt σ α} {item' : Nat → Attempt τ α}
    {separator : Nat → Attempt σ (α → α → α)} {separator' : Nat → Attempt τ (α → α → α)}
    (hitem : ∀ pos, Shifts n φ (item pos) (item' (n + pos)))
    (hsep : ∀ pos, Shifts n φ (separator pos) (separator' (n + pos))) (budget : Nat) :
    ∀ left pos, Shifts n φ (chain item separator budget left pos)
      (chain item' separator' budget left (n + pos)) := by
  induction budget with
  | zero => exact fun _ _ => .exhaust
  | succ budget ih =>
    intro left pos
    exact (hsep pos).elim
      (fun join mid =>
        (hitem mid).elim (fun right next => ih (join left right) next) (.succeed left pos))
      (.succeed left pos)

end Shifts

end Attempt

namespace Parser

variable {ι : Type} {sort : ι → Type} {α σ τ : Type} {n : Nat} {φ : σ → τ} {r : Reading σ}
  {s : Reading τ}

/-- A terminal finds the same token `n` places further on. -/
theorem shifts_attemptToken (h : r.Shifts n φ s) (t : Terminal) (pos : Nat) :
    Attempt.Shifts n φ (attemptToken r t pos) (attemptToken s t (n + pos)) := by
  unfold attemptToken
  rw [h.getElem?_eq]
  rcases (r.tokens[pos]?).bind t.read? with _ | value
  · exact .reject h pos (.token t)
  · exact .succeed value (pos + 1)

/-- **A parse does the same whatever stands before the place where it begins**, and whatever is kept
of its failures. -/
theorem shifts_run (h : r.Shifts n φ s) (g : Grammar sort) (budget : Nat) (p : Parser sort α)
    (pos : Nat) : Attempt.Shifts n φ (p.run g r budget pos) (p.run g s budget (n + pos)) := by
  induction budget generalizing α p pos with
  | zero => exact .exhaust
  | succ budget ihBudget =>
    change Attempt.Shifts n φ (p.attempt r budget _ pos) (p.attempt s budget _ (n + pos))
    induction p generalizing pos with
    | token t => exact shifts_attemptToken h t pos
    | never => exact .refuse
    | seq p q ihp ihq =>
      exact (ihp pos).elim
        (fun a mid => (ihq mid).elim (fun b next => .succeed (a, b) next) .refuse) .refuse
    | alt p q ihp ihq => exact (ihp pos).elim (fun a next => .succeed a next) (ihq pos)
    | map f p ih => exact (ih pos).elim (fun a next => .succeed (f a) next) .refuse
    | chain item separator ihItem ihSep =>
      exact (ihItem pos).elim (Attempt.Shifts.chain ihItem ihSep budget) .refuse
    | opt p ih => exact (ih pos).elim (fun a next => .succeed (some a) next) (.succeed none pos)
    | phrase p ih =>
      refine (ih pos).elim (fun a next => ?_) .refuse
      rw [h.size_eq]
      by_cases hend : next = r.tokens.size
      · rw [if_pos hend, if_pos (congrArg (n + ·) hend)]
        exact .succeed a next
      · rw [if_neg hend, if_neg fun heq => hend (Nat.add_left_cancel heq)]
        exact .reject h next .endOfInput
    | rule i => exact ihBudget (g i) pos

/-- **A parse does the same whatever is kept of its failures.** -/
theorem follows_run (htokens : r.tokens = s.tokens)
    (hnote : ∀ pos wanted record, s.note pos wanted (φ record) = φ (r.note pos wanted record))
    (g : Grammar sort) (budget : Nat) (p : Parser sort α) (pos : Nat) :
    Attempt.Follows φ (p.run g r budget pos) (p.run g s budget pos) := by
  have hshifts : r.Shifts 0 φ s := by
    refine ⟨?_, fun pos => ?_, fun pos wanted record => ?_⟩
    · rw [htokens, Nat.zero_add]
    · rw [htokens, Nat.zero_add]
    · rw [Nat.zero_add, hnote]
  intro record
  have hrun := shifts_run hshifts g budget p pos record
  rwa [Nat.zero_add, Reply.shift_zero] at hrun

end Parser

/-! ## Replies alone -/

namespace Reply

variable {α β : Type}

/-- Goes on with `hit` after a match and with `miss` after none. -/
def elim (reply : Reply α) (hit : α → Nat → Reply β) (miss : Reply β) : Reply β :=
  match reply with
  | .matched value next => hit value next
  | .noMatch => miss
  | .exhausted => .exhausted

@[simp] theorem elim_matched (value : α) (next : Nat) (hit : α → Nat → Reply β) (miss : Reply β) :
    (matched value next).elim hit miss = hit value next := rfl

@[simp] theorem elim_noMatch (hit : α → Nat → Reply β) (miss : Reply β) :
    (noMatch : Reply α).elim hit miss = miss := rfl

@[simp] theorem elim_exhausted (hit : α → Nat → Reply β) (miss : Reply β) :
    (exhausted : Reply α).elim hit miss = .exhausted := rfl

end Reply

namespace Attempt

variable {α β : Type}

/-- The reply of an attempt that keeps no record. -/
def reply (a : Attempt Unit α) : Reply α := (a ()).1

@[simp] theorem reply_succeed (value : α) (next : Nat) :
    reply (.succeed value next) = .matched value next := rfl

@[simp] theorem reply_refuse : reply (.refuse : Attempt Unit α) = .noMatch := rfl

@[simp] theorem reply_reject (note : Unit → Unit) :
    reply (.reject note : Attempt Unit α) = .noMatch := rfl

@[simp] theorem reply_exhaust : reply (.exhaust : Attempt Unit α) = .exhausted := rfl

/-- The reply of an attempt that goes on is the reply of the way that it takes. -/
@[simp] theorem reply_elim (a : Attempt Unit α) (hit : α → Nat → Attempt Unit β)
    (miss : Attempt Unit β) :
    (a.elim hit miss).reply =
      a.reply.elim (fun value next => (hit value next).reply) miss.reply := by
  unfold reply
  rcases h : a () with ⟨⟨value, next⟩ | _ | _, ⟨⟩⟩
  · rw [elim_of_matched h]; rfl
  · rw [elim_of_noMatch h]; rfl
  · rw [elim_of_exhausted h]; rfl

end Attempt

namespace Parser

variable {ι : Type} {sort : ι → Type} {α β σ : Type}

/-- The reply of an expression at a place. -/
def reply (g : Grammar sort) (tokens : Array Token) (budget : Nat) (p : Parser sort α) (pos : Nat) :
    Reply α :=
  (p.run g (.silent tokens) budget pos).reply

/-- The reply of the rounds of a chain, of which there may be `rounds`. -/
def replyRounds (g : Grammar sort) (tokens : Array Token) (budget : Nat) (item : Parser sort α)
    (separator : Parser sort (α → α → α)) (rounds : Nat) (left : α) (pos : Nat) : Reply α :=
  (Attempt.chain (item.run g (.silent tokens) budget) (separator.run g (.silent tokens) budget)
    rounds left pos).reply

/-- Every reading of the same tokens gets the same reply. -/
theorem fst_run (g : Grammar sort) (r : Reading σ) (budget : Nat) (p : Parser sort α) (pos : Nat)
    (record : σ) : (p.run g r budget pos record).1 = p.reply g r.tokens budget pos := by
  have htokens : r.tokens = (Reading.silent r.tokens).tokens := rfl
  have hfollows : Attempt.Follows (fun _ => ()) (p.run g r budget pos)
      (p.run g (.silent r.tokens) budget pos) :=
    follows_run htokens (fun _ _ _ => rfl) g budget p pos
  exact (congrArg Prod.fst (hfollows record)).symm

/-- What is wanted in vain during a parse, in turn: the record of the reading that keeps every
failure. -/
def failures (g : Grammar sort) (tokens : Array Token) (budget : Nat) (p : Parser sort α)
    (pos : Nat) : List Failure :=
  (p.run g (.tracing tokens) budget pos []).2

/-- **Every reading takes the same failures into its record**, in the same order. -/
theorem run_eq_noteAll (g : Grammar sort) (r : Reading σ) (budget : Nat) (p : Parser sort α)
    (pos : Nat) (record : σ) : p.run g r budget pos record =
      (p.reply g r.tokens budget pos, r.noteAll (p.failures g r.tokens budget pos) record) := by
  have htokens : (Reading.tracing r.tokens).tokens = r.tokens := rfl
  have hfollows : Attempt.Follows (fun fs => r.noteAll fs record)
      (p.run g (.tracing r.tokens) budget pos) (p.run g r budget pos) :=
    follows_run htokens
      (fun pos wanted fs => (r.noteAll_append_singleton fs ⟨pos, wanted⟩ record).symm)
      g budget p pos
  have hreply := fst_run g (.tracing r.tokens) budget p pos []
  exact (hfollows []).trans (congrArg (Prod.mk · _) hreply)

section Equations

variable (g : Grammar sort) (tokens : Array Token) (budget : Nat) (pos : Nat)

/-- Without budget nothing can be told. -/
@[simp] theorem reply_zero (p : Parser sort α) : p.reply g tokens 0 pos = .exhausted := rfl

/-- A terminal matches by the token at the place, and by nothing else. -/
theorem reply_token (t : Terminal) :
    (token t : Parser sort t.Value).reply g tokens (budget + 1) pos =
      match (tokens[pos]?).bind t.read? with
      | some value => .matched value (pos + 1)
      | none => .noMatch := by
  change (attemptToken (.silent tokens) t pos).reply = _
  unfold attemptToken
  rw [Reading.tokens_silent]
  rcases (tokens[pos]?).bind t.read? with _ | value <;> rfl

@[simp] theorem reply_never :
    (never : Parser sort α).reply g tokens (budget + 1) pos = .noMatch := rfl

/-- A sequence goes on from where its first part ended. -/
theorem reply_seq (p : Parser sort α) (q : Parser sort β) :
    (seq p q).reply g tokens budget pos = (p.reply g tokens budget pos).elim
      (fun a mid => (q.reply g tokens budget mid).elim (fun b => .matched (a, b)) .noMatch)
      .noMatch := by
  rcases budget with _ | budget
  · rfl
  · refine (Attempt.reply_elim _ _ _).trans (congrArg (fun hit => Reply.elim _ hit _) ?_)
    exact funext fun a => funext fun mid => Attempt.reply_elim _ _ _

/-- The second alternative is tried from the place of the first one. -/
theorem reply_alt (p q : Parser sort α) :
    (alt p q).reply g tokens budget pos =
      (p.reply g tokens budget pos).elim .matched (q.reply g tokens budget pos) := by
  rcases budget with _ | budget
  · rfl
  · exact Attempt.reply_elim _ _ _

theorem reply_map (f : α → β) (p : Parser sort α) :
    (map f p).reply g tokens budget pos =
      (p.reply g tokens budget pos).elim (fun a => .matched (f a)) .noMatch := by
  rcases budget with _ | budget
  · rfl
  · exact Attempt.reply_elim _ _ _

/-- A chain is its first item and then its rounds, as many as the rest of the budget allows. -/
theorem reply_chain (item : Parser sort α) (separator : Parser sort (α → α → α)) :
    (chain item separator).reply g tokens budget pos = (item.reply g tokens budget pos).elim
      (replyRounds g tokens budget item separator (budget - 1)) .noMatch := by
  rcases budget with _ | budget
  · rfl
  · exact Attempt.reply_elim _ _ _

theorem reply_opt (p : Parser sort α) :
    (opt p).reply g tokens budget pos =
      (p.reply g tokens budget pos).elim (fun a => .matched (some a)) (.matched none pos) := by
  rcases budget with _ | budget
  · rfl
  · exact Attempt.reply_elim _ _ _

/-- A phrase matches only up to the end of the input. -/
theorem reply_phrase (p : Parser sort α) :
    (phrase p).reply g tokens budget pos = (p.reply g tokens budget pos).elim
      (fun a next => if next = tokens.size then .matched a next else .noMatch) .noMatch := by
  rcases budget with _ | budget
  · rfl
  · refine (Attempt.reply_elim _ _ _).trans (congrArg (fun hit => Reply.elim _ hit _) ?_)
    refine funext fun a => funext fun next => ?_
    rw [Reading.tokens_silent]
    split <;> rfl

/-- A rule is its expression, with one unit less of the budget. -/
@[simp] theorem reply_rule (i : ι) :
    (rule i : Parser sort (sort i)).reply g tokens (budget + 1) pos =
      (g i).reply g tokens budget pos := rfl

@[simp] theorem replyRounds_zero (item : Parser sort α) (separator : Parser sort (α → α → α))
    (left : α) : replyRounds g tokens budget item separator 0 left pos = .exhausted := rfl

/-- A round reads a separator and an item; without both the chain ends where the round began. -/
theorem replyRounds_succ (item : Parser sort α) (separator : Parser sort (α → α → α))
    (rounds : Nat) (left : α) :
    replyRounds g tokens budget item separator (rounds + 1) left pos =
      (separator.reply g tokens budget pos).elim
        (fun join mid => (item.reply g tokens budget mid).elim
          (fun right => replyRounds g tokens budget item separator rounds (join left right))
          (.matched left pos))
        (.matched left pos) := by
  refine (Attempt.reply_elim _ _ _).trans (congrArg (fun hit => Reply.elim _ hit _) ?_)
  exact funext fun join => funext fun mid => Attempt.reply_elim _ _ _

end Equations

end Parser

end Cam
