import Cam.Proofs.Grammar.Reading

/-!
# Proofs/Grammar/Trace — a parse by rules

`Task.Ends` describes a parse by rules, one for each way in which an expression can match or fail,
with everything that was wanted in vain on the way and without a budget.  `Parser.ends_of_run`
derives the rules from the run; what holds of every parse is then proved by induction on them.
-/

namespace Cam

/-! ## The rules

A parse has two kinds of task: to match an expression at a place, and to go on with the rounds of a
chain of which a first part has been read.  A task that ends does so in a match or in none; the
failures are those of its parts, in order. -/

/-- What a parse can have before it. -/
inductive Task {ι : Type} (sort : ι → Type) (α : Type) : Type 1 where
  /-- To match the expression at the place. -/
  | parse (p : Parser sort α) (pos : Nat)
  /-- To go on with a chain that has been read up to the place. -/
  | rounds (item : Parser sort α) (separator : Parser sort (α → α → α)) (left : α) (pos : Nat)

/-- How a task ends: its reply, and what was wanted in vain on the way. -/
inductive Task.Ends {ι : Type} {sort : ι → Type} (g : Grammar sort) (tokens : Array Token) :
    {α : Type} → Task sort α → Reply α → List Failure → Prop where
  | token {t : Terminal} {pos : Nat} {value : t.Value}
      (h : (tokens[pos]?).bind t.read? = some value) :
      Ends g tokens (.parse (.token t) pos) (.matched value (pos + 1)) []
  | token_miss {t : Terminal} {pos : Nat} (h : (tokens[pos]?).bind t.read? = none) :
      Ends g tokens (.parse (.token t) pos) .noMatch [⟨pos, .token t⟩]
  | never {α : Type} {pos : Nat} : Ends g tokens (.parse (.never : Parser sort α) pos) .noMatch []
  | seq {α β : Type} {p : Parser sort α} {q : Parser sort β} {pos mid next : Nat} {a : α} {b : β}
      {fs fs' : List Failure} (first : Ends g tokens (.parse p pos) (.matched a mid) fs)
      (second : Ends g tokens (.parse q mid) (.matched b next) fs') :
      Ends g tokens (.parse (.seq p q) pos) (.matched (a, b) next) (fs ++ fs')
  | seq_miss_first {α β : Type} {p : Parser sort α} {q : Parser sort β} {pos : Nat}
      {fs : List Failure} (first : Ends g tokens (.parse p pos) .noMatch fs) :
      Ends g tokens (.parse (.seq p q) pos) .noMatch fs
  | seq_miss_second {α β : Type} {p : Parser sort α} {q : Parser sort β} {pos mid : Nat} {a : α}
      {fs fs' : List Failure} (first : Ends g tokens (.parse p pos) (.matched a mid) fs)
      (second : Ends g tokens (.parse q mid) .noMatch fs') :
      Ends g tokens (.parse (.seq p q) pos) .noMatch (fs ++ fs')
  | alt_first {α : Type} {p q : Parser sort α} {pos next : Nat} {a : α} {fs : List Failure}
      (first : Ends g tokens (.parse p pos) (.matched a next) fs) :
      Ends g tokens (.parse (.alt p q) pos) (.matched a next) fs
  | alt_second {α : Type} {p q : Parser sort α} {pos : Nat} {reply : Reply α}
      {fs fs' : List Failure} (first : Ends g tokens (.parse p pos) .noMatch fs)
      (second : Ends g tokens (.parse q pos) reply fs') :
      Ends g tokens (.parse (.alt p q) pos) reply (fs ++ fs')
  | map {α β : Type} {f : α → β} {p : Parser sort α} {pos next : Nat} {a : α} {fs : List Failure}
      (inner : Ends g tokens (.parse p pos) (.matched a next) fs) :
      Ends g tokens (.parse (.map f p) pos) (.matched (f a) next) fs
  | map_miss {α β : Type} {f : α → β} {p : Parser sort α} {pos : Nat} {fs : List Failure}
      (inner : Ends g tokens (.parse p pos) .noMatch fs) :
      Ends g tokens (.parse (.map f p) pos) .noMatch fs
  | chain {α : Type} {item : Parser sort α} {separator : Parser sort (α → α → α)} {pos mid : Nat}
      {left : α} {reply : Reply α} {fs fs' : List Failure}
      (first : Ends g tokens (.parse item pos) (.matched left mid) fs)
      (others : Ends g tokens (.rounds item separator left mid) reply fs') :
      Ends g tokens (.parse (.chain item separator) pos) reply (fs ++ fs')
  | chain_miss {α : Type} {item : Parser sort α} {separator : Parser sort (α → α → α)} {pos : Nat}
      {fs : List Failure} (first : Ends g tokens (.parse item pos) .noMatch fs) :
      Ends g tokens (.parse (.chain item separator) pos) .noMatch fs
  | opt {α : Type} {p : Parser sort α} {pos next : Nat} {a : α} {fs : List Failure}
      (inner : Ends g tokens (.parse p pos) (.matched a next) fs) :
      Ends g tokens (.parse (.opt p) pos) (.matched (some a) next) fs
  | opt_miss {α : Type} {p : Parser sort α} {pos : Nat} {fs : List Failure}
      (inner : Ends g tokens (.parse p pos) .noMatch fs) :
      Ends g tokens (.parse (.opt p) pos) (.matched none pos) fs
  | phrase {α : Type} {p : Parser sort α} {pos next : Nat} {a : α} {fs : List Failure}
      (inner : Ends g tokens (.parse p pos) (.matched a next) fs) (h : next = tokens.size) :
      Ends g tokens (.parse (.phrase p) pos) (.matched a next) fs
  | phrase_miss {α : Type} {p : Parser sort α} {pos : Nat} {fs : List Failure}
      (inner : Ends g tokens (.parse p pos) .noMatch fs) :
      Ends g tokens (.parse (.phrase p) pos) .noMatch fs
  | phrase_miss_end {α : Type} {p : Parser sort α} {pos next : Nat} {a : α} {fs : List Failure}
      (inner : Ends g tokens (.parse p pos) (.matched a next) fs) (h : next ≠ tokens.size) :
      Ends g tokens (.parse (.phrase p) pos) .noMatch (fs ++ [⟨next, .endOfInput⟩])
  | rule {i : ι} {pos : Nat} {reply : Reply (sort i)} {fs : List Failure}
      (body : Ends g tokens (.parse (g i) pos) reply fs) :
      Ends g tokens (.parse (.rule i) pos) reply fs
  | rounds_done {α : Type} {item : Parser sort α} {separator : Parser sort (α → α → α)}
      {left : α} {pos : Nat} {fs : List Failure}
      (stop : Ends g tokens (.parse separator pos) .noMatch fs) :
      Ends g tokens (.rounds item separator left pos) (.matched left pos) fs
  /-- A separator without an item after it stays unread. -/
  | rounds_back {α : Type} {item : Parser sort α} {separator : Parser sort (α → α → α)}
      {left : α} {pos mid : Nat} {join : α → α → α} {fs fs' : List Failure}
      (go : Ends g tokens (.parse separator pos) (.matched join mid) fs)
      (stop : Ends g tokens (.parse item mid) .noMatch fs') :
      Ends g tokens (.rounds item separator left pos) (.matched left pos) (fs ++ fs')
  | rounds_more {α : Type} {item : Parser sort α} {separator : Parser sort (α → α → α)}
      {left right : α} {pos mid next : Nat} {join : α → α → α} {reply : Reply α}
      {fs fs' fs'' : List Failure}
      (go : Ends g tokens (.parse separator pos) (.matched join mid) fs)
      (item_next : Ends g tokens (.parse item mid) (.matched right next) fs')
      (others : Ends g tokens (.rounds item separator (join left right) next) reply fs'') :
      Ends g tokens (.rounds item separator left pos) reply (fs ++ fs' ++ fs'')

namespace Task.Ends

variable {ι : Type} {sort : ι → Type} {α : Type} {g : Grammar sort} {tokens : Array Token}

/-- A phrase ends with its expression, unless that matches only a part of the input. -/
theorem of_phrase {p : Parser sort α} {pos : Nat} {reply : Reply α} {fs : List Failure}
    (h : Ends g tokens (.parse (.phrase p) pos) reply fs) :
    (∃ a, reply = .matched a tokens.size ∧ Ends g tokens (.parse p pos) reply fs) ∨
    (reply = .noMatch ∧ Ends g tokens (.parse p pos) .noMatch fs) ∨
    ∃ a next fs', reply = .noMatch ∧ next ≠ tokens.size ∧ fs = fs' ++ [⟨next, .endOfInput⟩] ∧
      Ends g tokens (.parse p pos) (.matched a next) fs' := by
  cases h with
  | phrase inner hnext => exact .inl ⟨_, by rw [hnext], inner⟩
  | phrase_miss inner => exact .inr (.inl ⟨rfl, inner⟩)
  | phrase_miss_end inner hnext => exact .inr (.inr ⟨_, _, _, rfl, hnext, rfl, inner⟩)

end Task.Ends

/-! ## A run goes by the rules -/

namespace Attempt

variable {α β : Type}

/-- After the failures `before` the attempt only adds more, and unless the budget runs out its reply
and the failures by then are as `Q` says. -/
def Ensures (before : List Failure) (a : Attempt (List Failure) α)
    (Q : Reply α → List Failure → Prop) : Prop :=
  ∀ record, ∃ reply more, a record = (reply, record ++ more) ∧
    (reply = .exhausted ∨ Q reply (before ++ more))

variable {Q : Reply α → List Failure → Prop} {before : List Failure}

theorem Ensures.exhaust : Ensures before .exhaust Q := fun record =>
  ⟨_, [], by rw [List.append_nil]; rfl, .inl rfl⟩

/-- An end that records nothing ensures what holds of the failures so far. -/
theorem Ensures.succeed {value : α} {next : Nat} (h : Q (.matched value next) before) :
    Ensures before (.succeed value next) Q := fun record =>
  ⟨_, [], by rw [List.append_nil]; rfl, .inr (by rwa [List.append_nil])⟩

theorem Ensures.refuse (h : Q .noMatch before) : Ensures before .refuse Q := fun record =>
  ⟨_, [], by rw [List.append_nil]; rfl, .inr (by rwa [List.append_nil])⟩

/-- A rejection ensures what holds of the failures so far and one more. -/
theorem Ensures.reject {tokens : Array Token} {pos : Nat} {wanted : Wanted}
    (h : Q .noMatch (before ++ [⟨pos, wanted⟩])) :
    Ensures before (.reject ((Reading.tracing tokens).note pos wanted)) Q := fun _ =>
  ⟨_, _, rfl, .inr h⟩

/-- What an attempt ensures by itself, it ensures behind other failures. -/
theorem Ensures.after {a : Attempt (List Failure) α} {P : Reply α → List Failure → Prop}
    (ha : Ensures [] a P) (h : ∀ reply fs, P reply fs → Q reply (before ++ fs)) :
    Ensures before a Q := by
  intro record
  obtain ⟨reply, fs, heq, hP⟩ := ha record
  exact ⟨reply, fs, heq, hP.imp_right (h reply fs)⟩

/-- An attempt that goes on ensures what both ways ensure, behind the failures of its first part. -/
theorem Ensures.elim {a : Attempt (List Failure) α} {P : Reply α → List Failure → Prop}
    (ha : Ensures [] a P) {hit : α → Nat → Attempt (List Failure) β}
    {miss : Attempt (List Failure) β} {R : Reply β → List Failure → Prop}
    (hhit : ∀ value next fs, P (.matched value next) fs →
      Ensures (before ++ fs) (hit value next) R)
    (hmiss : ∀ fs, P .noMatch fs → Ensures (before ++ fs) miss R) :
    Ensures before (a.elim hit miss) R := by
  intro record
  obtain ⟨reply, fs, heq, hP⟩ := ha record
  rcases reply with ⟨value, next⟩ | _ | _
  · obtain ⟨reply', more, heq', hR⟩ :=
      hhit value next fs (hP.resolve_left (by simp)) (record ++ fs)
    rw [List.append_assoc] at heq' hR
    exact ⟨reply', fs ++ more, by rw [elim_of_matched heq, heq'], hR⟩
  · obtain ⟨reply', more, heq', hR⟩ := hmiss fs (hP.resolve_left (by simp)) (record ++ fs)
    rw [List.append_assoc] at heq' hR
    exact ⟨reply', fs ++ more, by rw [elim_of_noMatch heq, heq'], hR⟩
  · exact ⟨_, fs, elim_of_exhausted heq _ _, .inl rfl⟩

end Attempt

namespace Parser

open Attempt (Ensures)

variable {ι : Type} {sort : ι → Type} {α : Type} {g : Grammar sort} {tokens : Array Token}

theorem ensures_attemptToken (t : Terminal) (pos : Nat) :
    Ensures [] (attemptToken (.tracing tokens) t pos)
      (Task.Ends g tokens (.parse (.token t) pos)) := by
  unfold attemptToken
  rw [Reading.tokens_tracing]
  rcases h : (tokens[pos]?).bind t.read? with _ | value
  · exact .reject (.token_miss h)
  · exact .succeed (.token h)

/-- The rounds of a chain go by the rules, if its items and its separators do. -/
theorem ensures_chain {item : Parser sort α} {separator : Parser sort (α → α → α)}
    {item' : Nat → Attempt (List Failure) α} {separator' : Nat → Attempt (List Failure) (α → α → α)}
    (hitem : ∀ pos, Ensures [] (item' pos) (Task.Ends g tokens (.parse item pos)))
    (hsep : ∀ pos, Ensures [] (separator' pos) (Task.Ends g tokens (.parse separator pos)))
    (budget : Nat) : ∀ left pos, Ensures [] (Attempt.chain item' separator' budget left pos)
      (Task.Ends g tokens (.rounds item separator left pos)) := by
  induction budget with
  | zero => exact fun _ _ => .exhaust
  | succ budget ih =>
    intro left pos
    refine (hsep pos).elim (fun join mid fs go => ?_) fun fs stop => .succeed (.rounds_done stop)
    refine (hitem mid).elim (fun right next fs' more => ?_)
      fun fs' stop => .succeed (.rounds_back go stop)
    exact (ih (join left right) next).after fun reply fs'' others => .rounds_more go more others

/-- **A run that does not use up its budget goes by the rules**, by induction on the budget, which
only a rule takes a unit off, and within one budget on the expression. -/
theorem ends_of_run (g : Grammar sort) (tokens : Array Token) (budget : Nat) (p : Parser sort α)
    (pos : Nat) :
    Ensures [] (p.run g (.tracing tokens) budget pos) (Task.Ends g tokens (.parse p pos)) := by
  induction budget generalizing α p pos with
  | zero => exact .exhaust
  | succ budget ihBudget =>
    change Ensures [] (p.attempt (.tracing tokens) budget _ pos) _
    induction p generalizing pos with
    | token t => exact ensures_attemptToken t pos
    | never => exact .refuse .never
    | seq p q ihp ihq =>
      refine (ihp pos).elim (fun a mid fs first => ?_)
        fun fs first => .refuse (.seq_miss_first first)
      exact (ihq mid).elim (fun b next fs' second => .succeed (.seq first second))
        fun fs' second => .refuse (.seq_miss_second first second)
    | alt p q ihp ihq =>
      refine (ihp pos).elim (fun a next fs first => .succeed (.alt_first first)) fun fs first => ?_
      exact (ihq pos).after fun reply fs' second => .alt_second first second
    | map f p ih =>
      exact (ih pos).elim (fun a next fs inner => .succeed (.map inner))
        fun fs inner => .refuse (.map_miss inner)
    | chain item separator ihItem ihSep =>
      refine (ihItem pos).elim (fun left mid fs first => ?_)
        fun fs first => .refuse (.chain_miss first)
      exact (ensures_chain ihItem ihSep budget left mid).after
        fun reply fs' others => .chain first others
    | opt p ih =>
      exact (ih pos).elim (fun a next fs inner => .succeed (.opt inner))
        fun fs inner => .succeed (.opt_miss inner)
    | phrase p ih =>
      refine (ih pos).elim (fun a next fs inner => ?_) fun fs inner => .refuse (.phrase_miss inner)
      split
      next h => exact .succeed (.phrase inner h)
      next h => exact .reject (.phrase_miss_end inner h)
    | rule i => exact (ihBudget (g i) pos).after fun reply fs body => .rule body

/-- A reply that is no exhaustion comes about by the rules, with the failures of the run. -/
theorem ends_of_failures {budget : Nat} {p : Parser sort α} {pos : Nat}
    (h : p.reply g tokens budget pos ≠ .exhausted) :
    Task.Ends g tokens (.parse p pos) (p.reply g tokens budget pos)
      (p.failures g tokens budget pos) := by
  obtain ⟨reply, fs, heq, hends⟩ := ends_of_run g tokens budget p pos []
  have hfst := fst_run g (.tracing tokens) budget p pos []
  rw [heq, Reading.tokens_tracing] at hfst
  obtain rfl : reply = p.reply g tokens budget pos := hfst
  rw [failures, heq]
  exact hends.resolve_left h

theorem ends_of_reply {budget : Nat} {p : Parser sort α} {pos : Nat} {reply : Reply α}
    (h : p.reply g tokens budget pos = reply) (hreply : reply ≠ .exhausted) :
    ∃ fs, Task.Ends g tokens (.parse p pos) reply fs := by
  subst h
  exact ⟨_, ends_of_failures hreply⟩

end Parser

end Cam
