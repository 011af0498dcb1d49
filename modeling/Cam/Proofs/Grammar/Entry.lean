import Cam.Proofs.Grammar.Budget
import Mathlib.Logic.Relation

/-!
# Proofs/Grammar/Entry — at which places a parse enters its rules

A parse that goes down through rules comes back to a rule only with a token read in between.  To say
so, an expression is tried with a callback that logs each rule it is asked for, with its place
(`Parser.entered`).  What is entered at the place where the expression began stands first in it
(`Parser.mem_entered`), so along a descent either the place grows or the rank falls
(`Grammar.Ranked.descends`), and a rule is entered inside itself only further on
(`Grammar.Ranked.lt_of_reenters`).  The rounds of a chain move on in the same way, wherever the
chain stands (`Parser.Within`, `Grammar.Ranked.lt_of_round`).
-/

namespace Cam

/-! ## Attempts that keep a log -/

/-- The reading that keeps no failure, whatever else there is in its record. -/
def Reading.quiet {σ : Type} (tokens : Array Token) : Reading σ where
  tokens := tokens
  note _ _ record := record

@[simp] theorem Reading.tokens_quiet {σ : Type} (tokens : Array Token) :
    (quiet tokens : Reading σ).tokens = tokens := rfl

namespace Attempt

variable {γ α β : Type} {Q : γ → Prop}

/-- The attempt gives that reply and adds to the log, and only entries as `Q` says. -/
def Logs (a : Attempt (List γ) α) (reply : Reply α) (Q : γ → Prop) : Prop :=
  ∀ log, ∃ more, a log = (reply, log ++ more) ∧ ∀ entry ∈ more, Q entry

namespace Logs

/-- An attempt that leaves the log as it is. -/
theorem of_eq {a : Attempt (List γ) α} {reply : Reply α} (h : ∀ log, a log = (reply, log)) :
    Logs a reply Q := fun log =>
  ⟨[], by rw [h, List.append_nil], List.forall_mem_nil _⟩

theorem mono {a : Attempt (List γ) α} {reply : Reply α} {P : γ → Prop} (h : Logs a reply P)
    (hsub : ∀ entry, P entry → Q entry) : Logs a reply Q := by
  intro log
  obtain ⟨more, heq, hmore⟩ := h log
  exact ⟨more, heq, fun entry hentry => hsub entry (hmore entry hentry)⟩

/-- Whatever comes after an attempt is logged behind what the attempt has logged. -/
theorem elim {a : Attempt (List γ) α} {reply : Reply α} (ha : Logs a reply Q)
    {hit : α → Nat → Attempt (List γ) β} {hit' : α → Nat → Reply β}
    (hhit : ∀ value next, reply = .matched value next → Logs (hit value next) (hit' value next) Q)
    {miss : Attempt (List γ) β} {miss' : Reply β} (hmiss : Logs miss miss' Q) :
    Logs (a.elim hit miss) (reply.elim hit' miss') Q := by
  intro log
  obtain ⟨more, heq, hmore⟩ := ha log
  have hafter {b : Attempt (List γ) β} {reply' : Reply β} (hb : Logs b reply' Q) :
      ∃ all, b (log ++ more) = (reply', log ++ all) ∧ ∀ entry ∈ all, Q entry := by
    obtain ⟨rest, hrest, hQ⟩ := hb (log ++ more)
    exact ⟨more ++ rest, by rw [hrest, List.append_assoc], List.forall_mem_append.2 ⟨hmore, hQ⟩⟩
  rcases reply with ⟨value, next⟩ | _ | _
  · rw [elim_of_matched heq]
    exact hafter (hhit value next rfl)
  · rw [elim_of_noMatch heq]
    exact hafter hmiss
  · exact ⟨more, elim_of_exhausted heq hit miss, hmore⟩

end Logs

end Attempt

/-! ## The rules that are entered -/

namespace Parser

open Attempt (Logs)

variable {ι : Type} {sort : ι → Type} {α : Type}

/-- Gives the reply of a rule at a place, and logs that it was entered there. -/
def enter (g : Grammar sort) (tokens : Array Token) (budget : Nat) (i : ι) (place : Nat) :
    Attempt (List (ι × Nat)) (sort i) := fun log =>
  ((g i).reply g tokens budget place, log ++ [(i, place)])

/-- The rules that are entered while an expression is tried, each with its place.  Those that are
entered inside of these are not among them. -/
def entered (g : Grammar sort) (tokens : Array Token) (budget : Nat) (p : Parser sort α)
    (pos : Nat) : List (ι × Nat) :=
  (p.attempt (.quiet tokens) budget (enter g tokens budget) pos []).2

section Entered

variable {g : Grammar sort} {tokens : Array Token} {budget : Nat}

/-- The rounds of a chain that has left its start behind enter rules beyond that start only. -/
theorem logs_chain {item : Parser sort α} {separator : Parser sort (α → α → α)}
    {item' : Nat → Attempt (List (ι × Nat)) α}
    {separator' : Nat → Attempt (List (ι × Nat)) (α → α → α)} {start : Nat}
    (hitem : ∀ pos, start < pos →
      Logs (item' pos) (item.reply g tokens budget pos) fun entry => start < entry.2)
    (hsep : ∀ pos, start < pos →
      Logs (separator' pos) (separator.reply g tokens budget pos) fun entry => start < entry.2)
    (rounds : Nat) (left : α) {pos : Nat} (hpos : start < pos) :
    Logs (Attempt.chain item' separator' rounds left pos)
      (replyRounds g tokens budget item separator rounds left pos)
      fun entry => start < entry.2 := by
  induction rounds generalizing left pos with
  | zero => exact .of_eq fun _ => rfl
  | succ rounds ih =>
    rw [replyRounds_succ]
    refine (hsep pos hpos).elim (fun join mid hjoin => ?_) (.of_eq fun _ => rfl)
    have hmid : start < mid := Nat.lt_of_lt_of_le hpos (le_next hjoin).1
    refine (hitem mid hmid).elim (fun right next hright => ?_) (.of_eq fun _ => rfl)
    exact ih (join left right) (Nat.lt_of_lt_of_le hmid (le_next hright).1)

/-- **A parse enters rules where it begins or further on**, and where it begins only those that may
stand first.  The second part of a sequence is tried there only if the first one reads nothing. -/
theorem logs_attempt (tokens : Array Token) (budget : Nat) (hg : ∀ i, (g i).consumes)
    {p : Parser sort α} (hsteady : p.steady) (pos : Nat) :
    Logs (p.attempt (.quiet tokens) budget (enter g tokens budget) pos)
      (p.reply g tokens (budget + 1) pos)
      fun entry => pos ≤ entry.2 ∧ (entry.2 = pos → entry.1 ∈ p.heads) := by
  induction p generalizing pos with
  | token t =>
    refine .of_eq fun log => ?_
    rw [reply_token]
    change attemptToken (.quiet tokens) t pos log = _
    unfold attemptToken
    rw [Reading.tokens_quiet]
    rcases (tokens[pos]?).bind t.read? with _ | value <;> rfl
  | never => exact .of_eq fun _ => rfl
  | seq p q ihp ihq =>
    obtain ⟨hpSteady, hqSteady⟩ := Bool.and_eq_true_iff.1 hsteady
    rw [reply_seq]
    refine ((ihp hpSteady pos).mono fun entry hentry => ?_).elim (fun a mid hp => ?_)
      (.of_eq fun _ => rfl)
    · exact ⟨hentry.1, fun hplace => List.mem_append_left _ (hentry.2 hplace)⟩
    · refine Logs.elim ((ihq hqSteady mid).mono fun entry hentry => ?_)
        (fun b next _ => .of_eq fun _ => rfl) (.of_eq fun _ => rfl)
      have hmid := (le_next hp).1
      refine ⟨Nat.le_trans hmid hentry.1, fun hplace => ?_⟩
      obtain rfl : mid = pos := Nat.le_antisymm (hplace ▸ hentry.1) hmid
      have hconsumes : ¬ p.consumes := fun h => Nat.lt_irrefl _ (lt_next hg h hp)
      rw [heads, if_neg hconsumes]
      exact List.mem_append_right _ (hentry.2 hplace)
  | alt p q ihp ihq =>
    obtain ⟨hpSteady, hqSteady⟩ := Bool.and_eq_true_iff.1 hsteady
    rw [reply_alt]
    refine ((ihp hpSteady pos).mono fun entry hentry => ?_).elim
      (fun a next _ => .of_eq fun _ => rfl)
      ((ihq hqSteady pos).mono fun entry hentry => ?_)
    · exact ⟨hentry.1, fun hplace => List.mem_append_left _ (hentry.2 hplace)⟩
    · exact ⟨hentry.1, fun hplace => List.mem_append_right _ (hentry.2 hplace)⟩
  | map f p ih =>
    rw [reply_map]
    exact (ih hsteady pos).elim (fun a next _ => .of_eq fun _ => rfl) (.of_eq fun _ => rfl)
  | chain item separator ihItem ihSep =>
    simp only [steady, Bool.and_eq_true] at hsteady
    obtain ⟨⟨hconsumes, hitemSteady⟩, hsepSteady⟩ := hsteady
    rw [reply_chain]
    refine (ihItem hitemSteady pos).elim (fun left mid hitem => ?_) (.of_eq fun _ => rfl)
    have hmid : pos < mid := lt_next hg hconsumes hitem
    refine (logs_chain (fun place hplace => ?_) (fun place hplace => ?_) budget left hmid).mono
      fun entry hentry => ⟨Nat.le_of_lt hentry, fun hplace => absurd hplace (Nat.ne_of_gt hentry)⟩
    · exact (ihItem hitemSteady place).mono fun entry hentry => Nat.lt_of_lt_of_le hplace hentry.1
    · exact (ihSep hsepSteady place).mono fun entry hentry => Nat.lt_of_lt_of_le hplace hentry.1
  | opt p ih =>
    rw [reply_opt]
    exact (ih hsteady pos).elim (fun a next _ => .of_eq fun _ => rfl) (.of_eq fun _ => rfl)
  | phrase p ih =>
    rw [reply_phrase]
    refine (ih hsteady pos).elim (fun a next _ => ?_) (.of_eq fun _ => rfl)
    rw [Reading.tokens_quiet]
    split
    next => exact .of_eq fun _ => rfl
    next => exact .of_eq fun _ => rfl
  | rule i =>
    refine fun log => ⟨[(i, pos)], rfl, List.forall_mem_singleton.2 ⟨Nat.le_refl pos, fun _ => ?_⟩⟩
    exact List.mem_singleton_self i

theorem mem_entered (hg : ∀ i, (g i).consumes) {p : Parser sort α} (hsteady : p.steady)
    {pos : Nat} {entry : ι × Nat} (h : entry ∈ p.entered g tokens budget pos) :
    pos ≤ entry.2 ∧ (entry.2 = pos → entry.1 ∈ p.heads) := by
  obtain ⟨more, heq, hmore⟩ := logs_attempt tokens budget hg hsteady pos []
  rw [entered, heq, List.nil_append] at h
  exact hmore entry h

end Entered

/-! ## Expressions in expressions -/

/-- The expression `p` stands in another one.  Rules are not looked into. -/
inductive Within {α : Type} (p : Parser sort α) : {β : Type} → Parser sort β → Prop where
  | self : Within p p
  | seq_first {β γ : Type} {q : Parser sort β} {r : Parser sort γ} (h : Within p q) :
      Within p (.seq q r)
  | seq_second {β γ : Type} {q : Parser sort β} {r : Parser sort γ} (h : Within p r) :
      Within p (.seq q r)
  | alt_first {β : Type} {q r : Parser sort β} (h : Within p q) : Within p (.alt q r)
  | alt_second {β : Type} {q r : Parser sort β} (h : Within p r) : Within p (.alt q r)
  | map {β γ : Type} {f : β → γ} {q : Parser sort β} (h : Within p q) : Within p (.map f q)
  | chain_item {β : Type} {item : Parser sort β} {separator : Parser sort (β → β → β)}
      (h : Within p item) : Within p (.chain item separator)
  | chain_separator {β : Type} {item : Parser sort β} {separator : Parser sort (β → β → β)}
      (h : Within p separator) : Within p (.chain item separator)
  | opt {β : Type} {q : Parser sort β} (h : Within p q) : Within p (.opt q)
  | phrase {β : Type} {q : Parser sort β} (h : Within p q) : Within p (.phrase q)

/-- What stands in an expression whose chains read on has such chains itself. -/
theorem Within.steady {β : Type} {p : Parser sort α} {q : Parser sort β} (h : p.Within q)
    (hq : q.steady) : p.steady := by
  induction h with
  | self => exact hq
  | seq_first _ ih | alt_first _ ih => exact ih (Bool.and_eq_true_iff.1 hq).1
  | seq_second _ ih | alt_second _ ih => exact ih (Bool.and_eq_true_iff.1 hq).2
  | chain_item _ ih => exact ih (Bool.and_eq_true_iff.1 (Bool.and_eq_true_iff.1 hq).1).2
  | chain_separator _ ih => exact ih (Bool.and_eq_true_iff.1 hq).2
  | map _ ih | opt _ ih | phrase _ ih => exact ih hq

end Parser

/-! ## Descents -/

namespace Grammar

variable {ι : Type} {sort : ι → Type} {g : Grammar sort} {tokens : Array Token}
  {rank : ι → Nat} {width : Nat}

/-- While the first rule is tried at its place, the second one is entered at its. -/
def Enters (g : Grammar sort) (tokens : Array Token) (a b : ι × Nat) : Prop :=
  ∃ budget, b ∈ (g a.1).entered g tokens budget a.2

open Relation in
/-- Along a descent the place never goes back. -/
theorem Ranked.le_of_descends (hg : g.Ranked rank width) {a b : ι × Nat}
    (h : ReflTransGen (g.Enters tokens) a b) : a.2 ≤ b.2 := by
  induction h with
  | refl => exact Nat.le_refl _
  | tail _ hnext ih =>
    obtain ⟨budget, hmem⟩ := hnext
    exact Nat.le_trans ih (Parser.mem_entered hg.consumes (hg.steady _) hmem).1

/-- A rule that does not stand first is entered further on. -/
theorem Ranked.lt_of_enters (hg : g.Ranked rank width) {a b : ι × Nat}
    (h : g.Enters tokens a b) (hheads : b.1 ∉ (g a.1).heads) : a.2 < b.2 := by
  obtain ⟨budget, hmem⟩ := h
  obtain ⟨hle, hhead⟩ := Parser.mem_entered hg.consumes (hg.steady a.1) hmem
  exact Nat.lt_of_le_of_ne hle fun heq => hheads (hhead heq.symm)

open Relation in
/-- **Along a descent the place grows or the rank falls.** -/
theorem Ranked.descends (hg : g.Ranked rank width) {a b : ι × Nat}
    (h : TransGen (g.Enters tokens) a b) : a.2 < b.2 ∨ a.2 = b.2 ∧ rank b.1 < rank a.1 := by
  have hone {a b : ι × Nat} (h : g.Enters tokens a b) :
      a.2 < b.2 ∨ a.2 = b.2 ∧ rank b.1 < rank a.1 := by
    obtain ⟨budget, hmem⟩ := h
    obtain ⟨hle, hhead⟩ := Parser.mem_entered hg.consumes (hg.steady a.1) hmem
    rcases Nat.eq_or_lt_of_le hle with heq | hlt
    · exact .inr ⟨heq, hg.rank_lt_of_mem a.1 b.1 (hhead heq.symm)⟩
    · exact .inl hlt
  induction h with
  | single h => exact hone h
  | tail _ hnext ih =>
    have hnext := hone hnext
    omega

open Relation in
/-- **A rule is entered inside itself only further on.** -/
theorem Ranked.lt_of_reenters (hg : g.Ranked rank width) {i : ι} {pos place : Nat}
    (h : TransGen (g.Enters tokens) (i, pos) (i, place)) : pos < place :=
  (hg.descends h).resolve_right fun hsame => Nat.lt_irrefl _ hsame.2

/-- **A round of a chain moves on.** -/
theorem Ranked.lt_of_round (hg : g.Ranked rank width) {i : ι} {α : Type} {item : Parser sort α}
    {separator : Parser sort (α → α → α)} (hchain : (Parser.chain item separator).Within (g i))
    {budget pos mid next : Nat} {join : α → α → α} {right : α}
    (hsep : separator.reply g tokens budget pos = .matched join mid)
    (hitem : item.reply g tokens budget mid = .matched right next) :
    pos < next ∧ next ≤ tokens.size := by
  have hsteady := hchain.steady (hg.steady i)
  simp only [Parser.steady, Bool.and_eq_true] at hsteady
  have hnext := Parser.lt_next hg.consumes hsteady.1.1 hitem
  exact ⟨Nat.lt_of_le_of_lt (Parser.le_next hsep).1 hnext,
    Parser.next_le_size hg.consumes hsteady.1.1 hitem⟩

end Grammar

end Cam
