import Cam.Grammar.Precedence
import Cam.Proofs.Grammar.Budget

/-!
# Proofs/Grammar/Taking — how a parse goes on a known input

`Takes g p input v rest` says that wherever the remaining input is `input`, the expression matches
with the value `v` and leaves `rest`; `Refuses g p input` that it does not match there.  Places and
budgets are out of sight: each form of expression has a rule for taking and for refusing, and the
rules compose like the expressions.  A chain takes what its rounds take (`TakesRounds`), and where a
chain is known by a prefix of it (`Starts`), one more item makes a longer prefix.
-/

namespace Cam

namespace Reply

variable {α β : Type}

/-- The reply is the expected one, unless the budget ran out. -/
def Settles (reply expected : Reply α) : Prop := reply = expected ∨ reply = .exhausted

/-- Where an attempt settles in a match, what is done after it settles the whole. -/
theorem Settles.elim_matched {reply : Reply α} {value : α} {next : Nat} {hit : α → Nat → Reply β}
    {miss expected : Reply β} (h : reply.Settles (.matched value next))
    (hhit : (hit value next).Settles expected) : (reply.elim hit miss).Settles expected := by
  rcases h with rfl | rfl
  · exact hhit
  · exact .inr rfl

/-- …and where it settles in no match, what is done instead. -/
theorem Settles.elim_noMatch {reply : Reply α} {hit : α → Nat → Reply β} {miss expected : Reply β}
    (h : reply.Settles .noMatch) (hmiss : miss.Settles expected) :
    (reply.elim hit miss).Settles expected := by
  rcases h with rfl | rfl
  · exact hmiss
  · exact .inr rfl

end Reply

variable {ι : Type} {sort : ι → Type} {α β : Type}

/-- Where the remaining input is `input`, the expression matches with the value `v` and leaves
`rest`. -/
def Takes (g : Grammar sort) (p : Parser sort α) (input : List Token) (v : α)
    (rest : List Token) : Prop :=
  ∀ (tokens : Array Token) (pos : Nat), tokens.toList.drop pos = input →
    ∃ next, tokens.toList.drop next = rest ∧
      ∀ budget, (p.reply g tokens budget pos).Settles (.matched v next)

/-- Where the remaining input is `input`, the expression does not match. -/
def Refuses (g : Grammar sort) (p : Parser sort α) (input : List Token) : Prop :=
  ∀ (tokens : Array Token) (pos : Nat), tokens.toList.drop pos = input →
    ∀ budget, (p.reply g tokens budget pos).Settles .noMatch

/-- Where the remaining input is `input`, a chain that has the value `left` so far gets the value
`v` and leaves `rest`. -/
def TakesRounds (g : Grammar sort) (item : Parser sort α) (separator : Parser sort (α → α → α))
    (left : α) (input : List Token) (v : α) (rest : List Token) : Prop :=
  ∀ (tokens : Array Token) (pos : Nat), tokens.toList.drop pos = input →
    ∃ next, tokens.toList.drop next = rest ∧ ∀ budget rounds,
      (Parser.replyRounds g tokens budget item separator rounds left pos).Settles (.matched v next)

variable {g : Grammar sort} {p p' : Parser sort α} {q : Parser sort β} {a v : α} {b : β}
  {input mid rest : List Token}

/-! ## Single tokens -/

/-- The token at a place is the first of the remaining input. -/
theorem getElem?_of_drop {tokens : Array Token} {pos : Nat} (h : tokens.toList.drop pos = input) :
    tokens[pos]? = input.head? := by
  rw [← h, List.head?_drop, Array.getElem?_toList]

/-- A terminal takes a token that it reads. -/
theorem Takes.token {t : Terminal} {token : Token} {v : t.Value} (h : t.read? token = some v) :
    Takes g (.token t) (token :: rest) v rest := by
  intro tokens pos hpos
  refine ⟨pos + 1, ?_, fun budget => ?_⟩
  · rw [← List.tail_drop, hpos, List.tail_cons]
  · rcases budget with _ | budget
    · exact .inr rfl
    · have hread : (tokens[pos]?).bind t.read? = some v := by
        rw [getElem?_of_drop hpos]
        exact h
      rw [Parser.reply_token, hread]
      exact .inl rfl

/-- A terminal refuses an empty input, and a token that it does not read. -/
theorem Refuses.token {t : Terminal} (h : ∀ token ∈ input.head?, t.read? token = none) :
    Refuses g (.token t) input := by
  intro tokens pos hpos budget
  rcases budget with _ | budget
  · exact .inr rfl
  · have hread : (tokens[pos]?).bind t.read? = none := by
      rw [getElem?_of_drop hpos]
      exact Option.bind_eq_none_iff.2 h
    rw [Parser.reply_token, hread]
    exact .inl rfl

/-! ## Sequences and choices -/

/-- A sequence takes what its parts take one after the other. -/
theorem Takes.seq (hp : Takes g p input a mid) (hq : Takes g q mid b rest) :
    Takes g (.seq p q) input (a, b) rest := by
  intro tokens pos hpos
  obtain ⟨middle, hmiddle, hp⟩ := hp tokens pos hpos
  obtain ⟨next, hnext, hq⟩ := hq tokens middle hmiddle
  refine ⟨next, hnext, fun budget => ?_⟩
  rw [Parser.reply_seq]
  exact (hp budget).elim_matched ((hq budget).elim_matched (.inl rfl))

theorem Refuses.seq_first (hp : Refuses g p input) : Refuses g (.seq p q) input := by
  intro tokens pos hpos budget
  rw [Parser.reply_seq]
  exact (hp tokens pos hpos budget).elim_noMatch (.inl rfl)

/-- A sequence refuses the input as a whole, also after its first part has been read. -/
theorem Refuses.seq_second (hp : Takes g p input a mid) (hq : Refuses g q mid) :
    Refuses g (.seq p q) input := by
  intro tokens pos hpos budget
  obtain ⟨middle, hmiddle, hp⟩ := hp tokens pos hpos
  rw [Parser.reply_seq]
  exact (hp budget).elim_matched ((hq tokens middle hmiddle budget).elim_noMatch (.inl rfl))

theorem Takes.alt_first (hp : Takes g p input v rest) : Takes g (.alt p p') input v rest := by
  intro tokens pos hpos
  obtain ⟨next, hnext, hp⟩ := hp tokens pos hpos
  refine ⟨next, hnext, fun budget => ?_⟩
  rw [Parser.reply_alt]
  exact (hp budget).elim_matched (.inl rfl)

/-- The second alternative takes the input from the same place, if the first one refuses it. -/
theorem Takes.alt_second (hp : Refuses g p input) (hp' : Takes g p' input v rest) :
    Takes g (.alt p p') input v rest := by
  intro tokens pos hpos
  obtain ⟨next, hnext, hp'⟩ := hp' tokens pos hpos
  refine ⟨next, hnext, fun budget => ?_⟩
  rw [Parser.reply_alt]
  exact (hp tokens pos hpos budget).elim_noMatch (hp' budget)

/-- A choice refuses what both alternatives refuse. -/
theorem Refuses.alt (hp : Refuses g p input) (hp' : Refuses g p' input) :
    Refuses g (.alt p p') input := by
  intro tokens pos hpos budget
  rw [Parser.reply_alt]
  exact (hp tokens pos hpos budget).elim_noMatch (hp' tokens pos hpos budget)

theorem Takes.map (f : α → β) (hp : Takes g p input a rest) :
    Takes g (.map f p) input (f a) rest := by
  intro tokens pos hpos
  obtain ⟨next, hnext, hp⟩ := hp tokens pos hpos
  refine ⟨next, hnext, fun budget => ?_⟩
  rw [Parser.reply_map]
  exact (hp budget).elim_matched (.inl rfl)

theorem Refuses.map (f : α → β) (hp : Refuses g p input) : Refuses g (.map f p) input := by
  intro tokens pos hpos budget
  rw [Parser.reply_map]
  exact (hp tokens pos hpos budget).elim_noMatch (.inl rfl)

theorem Takes.opt (hp : Takes g p input a rest) : Takes g (.opt p) input (some a) rest := by
  intro tokens pos hpos
  obtain ⟨next, hnext, hp⟩ := hp tokens pos hpos
  refine ⟨next, hnext, fun budget => ?_⟩
  rw [Parser.reply_opt]
  exact (hp budget).elim_matched (.inl rfl)

/-- An optional expression takes nothing where it could not take anything. -/
theorem Takes.opt_none (hp : Refuses g p input) : Takes g (.opt p) input none input := by
  intro tokens pos hpos
  refine ⟨pos, hpos, fun budget => ?_⟩
  rw [Parser.reply_opt]
  exact (hp tokens pos hpos budget).elim_noMatch (.inl rfl)

/-- A rule takes what its expression takes; the unit of the budget that it costs is out of sight. -/
theorem Takes.rule {i : ι} {v : sort i} (h : Takes g (g i) input v rest) :
    Takes g (.rule i) input v rest := by
  intro tokens pos hpos
  obtain ⟨next, hnext, h⟩ := h tokens pos hpos
  refine ⟨next, hnext, fun budget => ?_⟩
  rcases budget with _ | budget
  · exact .inr rfl
  · exact h budget

theorem Refuses.rule {i : ι} (h : Refuses g (g i) input) : Refuses g (.rule i) input := by
  intro tokens pos hpos budget
  rcases budget with _ | budget
  · exact .inr rfl
  · exact h tokens pos hpos budget

/-! ## Chains -/

section Rounds

variable {item : Parser sort α} {separator : Parser sort (α → α → α)} {left right : α}
  {join : α → α → α} {after : List Token}

/-- A chain takes its first item, and then what its rounds take. -/
theorem Takes.chain (hitem : Takes g item input left mid)
    (hrounds : TakesRounds g item separator left mid v rest) :
    Takes g (.chain item separator) input v rest := by
  intro tokens pos hpos
  obtain ⟨middle, hmiddle, hitem⟩ := hitem tokens pos hpos
  obtain ⟨next, hnext, hrounds⟩ := hrounds tokens middle hmiddle
  refine ⟨next, hnext, fun budget => ?_⟩
  rw [Parser.reply_chain]
  exact (hitem budget).elim_matched (hrounds budget (budget - 1))

theorem Refuses.chain (hitem : Refuses g item input) : Refuses g (.chain item separator) input := by
  intro tokens pos hpos budget
  rw [Parser.reply_chain]
  exact (hitem tokens pos hpos budget).elim_noMatch (.inl rfl)

/-- The rounds of a chain stop where no separator stands. -/
theorem TakesRounds.stop (hsep : Refuses g separator input) :
    TakesRounds g item separator left input left input := by
  intro tokens pos hpos
  refine ⟨pos, hpos, fun budget rounds => ?_⟩
  rcases rounds with _ | rounds
  · exact .inr rfl
  · rw [Parser.replyRounds_succ]
    exact (hsep tokens pos hpos budget).elim_noMatch (.inl rfl)

/-- A round takes a separator and an item, and the rest goes on with the two values joined. -/
theorem TakesRounds.more (hsep : Takes g separator input join mid)
    (hitem : Takes g item mid right after)
    (hrounds : TakesRounds g item separator (join left right) after v rest) :
    TakesRounds g item separator left input v rest := by
  intro tokens pos hpos
  obtain ⟨middle, hmiddle, hsep⟩ := hsep tokens pos hpos
  obtain ⟨afterwards, hafter, hitem⟩ := hitem tokens middle hmiddle
  obtain ⟨next, hnext, hrounds⟩ := hrounds tokens afterwards hafter
  refine ⟨next, hnext, fun budget rounds => ?_⟩
  rcases rounds with _ | rounds
  · exact .inr rfl
  · rw [Parser.replyRounds_succ]
    exact (hsep budget).elim_matched ((hitem budget).elim_matched (hrounds budget rounds))

/-- The tokens `ts` are a chain of value `left` so far: before any `rest` that is `ok` the chain
gets on to where its rounds take it from `left`. -/
def Starts (g : Grammar sort) (item : Parser sort α) (separator : Parser sort (α → α → α))
    (ok : List Token → Prop) (ts : List Token) (left : α) : Prop :=
  ∀ rest v after, ok rest → TakesRounds g item separator left rest v after →
    Takes g (.chain item separator) (ts ++ rest) v after

variable {ok : List Token → Prop} {us vs ts : List Token} {token : Token}

/-- A chain starts with an item. -/
theorem Starts.one (hitem : ∀ rest, ok rest → Takes g item (ts ++ rest) left rest) :
    Starts g item separator ok ts left :=
  fun rest _ _ hrest hrounds => (hitem rest hrest).chain hrounds

/-- A chain goes on by a separating token and an item. -/
theorem Starts.more (hleft : Starts g item separator ok us left)
    (hsep : ∀ rest, Takes g separator (token :: rest) join rest) (hok : ∀ rest, ok (token :: rest))
    (hitem : ∀ rest, ok rest → Takes g item (vs ++ rest) right rest) :
    Starts g item separator ok (us ++ token :: vs) (join left right) := by
  intro rest v after hrest hrounds
  rw [List.append_assoc, List.cons_append]
  exact hleft _ v after (hok _) (.more (hsep _) (hitem rest hrest) hrounds)

/-- A chain ends where no separator stands. -/
theorem Starts.takes (h : Starts g item separator ok ts left) (hrest : ok rest)
    (hsep : Refuses g separator rest) : Takes g (.chain item separator) (ts ++ rest) left rest :=
  h rest left rest hrest (.stop hsep)

end Rounds

/-! ## Derived expressions -/

theorem Takes.keepLeft (hp : Takes g p input a mid) (hq : Takes g q mid b rest) :
    Takes g (p.keepLeft q) input a rest := (hp.seq hq).map Prod.fst

/-- The parts of a sequence are taken alike, whichever value is kept. -/
theorem Takes.keepRight (hp : Takes g p input a mid) (hq : Takes g q mid b rest) :
    Takes g (p.keepRight q) input b rest := (hp.seq hq).map Prod.snd

/-- A choice of many refuses what all its alternatives refuse. -/
theorem Refuses.anyOf {ps : List (Parser sort α)} (hps : ∀ p ∈ ps, Refuses g p input) :
    Refuses g (.anyOf ps) input := by
  induction ps with
  | nil =>
    intro tokens pos _ budget
    rcases budget with _ | budget
    · exact .inr rfl
    · exact .inl rfl
  | cons p ps ih =>
    obtain ⟨hp, hps⟩ := List.forall_mem_cons.1 hps
    exact hp.alt (ih hps)

/-! ## Refusal at the first token -/

/-- Whether the expression can be seen not to match by the next token alone, with no rule tried. -/
def Parser.turnsAway (head : Option Token) : {α : Type} → Parser sort α → Bool
  | _, .token t => (head.bind t.read?).isNone
  | _, .never => true
  | _, .seq p _ => p.turnsAway head
  | _, .alt p q => p.turnsAway head && q.turnsAway head
  | _, .map _ p => p.turnsAway head
  | _, .chain item _ => item.turnsAway head
  | _, .opt _ => false
  | _, .phrase p => p.turnsAway head
  | _, .rule _ => false

/-- **An expression that turns the next token away refuses the input.** -/
theorem Refuses.of_turnsAway {p : Parser sort α} (h : p.turnsAway input.head?) :
    Refuses g p input := by
  induction p with
  | token t => exact .token (Option.bind_eq_none_iff.1 (Option.isNone_iff_eq_none.1 h))
  | never => exact .anyOf (List.forall_mem_nil _)
  | seq p q ihp _ => exact .seq_first (ihp h)
  | alt p q ihp ihq =>
    obtain ⟨hp, hq⟩ := Bool.and_eq_true_iff.1 h
    exact .alt (ihp hp) (ihq hq)
  | map f p ih => exact .map f (ih h)
  | chain item separator ih _ => exact .chain (ih h)
  | opt p _ => cases h
  | phrase p ih =>
    intro tokens pos hpos budget
    rw [Parser.reply_phrase]
    exact (ih h tokens pos hpos budget).elim_noMatch (.inl rfl)
  | rule i => cases h

/-- An alternative takes the input when those before it turn the next token away. -/
theorem Takes.anyOf (before : List (Parser sort α)) {after : List (Parser sort α)}
    (hbefore : before.all (·.turnsAway input.head?)) (hp : Takes g p input v rest) :
    Takes g (.anyOf (before ++ p :: after)) input v rest := by
  induction before with
  | nil => exact hp.alt_first
  | cons q before ih =>
    obtain ⟨hq, hbefore⟩ := Bool.and_eq_true_iff.1 hbefore
    exact .alt_second (.of_turnsAway hq) (ih hbefore)

end Cam
