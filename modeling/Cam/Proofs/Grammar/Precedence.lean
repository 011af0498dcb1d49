import Cam.Program.Grammar
import Cam.Proofs.Grammar.Reading

/-!
# Proofs/Grammar/Precedence — the tree of a chain of operators

    term operator term operator … operator term

Whatever the table of levels, terms of one token each that are joined by operators of the table make
the tree one expects: at its root stands an operator of the loosest level there is in the chain, and
of these the last one (`Conventional`).  Each level is a chain of what the levels before it make, so
this is kept from level to level (`Builds.level`): the rounds of one level hang the trees of the
tighter ones onto each other from the left, and stop where no operator is left that a term follows.
`Parser.precedence_conventional` says the same of the whole table.
-/

namespace Cam

/-! ## Replies to large budgets -/

namespace Parser

variable {ι : Type} {sort : ι → Type} {α β : Type}

/-- With every budget from some size on, the expression gets this reply. -/
def Replies (g : Grammar sort) (tokens : Array Token) (p : Parser sort α) (pos : Nat)
    (reply : Reply α) : Prop :=
  ∃ enough, ∀ budget, enough ≤ budget → p.reply g tokens budget pos = reply

/-- With every budget from some size on, the rounds of the chain get this reply. -/
def RepliesRounds (g : Grammar sort) (tokens : Array Token) (item : Parser sort α)
    (separator : Parser sort (α → α → α)) (left : α) (pos : Nat) (reply : Reply α) : Prop :=
  ∃ enough, ∀ budget rounds, enough ≤ budget → enough ≤ rounds →
    replyRounds g tokens budget item separator rounds left pos = reply

variable {g : Grammar sort} {tokens : Array Token} {pos mid next : Nat} {reply reply' : Reply α}

theorem Replies.unique {p : Parser sort α} (h : p.Replies g tokens pos reply)
    (h' : p.Replies g tokens pos reply') : reply = reply' := by
  obtain ⟨enough, h⟩ := h
  obtain ⟨enough', h'⟩ := h'
  exact (h _ (Nat.le_max_left enough enough')).symm.trans (h' _ (Nat.le_max_right enough enough'))

section Chains

variable {item : Parser sort α} {separator : Parser sort (α → α → α)} {left right : α}
  {join : α → α → α}

theorem Replies.chain (hitem : item.Replies g tokens pos (.matched left mid))
    (hrounds : RepliesRounds g tokens item separator left mid reply) :
    (Parser.chain item separator).Replies g tokens pos reply := by
  obtain ⟨enough, hitem⟩ := hitem
  obtain ⟨enough', hrounds⟩ := hrounds
  refine ⟨max enough (enough' + 1), fun budget hbudget => ?_⟩
  rw [reply_chain, hitem budget (by omega), Reply.elim_matched]
  exact hrounds budget (budget - 1) (by omega) (by omega)

theorem Replies.chain_miss (hitem : item.Replies g tokens pos .noMatch) :
    (Parser.chain item separator).Replies g tokens pos .noMatch := by
  obtain ⟨enough, hitem⟩ := hitem
  refine ⟨enough, fun budget hbudget => ?_⟩
  rw [reply_chain, hitem budget hbudget, Reply.elim_noMatch]

theorem RepliesRounds.done (hsep : separator.Replies g tokens pos .noMatch) :
    RepliesRounds g tokens item separator left pos (.matched left pos) := by
  obtain ⟨enough, hsep⟩ := hsep
  refine ⟨enough + 1, fun budget rounds hbudget hrounds => ?_⟩
  rcases rounds with _ | rounds
  · omega
  · rw [replyRounds_succ, hsep budget (by omega), Reply.elim_noMatch]

/-- A separator without an item after it stays unread. -/
theorem RepliesRounds.back (hsep : separator.Replies g tokens pos (.matched join mid))
    (hitem : item.Replies g tokens mid .noMatch) :
    RepliesRounds g tokens item separator left pos (.matched left pos) := by
  obtain ⟨enough, hsep⟩ := hsep
  obtain ⟨enough', hitem⟩ := hitem
  refine ⟨max enough enough' + 1, fun budget rounds hbudget hrounds => ?_⟩
  rcases rounds with _ | rounds
  · omega
  · rw [replyRounds_succ, hsep budget (by omega), Reply.elim_matched, hitem budget (by omega),
      Reply.elim_noMatch]

theorem RepliesRounds.more (hsep : separator.Replies g tokens pos (.matched join mid))
    (hitem : item.Replies g tokens mid (.matched right next))
    (hrounds : RepliesRounds g tokens item separator (join left right) next reply) :
    RepliesRounds g tokens item separator left pos reply := by
  obtain ⟨enough, hsep⟩ := hsep
  obtain ⟨enough', hitem⟩ := hitem
  obtain ⟨enough'', hrest⟩ := hrounds
  refine ⟨max (max enough enough') enough'' + 1, fun budget rounds hbudget hrounds => ?_⟩
  rcases rounds with _ | rounds
  · omega
  · rw [replyRounds_succ, hsep budget (by omega), Reply.elim_matched, hitem budget (by omega),
      Reply.elim_matched]
    exact hrest budget rounds (by omega) (by omega)

end Chains

theorem Replies.map {p : Parser sort α} (f : α → β) {v : α}
    (h : p.Replies g tokens pos (.matched v next)) :
    (Parser.map f p).Replies g tokens pos (.matched (f v) next) := by
  obtain ⟨enough, h⟩ := h
  refine ⟨enough, fun budget hbudget => ?_⟩
  rw [reply_map, h budget hbudget, Reply.elim_matched]

theorem Replies.map_miss {p : Parser sort α} (f : α → β) (h : p.Replies g tokens pos .noMatch) :
    (Parser.map f p).Replies g tokens pos .noMatch := by
  obtain ⟨enough, h⟩ := h
  refine ⟨enough, fun budget hbudget => ?_⟩
  rw [reply_map, h budget hbudget, Reply.elim_noMatch]

/-- A terminal replies at once. -/
theorem replies_token (g : Grammar sort) (tokens : Array Token) (t : Terminal) (pos : Nat) :
    (token t : Parser sort t.Value).Replies g tokens pos
      (match (tokens[pos]?).bind t.read? with
      | some value => .matched value (pos + 1)
      | none => .noMatch) := by
  refine ⟨1, fun budget hbudget => ?_⟩
  rcases budget with _ | budget
  · omega
  · exact reply_token g tokens budget pos t

/-! ## Tables of operators -/

/-- The operator that a token stands for: the first one of the list with its symbol. -/
def operator? (symbol : β → String) (ops : List β) (token : Token) : Option β :=
  if token.tag = .reserved then ops.find? (token.text = symbol ·) else none

/-- The operator that stands at a place. -/
def operatorAt (symbol : β → String) (ops : List β) (tokens : Array Token) (pos : Nat) : Option β :=
  (tokens[pos]?).bind (operator? symbol ops)

/-- The number of the level of an operator, the tightest being 0: the first one that lists it. -/
def levelOf (symbol : β → String) (levels : List (List β)) (op : β) : Nat :=
  levels.findIdx (symbol op ∈ ·.map symbol)

section Tables

variable {symbol : β → String} {ops : List β} {levels : List (List β)} {op : β}

theorem operator?_append (ops more : List β) (token : Token) :
    operator? symbol (ops ++ more) token =
    (operator? symbol ops token).or (operator? symbol more token) := by
  unfold operator?
  split
  · exact List.find?_append
  · rfl

theorem operatorAt_append (ops more : List β) : operatorAt symbol (ops ++ more) tokens pos =
    (operatorAt symbol ops tokens pos).or (operatorAt symbol more tokens pos) := by
  unfold operatorAt
  rcases tokens[pos]? with _ | token
  · rfl
  · exact operator?_append ops more token

/-- An operator that a level lists has a level. -/
theorem levelOf_lt (symbol : β → String) (h : op ∈ levels.flatten) :
    levelOf symbol levels op < levels.length := by
  obtain ⟨level, hlevel, hop⟩ := List.mem_flatten.1 h
  exact List.findIdx_lt_length.2 ⟨level, hlevel, decide_eq_true (List.mem_map_of_mem hop)⟩

/-- …and keeps it when looser levels are added. -/
theorem levelOf_append (h : op ∈ levels.flatten) (looser : List (List β)) :
    levelOf symbol (levels ++ looser) op = levelOf symbol levels op := by
  rw [levelOf, List.findIdx_append]
  exact if_pos (levelOf_lt symbol h)

/-- An operator that only the last level lists is of that level. -/
theorem levelOf_last (h : ∀ other ∈ levels.flatten, symbol op ≠ symbol other) (hop : op ∈ ops) :
    levelOf symbol (levels ++ [ops]) op = levels.length := by
  have hlevels : ∀ level ∈ levels, decide (symbol op ∈ level.map symbol) = false := by
    intro level hlevel
    refine decide_eq_false fun hmem => ?_
    obtain ⟨other, hother, heq⟩ := List.mem_map.1 hmem
    exact h other (List.mem_flatten_of_mem hlevel hother) heq.symm
  have hlast : decide (symbol op ∈ ops.map symbol) = true :=
    decide_eq_true (List.mem_map_of_mem hop)
  rw [levelOf, List.findIdx_append, List.findIdx_eq_length.2 hlevels, if_neg (Nat.lt_irrefl _),
    List.findIdx_cons, hlast, cond_true, Nat.zero_add]

theorem operatorAt_eq_some (h : operatorAt symbol ops tokens pos = some op) : ∃ token,
    tokens[pos]? = some token ∧ token.tag = .reserved ∧ token.text = symbol op ∧ op ∈ ops := by
  obtain ⟨token, htoken, hop⟩ := Option.bind_eq_some_iff.1 h
  obtain ⟨htag, hfind⟩ := Option.ite_none_right_eq_some.1 hop
  have htext := List.find?_some hfind
  exact ⟨token, htoken, htag, of_decide_eq_true htext, List.mem_of_find?_eq_some hfind⟩

/-- An operator that stands there for a level, but for none before it, is listed by none before it.
-/
theorem levelOf_of_operatorAt (hnone : operatorAt symbol levels.flatten tokens pos = none)
    (hop : operatorAt symbol ops tokens pos = some op) :
    levelOf symbol (levels ++ [ops]) op = levels.length := by
  obtain ⟨token, htoken, htag, htext, hmem⟩ := operatorAt_eq_some hop
  refine levelOf_last (fun other hother heq => ?_) hmem
  rw [operatorAt, htoken, Option.bind_some, operator?, if_pos htag, List.find?_eq_none] at hnone
  exact hnone other hother (decide_eq_true (htext.trans heq))

theorem reply_operator (combine : β → α → α → α) (budget : Nat) :
    (operator symbol combine op : Parser sort _).reply g tokens (budget + 1) pos =
      match operatorAt symbol [op] tokens pos with
      | some op => .matched (combine op) (pos + 1)
      | none => .noMatch := by
  rw [operator, reply_map, word, reply_token, operatorAt]
  rcases tokens[pos]? with _ | token
  · rfl
  · simp only [Option.bind_some, Terminal.read?, operator?]
    by_cases htag : token.tag = .reserved
    · by_cases htext : token.text = symbol op <;> simp [htag, htext]
    · simp [htag]

/-- The operators of a level take the token that stands for one of them. -/
theorem replies_operators (g : Grammar sort) (tokens : Array Token) (symbol : β → String)
    (combine : β → α → α → α) (ops : List β) (pos : Nat) :
    (anyOf (ops.map (operator symbol combine)) : Parser sort _).Replies g tokens pos
      (match operatorAt symbol ops tokens pos with
      | some op => .matched (combine op) (pos + 1)
      | none => .noMatch) := by
  refine ⟨1, fun budget hbudget => ?_⟩
  rcases budget with _ | budget
  · omega
  induction ops with
  | nil =>
    have hnone : operatorAt symbol [] tokens pos = none :=
      Option.bind_eq_none_iff.2 fun token _ => ite_self none
    rw [hnone]
    rfl
  | cons op ops ih =>
    have happend : operatorAt symbol (op :: ops) tokens pos =
        (operatorAt symbol [op] tokens pos).or (operatorAt symbol ops tokens pos) :=
      operatorAt_append [op] ops
    rw [List.map_cons, anyOf, reply_alt, reply_operator, ih, happend]
    rcases operatorAt symbol [op] tokens pos with _ | first
    · rcases operatorAt symbol ops tokens pos with _ | other <;> rfl
    · rfl

end Tables

end Parser

/-! ## Chains and their trees -/

section Chains

variable {α β : Type}

/-- From one place to the other there stand operators and terms in turn. -/
inductive Joined (operatorAt : Nat → Option β) (termAt : Nat → α → Prop) :
    Nat → List (β × α) → Nat → Prop where
  | nil {pos : Nat} : Joined operatorAt termAt pos [] pos
  | cons {pos next : Nat} {op : β} {v : α} {rest : List (β × α)} (hop : operatorAt pos = some op)
      (hterm : termAt (pos + 1) v) (h : Joined operatorAt termAt (pos + 2) rest next) :
      Joined operatorAt termAt pos ((op, v) :: rest) next

/-- …and no chain of operators and terms that starts there is longer. -/
def Longest (operatorAt : Nat → Option β) (termAt : Nat → α → Prop) (pos : Nat)
    (chain : List (β × α)) (next : Nat) : Prop :=
  Joined operatorAt termAt pos chain next ∧
    ∀ chain' next', Joined operatorAt termAt pos chain' next' → next' ≤ next

/-- No operator stands there that a term follows. -/
def Stops (operatorAt : Nat → Option β) (termAt : Nat → α → Prop) (pos : Nat) : Prop :=
  ∀ op v, operatorAt pos = some op → ¬ termAt (pos + 1) v

/-- The value of a first term and the operators and terms that follow it: the operator at the root
is the last one among those of the loosest level. -/
inductive Conventional (level : β → Nat) (combine : β → α → α → α) :
    α → List (β × α) → α → Prop where
  | term {v : α} : Conventional level combine v [] v
  | join {first second left right : α} {op : β} {before after : List (β × α)}
      (hleft : Conventional level combine first before left)
      (hright : Conventional level combine second after right)
      (hbefore : ∀ o ∈ before, level o.1 ≤ level op) (hafter : ∀ o ∈ after, level o.1 < level op) :
      Conventional level combine first (before ++ (op, second) :: after) (combine op left right)

namespace Joined

variable {operatorAt operatorAt' : Nat → Option β} {termAt : Nat → α → Prop}
  {pos mid next next' : Nat} {chain chain' : List (β × α)}

theorem le (h : Joined operatorAt termAt pos chain next) : pos ≤ next := by
  induction h with
  | nil => exact Nat.le_refl _
  | cons _ _ _ ih => omega

theorem append (h : Joined operatorAt termAt pos chain mid)
    (h' : Joined operatorAt termAt mid chain' next) :
    Joined operatorAt termAt pos (chain ++ chain') next := by
  induction h with
  | nil => exact h'
  | cons hop hterm _ ih => exact .cons hop hterm (ih h')

theorem mono (h : Joined operatorAt termAt pos chain next)
    (hmono : ∀ pos op, operatorAt pos = some op → operatorAt' pos = some op) :
    Joined operatorAt' termAt pos chain next := by
  induction h with
  | nil => exact .nil
  | cons hop hterm _ ih => exact .cons (hmono _ _ hop) hterm ih

/-- The operators of a chain are operators that stand somewhere. -/
theorem exists_operatorAt (h : Joined operatorAt termAt pos chain next) :
    ∀ o ∈ chain, ∃ pos, operatorAt pos = some o.1 := by
  induction h with
  | nil => exact List.forall_mem_nil _
  | cons hop _ _ ih => exact List.forall_mem_cons.2 ⟨⟨_, hop⟩, ih⟩

/-- A chain that stops is as long as any, and of those that reach as far it is the only one. -/
theorem of_stops (h : Joined operatorAt termAt pos chain next)
    (hstops : Stops operatorAt termAt next) (h' : Joined operatorAt termAt pos chain' next')
    (hterms : ∀ pos v v', termAt pos v → termAt pos v' → v = v') :
    next' ≤ next ∧ (next' = next → chain' = chain) := by
  induction h generalizing chain' with
  | nil =>
    cases h' with
    | nil => exact ⟨Nat.le_refl _, fun _ => rfl⟩
    | cons hop hterm _ => exact absurd hterm (hstops _ _ hop)
  | @cons pos next op v rest hop hterm hrest ih =>
    cases h' with
    | nil =>
      have := hrest.le
      exact ⟨by omega, fun heq => by omega⟩
    | cons hop' hterm' hrest' =>
      obtain rfl := Option.some.inj (hop.symm.trans hop')
      obtain rfl := hterms _ _ _ hterm hterm'
      obtain ⟨hle, hunique⟩ := ih hstops hrest'
      exact ⟨hle, fun heq => congrArg (List.cons _) (hunique heq)⟩

theorem longest (h : Joined operatorAt termAt pos chain next)
    (hstops : Stops operatorAt termAt next)
    (hterms : ∀ pos v v', termAt pos v → termAt pos v' → v = v') :
    Longest operatorAt termAt pos chain next :=
  ⟨h, fun _ _ h' => (h.of_stops hstops h' hterms).1⟩

theorem eq_of_longest (h : Joined operatorAt termAt pos chain next)
    (hstops : Stops operatorAt termAt next) (h' : Longest operatorAt termAt pos chain' next')
    (hterms : ∀ pos v v', termAt pos v → termAt pos v' → v = v') :
    chain' = chain ∧ next' = next := by
  obtain ⟨hle, hchain⟩ := h.of_stops hstops h'.1 hterms
  have heq := Nat.le_antisymm hle (h'.2 chain next h)
  exact ⟨hchain heq, heq⟩

end Joined

namespace Conventional

variable {level level' : β → Nat} {combine : β → α → α → α} {first v v' : α}
  {chain chain' : List (β × α)}

/-- Only the levels of the operators in the chain matter. -/
theorem congr (h : Conventional level combine first chain v)
    (hlevel : ∀ o ∈ chain, level' o.1 = level o.1) : Conventional level' combine first chain v := by
  induction h with
  | term => exact .term
  | join _ _ hbefore hafter ihLeft ihRight =>
    obtain ⟨hleft, hright⟩ := List.forall_mem_append.1 hlevel
    obtain ⟨hop, hright⟩ := List.forall_mem_cons.1 hright
    refine .join (ihLeft hleft) (ihRight hright) (fun o ho => ?_) fun o ho => ?_
    · rw [hleft o ho, hop]
      exact hbefore o ho
    · rw [hright o ho, hop]
      exact hafter o ho

/-- The last operator of the loosest level does not come before another such operator. -/
theorem not_before {op op' : β} {a a' : α} {before after between after' : List (β × α)}
    (hafter : ∀ o ∈ after, level o.1 < level op)
    (hbefore : ∀ o ∈ before ++ (op, a) :: between, level o.1 ≤ level op')
    (h : after = between ++ (op', a') :: after') : False := by
  have hlt := hafter (op', a') (h ▸ List.mem_append_right _ List.mem_cons_self)
  have hle := hbefore (op, a) (List.mem_append_right _ List.mem_cons_self)
  exact Nat.not_lt_of_le hle hlt

/-- **A chain has one tree.** -/
theorem unique (h : Conventional level combine first chain v)
    (h' : Conventional level combine first chain' v') (heq : chain = chain') : v = v' := by
  induction h generalizing chain' v' with
  | term =>
    cases h' with
    | term => rfl
    | join => exact absurd heq.symm (by simp)
  | @join first second left right op before after _ _ hbefore hafter ihLeft ihRight =>
    cases h' with
    | term => exact absurd heq (by simp)
    | @join _ second' left' right' op' before' after' hleft' hright' hbefore' hafter' =>
      rcases List.append_eq_append_iff.1 heq with ⟨between, rfl, h⟩ | ⟨between, rfl, h⟩
      · rcases between with _ | ⟨o, between⟩
        · cases h
          rw [List.append_nil] at hleft'
          rw [ihLeft hleft' rfl, ihRight hright' rfl]
        · cases h
          exact (not_before hafter hbefore' rfl).elim
      · rcases between with _ | ⟨o, between⟩
        · cases h
          rw [ihLeft hleft' (List.append_nil _), ihRight hright' rfl]
        · cases h
          exact (not_before hafter' hbefore rfl).elim

end Conventional

end Chains

/-! ## Level by level -/

namespace Parser

variable {ι : Type} {sort : ι → Type} {α β : Type}

/-- A term with this value stands at the place, and it is one token. -/
def TermAt (g : Grammar sort) (tokens : Array Token) (term : Parser sort α) (pos : Nat) (v : α) :
    Prop :=
  term.Replies g tokens pos (.matched v (pos + 1))

/-- Wherever it is tried, the expression reads one token or does not match. -/
def Single (g : Grammar sort) (tokens : Array Token) (term : Parser sort α) : Prop :=
  ∀ pos, (∃ v, TermAt g tokens term pos v) ∨ term.Replies g tokens pos .noMatch

theorem single_token (g : Grammar sort) (tokens : Array Token) (t : Terminal) :
    Single g tokens (token t : Parser sort t.Value) := by
  intro pos
  have hreply := replies_token g tokens t pos
  split at hreply
  next v _ => exact .inl ⟨v, hreply⟩
  next => exact .inr hreply

theorem Single.map {g : Grammar sort} {tokens : Array Token} {term : Parser sort α}
    (h : Single g tokens term) (f : α → β) : Single g tokens (.map f term) := fun pos =>
  (h pos).imp (fun ⟨v, hv⟩ => ⟨f v, hv.map f⟩) fun hmiss => hmiss.map_miss f

/-- After a first term, a chain of operators of the table and terms goes on from one place to the
other and stops there, and this is the value of its tree. -/
structure Reads (g : Grammar sort) (tokens : Array Token) (term : Parser sort α)
    (symbol : β → String) (combine : β → α → α → α) (levels : List (List β)) (first : α)
    (pos next : Nat) (v : α) : Prop where
  chain : ∃ chain,
    Joined (operatorAt symbol levels.flatten tokens) (TermAt g tokens term) pos chain next ∧
      Conventional (levelOf symbol levels) combine first chain v
  stops : Stops (operatorAt symbol levels.flatten tokens) (TermAt g tokens term) next

/-- Where a term stands, the expression reads a chain of operators of the table and terms, as far as
it goes, and where none stands it does not match. -/
structure Builds (g : Grammar sort) (tokens : Array Token) (term : Parser sort α)
    (symbol : β → String) (combine : β → α → α → α) (levels : List (List β)) (p : Parser sort α) :
    Prop where
  miss : ∀ pos, term.Replies g tokens pos .noMatch → p.Replies g tokens pos .noMatch
  hit : ∀ pos first, TermAt g tokens term pos first → ∃ next v,
    Reads g tokens term symbol combine levels first (pos + 1) next v ∧
      p.Replies g tokens pos (.matched v next)

variable {g : Grammar sort} {tokens : Array Token} {term p : Parser sort α} {symbol : β → String}
  {combine : β → α → α → α} {levels : List (List β)} {ops : List β}

/-- An operator of the table with one more level is one of the table before or else of that level.
-/
theorem operatorAt_snoc (pos : Nat) : operatorAt symbol (levels ++ [ops]).flatten tokens pos =
    (operatorAt symbol levels.flatten tokens pos).or (operatorAt symbol ops tokens pos) := by
  have hflatten : (levels ++ [ops]).flatten = levels.flatten ++ ops := by simp
  rw [hflatten, operatorAt_append]

theorem mem_of_joined {termAt : Nat → α → Prop} {pos next : Nat} {chain : List (β × α)}
    (h : Joined (operatorAt symbol ops tokens) termAt pos chain next) : ∀ o ∈ chain, o.1 ∈ ops := by
  intro o ho
  obtain ⟨pos, hop⟩ := h.exists_operatorAt o ho
  obtain ⟨_, _, _, _, hmem⟩ := operatorAt_eq_some hop
  exact hmem

/-- One more level leaves a chain as it is, and its tree. -/
theorem joined_snoc {termAt : Nat → α → Prop} {pos next : Nat} {first v : α} {chain : List (β × α)}
    (h : Joined (operatorAt symbol levels.flatten tokens) termAt pos chain next)
    (htree : Conventional (levelOf symbol levels) combine first chain v) (ops : List β) :
    Joined (operatorAt symbol (levels ++ [ops]).flatten tokens) termAt pos chain next ∧
      Conventional (levelOf symbol (levels ++ [ops])) combine first chain v := by
  constructor
  · refine h.mono fun pos op hop => ?_
    rw [operatorAt_snoc, hop, Option.some_or]
  · exact htree.congr fun o ho => levelOf_append (mem_of_joined h o ho) [ops]

/-- The rounds of a level hang the trees of the levels before it onto the one there is, as long as
an operator of the level and a term follow.  No tighter level has that operator, or it would have
gone on there. -/
theorem Builds.rounds (hterm : Single g tokens term)
    (h : Builds g tokens term symbol combine levels p) {pos mid : Nat} {first left : α}
    {chain : List (β × α)}
    (hjoined : Joined (operatorAt symbol (levels ++ [ops]).flatten tokens) (TermAt g tokens term)
      pos chain mid)
    (htree : Conventional (levelOf symbol (levels ++ [ops])) combine first chain left)
    (hstops : Stops (operatorAt symbol levels.flatten tokens) (TermAt g tokens term) mid) :
    ∃ next v, Reads g tokens term symbol combine (levels ++ [ops]) first pos next v ∧
      RepliesRounds g tokens p (anyOf (ops.map (operator symbol combine))) left mid
        (.matched v next) := by
  have hoperators := replies_operators g tokens symbol combine ops mid
  rcases hop : operatorAt symbol ops tokens mid with _ | op
  · rw [hop] at hoperators
    refine ⟨mid, left, ⟨⟨chain, hjoined, htree⟩, fun op v hany => ?_⟩, .done hoperators⟩
    rw [operatorAt_snoc, hop, Option.or_none] at hany
    exact hstops op v hany
  rw [hop] at hoperators
  rcases hterm (mid + 1) with ⟨second, hsecond⟩ | hmiss
  · have hnone : operatorAt symbol levels.flatten tokens mid = none :=
      Option.eq_none_iff_forall_ne_some.2 fun op' hop' => hstops op' second hop' hsecond
    have hany : operatorAt symbol (levels ++ [ops]).flatten tokens mid = some op := by
      rw [operatorAt_snoc, hnone, hop, Option.none_or]
    obtain ⟨next, right, ⟨⟨inner, hinner, hright⟩, hstops'⟩, hreply⟩ :=
      h.hit (mid + 1) second hsecond
    have hlevel := levelOf_of_operatorAt hnone hop
    obtain ⟨hinner', hright'⟩ := joined_snoc hinner hright ops
    have htree' : Conventional (levelOf symbol (levels ++ [ops])) combine first
        (chain ++ (op, second) :: inner) (combine op left right) := by
      refine .join htree hright' (fun o ho => ?_) fun o ho => ?_
      · have hlt := levelOf_lt symbol (mem_of_joined hjoined o ho)
        rw [List.length_append, List.length_singleton] at hlt
        rw [hlevel]
        omega
      · rw [hlevel, levelOf_append (mem_of_joined hinner o ho)]
        exact levelOf_lt symbol (mem_of_joined hinner o ho)
    have hdecreases : tokens.size - next < tokens.size - mid := by
      obtain ⟨_, htoken, _⟩ := operatorAt_eq_some hop
      obtain ⟨hlt, _⟩ := Array.getElem?_eq_some_iff.1 htoken
      have := hinner.le
      omega
    obtain ⟨last, v, hreads, hrounds⟩ :=
      h.rounds hterm (hjoined.append (.cons hany hsecond hinner')) htree' hstops'
    exact ⟨last, v, hreads, .more hoperators hreply hrounds⟩
  · refine ⟨mid, left, ⟨⟨chain, hjoined, htree⟩, fun op v _ hv => ?_⟩,
      .back hoperators (h.miss _ hmiss)⟩
    exact absurd (hmiss.unique hv) nofun
termination_by tokens.size - mid

/-- **A level on top of the levels before it builds the trees of the table with that level added.**
-/
theorem Builds.level (hterm : Single g tokens term)
    (h : Builds g tokens term symbol combine levels p) (ops : List β) :
    Builds g tokens term symbol combine (levels ++ [ops])
      (.chain p (anyOf (ops.map (operator symbol combine)))) where
  miss pos hmiss := .chain_miss (h.miss pos hmiss)
  hit pos first hfirst := by
    obtain ⟨mid, left, ⟨⟨chain, hjoined, htree⟩, hstops⟩, hreply⟩ := h.hit pos first hfirst
    obtain ⟨hjoined', htree'⟩ := joined_snoc hjoined htree ops
    obtain ⟨next, v, hreads, hrounds⟩ := h.rounds hterm hjoined' htree' hstops
    exact ⟨next, v, hreads, .chain hreply hrounds⟩

theorem Builds.table (hterm : Single g tokens term) {done : List (List β)}
    (h : Builds g tokens term symbol combine done p) (levels : List (List β)) :
    Builds g tokens term symbol combine (done ++ levels) (precedence symbol combine p levels) := by
  induction levels generalizing done p with
  | nil => rwa [List.append_nil]
  | cons ops levels ih =>
    have hbuilds := ih (h.level hterm ops)
    rwa [List.append_assoc] at hbuilds

/-- Without levels, a chain is its first term. -/
theorem builds_term (symbol : β → String) (combine : β → α → α → α) :
    Builds g tokens term symbol combine [] term where
  miss _ hmiss := hmiss
  hit pos first hfirst := by
    refine ⟨pos + 1, first, ⟨⟨[], .nil, .term⟩, fun op v hop => ?_⟩, hfirst⟩
    obtain ⟨_, _, _, _, hmem⟩ := operatorAt_eq_some hop
    cases hmem

theorem termAt_unique (pos : Nat) (v v' : α) (h : TermAt g tokens term pos v)
    (h' : TermAt g tokens term pos v') : v = v' := by
  obtain ⟨⟩ := h.unique h'
  rfl

/-- **Operators in levels build the conventional tree, whatever the table.**  Where terms are single
tokens, an expression of terms and operators matches if and only if a term stands there.  It then
reads the longest chain of terms joined by operators of the table, so that an operator without a
term after it stays unread, and its value is that of the tree of the chain: at the root stands the
last operator among those of the loosest level in the chain, and both sides of it are built in the
same way. -/
theorem precedence_conventional (hterm : Single g tokens term) (symbol : β → String)
    (combine : β → α → α → α) (levels : List (List β)) (pos : Nat) :
    let p := precedence symbol combine term levels
    let operators := operatorAt symbol levels.flatten tokens
    let terms := TermAt g tokens term
    ((∃ v next, p.Replies g tokens pos (.matched v next)) ↔ ∃ first, terms pos first) ∧
    (p.Replies g tokens pos .noMatch ↔ ∀ first, ¬ terms pos first) ∧
    ∀ v next, p.Replies g tokens pos (.matched v next) ↔
      ∃ first chain, terms pos first ∧ Longest operators terms (pos + 1) chain next ∧
        Conventional (levelOf symbol levels) combine first chain v := by
  intro p operators terms
  have hbuilds : Builds g tokens term symbol combine levels p :=
    (builds_term symbol combine).table hterm levels
  rcases hterm pos with ⟨first, hfirst⟩ | hmiss
  · obtain ⟨next, v, ⟨⟨chain, hjoined, htree⟩, hstops⟩, hreply⟩ := hbuilds.hit pos first hfirst
    have hlongest := hjoined.longest hstops termAt_unique
    refine ⟨iff_of_true ⟨v, next, hreply⟩ ⟨first, hfirst⟩, iff_of_false ?_ fun h => h first hfirst,
      fun v' next' => ⟨fun h => ?_, ?_⟩⟩
    · exact fun h => absurd (h.unique hreply) nofun
    · obtain ⟨⟩ := h.unique hreply
      exact ⟨first, chain, hfirst, hlongest, htree⟩
    · rintro ⟨first', chain', hfirst', hlongest', htree'⟩
      obtain rfl := termAt_unique _ _ _ hfirst hfirst'
      obtain ⟨rfl, rfl⟩ := hjoined.eq_of_longest hstops hlongest' termAt_unique
      rw [htree'.unique htree rfl]
      exact hreply
  · have hnone : ∀ first, ¬ terms pos first := fun first h => absurd (h.unique hmiss) nofun
    have hreply := hbuilds.miss pos hmiss
    refine ⟨iff_of_false ?_ fun ⟨first, h⟩ => hnone first h, iff_of_true hreply hnone,
      fun v next => iff_of_false ?_ ?_⟩
    · rintro ⟨v, next, h⟩
      exact absurd (h.unique hreply) nofun
    · exact fun h => absurd (h.unique hreply) nofun
    · rintro ⟨first, chain, hfirst, _⟩
      exact hnone first hfirst

/-- A table in which `-` binds tighter than `+`, one level is empty and `*` is listed twice.  The
last `*` has no operand after it. -/
theorem precedence_conventional_odd :
    let tokens : Array Token := #[⟨"a", .id⟩, ⟨"-", .reserved⟩, ⟨"b", .id⟩, ⟨"*", .reserved⟩,
      ⟨"c", .id⟩, ⟨"-", .reserved⟩, ⟨"d", .id⟩, ⟨"+", .reserved⟩, ⟨"e", .id⟩, ⟨"*", .reserved⟩]
    let operand : Parser Nonterminal.Tree Expr := .map Expr.var identifier
    let levels : List (List ArithOp) := [[.mul], [], [.sub, .mul], [.add]]
    Single Program.grammar tokens operand ∧
      (precedence ArithOp.symbol Expr.binary operand levels).Replies Program.grammar tokens 0
        (.matched (.binary .add
          (.binary .sub (.binary .sub (.var "a") (.binary .mul (.var "b") (.var "c"))) (.var "d"))
          (.var "e")) 9) := by
  intro tokens operand levels
  have hidentifier : Single Program.grammar tokens identifier := single_token _ _ (.tagged .id)
  have hsingle : Single Program.grammar tokens operand := hidentifier.map Expr.var
  have hterm (pos : Nat) (name : String) (h : tokens[pos]? = some ⟨name, .id⟩) :
      TermAt Program.grammar tokens operand pos (.var name) := by
    have hreply := replies_token Program.grammar tokens (.tagged .id) pos
    rw [h] at hreply
    exact hreply.map Expr.var
  let chain : List (ArithOp × Expr) :=
    [(.sub, .var "b"), (.mul, .var "c"), (.sub, .var "d"), (.add, .var "e")]
  have hjoined : Joined (operatorAt ArithOp.symbol levels.flatten tokens)
      (TermAt Program.grammar tokens operand) 1 chain 9 :=
    .cons (by decide) (hterm 2 "b" rfl) (.cons (by decide) (hterm 4 "c" rfl)
      (.cons (by decide) (hterm 6 "d" rfl) (.cons (by decide) (hterm 8 "e" rfl) .nil)))
  have hstops : Stops (operatorAt ArithOp.symbol levels.flatten tokens)
      (TermAt Program.grammar tokens operand) 9 := by
    intro op v _ hv
    have hmiss := (replies_token Program.grammar tokens (.tagged .id) 10).map_miss Expr.var
    exact absurd (hmiss.unique hv) nofun
  let level := levelOf ArithOp.symbol levels
  have hproduct : Conventional level Expr.binary (.var "b") ([] ++ (.mul, .var "c") :: []) _ :=
    .join .term .term (by decide) (by decide)
  have hfirst : Conventional level Expr.binary (.var "a")
      ([] ++ (.sub, .var "b") :: [(.mul, .var "c")]) _ :=
    .join .term hproduct (by decide) (by decide)
  have hsecond : Conventional level Expr.binary (.var "a")
      ([(.sub, .var "b"), (.mul, .var "c")] ++ (.sub, .var "d") :: []) _ :=
    .join hfirst .term (by decide) (by decide)
  have htree : Conventional level Expr.binary (.var "a")
      ([(.sub, .var "b"), (.mul, .var "c"), (.sub, .var "d")] ++ (.add, .var "e") :: []) _ :=
    .join hsecond .term (by decide) (by decide)
  exact ⟨hsingle, ((precedence_conventional hsingle ArithOp.symbol Expr.binary levels 0).2.2 _ _).2
    ⟨_, chain, hterm 0 "a" rfl, hjoined.longest hstops termAt_unique, htree⟩⟩

end Parser

end Cam
