import Cam.Proofs.Grammar.Trace

/-!
# Proofs/Grammar/Spelling — what the expressions of a grammar derive

`Parser.Spells lang p ts v` reads a grammar expression as a context-free one: choice is unordered, a
chain stops where it likes, and a rule stands for the language `lang` gives it.  Ordered choice and
greed lose derivations, but they never invent one: what a parse reads is derived
(`Task.Ends.spells`), for every family of languages that is closed under the rules.

Three more facts hold of every parse.  What it wants in vain stands neither before the place where
it began nor after the end of the input, and really does not stand there (`Task.Ends.truthful`);
it wants terminals of the grammar only (`Task.Ends.asks`); and if it does not match it has wanted
something (`Task.Ends.ne_nil`).
-/

namespace Cam

/-! ## Derivations -/

/-- Items with separators between them, joined from the left. -/
inductive Chained {α : Type} (item : List Token → α → Prop)
    (separator : List Token → (α → α → α) → Prop) : List Token → α → Prop where
  | one {ts : List Token} {a : α} (h : item ts a) : Chained item separator ts a
  | join {us vs ws : List Token} {a b : α} {f : α → α → α} (left : Chained item separator us a)
      (between : separator vs f) (right : item ws b) :
      Chained item separator (us ++ vs ++ ws) (f a b)

namespace Parser

variable {ι : Type} {sort : ι → Type}

/-- The tokens `ts` can be derived from the expression with the value `v`, where rule `i` derives
what `lang i` says. -/
def Spells (lang : (i : ι) → List Token → sort i → Prop) :
    {α : Type} → Parser sort α → List Token → α → Prop
  | _, .token t, ts, v => ∃ token, t.read? token = some v ∧ ts = [token]
  | _, .never, _, _ => False
  | _, .seq p q, ts, v => ∃ us vs, p.Spells lang us v.1 ∧ q.Spells lang vs v.2 ∧ ts = us ++ vs
  | _, .alt p q, ts, v => p.Spells lang ts v ∨ q.Spells lang ts v
  | _, .map f p, ts, v => ∃ a, p.Spells lang ts a ∧ f a = v
  | _, .chain item separator, ts, v => Chained (item.Spells lang) (separator.Spells lang) ts v
  | _, .opt p, ts, v => (ts = [] ∧ v = none) ∨ ∃ a, p.Spells lang ts a ∧ v = some a
  | _, .phrase p, ts, v => p.Spells lang ts v
  | _, .rule i, ts, v => lang i ts v

end Parser

/-- What a rule's expression derives is in the rule's language. -/
def Grammar.Closed {ι : Type} {sort : ι → Type} (g : Grammar sort)
    (lang : (i : ι) → List Token → sort i → Prop) : Prop :=
  ∀ i ts v, (g i).Spells lang ts v → lang i ts v

/-! ## Stretches of the input -/

/-- The tokens from `pos` up to `next` are `ts`. -/
def Spans (tokens : Array Token) (pos : Nat) (ts : List Token) (next : Nat) : Prop :=
  next = pos + ts.length ∧ tokens.toList.drop pos = ts ++ tokens.toList.drop next

namespace Spans

variable {tokens : Array Token} {pos mid next : Nat} {us vs ts : List Token}

theorem nil : Spans tokens pos [] pos := ⟨rfl, rfl⟩

theorem single {token : Token} (h : tokens[pos]? = some token) :
    Spans tokens pos [token] (pos + 1) := by
  refine ⟨rfl, ?_⟩
  rw [← Array.getElem?_toList] at h
  obtain ⟨hlt, rfl⟩ := List.getElem?_eq_some_iff.1 h
  exact List.drop_eq_getElem_cons hlt

theorem append (hu : Spans tokens pos us mid) (hv : Spans tokens mid vs next) :
    Spans tokens pos (us ++ vs) next := by
  refine ⟨?_, ?_⟩
  · rw [hv.1, hu.1, List.length_append, Nat.add_assoc]
  · rw [hu.2, hv.2, List.append_assoc]

/-- What stands before the end of a stretch is what stands before its start, and the stretch. -/
theorem take_eq (h : Spans tokens pos ts next) :
    tokens.toList.take next = tokens.toList.take pos ++ ts := by
  refine (List.append_left_inj (tokens.toList.drop next)).1 ?_
  rw [List.take_append_drop, List.append_assoc, ← h.2, List.take_append_drop]

theorem le (h : Spans tokens pos ts next) : pos ≤ next := by
  rw [h.1]
  exact Nat.le_add_right pos ts.length

theorem le_size (h : Spans tokens pos ts next) (hpos : pos ≤ tokens.size) : next ≤ tokens.size := by
  have hlen := congrArg List.length h.2
  rw [List.length_append, List.length_drop, List.length_drop, Array.length_toList] at hlen
  have := h.1
  omega

end Spans

/-! ## What is read is derived -/

namespace Task

variable {ι : Type} {sort : ι → Type} {α : Type}

/-- The place where a task begins. -/
def pos : Task sort α → Nat
  | .parse _ pos => pos
  | .rounds _ _ _ pos => pos

@[simp] theorem pos_parse (p : Parser sort α) (pos : Nat) : (Task.parse p pos).pos = pos := rfl

@[simp] theorem pos_rounds (item : Parser sort α) (separator : Parser sort (α → α → α)) (left : α)
    (pos : Nat) : (Task.rounds item separator left pos).pos = pos := rfl

/-- What a task may read, with which value.  The rounds of a chain extend what there is of it. -/
def Spells (lang : (i : ι) → List Token → sort i → Prop) :
    Task sort α → List Token → α → Prop
  | .parse p _, ts, v => p.Spells lang ts v
  | .rounds item separator left _, ts, v =>
    ∀ us, (Parser.chain item separator).Spells lang us left →
      (Parser.chain item separator).Spells lang (us ++ ts) v

section Rounds

variable {lang : (i : ι) → List Token → sort i → Prop} {item : Parser sort α}
  {separator : Parser sort (α → α → α)} {left right v : α} {join : α → α → α} {pos next : Nat}

/-- A chain may end where it is. -/
theorem spells_rounds_nil : (Task.rounds item separator left pos).Spells lang [] left := by
  intro us hus
  rwa [List.append_nil]

/-- …or go on by a separator and an item. -/
theorem spells_rounds_append {vs ws ts : List Token} (hjoin : separator.Spells lang vs join)
    (hright : item.Spells lang ws right)
    (hts : (Task.rounds item separator (join left right) next).Spells lang ts v) :
    (Task.rounds item separator left pos).Spells lang (vs ++ ws ++ ts) v := by
  intro us hus
  have h := hts (us ++ vs ++ ws) (.join hus hjoin hright)
  simpa only [List.append_assoc] using h

theorem spells_rounds_single {vs ws : List Token} (hjoin : separator.Spells lang vs join)
    (hright : item.Spells lang ws right) :
    (Task.rounds item separator left pos).Spells lang (vs ++ ws) (join left right) := by
  intro us hus
  rw [← List.append_assoc]
  exact .join hus hjoin hright

end Rounds

namespace Ends

variable {g : Grammar sort} {tokens : Array Token} {lang : (i : ι) → List Token → sort i → Prop}
  {task : Task sort α} {reply : Reply α} {fs : List Failure}

/-- **What a parse reads is derived**, in every family of languages closed under the rules. -/
theorem spells (hg : g.Closed lang) (h : Ends g tokens task reply fs) {v : α} {next : Nat}
    (hreply : reply = .matched v next) :
    ∃ ts, Spans tokens task.pos ts next ∧ task.Spells lang ts v := by
  induction h generalizing next with
  | @token t pos value h =>
    cases hreply
    obtain ⟨token, htoken, hread⟩ := Option.bind_eq_some_iff.1 h
    exact ⟨[token], .single htoken, token, hread, rfl⟩
  | seq _ _ ihp ihq =>
    cases hreply
    obtain ⟨us, hus, hp⟩ := ihp rfl
    obtain ⟨vs, hvs, hq⟩ := ihq rfl
    exact ⟨us ++ vs, hus.append hvs, us, vs, hp, hq, rfl⟩
  | alt_first _ ih =>
    obtain ⟨ts, hts, hp⟩ := ih hreply
    exact ⟨ts, hts, .inl hp⟩
  | alt_second _ _ _ ih =>
    obtain ⟨ts, hts, hq⟩ := ih hreply
    exact ⟨ts, hts, .inr hq⟩
  | map _ ih =>
    cases hreply
    obtain ⟨ts, hts, hp⟩ := ih rfl
    exact ⟨ts, hts, _, hp, rfl⟩
  | chain _ _ ihItem ihOthers =>
    obtain ⟨us, hus, hitem⟩ := ihItem rfl
    obtain ⟨ts, hts, hothers⟩ := ihOthers hreply
    exact ⟨us ++ ts, hus.append hts, hothers us (.one hitem)⟩
  | opt _ ih =>
    cases hreply
    obtain ⟨ts, hts, hp⟩ := ih rfl
    exact ⟨ts, hts, .inr ⟨_, hp, rfl⟩⟩
  | opt_miss _ _ =>
    cases hreply
    exact ⟨[], .nil, .inl ⟨rfl, rfl⟩⟩
  | phrase _ _ ih => exact ih hreply
  | rule _ ih =>
    obtain ⟨ts, hts, hbody⟩ := ih hreply
    exact ⟨ts, hts, hg _ ts v hbody⟩
  | rounds_done _ _ =>
    cases hreply
    exact ⟨[], .nil, spells_rounds_nil⟩
  | rounds_back _ _ _ _ =>
    cases hreply
    exact ⟨[], .nil, spells_rounds_nil⟩
  | rounds_more _ _ _ ihGo ihItem ihOthers =>
    obtain ⟨vs, hvs, hgo⟩ := ihGo rfl
    obtain ⟨ws, hws, hitem⟩ := ihItem rfl
    obtain ⟨ts, hts, hothers⟩ := ihOthers hreply
    exact ⟨vs ++ ws ++ ts, (hvs.append hws).append hts, spells_rounds_append hgo hitem hothers⟩
  | _ => cases hreply

/-- The rules know no budget. -/
theorem ne_exhausted (h : Ends g tokens task reply fs) : reply ≠ .exhausted := by
  induction h with
  | alt_second _ _ _ ih => exact ih
  | chain _ _ _ ih => exact ih
  | rule _ ih => exact ih
  | rounds_more _ _ _ _ _ ih => exact ih
  | _ => intro hreply; cases hreply

/-- A parse goes forward, and not past the end of the input. -/
theorem le_next (h : Ends g tokens task reply fs) {v : α} {next : Nat}
    (hreply : reply = .matched v next) :
    task.pos ≤ next ∧ (task.pos ≤ tokens.size → next ≤ tokens.size) := by
  have hg : g.Closed fun _ _ _ => True := fun _ _ _ _ => trivial
  obtain ⟨ts, hts, _⟩ := h.spells hg hreply
  exact ⟨hts.le, hts.le_size⟩

end Ends

end Task

/-! ## What is wanted in vain -/

/-- What is said to be wanted in vain does not stand there. -/
def Failure.Truthful (tokens : Array Token) (f : Failure) : Prop :=
  match f.wanted with
  | .token t => (tokens[f.position]?).bind t.read? = none
  | .endOfInput => f.position < tokens.size

/-- Whether all the terminals of an expression are `ok`. -/
def Parser.asks {ι : Type} {sort : ι → Type} (ok : Terminal → Bool) :
    {α : Type} → Parser sort α → Bool
  | _, .token t => ok t
  | _, .never => true
  | _, .seq p q => p.asks ok && q.asks ok
  | _, .alt p q => p.asks ok && q.asks ok
  | _, .map _ p => p.asks ok
  | _, .chain item separator => item.asks ok && separator.asks ok
  | _, .opt p => p.asks ok
  | _, .phrase p => p.asks ok
  | _, .rule _ => true

@[inherit_doc Parser.asks]
def Task.asks {ι : Type} {sort : ι → Type} {α : Type} (ok : Terminal → Bool) : Task sort α → Bool
  | .parse p _ => p.asks ok
  | .rounds item separator _ _ => item.asks ok && separator.asks ok

/-- Whether an expression that does not match has wanted something.  Only `never` says nothing. -/
def Parser.reports {ι : Type} {sort : ι → Type} : {α : Type} → Parser sort α → Bool
  | _, .token _ => true
  | _, .never => false
  | _, .seq p q => p.reports && q.reports
  | _, .alt p q => p.reports || q.reports
  | _, .map _ p => p.reports
  | _, .chain item _ => item.reports
  | _, .opt _ => true
  | _, .phrase p => p.reports
  | _, .rule _ => true

@[inherit_doc Parser.reports]
def Task.reports {ι : Type} {sort : ι → Type} {α : Type} : Task sort α → Bool
  | .parse p _ => p.reports
  | .rounds _ _ _ _ => true

namespace Task.Ends

variable {ι : Type} {sort : ι → Type} {α : Type} {g : Grammar sort} {tokens : Array Token}
  {task : Task sort α} {reply : Reply α} {fs : List Failure}

/-- **What a parse wants in vain does not stand there**, and stands between the place where the
parse began and the end of the input.  Of a part that begins further on, more holds than is asked of
the whole. -/
theorem truthful (h : Ends g tokens task reply fs) :
    ∀ f ∈ fs, task.pos ≤ f.position ∧
      (task.pos ≤ tokens.size → f.position ≤ tokens.size ∧ f.Truthful tokens) := by
  have weaken : ∀ {pos mid : Nat} {fs : List Failure},
      (pos ≤ mid ∧ (pos ≤ tokens.size → mid ≤ tokens.size)) →
      (∀ f ∈ fs, mid ≤ f.position ∧
        (mid ≤ tokens.size → f.position ≤ tokens.size ∧ f.Truthful tokens)) →
      ∀ f ∈ fs, pos ≤ f.position ∧
        (pos ≤ tokens.size → f.position ≤ tokens.size ∧ f.Truthful tokens) :=
    fun hle h f hf => ⟨Nat.le_trans hle.1 (h f hf).1, fun hpos => (h f hf).2 (hle.2 hpos)⟩
  induction h with
  | token _ => exact List.forall_mem_nil _
  | token_miss h => exact List.forall_mem_singleton.2 ⟨Nat.le_refl _, fun hpos => ⟨hpos, h⟩⟩
  | never => exact List.forall_mem_nil _
  | seq first _ ihp ihq => exact List.forall_mem_append.2 ⟨ihp, weaken (first.le_next rfl) ihq⟩
  | seq_miss_first _ ih => exact ih
  | seq_miss_second first _ ihp ihq =>
    exact List.forall_mem_append.2 ⟨ihp, weaken (first.le_next rfl) ihq⟩
  | alt_first _ ih => exact ih
  | alt_second _ _ ihp ihq => exact List.forall_mem_append.2 ⟨ihp, ihq⟩
  | map _ ih => exact ih
  | map_miss _ ih => exact ih
  | chain first _ ihItem ihOthers =>
    exact List.forall_mem_append.2 ⟨ihItem, weaken (first.le_next rfl) ihOthers⟩
  | chain_miss _ ih => exact ih
  | opt _ ih => exact ih
  | opt_miss _ ih => exact ih
  | phrase _ _ ih => exact ih
  | phrase_miss _ ih => exact ih
  | phrase_miss_end inner hne ih =>
    obtain ⟨hle, hsize⟩ := inner.le_next rfl
    refine List.forall_mem_append.2 ⟨ih, List.forall_mem_singleton.2 ⟨hle, fun hpos => ?_⟩⟩
    exact ⟨hsize hpos, Nat.lt_of_le_of_ne (hsize hpos) hne⟩
  | rule _ ih => exact ih
  | rounds_done _ ih => exact ih
  | rounds_back go _ ihGo ihItem =>
    exact List.forall_mem_append.2 ⟨ihGo, weaken (go.le_next rfl) ihItem⟩
  | rounds_more go more _ ihGo ihItem ihOthers =>
    refine List.forall_mem_append.2 ⟨List.forall_mem_append.2 ⟨ihGo, ?_⟩, ?_⟩
    · exact weaken (go.le_next rfl) ihItem
    · exact weaken (go.le_next rfl) (weaken (more.le_next rfl) ihOthers)

/-- **A parse asks for terminals of the grammar only.** -/
theorem asks {ok : Terminal → Bool} (hg : ∀ i, (g i).asks ok) (h : Ends g tokens task reply fs)
    (htask : task.asks ok) : ∀ f ∈ fs, ∀ t, f.wanted = .token t → ok t := by
  induction h with
  | token _ => exact List.forall_mem_nil _
  | token_miss _ =>
    refine List.forall_mem_singleton.2 fun t ht => ?_
    obtain rfl := Wanted.token.inj ht
    exact htask
  | never => exact List.forall_mem_nil _
  | seq _ _ ihp ihq =>
    obtain ⟨hp, hq⟩ := Bool.and_eq_true_iff.1 htask
    exact List.forall_mem_append.2 ⟨ihp hp, ihq hq⟩
  | seq_miss_first _ ih => exact ih (Bool.and_eq_true_iff.1 htask).1
  | seq_miss_second _ _ ihp ihq =>
    obtain ⟨hp, hq⟩ := Bool.and_eq_true_iff.1 htask
    exact List.forall_mem_append.2 ⟨ihp hp, ihq hq⟩
  | alt_first _ ih => exact ih (Bool.and_eq_true_iff.1 htask).1
  | alt_second _ _ ihp ihq =>
    obtain ⟨hp, hq⟩ := Bool.and_eq_true_iff.1 htask
    exact List.forall_mem_append.2 ⟨ihp hp, ihq hq⟩
  | map _ ih => exact ih htask
  | map_miss _ ih => exact ih htask
  | chain _ _ ihItem ihOthers =>
    exact List.forall_mem_append.2 ⟨ihItem (Bool.and_eq_true_iff.1 htask).1, ihOthers htask⟩
  | chain_miss _ ih => exact ih (Bool.and_eq_true_iff.1 htask).1
  | opt _ ih => exact ih htask
  | opt_miss _ ih => exact ih htask
  | phrase _ _ ih => exact ih htask
  | phrase_miss _ ih => exact ih htask
  | phrase_miss_end _ _ ih =>
    exact List.forall_mem_append.2 ⟨ih htask, List.forall_mem_singleton.2 nofun⟩
  | rule _ ih => exact ih (hg _)
  | rounds_done _ ih => exact ih (Bool.and_eq_true_iff.1 htask).2
  | rounds_back _ _ ihGo ihItem =>
    obtain ⟨hitem, hsep⟩ := Bool.and_eq_true_iff.1 htask
    exact List.forall_mem_append.2 ⟨ihGo hsep, ihItem hitem⟩
  | rounds_more _ _ _ ihGo ihItem ihOthers =>
    obtain ⟨hitem, hsep⟩ := Bool.and_eq_true_iff.1 htask
    refine List.forall_mem_append.2 ⟨List.forall_mem_append.2 ⟨ihGo hsep, ihItem hitem⟩, ?_⟩
    exact ihOthers htask

/-- **A task that does not match has wanted something.** -/
theorem ne_nil (hg : ∀ i, (g i).reports) (h : Ends g tokens task reply fs) (htask : task.reports)
    (hreply : reply = .noMatch) : fs ≠ [] := by
  induction h with
  | token_miss _ => exact List.cons_ne_nil _ _
  | never => cases htask
  | seq_miss_first _ ih => exact ih (Bool.and_eq_true_iff.1 htask).1 rfl
  | seq_miss_second _ _ _ ihq =>
    exact List.append_ne_nil_of_right_ne_nil _ (ihq (Bool.and_eq_true_iff.1 htask).2 rfl)
  | alt_second _ _ ihp ihq =>
    rcases Bool.or_eq_true_iff.1 htask with hp | hq
    · exact List.append_ne_nil_of_left_ne_nil (ihp hp rfl) _
    · exact List.append_ne_nil_of_right_ne_nil _ (ihq hq hreply)
  | map_miss _ ih => exact ih htask rfl
  | chain _ _ _ ihOthers => exact List.append_ne_nil_of_right_ne_nil _ (ihOthers rfl hreply)
  | chain_miss _ ih => exact ih htask rfl
  | phrase_miss _ ih => exact ih htask rfl
  | phrase_miss_end _ _ _ => exact List.append_ne_nil_of_right_ne_nil _ (List.cons_ne_nil _ _)
  | rule _ ih => exact ih (hg _) hreply
  | rounds_more _ _ _ _ _ ihOthers =>
    exact List.append_ne_nil_of_right_ne_nil _ (ihOthers rfl hreply)
  | _ => cases hreply

end Task.Ends

end Cam
