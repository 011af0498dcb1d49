import Cam.Proofs.Grammar.Spelling

/-!
# Proofs/Grammar/Lookahead — the first place where two inputs can part a parse

Take two inputs that are alike before the place `q`.  A parse of the first goes like a parse of the
second until it looks at `q`, and what it looks for there it either finds or wants in vain.  So if
its failures reach no further than `q` and nothing has been read past `q`, the other input gets the
same reply — unless the other token at `q` is one that was wanted there (`Task.Ends.alike`).

What carries the induction is that a parse which has read past `q` leaves a sign of it: it ends past
`q`, or it wants something past `q` (`Task.Ends.passes_or_wants`).
-/

namespace Cam

/-- Whether every part that is tried after another one reports its failures, and no part asks for
the end of the input. -/
def Parser.watchful {ι : Type} {sort : ι → Type} : {α : Type} → Parser sort α → Bool
  | _, .token _ => true
  | _, .never => true
  | _, .seq p q => p.watchful && q.watchful && q.reports
  | _, .alt p q => p.watchful && q.watchful
  | _, .map _ p => p.watchful
  | _, .chain item separator => item.watchful && separator.watchful && item.reports
  | _, .opt p => p.watchful
  | _, .phrase _ => false
  | _, .rule _ => true

/-- Whether a match ends past `q`. -/
def Reply.Passes {α : Type} (q : Nat) : Reply α → Prop
  | .matched _ next => q < next
  | .noMatch => False
  | .exhausted => False

/-- Among the failures there is one past `q`, or one at `q` that the other input does not have. -/
def Noticed (other : Array Token) (q : Nat) (fs : List Failure) : Prop :=
  ∃ f ∈ fs, q < f.position ∨
    (f.position = q ∧ ∃ t, f.wanted = .token t ∧ ((other[q]?).bind t.read?).isSome)

theorem Noticed.mono {other : Array Token} {q : Nat} {fs gs : List Failure}
    (h : Noticed other q fs) (hsub : fs ⊆ gs) : Noticed other q gs := by
  obtain ⟨f, hf, hnoticed⟩ := h
  exact ⟨f, hsub hf, hnoticed⟩

/-- The reply on the other input is the same, unless there was a sign of the place `q`. -/
def Alike {α : Type} (other : Array Token) (q : Nat) (reply : Reply α) (fs : List Failure)
    (reply' : Reply α) : Prop :=
  reply' = reply ∨ reply' = .exhausted ∨ Noticed other q fs ∨ reply.Passes q

namespace Alike

variable {α β : Type} {other : Array Token} {q : Nat} {fs gs : List Failure}
  {hit : α → Nat → Reply β} {miss reply : Reply β} {reply' : Reply α} {value : α} {next : Nat}

/-- After a match the parses go on side by side, or past `q`. -/
theorem of_match (h : Alike other q (.matched value next) fs reply')
    (hgo : Alike other q reply gs (hit value next))
    (hpast : q < next → Noticed other q gs ∨ reply.Passes q) :
    Alike other q reply (fs ++ gs) (reply'.elim hit miss) := by
  have hright : fs ⊆ fs ++ gs := List.subset_append_left fs gs
  have hleft : gs ⊆ fs ++ gs := List.subset_append_right fs gs
  rcases h with rfl | rfl | hnoticed | hnext
  · rcases hgo with hsame | hout | hnoticed | hpasses
    · exact .inl hsame
    · exact .inr (.inl hout)
    · exact .inr (.inr (.inl (hnoticed.mono hleft)))
    · exact .inr (.inr (.inr hpasses))
  · exact .inr (.inl rfl)
  · exact .inr (.inr (.inl (hnoticed.mono hright)))
  · exact .inr (.inr ((hpast hnext).imp_left (·.mono hleft)))

/-- After no match the parses go on side by side. -/
theorem of_noMatch (h : Alike other q .noMatch fs reply') (hgo : Alike other q reply gs miss) :
    Alike other q reply (fs ++ gs) (reply'.elim hit miss) := by
  rcases h with rfl | rfl | hnoticed | hpasses
  · rcases hgo with hsame | hout | hnoticed | hpasses
    · exact .inl hsame
    · exact .inr (.inl hout)
    · exact .inr (.inr (.inl (hnoticed.mono (List.subset_append_right fs gs))))
    · exact .inr (.inr (.inr hpasses))
  · exact .inr (.inl rfl)
  · exact .inr (.inr (.inl (hnoticed.mono (List.subset_append_left fs gs))))
  · exact hpasses.elim

/-- After a match that ends the task. -/
theorem of_match_done (h : Alike other q (.matched value next) fs reply')
    (hdone : hit value next = reply) (hpast : q < next → reply.Passes q) :
    Alike other q reply fs (reply'.elim hit miss) := by
  have hall : Alike other q reply (fs ++ []) (reply'.elim hit miss) :=
    h.of_match (.inl hdone) fun hnext => .inr (hpast hnext)
  rwa [List.append_nil] at hall

/-- After a failure that ends the task. -/
theorem of_noMatch_done (h : Alike other q .noMatch fs reply') (hdone : miss = reply) :
    Alike other q reply fs (reply'.elim hit miss) := by
  have hall : Alike other q reply (fs ++ []) (reply'.elim hit miss) := h.of_noMatch (.inl hdone)
  rwa [List.append_nil] at hall

end Alike

namespace Task

variable {ι : Type} {sort : ι → Type} {α : Type}

@[inherit_doc Parser.watchful]
def watchful : Task sort α → Bool
  | .parse p _ => p.watchful
  | .rounds item separator _ _ => (Parser.chain item separator).watchful

/-- The reply of a task; `rounds` bounds the rounds of a chain that has begun. -/
def reply (g : Grammar sort) (tokens : Array Token) (budget rounds : Nat) :
    Task sort α → Reply α
  | .parse p pos => p.reply g tokens budget pos
  | .rounds item separator left pos =>
    Parser.replyRounds g tokens budget item separator rounds left pos

namespace Ends

variable {g : Grammar sort} {tokens other : Array Token} {q : Nat} {task : Task sort α}
  {reply : Reply α} {fs : List Failure}

/-- **A task that begins past `q` leaves a sign of it.** -/
theorem passes_or_wants (hg : ∀ i, (g i).reports) (h : Ends g tokens task reply fs)
    (htask : task.reports) (hpos : q < task.pos) : Noticed other q fs ∨ reply.Passes q := by
  rcases reply with ⟨value, next⟩ | _ | _
  · exact .inr (Nat.lt_of_lt_of_le hpos (h.le_next rfl).1)
  · obtain ⟨f, hf⟩ := List.exists_mem_of_ne_nil fs (h.ne_nil hg htask rfl)
    exact .inl ⟨f, hf, .inl (Nat.lt_of_lt_of_le hpos (h.truthful f hf).1)⟩
  · exact absurd rfl h.ne_exhausted

/-- A token that was read is read again, unless it stands at `q` or later. -/
theorem alike_token (hsame : ∀ i < q, tokens[i]? = other[i]?) {t : Terminal} {pos : Nat}
    {value : t.Value} (h : (tokens[pos]?).bind t.read? = some value) (budget : Nat) :
    Alike other q (.matched value (pos + 1)) []
      ((Parser.token t : Parser sort t.Value).reply g other (budget + 1) pos) := by
  by_cases hpos : pos < q
  · refine .inl ?_
    rw [hsame pos hpos] at h
    rw [Parser.reply_token, h]
  · exact .inr (.inr (.inr (Nat.lt_succ_of_le (Nat.le_of_not_lt hpos))))

/-- A token that was wanted in vain is wanted in vain again, unless at `q` or later. -/
theorem alike_token_miss (hsame : ∀ i < q, tokens[i]? = other[i]?) {t : Terminal} {pos : Nat}
    (h : (tokens[pos]?).bind t.read? = none) (budget : Nat) :
    Alike other q .noMatch [⟨pos, .token t⟩]
      ((Parser.token t : Parser sort t.Value).reply g other (budget + 1) pos) := by
  rcases Nat.lt_trichotomy pos q with hpos | rfl | hpos
  · refine .inl ?_
    rw [hsame pos hpos] at h
    rw [Parser.reply_token, h]
  · rcases hother : (other[pos]?).bind t.read? with _ | value
    · refine .inl ?_
      rw [Parser.reply_token, hother]
    · refine .inr (.inr (.inl ⟨_, List.mem_singleton_self _, .inr ⟨rfl, t, rfl, ?_⟩⟩))
      rw [hother]
      rfl
  · exact .inr (.inr (.inl ⟨_, List.mem_singleton_self _, .inl hpos⟩))

/-- **Two inputs that are alike before `q` get the same reply**, unless the parse has read past `q`,
has wanted something past `q`, or has wanted at `q` what the other input has there. -/
theorem alike (hg : ∀ i, (g i).reports) (hwatchful : ∀ i, (g i).watchful)
    (hsame : ∀ i < q, tokens[i]? = other[i]?) (h : Ends g tokens task reply fs)
    (htask : task.watchful) (budget rounds : Nat) :
    Alike other q reply fs (task.reply g other budget rounds) := by
  induction h generalizing budget rounds with
  | token h =>
    rcases budget with _ | budget
    · exact .inr (.inl rfl)
    · exact alike_token hsame h budget
  | token_miss h =>
    rcases budget with _ | budget
    · exact .inr (.inl rfl)
    · exact alike_token_miss hsame h budget
  | never =>
    rcases budget with _ | budget
    · exact .inr (.inl rfl)
    · exact .inl rfl
  | seq first second ihp ihq =>
    simp only [watchful, Parser.watchful, Bool.and_eq_true] at htask
    rw [Task.reply, Parser.reply_seq]
    refine (ihp htask.1.1 budget rounds).of_match ?_ (second.passes_or_wants hg htask.2)
    exact (ihq htask.1.2 budget rounds).of_match_done rfl id
  | seq_miss_first first ih =>
    simp only [watchful, Parser.watchful, Bool.and_eq_true] at htask
    rw [Task.reply, Parser.reply_seq]
    exact (ih htask.1.1 budget rounds).of_noMatch_done rfl
  | seq_miss_second first second ihp ihq =>
    simp only [watchful, Parser.watchful, Bool.and_eq_true] at htask
    rw [Task.reply, Parser.reply_seq]
    refine (ihp htask.1.1 budget rounds).of_match ?_ (second.passes_or_wants hg htask.2)
    exact (ihq htask.1.2 budget rounds).of_noMatch_done rfl
  | alt_first first ih =>
    simp only [watchful, Parser.watchful, Bool.and_eq_true] at htask
    rw [Task.reply, Parser.reply_alt]
    exact (ih htask.1 budget rounds).of_match_done rfl id
  | alt_second first second ihp ihq =>
    simp only [watchful, Parser.watchful, Bool.and_eq_true] at htask
    rw [Task.reply, Parser.reply_alt]
    exact (ihp htask.1 budget rounds).of_noMatch (ihq htask.2 budget rounds)
  | map inner ih =>
    rw [Task.reply, Parser.reply_map]
    exact (ih htask budget rounds).of_match_done rfl id
  | map_miss inner ih =>
    rw [Task.reply, Parser.reply_map]
    exact (ih htask budget rounds).of_noMatch_done rfl
  | chain first others ihItem ihOthers =>
    have hitem := htask
    simp only [watchful, Parser.watchful, Bool.and_eq_true] at hitem
    rw [Task.reply, Parser.reply_chain]
    exact (ihItem hitem.1.1 budget rounds).of_match (ihOthers htask budget (budget - 1))
      (others.passes_or_wants hg rfl)
  | chain_miss first ih =>
    simp only [watchful, Parser.watchful, Bool.and_eq_true] at htask
    rw [Task.reply, Parser.reply_chain]
    exact (ih htask.1.1 budget rounds).of_noMatch_done rfl
  | opt inner ih =>
    rw [Task.reply, Parser.reply_opt]
    exact (ih htask budget rounds).of_match_done rfl id
  | opt_miss inner ih =>
    rw [Task.reply, Parser.reply_opt]
    exact (ih htask budget rounds).of_noMatch_done rfl
  | phrase inner _ ih => cases htask
  | phrase_miss inner ih => cases htask
  | phrase_miss_end inner _ ih => cases htask
  | rule body ih =>
    rcases budget with _ | budget
    · exact .inr (.inl rfl)
    · exact ih (hwatchful _) budget rounds
  | rounds_done stop ih =>
    simp only [watchful, Parser.watchful, Bool.and_eq_true] at htask
    rcases rounds with _ | rounds
    · exact .inr (.inl rfl)
    · rw [Task.reply, Parser.replyRounds_succ]
      exact (ih htask.1.2 budget rounds).of_noMatch_done rfl
  | rounds_back go stop ihGo ihItem =>
    simp only [watchful, Parser.watchful, Bool.and_eq_true] at htask
    rcases rounds with _ | rounds
    · exact .inr (.inl rfl)
    · rw [Task.reply, Parser.replyRounds_succ]
      refine (ihGo htask.1.2 budget rounds).of_match ?_ fun hmid => ?_
      · exact (ihItem htask.1.1 budget rounds).of_noMatch_done rfl
      · exact .inl ((stop.passes_or_wants hg htask.2 hmid).resolve_right id)
  | rounds_more go more others ihGo ihItem ihOthers =>
    have hparts := htask
    simp only [watchful, Parser.watchful, Bool.and_eq_true] at hparts
    rcases rounds with _ | rounds
    · exact .inr (.inl rfl)
    · rw [Task.reply, Parser.replyRounds_succ, List.append_assoc]
      refine (ihGo hparts.1.2 budget rounds).of_match ?_ fun hmid => ?_
      · exact (ihItem hparts.1.1 budget rounds).of_match (ihOthers htask budget rounds)
          (others.passes_or_wants hg rfl)
      · have hnext := Nat.lt_of_lt_of_le hmid (more.le_next rfl).1
        exact (others.passes_or_wants hg rfl hnext).imp_left
          (·.mono (List.subset_append_right _ _))

end Ends

end Task

end Cam
