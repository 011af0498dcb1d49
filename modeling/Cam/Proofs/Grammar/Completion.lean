import Cam.Proofs.Grammar.Spelling

/-!
# Proofs/Grammar/Completion — whatever a parse wants could have stood there

A parse gives up most of what it begins.  Still nothing that it wants is wanted without reason: if
the expression it set out with could be completed to a member of `L`, then so could the input up to
any place where something was wanted in vain, followed by what was wanted (`Task.Ends.completable`).

The argument carries a text `rest` along that completes whatever the present task may read.  When
an expression is entered for its first part, `rest` grows by some text for its other parts; so each
part that can stand second must derive something (`Parser.Finishes`).
-/

namespace Cam

namespace Parser

variable {ι : Type} {sort : ι → Type} {α β : Type}

/-- The expression derives something. -/
def Productive (lang : (i : ι) → List Token → sort i → Prop) (p : Parser sort α) : Prop :=
  ∃ ts v, p.Spells lang ts v

/-- Once its first part has been read, the rest of the expression can be supplied. -/
def Finishes (lang : (i : ι) → List Token → sort i → Prop) : {α : Type} → Parser sort α → Prop
  | _, .token _ => True
  | _, .never => True
  | _, .seq p q => p.Finishes lang ∧ q.Finishes lang ∧ q.Productive lang
  | _, .alt p q => p.Finishes lang ∧ q.Finishes lang
  | _, .map _ p => p.Finishes lang
  | _, .chain item separator =>
    item.Finishes lang ∧ separator.Finishes lang ∧ item.Productive lang
  | _, .opt p => p.Finishes lang
  | _, .phrase _ => False
  | _, .rule _ => True

end Parser

/-- The input up to the failure, and what was wanted there, begin a member of `L`. -/
def Failure.Completable (L : List Token → Prop) (tokens : Array Token) (f : Failure) : Prop :=
  match f.wanted with
  | .token t => ∀ token v, t.read? token = some v →
    ∃ rest, L (tokens.toList.take f.position ++ token :: rest)
  | .endOfInput => L (tokens.toList.take f.position)

namespace Task

variable {ι : Type} {sort : ι → Type} {α : Type}

@[inherit_doc Parser.Finishes]
def Finishes (lang : (i : ι) → List Token → sort i → Prop) : Task sort α → Prop
  | .parse p _ => p.Finishes lang
  | .rounds item separator _ _ => (Parser.chain item separator).Finishes lang

/-- Whatever the task may read, `rest` completes to a member of `L`. -/
def Fits (lang : (i : ι) → List Token → sort i → Prop) (L : List Token → Prop)
    (tokens : Array Token) (task : Task sort α) (rest : List Token) : Prop :=
  ∀ ts v, task.Spells lang ts v → L (tokens.toList.take task.pos ++ ts ++ rest)

namespace Fits

variable {lang : (i : ι) → List Token → sort i → Prop} {L : List Token → Prop}
  {tokens : Array Token} {rest us vs ws : List Token} {pos mid next : Nat} {β : Type}

/-- The first part of a sequence fits, because something can be written for the second one. -/
theorem toFirst {p : Parser sort α} {q : Parser sort β} (hq : q.Productive lang)
    (h : (Task.parse (.seq p q) pos).Fits lang L tokens rest) :
    ∃ rest, (Task.parse p pos).Fits lang L tokens rest := by
  obtain ⟨vs, b, hvs⟩ := hq
  refine ⟨vs ++ rest, fun us a hus => ?_⟩
  have hL := h (us ++ vs) (a, b) ⟨us, vs, hus, hvs, rfl⟩
  simpa only [pos_parse, pos_rounds, List.append_assoc] using hL

/-- The second part fits behind what the first one has read. -/
theorem toSecond {p : Parser sort α} {q : Parser sort β} {a : α}
    (h : (Task.parse (.seq p q) pos).Fits lang L tokens rest) (hspan : Spans tokens pos us mid)
    (hus : p.Spells lang us a) : (Task.parse q mid).Fits lang L tokens rest := by
  intro vs b hvs
  have hL := h (us ++ vs) (a, b) ⟨us, vs, hus, hvs, rfl⟩
  simpa only [pos_parse, pos_rounds, hspan.take_eq, List.append_assoc] using hL

section Rounds

variable {item : Parser sort α} {separator : Parser sort (α → α → α)} {left right : α}
  {join : α → α → α}

/-- The rounds of a chain fit behind its first item. -/
theorem toRounds (h : (Task.parse (.chain item separator) pos).Fits lang L tokens rest)
    (hspan : Spans tokens pos us mid) (hus : item.Spells lang us left) :
    (Task.rounds item separator left mid).Fits lang L tokens rest := by
  intro ts v hts
  have hL := h (us ++ ts) v (hts us (.one hus))
  simpa only [pos_parse, pos_rounds, hspan.take_eq, List.append_assoc] using hL

/-- A separator fits where a chain may go on, because an item can be written behind it. -/
theorem toSeparator (hitem : item.Productive lang)
    (h : (Task.rounds item separator left pos).Fits lang L tokens rest) :
    ∃ rest, (Task.parse separator pos).Fits lang L tokens rest := by
  obtain ⟨ws, b, hws⟩ := hitem
  refine ⟨ws ++ rest, fun vs join hvs => ?_⟩
  have hL := h (vs ++ ws) _ (spells_rounds_single hvs hws)
  simpa only [pos_parse, pos_rounds, List.append_assoc] using hL

theorem toMore (h : (Task.rounds item separator left pos).Fits lang L tokens rest)
    (hvspan : Spans tokens pos vs mid) (hvs : separator.Spells lang vs join)
    (hwspan : Spans tokens mid ws next) (hws : item.Spells lang ws right) :
    (Task.rounds item separator (join left right) next).Fits lang L tokens rest := by
  intro ts v hts
  have hL := h (vs ++ ws ++ ts) v (spells_rounds_append hvs hws hts)
  simpa only [pos_parse, pos_rounds, (hvspan.append hwspan).take_eq, List.append_assoc] using hL

/-- An item fits behind a separator. -/
theorem toItem (h : (Task.rounds item separator left pos).Fits lang L tokens rest)
    (hspan : Spans tokens pos vs mid) (hvs : separator.Spells lang vs join) :
    (Task.parse item mid).Fits lang L tokens rest := by
  intro ws right hws
  have hL := h (vs ++ ws) _ (spells_rounds_single hvs hws)
  simpa only [pos_parse, pos_rounds, hspan.take_eq, List.append_assoc] using hL

end Rounds

end Fits

namespace Ends

variable {g : Grammar sort} {tokens : Array Token} {lang : (i : ι) → List Token → sort i → Prop}
  {L : List Token → Prop} {task : Task sort α} {reply : Reply α} {fs : List Failure}

/-- **Whatever a parse wants could have stood there.** -/
theorem completable (hg : g.Closed lang) (hfinishes : ∀ i, (g i).Finishes lang)
    (h : Ends g tokens task reply fs) (htask : task.Finishes lang) {rest : List Token}
    (hfits : task.Fits lang L tokens rest) : ∀ f ∈ fs, f.Completable L tokens := by
  induction h generalizing rest with
  | token _ => exact List.forall_mem_nil _
  | @token_miss t pos h =>
    refine List.forall_mem_singleton.2 fun token v hread => ⟨rest, ?_⟩
    have := hfits [token] v ⟨token, hread, rfl⟩
    rwa [List.append_assoc, List.singleton_append] at this
  | never => exact List.forall_mem_nil _
  | seq first second ihp ihq =>
    obtain ⟨rest', hfirst⟩ := hfits.toFirst htask.2.2
    obtain ⟨us, hspan, hus⟩ := first.spells hg rfl
    exact List.forall_mem_append.2
      ⟨ihp htask.1 hfirst, ihq htask.2.1 (hfits.toSecond hspan hus)⟩
  | seq_miss_first first ih =>
    obtain ⟨rest', hfirst⟩ := hfits.toFirst htask.2.2
    exact ih htask.1 hfirst
  | seq_miss_second first second ihp ihq =>
    obtain ⟨rest', hfirst⟩ := hfits.toFirst htask.2.2
    obtain ⟨us, hspan, hus⟩ := first.spells hg rfl
    exact List.forall_mem_append.2
      ⟨ihp htask.1 hfirst, ihq htask.2.1 (hfits.toSecond hspan hus)⟩
  | alt_first first ih => exact ih htask.1 fun ts v hts => hfits ts v (.inl hts)
  | alt_second first second ihp ihq =>
    exact List.forall_mem_append.2 ⟨ihp htask.1 fun ts v hts => hfits ts v (.inl hts),
      ihq htask.2 fun ts v hts => hfits ts v (.inr hts)⟩
  | map inner ih => exact ih htask fun ts v hts => hfits ts _ ⟨v, hts, rfl⟩
  | map_miss inner ih => exact ih htask fun ts v hts => hfits ts _ ⟨v, hts, rfl⟩
  | chain first others ihItem ihOthers =>
    obtain ⟨us, hspan, hus⟩ := first.spells hg rfl
    exact List.forall_mem_append.2 ⟨ihItem htask.1 fun ts v hts => hfits ts v (.one hts),
      ihOthers htask (hfits.toRounds hspan hus)⟩
  | chain_miss first ih => exact ih htask.1 fun ts v hts => hfits ts v (.one hts)
  | opt inner ih => exact ih htask fun ts v hts => hfits ts _ (.inr ⟨v, hts, rfl⟩)
  | opt_miss inner ih => exact ih htask fun ts v hts => hfits ts _ (.inr ⟨v, hts, rfl⟩)
  | phrase inner _ ih => exact htask.elim
  | phrase_miss inner ih => exact htask.elim
  | phrase_miss_end inner _ ih => exact htask.elim
  | rule body ih => exact ih (hfinishes _) fun ts v hts => hfits ts v (hg _ ts v hts)
  | rounds_done stop ih =>
    obtain ⟨rest', hsep⟩ := hfits.toSeparator htask.2.2
    exact ih htask.2.1 hsep
  | rounds_back go stop ihGo ihItem =>
    obtain ⟨rest', hsep⟩ := hfits.toSeparator htask.2.2
    obtain ⟨vs, hspan, hvs⟩ := go.spells hg rfl
    exact List.forall_mem_append.2 ⟨ihGo htask.2.1 hsep, ihItem htask.1 (hfits.toItem hspan hvs)⟩
  | rounds_more go more others ihGo ihItem ihOthers =>
    obtain ⟨rest', hsep⟩ := hfits.toSeparator htask.2.2
    obtain ⟨vs, hvspan, hvs⟩ := go.spells hg rfl
    obtain ⟨ws, hwspan, hws⟩ := more.spells hg rfl
    refine List.forall_mem_append.2 ⟨List.forall_mem_append.2 ⟨ihGo htask.2.1 hsep, ?_⟩, ?_⟩
    · exact ihItem htask.1 (hfits.toItem hvspan hvs)
    · exact ihOthers htask (hfits.toMore hvspan hvs hwspan hws)

end Ends

end Task

end Cam
