import Cam.Proofs.Grammar.Spelling

/-!
# Proofs/Grammar/Budget — a grammar without left recursion never uses up its budget

Between two tokens a parse goes down through the rules that may stand first in the one it is in.  If
these have smaller ranks (`Grammar.Ranked`), it enters less than `width` rules before it reads a
token, and each round of a chain reads one.  So a budget of `width` for each token that is left, and
the rank it starts from, is never used up (`Parser.reply_ne_exhausted`).
-/

namespace Cam

/-! ## Progress -/

namespace Parser

variable {ι : Type} {sort : ι → Type} {α : Type}

/-- Whether a match reads at least one token, provided that the rules do. -/
def consumes : {α : Type} → Parser sort α → Bool
  | _, .token _ => true
  | _, .never => true
  | _, .seq p q => p.consumes || q.consumes
  | _, .alt p q => p.consumes && q.consumes
  | _, .map _ p => p.consumes
  | _, .chain item _ => item.consumes
  | _, .opt _ => false
  | _, .phrase p => p.consumes
  | _, .rule _ => true

/-- What a consuming expression derives is not empty, if that holds of the rules. -/
theorem ne_nil_of_spells {lang : (i : ι) → List Token → sort i → Prop}
    (hlang : ∀ i ts v, lang i ts v → ts ≠ []) {p : Parser sort α} (hp : p.consumes)
    {ts : List Token} {v : α} (h : p.Spells lang ts v) : ts ≠ [] := by
  induction p generalizing ts with
  | token t =>
    obtain ⟨token, _, rfl⟩ := h
    exact List.cons_ne_nil _ _
  | never => exact h.elim
  | seq p q ihp ihq =>
    obtain ⟨us, vs, hus, hvs, rfl⟩ := h
    rcases Bool.or_eq_true_iff.1 hp with hp | hq
    · exact List.append_ne_nil_of_left_ne_nil (ihp hp hus) vs
    · exact List.append_ne_nil_of_right_ne_nil us (ihq hq hvs)
  | alt p q ihp ihq =>
    obtain ⟨hp, hq⟩ := Bool.and_eq_true_iff.1 hp
    exact h.elim (ihp hp) (ihq hq)
  | map f p ih =>
    obtain ⟨a, ha, _⟩ := h
    exact ih hp ha
  | chain item separator ihItem _ =>
    cases h with
    | one hitem => exact ihItem hp hitem
    | join _ _ hright => exact List.append_ne_nil_of_right_ne_nil _ (ihItem hp hright)
  | opt p _ => cases hp
  | phrase p ih => exact ih hp h
  | rule i => exact hlang i ts v h

variable {g : Grammar sort} {tokens : Array Token} {budget pos next : Nat}

/-- A parse goes forward, and not past the end of the input. -/
theorem le_next {p : Parser sort α} {v : α} (h : p.reply g tokens budget pos = .matched v next) :
    pos ≤ next ∧ (pos ≤ tokens.size → next ≤ tokens.size) := by
  obtain ⟨fs, hends⟩ := ends_of_reply h (by simp)
  exact hends.le_next rfl

/-- A consuming expression matches a stretch that is not empty, if every rule reads a token. -/
theorem exists_spans (hg : ∀ i, (g i).consumes) {p : Parser sort α} (hp : p.consumes) {v : α}
    (h : p.reply g tokens budget pos = .matched v next) :
    ∃ ts, ts ≠ [] ∧ Spans tokens pos ts next := by
  have hclosed : g.Closed fun _ ts _ => ts ≠ [] := fun i ts v hts =>
    ne_nil_of_spells (fun _ _ _ h => h) (hg i) hts
  obtain ⟨fs, hends⟩ := ends_of_reply h (by simp)
  obtain ⟨ts, hspan, hts⟩ := hends.spells hclosed rfl
  exact ⟨ts, ne_nil_of_spells (fun _ _ _ h => h) hp hts, hspan⟩

/-- …so it goes forward by at least one token. -/
theorem lt_next (hg : ∀ i, (g i).consumes) {p : Parser sort α} (hp : p.consumes) {v : α}
    (h : p.reply g tokens budget pos = .matched v next) : pos < next := by
  obtain ⟨ts, hts, hspan⟩ := exists_spans hg hp h
  have hlen := List.length_pos_iff.2 hts
  rw [hspan.1]
  omega

/-- …and never past the end of the input, wherever it begins. -/
theorem next_le_size (hg : ∀ i, (g i).consumes) {p : Parser sort α} (hp : p.consumes) {v : α}
    (h : p.reply g tokens budget pos = .matched v next) : next ≤ tokens.size := by
  obtain ⟨ts, hts, hspan⟩ := exists_spans hg hp h
  refine hspan.le_size (Nat.le_of_not_lt fun hpast => hts ?_)
  have hnil : tokens.toList.drop pos = [] :=
    List.drop_eq_nil_of_le (tokens.length_toList ▸ Nat.le_of_lt hpast)
  exact List.append_eq_nil_iff.1 (hspan.2 ▸ hnil) |>.1

/-! ## What stands first -/

/-- The rules that may be tried before a token has been read. -/
def heads : {α : Type} → Parser sort α → List ι
  | _, .token _ => []
  | _, .never => []
  | _, .seq p q => p.heads ++ if p.consumes then [] else q.heads
  | _, .alt p q => p.heads ++ q.heads
  | _, .map _ p => p.heads
  | _, .chain item _ => item.heads
  | _, .opt p => p.heads
  | _, .phrase p => p.heads
  | _, .rule i => [i]

/-- Whether every round of a chain reads a token. -/
def steady : {α : Type} → Parser sort α → Bool
  | _, .token _ => true
  | _, .never => true
  | _, .seq p q => p.steady && q.steady
  | _, .alt p q => p.steady && q.steady
  | _, .map _ p => p.steady
  | _, .chain item separator => item.consumes && item.steady && separator.steady
  | _, .opt p => p.steady
  | _, .phrase p => p.steady
  | _, .rule _ => true

end Parser

/-- Every rule and every round of a chain reads a token, and the rules that may stand first in a
rule have smaller ranks, all below `width`. -/
structure Grammar.Ranked {ι : Type} {sort : ι → Type} (g : Grammar sort) (rank : ι → Nat)
    (width : Nat) : Prop where
  consumes : ∀ i, (g i).consumes
  steady : ∀ i, (g i).steady
  width_pos : 0 < width
  rank_lt : ∀ i, rank i < width
  rank_lt_of_mem : ∀ i, ∀ j ∈ (g i).heads, rank j < rank i

/-! ## The budget suffices -/

theorem Reply.elim_ne_exhausted {α β : Type} {reply : Reply α} (h : reply ≠ .exhausted)
    {hit : α → Nat → Reply β} (hhit : ∀ v next, reply = .matched v next → hit v next ≠ .exhausted)
    {miss : Reply β} (hmiss : miss ≠ .exhausted) : reply.elim hit miss ≠ .exhausted := by
  rcases reply with ⟨v, next⟩ | _ | _
  · exact hhit v next rfl
  · exact hmiss
  · exact absurd rfl h

namespace Parser

variable {ι : Type} {sort : ι → Type} {α : Type} {g : Grammar sort} {tokens : Array Token}
  {rank : ι → Nat} {width : Nat}

/-- A token read pays for a whole descent. -/
theorem width_mul_add_le (width : Nat) {pos next size : Nat} (hlt : pos < next)
    (hle : next ≤ size) : width * (size - next) + width ≤ width * (size - pos) := by
  rw [← Nat.mul_succ]
  exact Nat.mul_le_mul_left width (by omega)

/-- The rounds of a chain end, as each of them reads a token. -/
theorem replyRounds_ne_exhausted {budget start : Nat} {item : Parser sort α}
    {separator : Parser sort (α → α → α)} (hg : ∀ i, (g i).consumes) (hconsumes : item.consumes)
    (hitem : ∀ pos, start < pos → pos ≤ tokens.size → item.reply g tokens budget pos ≠ .exhausted)
    (hsep : ∀ pos, start < pos → pos ≤ tokens.size →
      separator.reply g tokens budget pos ≠ .exhausted)
    {rounds : Nat} {left : α} {pos : Nat} (hstart : start < pos) (hpos : pos ≤ tokens.size)
    (hrounds : tokens.size - pos < rounds) :
    replyRounds g tokens budget item separator rounds left pos ≠ .exhausted := by
  induction rounds generalizing left pos with
  | zero => omega
  | succ rounds ih =>
    rw [replyRounds_succ]
    refine Reply.elim_ne_exhausted (hsep pos hstart hpos) (fun join mid hjoin => ?_) (by simp)
    obtain ⟨hmid, hmidSize⟩ := le_next hjoin
    have hmidSize := hmidSize hpos
    refine Reply.elim_ne_exhausted (hitem mid (by omega) hmidSize) (fun right next hright => ?_)
      (by simp)
    have hnext := lt_next hg hconsumes hright
    have hnextSize := (le_next hright).2 hmidSize
    exact ih (by omega) hnextSize (by omega)

/-- **The budget is never used up** where it covers `width` for each token that is left, and the
ranks of the rules that may come first.  In a sequence whose first part reads nothing, what may come
first in the second part may come first in the whole. -/
theorem reply_ne_exhausted (hg : g.Ranked rank width) {budget bound pos : Nat} {p : Parser sort α}
    (hsteady : p.steady) (hheads : ∀ j ∈ p.heads, rank j < bound) (hbound : bound ≤ width)
    (hpos : pos ≤ tokens.size) (hbudget : width * (tokens.size - pos) + bound < budget) :
    p.reply g tokens budget pos ≠ .exhausted := by
  induction budget generalizing α p pos bound with
  | zero => omega
  | succ budget ihBudget =>
    induction p generalizing pos bound with
    | token t =>
      rw [reply_token]
      split <;> simp
    | never => simp
    | seq p q ihp ihq =>
      obtain ⟨hpSteady, hqSteady⟩ := Bool.and_eq_true_iff.1 hsteady
      rw [reply_seq]
      refine Reply.elim_ne_exhausted
        (ihp hpSteady (fun j hj => hheads j (List.mem_append_left _ hj)) hbound hpos hbudget)
        (fun a mid hp => ?_) (by simp)
      obtain ⟨hmid, hmidSize⟩ := le_next hp
      refine Reply.elim_ne_exhausted ?_ (fun b next _ => by simp) (by simp)
      rcases Nat.eq_or_lt_of_le hmid with rfl | hlt
      · have hconsumes : ¬ p.consumes := fun h => Nat.lt_irrefl _ (lt_next hg.consumes h hp)
        refine ihq hqSteady (fun j hj => hheads j ?_) hbound hpos hbudget
        rw [heads, if_neg hconsumes]
        exact List.mem_append_right _ hj
      · have hpaid := width_mul_add_le width hlt (hmidSize hpos)
        exact ihq hqSteady (fun j _ => hg.rank_lt j) (Nat.le_refl width) (hmidSize hpos) (by omega)
    | alt p q ihp ihq =>
      obtain ⟨hpSteady, hqSteady⟩ := Bool.and_eq_true_iff.1 hsteady
      rw [reply_alt]
      exact Reply.elim_ne_exhausted
        (ihp hpSteady (fun j hj => hheads j (List.mem_append_left _ hj)) hbound hpos hbudget)
        (fun a next _ => by simp)
        (ihq hqSteady (fun j hj => hheads j (List.mem_append_right _ hj)) hbound hpos hbudget)
    | map f p ih =>
      rw [reply_map]
      exact Reply.elim_ne_exhausted (ih hsteady hheads hbound hpos hbudget)
        (fun a next _ => by simp) (by simp)
    | chain item separator ihItem ihSep =>
      simp only [steady, Bool.and_eq_true] at hsteady
      obtain ⟨⟨hconsumes, hitemSteady⟩, hsepSteady⟩ := hsteady
      rw [reply_chain]
      refine Reply.elim_ne_exhausted (ihItem hitemSteady hheads hbound hpos hbudget)
        (fun left next hitem => ?_) (by simp)
      have hlt := lt_next hg.consumes hconsumes hitem
      have hnext := (le_next hitem).2 hpos
      refine replyRounds_ne_exhausted hg.consumes hconsumes (fun mid hmid hmidSize => ?_)
        (fun mid hmid hmidSize => ?_) hlt hnext ?_
      · have hpaid := width_mul_add_le width hmid hmidSize
        exact ihItem hitemSteady (fun j _ => hg.rank_lt j) (Nat.le_refl width) hmidSize (by omega)
      · have hpaid := width_mul_add_le width hmid hmidSize
        exact ihSep hsepSteady (fun j _ => hg.rank_lt j) (Nat.le_refl width) hmidSize (by omega)
      · have hrounds := Nat.le_mul_of_pos_left (tokens.size - pos) hg.width_pos
        omega
    | opt p ih =>
      rw [reply_opt]
      exact Reply.elim_ne_exhausted (ih hsteady hheads hbound hpos hbudget)
        (fun a next _ => by simp) (by simp)
    | phrase p ih =>
      rw [reply_phrase]
      refine Reply.elim_ne_exhausted (ih hsteady hheads hbound hpos hbudget)
        (fun a next _ => ?_) (by simp)
      split <;> simp
    | rule i =>
      rw [reply_rule]
      have hi := hheads i (List.mem_singleton_self i)
      exact ihBudget (hg.steady i) (hg.rank_lt_of_mem i) (Nat.le_of_lt (hg.rank_lt i)) hpos
        (by omega)

end Parser

end Cam
