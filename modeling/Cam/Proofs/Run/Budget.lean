import Cam.Proofs.Run.Sequence

/-!
# Proofs/Run/Budget — a larger budget changes no answer

A budget only decides how long a run is followed.  Of two budgets the larger one gives the answer of
the smaller one, unless the smaller one is used up (`Stmt.exec_upTo`).  So it makes sense to ask how
a statement *finishes*, without a budget (`Stmt.Finishes`), and there is at most one answer
(`Stmt.Finishes.unique`).  A whole run finishes as its statement does in the new environment, and
then hands on its output or drops the environment again (`Stmt.runs_iff`).
-/

namespace Cam

namespace Action

variable {ε α β : Type}

/-! ## Two actions that agree as far as the first one goes -/

/-- The second action does what the first one does, unless the first one is cut short for want of
budget. -/
def UpTo (a b : Action ε α) : Prop := ∀ w, (∃ w', a w = .error .exhausted w') ∨ b w = a w

namespace UpTo

theorem refl (a : Action ε α) : UpTo a a := fun _ => .inr rfl

theorem exhaust (b : Action ε α) : UpTo exhaust b := fun w => .inl ⟨w, rfl⟩

/-- Actions in turn get no further with a smaller budget than with a larger one. -/
theorem bind {a b : Action ε α} {f g : α → Action ε β} (h : UpTo a b)
    (hrest : ∀ x, UpTo (f x) (g x)) : UpTo (a >>= f) (b >>= g) := by
  intro w
  simp only [Bind.bind, EStateM.bind]
  rcases h w with ⟨w', hcut⟩ | hsame
  · rw [hcut]
    exact .inl ⟨w', rfl⟩
  · rw [hsame]
    rcases a w with ⟨x, w'⟩ | ⟨stop, w'⟩
    · exact hrest x w'
    · exact .inr rfl

theorem andThen {a b : Action ε Unit} {f g : Action ε β} (h : UpTo a b) (hrest : UpTo f g) :
    UpTo (do a; f) (do b; g) := h.bind fun _ => hrest

variable {a b : Action RuntimeError Unit}

theorem whileLoop (test : Action RuntimeError Bool) (h : UpTo a b) {m n : Nat} (hmn : m ≤ n) :
    UpTo (whileLoop test a m) (whileLoop test b n) := by
  induction m generalizing n with
  | zero => exact .exhaust _
  | succ m ih =>
    obtain ⟨n, rfl⟩ := Nat.exists_eq_add_one.2 (Nat.lt_of_lt_of_le m.succ_pos hmn)
    refine .bind (.refl test) fun go => ?_
    cases go with
    | false => exact .refl _
    | true => exact h.andThen (ih (Nat.le_of_succ_le_succ hmn))

theorem forLoop {f g : Int64 → Action RuntimeError Unit} (h : ∀ i, UpTo (f i) (g i)) (count : Nat)
    (first : Int64) : UpTo (forLoop f count first) (forLoop g count first) := by
  induction count generalizing first with
  | zero => exact .refl _
  | succ count ih => exact (h first).andThen (ih (first + 1))

/-- …and so do the statements of a sequence, one by one. -/
theorem walk {ℓ : Type} {f g : Stmt ℓ → Action RuntimeError Unit} (h : ∀ s, UpTo (f s) (g s))
    (pending : List (Stmt ℓ)) : UpTo (Stmt.walk f pending) (Stmt.walk g pending) := by
  fun_induction Stmt.walk f pending with
  | case1 => exact Stmt.walk_nil g ▸ .refl _
  | case2 first second rest ih => exact Stmt.walk_seq g first second rest ▸ ih
  | case3 s rest hs ih => exact Stmt.walk_cons g hs rest ▸ (h s).andThen ih

/-! ## Statements -/

section Statements

variable {exec exec' : Stmt Nat → EnvId → Action RuntimeError Unit}
  (h : ∀ s env, UpTo (exec s env) (exec' s env))

include h

theorem callWith (f : Function) : UpTo (callWith exec f) (callWith exec' f) := by
  refine .bind (.refl _) fun w => ?_
  split
  next => exact h f.body f.home
  next => exact .refl _

theorem single {m n : Nat} (hmn : m ≤ n) (env : EnvId) (s : Stmt Nat) :
    UpTo (single exec m env s) (single exec' n env s) := by
  cases s with
  | assign name e => exact .refl _
  | seq first second => exact (h first env).andThen (h second env)
  | print e => exact .refl _
  | input name => exact .refl _
  | ifThen cond t =>
    refine .bind (.refl _) fun go => ?_
    cases go with
    | false => exact .refl _
    | true => exact h t env
  | ifThenElse cond t e =>
    refine .bind (.refl _) fun go => ?_
    cases go with
    | false => exact h e env
    | true => exact h t env
  | «while» cond body => exact .whileLoop _ (h body env) hmn
  | «for» name start stop body =>
    refine .bind (.refl _) fun first => .bind (.refl _) fun last => ?_
    exact .forLoop (fun i => .bind (.refl _) fun _ => h body env) _ first
  | func label name body => exact .refl _
  | call name =>
    refine .bind (.refl _) fun w => ?_
    split
    next => exact .callWith h _
    next => exact .refl _
    next => exact .refl _

end Statements

end UpTo

/-! ## Finished actions -/

/-- What an action gives that ended, well or with an error, and left the world so. -/
def ended (r : Except ε α) (w : World) : EStateM.Result (Stop ε) World α :=
  match r with
  | .ok x => .ok x w
  | .error e => .error (.failed e) w

/-- What has ended ends in the same way with a larger budget. -/
theorem UpTo.ended {a b : Action ε α} (h : UpTo a b) {w w' : World} {r : Except ε α}
    (ha : a w = ended r w') : b w = ended r w' := by
  rcases h w with ⟨w'', hcut⟩ | hsame
  · rw [hcut] at ha
    cases r <;> cases ha
  · exact hsame.trans ha

/-- An action ends in one way. -/
theorem ended_inj {r r' : Except ε α} {w w' : World} (h : ended r w = ended r' w') :
    r = r' ∧ w = w' := by
  cases r <;> cases r' <;> cases h <;> exact ⟨rfl, rfl⟩

/-- Two actions in turn end with the first one if that fails, and else with the second. -/
theorem andThen_eq_ended {a : Action ε Unit} {b : Action ε α} {w w' : World} {r : Except ε α} :
    (do a; b) w = ended r w' ↔
      (∃ e, r = .error e ∧ a w = ended (.error e) w') ∨
        ∃ w₁, a w = ended (.ok ()) w₁ ∧ b w₁ = ended r w' := by
  constructor
  · intro h
    simp only [Bind.bind, EStateM.bind] at h
    rcases ha : a w with ⟨_, w₁⟩ | ⟨e | _, w₁⟩
    · rw [ha] at h
      exact .inr ⟨w₁, rfl, h⟩
    · rw [ha] at h
      obtain ⟨rfl, rfl⟩ := ended_inj (r := .error e) h
      exact .inl ⟨e, rfl, rfl⟩
    · rw [ha] at h
      cases r <;> cases h
  · rintro (⟨e, rfl, ha⟩ | ⟨w₁, ha, hb⟩)
    · simp only [Bind.bind, EStateM.bind, ha]
      rfl
    · simp only [Bind.bind, EStateM.bind, ha]
      exact hb

/-- The same of actions that go on with a larger budget as they do with a smaller one. -/
theorem exists_andThen_eq_ended {a : Nat → Action ε Unit} {b : Nat → Action ε α}
    (ha : ∀ {m n}, m ≤ n → UpTo (a m) (a n)) (hb : ∀ {m n}, m ≤ n → UpTo (b m) (b n))
    {w w' : World} {r : Except ε α} :
    (∃ n, (do a n; b n) w = ended r w') ↔
      (∃ e, r = .error e ∧ ∃ n, a n w = ended (.error e) w') ∨
        ∃ w₁, (∃ n, a n w = ended (.ok ()) w₁) ∧ ∃ n, b n w₁ = ended r w' := by
  simp only [andThen_eq_ended]
  constructor
  · rintro ⟨n, ⟨e, he, hfail⟩ | ⟨w₁, hfirst, hsecond⟩⟩
    · exact .inl ⟨e, he, n, hfail⟩
    · exact .inr ⟨w₁, ⟨n, hfirst⟩, n, hsecond⟩
  · rintro (⟨e, he, n, hfail⟩ | ⟨w₁, ⟨m, hfirst⟩, n, hsecond⟩)
    · exact ⟨n, .inl ⟨e, he, hfail⟩⟩
    · exact ⟨max m n, .inr ⟨w₁, (ha (Nat.le_max_left m n)).ended hfirst,
        (hb (Nat.le_max_right m n)).ended hsecond⟩⟩

end Action

namespace Stmt

/-- **A larger budget gives the answer of a smaller one.** -/
theorem exec_upTo {m n : Nat} (h : m ≤ n) (s : Stmt Nat) (env : EnvId) :
    Action.UpTo (s.exec m env) (s.exec n env) := by
  induction m generalizing n s env with
  | zero => exact .exhaust _
  | succ m ih =>
    obtain ⟨n, rfl⟩ := Nat.exists_eq_add_one.2 (Nat.lt_of_lt_of_le m.succ_pos h)
    have hmn := Nat.le_of_succ_le_succ h
    exact .walk (.single (fun s env => ih hmn s env) hmn env) [s]

/-- The statement ends, with these changes to the world. -/
def Finishes (s : Stmt Nat) (env : EnvId) (w : World) (r : Except RuntimeError Unit) (w' : World) :
    Prop :=
  ∃ budget, s.exec budget env w = Action.ended r w'

/-- A statement finishes in one way only. -/
theorem Finishes.unique {s : Stmt Nat} {env : EnvId} {w w₁ w₂ : World}
    {r₁ r₂ : Except RuntimeError Unit} (h₁ : s.Finishes env w r₁ w₁)
    (h₂ : s.Finishes env w r₂ w₂) : r₁ = r₂ ∧ w₁ = w₂ := by
  obtain ⟨m, hm⟩ := h₁
  obtain ⟨n, hn⟩ := h₂
  have hm' := (s.exec_upTo (Nat.le_max_left m n) env).ended hm
  have hn' := (s.exec_upTo (Nat.le_max_right m n) env).ended hn
  exact Action.ended_inj (hm'.symm.trans hn')

/-- A sequence finishes where its first part fails, or where the second part finishes after it. -/
theorem finishes_seq_iff {first second : Stmt Nat} {env : EnvId} {w w' : World}
    {r : Except RuntimeError Unit} :
    (seq first second).Finishes env w r w' ↔
      (∃ e, r = .error e ∧ first.Finishes env w (.error e) w') ∨
        ∃ w₁, first.Finishes env w (.ok ()) w₁ ∧ second.Finishes env w₁ r w' := by
  simp only [Finishes, exec_seq]
  exact Action.exists_andThen_eq_ended (fun h => first.exec_upTo h env)
    fun h => second.exec_upTo h env

/-! ## Whole runs -/

/-- The statement can be run to its end in an environment of its own, with this result. -/
def Runs (s : Stmt Nat) (w : World) (r : Except RuntimeError EnvId) (w' : World) : Prop :=
  ∃ budget, s.run budget w = Action.ended r w'

/-- What becomes of a run once its statement has finished. -/
def conclude (env : EnvId) (r : Except RuntimeError Unit) (w : World) :
    Except RuntimeError EnvId × World :=
  match r, w.output.flush with
  | .ok (), none => (.ok env, w)
  | .ok (), some fault => (.error (.stream fault), ⟨w.store.drop env, w.input, w.output⟩)
  | .error e, _ => (.error e, ⟨w.store.drop env, w.input, w.output⟩)

/-- What a run leaves of the streams is what its statement left of them. -/
theorem streams_conclude (env : EnvId) (r : Except RuntimeError Unit) (w : World) :
    (conclude env r w).2.input = w.input ∧ (conclude env r w).2.output = w.output := by
  unfold conclude
  split <;> exact ⟨rfl, rfl⟩

/-- A run concludes what its statement comes to. -/
theorem run_of_exec {budget : Nat} {s : Stmt Nat} {w w₁ : World} {r : Except RuntimeError Unit}
    (h : s.exec budget w.store.next w.fresh = Action.ended r w₁) :
    s.run budget w =
      Action.ended (conclude w.store.next r w₁).1 (conclude w.store.next r w₁).2 := by
  simp only [run_apply, bind, EStateM.bind, h]
  cases r with
  | error e => rfl
  | ok =>
    simp only [Action.ended, Action.flush, conclude]
    cases w₁.output.flush with
    | none => rfl
    | some fault => rfl

/-- **A run ends where its statement finishes in the new environment**; a run that uses up its
budget does not end. -/
theorem runs_iff {s : Stmt Nat} {w w' : World} {r : Except RuntimeError EnvId} :
    s.Runs w r w' ↔
      ∃ r₁ w₁, s.Finishes w.store.next w.fresh r₁ w₁ ∧ conclude w.store.next r₁ w₁ = (r, w') := by
  constructor
  · rintro ⟨budget, h⟩
    obtain ⟨r₁, w₁, hexec⟩ : ∃ r₁ w₁, s.exec budget w.store.next w.fresh = Action.ended r₁ w₁ := by
      rcases hexec : s.exec budget w.store.next w.fresh with ⟨_, w₁⟩ | ⟨e | _, w₁⟩
      · exact ⟨.ok (), w₁, rfl⟩
      · exact ⟨.error e, w₁, rfl⟩
      · simp only [run_apply, bind, EStateM.bind, hexec] at h
        cases r <;> cases h
    obtain ⟨hr, hw⟩ := Action.ended_inj ((run_of_exec hexec).symm.trans h)
    exact ⟨r₁, w₁, ⟨budget, hexec⟩, Prod.ext hr hw⟩
  · rintro ⟨r₁, w₁, ⟨budget, hexec⟩, hconclude⟩
    refine ⟨budget, ?_⟩
    rw [run_of_exec hexec, hconclude]

end Stmt

end Cam
