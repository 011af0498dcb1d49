import Cam.Proofs.Run.Budget

/-!
# Proofs/Run/InTurn — one thing after another, up to the first error

Two constructs of the language do something for the elements of a list: a sequence runs its single
statements, a counted loop its body.  `InTurn` says what it means to do so in turn and to stop at
the first error, with the number of elements that were reached, and `Action.exists_forM_eq_ended`
that the runs with some budget do just that.

For sequences it follows that the shape of the tree is of no account: only the single statements
are, in their order from left to right (`Stmt.finishes_singles`).
-/

namespace Cam

/-! ## The relation -/

/-- For each element of a list in turn something is done, up to the first error; `step x w r w'`
says that what is done for `x` in the world `w` ends with `r` in the world `w'`.  The number is that
of the elements for which it is done, the one with the error included. -/
inductive InTurn {γ : Type} (step : γ → World → Except RuntimeError Unit → World → Prop) :
    List γ → World → Nat → Except RuntimeError Unit → World → Prop where
  | done {w : World} : InTurn step [] w 0 (.ok ()) w
  | fail {x : γ} {xs : List γ} {w w' : World} {e : RuntimeError} (h : step x w (.error e) w') :
      InTurn step (x :: xs) w 1 (.error e) w'
  | next {x : γ} {xs : List γ} {w w₁ w' : World} {n : Nat} {r : Except RuntimeError Unit}
      (h : step x w (.ok ()) w₁) (rest : InTurn step xs w₁ n r w') :
      InTurn step (x :: xs) w (n + 1) r w'

namespace InTurn

variable {γ : Type} {step : γ → World → Except RuntimeError Unit → World → Prop}
  {x : γ} {xs ys : List γ} {w w₁ w' : World} {n m : Nat} {r : Except RuntimeError Unit}

theorem nil_iff : (∃ n, InTurn step [] w n r w') ↔ r = .ok () ∧ w' = w := by
  constructor
  · rintro ⟨_, ⟨⟩⟩
    exact ⟨rfl, rfl⟩
  · rintro ⟨rfl, rfl⟩
    exact ⟨0, .done⟩

theorem cons_iff : (∃ n, InTurn step (x :: xs) w n r w') ↔
    (∃ e, r = .error e ∧ step x w (.error e) w') ∨
      ∃ w₁, step x w (.ok ()) w₁ ∧ ∃ n, InTurn step xs w₁ n r w' := by
  constructor
  · rintro ⟨_, h⟩
    cases h with
    | fail h => exact .inl ⟨_, rfl, h⟩
    | next h rest => exact .inr ⟨_, h, _, rest⟩
  · rintro (⟨e, rfl, h⟩ | ⟨w₁, h, n, rest⟩)
    · exact ⟨1, .fail h⟩
    · exact ⟨n + 1, .next h rest⟩

/-- Where all goes well, every element is reached. -/
theorem eq_length (h : InTurn step xs w n r w') (hr : r = .ok ()) : n = xs.length := by
  induction h with
  | done => rfl
  | fail => cases hr
  | next _ _ ih => rw [ih hr, List.length_cons]

/-- What comes after elements for which all goes well. -/
theorem append (h : InTurn step xs w n (.ok ()) w₁) (rest : InTurn step ys w₁ m r w') :
    InTurn step (xs ++ ys) w (n + m) r w' := by
  generalize hok : Except.ok () = ok at h
  induction h with
  | done => rwa [Nat.zero_add]
  | fail => cases hok
  | next hstep _ ih =>
    rw [Nat.add_right_comm]
    exact .next hstep (ih rest hok)

end InTurn

/-! ## Actions in turn -/

namespace Action

/-- **What is done for the elements of a list with some budget is done for them in turn.** -/
theorem exists_forM_eq_ended {γ : Type} {f : Nat → γ → Action RuntimeError Unit}
    (hf : ∀ x {m n}, m ≤ n → UpTo (f m x) (f n x)) {xs : List γ} {w w' : World}
    {r : Except RuntimeError Unit} :
    (∃ budget, forM xs (f budget) w = ended r w') ↔
      ∃ n, InTurn (fun x w r w' => ∃ budget, f budget x w = ended r w') xs w n r w' := by
  have hforM (xs : List γ) {m n : Nat} (hmn : m ≤ n) : UpTo (forM xs (f m)) (forM xs (f n)) := by
    induction xs with
    | nil => exact .refl _
    | cons x xs ih =>
      rw [List.forM_cons, List.forM_cons]
      exact (hf x hmn).andThen ih
  induction xs generalizing w with
  | nil =>
    rw [InTurn.nil_iff]
    constructor
    · rintro ⟨_, h⟩
      obtain ⟨rfl, rfl⟩ := ended_inj (r := .ok ()) h
      exact ⟨rfl, rfl⟩
    · rintro ⟨rfl, rfl⟩
      exact ⟨0, rfl⟩
  | cons x xs ih =>
    simp only [List.forM_cons]
    rw [exists_andThen_eq_ended (hf x) (hforM xs), InTurn.cons_iff]
    simp only [ih]

end Action

/-! ## Sequences -/

namespace Stmt

/-- A sequence does what its single statements do. -/
theorem exec_eq_forM (budget : Nat) (env : EnvId) (s : Stmt Nat) :
    s.exec budget env = forM s.singles fun t => t.exec budget env := by
  induction s with
  | seq first second ihFirst ihSecond =>
    rw [exec_seq, singles, List.forM_append, ihFirst, ihSecond]
  | _ => exact bind_pure_unit.symm

/-- A sequence finishes as its single statements do in turn. -/
theorem finishes_iff_inTurn {s : Stmt Nat} {env : EnvId} {w w' : World}
    {r : Except RuntimeError Unit} :
    s.Finishes env w r w' ↔ ∃ n, InTurn (fun t => t.Finishes env) s.singles w n r w' := by
  let exec (budget : Nat) (t : Stmt Nat) : Action RuntimeError Unit := t.exec budget env
  have hforM : s.Finishes env w r w' ↔
      ∃ budget, forM s.singles (exec budget) w = Action.ended r w' :=
    exists_congr fun budget => by rw [exec_eq_forM]
  exact hforM.trans (Action.exists_forM_eq_ended fun t _ _ hmn => t.exec_upTo hmn env)

/-- **A sequence is its single statements in turn.**  A joint of two statements does what the first
does and then, only if that went well, what the second does.  So two trees with the same single
statements from left to right do the same in every world; and where a single statement fails, after
those before it went well, its error and its world are those of the whole, whatever comes later. -/
theorem finishes_singles (env : EnvId) :
    (∀ first second w r w', (seq first second).Finishes env w r w' ↔
      (∃ e, r = .error e ∧ first.Finishes env w (.error e) w') ∨
        ∃ w₁, first.Finishes env w (.ok ()) w₁ ∧ second.Finishes env w₁ r w') ∧
    (∀ s t : Stmt Nat, s.singles = t.singles →
      ∀ w r w', s.Finishes env w r w' ↔ t.Finishes env w r w') ∧
    ∀ (s : Stmt Nat) before failing later, s.singles = before ++ failing :: later →
      ∀ w n w₁ e w', InTurn (fun t => t.Finishes env) before w n (.ok ()) w₁ →
        failing.Finishes env w₁ (.error e) w' → s.Finishes env w (.error e) w' := by
  refine ⟨fun first second w r w' => finishes_seq_iff, fun s t hst w r w' => ?_,
    fun s before failing later hs w n w₁ e w' hbefore hfailing => ?_⟩
  · rw [finishes_iff_inTurn, finishes_iff_inTurn, hst]
  · rw [finishes_iff_inTurn, hs]
    exact ⟨n + 1, hbefore.append (.fail hfailing)⟩

/-- A line, a variable that is not bound, and a line that is not printed any more; joined from the
left and from the right. -/
theorem finishes_singles_unbound :
    let w : World := ⟨Store.empty.create, .ofBytes [], .unlimited⟩
    let left : Stmt Nat := .seq (.seq (.print (.int 1)) (.print (.var "x"))) (.print (.int 2))
    let right : Stmt Nat := .seq (.print (.int 1)) (.seq (.print (.var "x")) (.print (.int 2)))
    ∃ w', left.Finishes ⟨0⟩ w (.error (.unboundVariable "x")) w' ∧
      right.Finishes ⟨0⟩ w (.error (.unboundVariable "x")) w' ∧
      w'.output.written = "1\n".toUTF8 := by
  intro w left right
  obtain ⟨-, hsame, hfails⟩ := finishes_singles ⟨0⟩
  let w' : World := ⟨w.store, w.input, (w.output.write "1\n".toUTF8).2⟩
  have hone : (print (.int 1)).Finishes ⟨0⟩ w (.ok ()) w' := ⟨1, by with_unfolding_all rfl⟩
  have hunbound : (print (.var "x")).Finishes ⟨0⟩ w' (.error (.unboundVariable "x")) w' :=
    ⟨1, by with_unfolding_all rfl⟩
  have hleft : left.Finishes ⟨0⟩ w (.error (.unboundVariable "x")) w' :=
    hfails left [.print (.int 1)] (.print (.var "x")) [.print (.int 2)] rfl w 1 w' _ w'
      (.next hone .done) hunbound
  exact ⟨w', hleft, (hsame left right rfl w _ w').1 hleft, by decide +kernel⟩

end Stmt

end Cam
