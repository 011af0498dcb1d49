import Cam.Program.Exec

/-!
# Proofs/Run/Sequence — a sequence runs its parts in turn

The statements of a sequence are run off a list (`Stmt.walk`), whatever the shape of the tree they
stand in.  To run two lists in turn is to run one after the other (`Stmt.walk_append`), so a joint
of two statements is what it looks like (`Stmt.exec_seq`): the first runs, and then, if that went
well, the second.  A whole run is the same in an environment of its own (`Stmt.run_apply`).
-/

namespace Cam.Stmt

variable {ℓ : Type} (single : Stmt ℓ → Action RuntimeError Unit)

theorem walk_nil : walk single [] = pure () := by
  rw [walk]

theorem walk_seq (first second : Stmt ℓ) (rest : List (Stmt ℓ)) :
    walk single (.seq first second :: rest) = walk single (first :: second :: rest) := by
  rw [walk]

theorem walk_cons {s : Stmt ℓ} (hs : ∀ first second, s ≠ .seq first second)
    (rest : List (Stmt ℓ)) : walk single (s :: rest) =
      (do single s; walk single rest) := by
  rw [walk]
  exact hs

/-- **Two lists in turn are run one after the other.** -/
theorem walk_append (pending later : List (Stmt ℓ)) :
    walk single (pending ++ later) = (do walk single pending; walk single later) := by
  fun_induction walk single pending with
  | case1 => rw [List.nil_append, pure_bind]
  | case2 first second rest ih => rw [List.cons_append, walk_seq]; exact ih
  | case3 s rest hs ih => rw [List.cons_append, walk_cons single hs, ih, bind_assoc]

/-- The single statements of a sequence, in the order in which they run. -/
def singles : Stmt ℓ → List (Stmt ℓ)
  | .seq first second => first.singles ++ second.singles
  | s => [s]

/-- However a sequence is nested, it runs its single statements. -/
theorem walk_singles (s : Stmt ℓ) : walk single s.singles = walk single [s] := by
  induction s with
  | seq first second ihFirst ihSecond =>
    rw [singles, walk_append, ihFirst, ihSecond, ← walk_append, walk_seq]
    rfl
  | _ => rfl

variable (budget : Nat) (env : EnvId)

/-- A statement that is no joint takes one off the budget for its parts. -/
theorem exec_succ {s : Stmt Nat} (hs : ∀ first second, s ≠ .seq first second) :
    s.exec (budget + 1) env = Action.single (exec budget) budget env s := by
  rw [exec, walk_cons _ hs, walk_nil]
  exact bind_pure_unit

/-- **A joint of two statements runs the first and then the second.** -/
theorem exec_seq (first second : Stmt Nat) :
    (seq first second).exec budget env = (do first.exec budget env; second.exec budget env) := by
  cases budget with
  | zero => rfl
  | succ budget =>
    rw [exec, walk_seq]
    exact walk_append _ [first] [second]

end Cam.Stmt

namespace Cam

/-- An action that first looks at the world. -/
theorem Action.get_bind {ε α : Type} (f : World → Action ε α) (w : World) :
    (get >>= f) w = f w w := rfl

/-- The world with a new environment, which is called `w.store.next`. -/
def World.fresh (w : World) : World := ⟨w.store.create, w.input, w.output⟩

/-- **A run is the execution in a new environment**, which is dropped again unless all went well. -/
theorem Stmt.run_apply (budget : Nat) (s : Stmt Nat) (w : World) :
    s.run budget w =
      match (do s.exec budget w.store.next; Action.flush : Action RuntimeError Unit) w.fresh with
      | .ok _ w' => .ok w.store.next w'
      | .error stop w' => .error stop ⟨w'.store.drop w.store.next, w'.input, w'.output⟩ := by
  simp only [run, tryCatch, tryCatchThe, MonadExceptOf.tryCatch]
  delta EStateM.tryCatch
  simp only [bind, EStateM.bind, Action.createEnv, World.fresh]
  rcases s.exec budget w.store.next _ with ⟨_, w'⟩ | ⟨stop, w'⟩
  · simp only
    rcases Action.flush w' with ⟨_, w''⟩ | ⟨stop, w''⟩
    · rfl
    · rfl
  · rfl

end Cam
