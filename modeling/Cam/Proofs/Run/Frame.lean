import Cam.Proofs.Run.Regime

/-!
# Proofs/Run/Frame — what a statement leaves as it is

A statement sets the names that are set in its text and, through calls, those that are set in the
functions of its environment; these may declare or copy functions again, but no function comes up
that sets other names (`Store.settable`).  So all other names keep their values, no name is lost,
and other environments stay as they are, also where the run fails halfway (`Stmt.exec_framed`).
-/

namespace Cam

namespace Store

/-- The functions that are bound in the environment were declared in it. -/
def Owns (store : Store) (env : EnvId) : Prop :=
  ∀ name f, (store.scope env).get? name = some (.function f) → f.home = env

/-- The name is set somewhere in the statement, or in the body of a function that is bound in the
environment. -/
def Settable (store : Store) (env : EnvId) (s : Stmt Nat) (name : String) : Prop :=
  name ∈ s.targets ∨
    ∃ called f, (store.scope env).get? called = some (.function f) ∧ name ∈ f.body.targets

/-- Only those names are set, and only functions are bound that set no others. -/
def settable (store : Store) (env : EnvId) (s : Stmt Nat) : Regime env where
  allows t := ∀ name, t.target? = some name → store.Settable env s name
  target := store.Settable env s
  value := Value.Known fun f => f.home = env ∧ ∀ name ∈ f.body.targets, store.Settable env s name
  sets {_} hs name h := hs name h
  eval {_ e} _ _ hscope := e.known_eval fun name f hget => hscope name (.function f) hget
  integer _ := trivial
  line _ := Value.known_ofLine _ _
  declared {label name body} h := by
    refine ⟨rfl, fun target htarget => ?_⟩
    obtain ⟨t, ht, heq⟩ := List.mem_filterMap.1 htarget
    have hbody : body ∈ (Stmt.func label name body).parts := by simp [Stmt.parts]
    exact h t (Stmt.mem_parts_trans ht hbody) target heq
  function h := ⟨h.1, fun _ ht name hname => h.2 name (Stmt.mem_targets ht hname)⟩

variable {store : Store} {env : EnvId} {s : Stmt Nat}

/-- The statement starts under that regime. -/
theorem Owns.governs {w : World} (h : w.store.Owns env) :
    (w.store.settable env s).Governs (.running [.run s env] w) where
  value name v hget := by
    cases v with
    | integer | string | boolean => trivial
    | function f => exact ⟨h name f hget, fun target htarget => .inr ⟨name, f, hget, htarget⟩⟩
  jobs := List.forall_mem_singleton.2
    ⟨rfl, fun _ ht _ hname => .inl (Stmt.mem_targets ht hname)⟩

/-- **At every point of a run the settable names alone may have been set**, and the functions that
are bound belong to the environment. -/
theorem Owns.framed_of_reaches {w : World} (h : w.store.Owns env) {q : Point}
    (hreaches : (Point.running [.run s env] w).Reaches q) :
    w.store.Framed env (w.store.Settable env s) q.world.store ∧ q.world.store.Owns env := by
  obtain ⟨hgoverns, hframed⟩ := (h.governs (s := s)).of_reaches hreaches
  exact ⟨hframed, fun name f hget => (hgoverns.value name (.function f) hget).1⟩

/-- No name comes to be settable that was not. -/
theorem Owns.settable_of_reaches {w : World} (h : w.store.Owns env) {q : Point}
    (hreaches : (Point.running [.run s env] w).Reaches q) {name : String}
    (hname : q.world.store.Settable env s name) : w.store.Settable env s name := by
  obtain ⟨hgoverns, -⟩ := (h.governs (s := s)).of_reaches hreaches
  rcases hname with htarget | ⟨called, f, hget, htarget⟩
  · exact .inl htarget
  · exact (hgoverns.value called (.function f) hget).2 name htarget

end Store

namespace Stmt

/-- **A statement changes nothing but the names it can set.**  In an environment whose functions
were declared in it, and however the run ends, every name that is set neither in the statement nor
in such a function has the value it had before or none, every name that was bound is bound, other
environments are the same, and the functions that are then bound in the environment were again
declared in it. -/
theorem exec_framed {s : Stmt Nat} {env : EnvId} {w : World} (h : w.store.Owns env) (budget : Nat) :
    w.store.Framed env (w.store.Settable env s) ((s.exec budget env).leaves w).store ∧
      ((s.exec budget env).leaves w).store.Owns env := by
  obtain ⟨q, hreaches, hworld⟩ := reaches_leaves budget s env w
  rw [← hworld]
  exact h.framed_of_reaches hreaches

/-- A function that declares another one and then fails. -/
def declaring : Function := ⟨"f", 0, .seq (.func 1 "g" (.call "g")) (.print (.var "z")), ⟨0⟩⟩

/-- The world with one environment, in which the function and another variable are bound. -/
def declaringWorld : World :=
  World.set (World.set ⟨Store.empty.create, .ofBytes [], .unlimited⟩ ⟨0⟩ "y" (.integer 7)) ⟨0⟩ "f"
    (.function declaring)

/-- The call fails, with `y` as it was, `f` still bound, and the new function in its environment. -/
theorem call_declaring_framed :
    let w' := ((call "f").exec 3 ⟨0⟩).leaves declaringWorld
    (call "f").exec 3 ⟨0⟩ declaringWorld = .error (.failed (.unboundVariable "z")) w' ∧
      (w'.store.scope ⟨0⟩).get? "y" = some (.integer 7) ∧
      ((w'.store.scope ⟨0⟩).get? "f").isSome ∧
      ∃ g, (w'.store.scope ⟨0⟩).get? "g" = some (.function g) ∧ g.home = ⟨0⟩ := by
  intro w'
  have hentries : (declaringWorld.store.scope ⟨0⟩).entries =
      [("f", .function declaring), ("y", .integer 7)] := by decide +kernel
  have hbound : ∀ name f, (declaringWorld.store.scope ⟨0⟩).get? name = some (.function f) →
      f = declaring := by
    intro name f hget
    rw [← Dict.mem_entries_iff, hentries] at hget
    simp_all
  obtain ⟨hframed, howns⟩ := exec_framed (s := call "f") (w := declaringWorld)
    (fun name f hget => congrArg Function.home (hbound name f hget)) 3
  have hy : ¬ declaringWorld.store.Settable ⟨0⟩ (call "f") "y" := by
    rintro (htarget | ⟨called, f, hget, htarget⟩)
    · exact absurd htarget (by decide)
    · obtain rfl := hbound called f hget
      exact absurd htarget (by decide)
  have hg : (w'.store.scope ⟨0⟩).get? "g" = some (.function ⟨"g", 1, .call "g", ⟨0⟩⟩) := by
    decide +kernel
  refine ⟨by with_unfolding_all rfl, ?_, hframed.bound "f" (by decide +kernel), _, hg,
    howns "g" _ hg⟩
  exact (hframed.kept "y" hy).trans (by decide +kernel)

end Stmt

end Cam
