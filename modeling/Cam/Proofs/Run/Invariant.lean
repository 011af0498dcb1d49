import Cam.Proofs.Run.Machine

/-!
# Proofs/Run/Invariant — what holds at every point of a run

An `Invariant` is a property of the world, one of the jobs that are left and one of errors, such
that a step from a world and a job that have them leads to a world, jobs or an error that have them
again.  It then holds at every point of a run (`Invariant.of_reaches`), and of what `Stmt.exec`
leaves behind, whether the run ended well, failed or was cut short (`Invariant.exec`,
`Invariant.run`).

What one step keeps is shown part by part: `Action.Keeps` has a rule for each effect.  What setting
a variable, writing and reading keep is kept by every run (`Stmt.exec_keeps`).
-/

namespace Cam

/-- The value has the first property, or the error the second. -/
def Yields {ε α : Type} (E : ε → Prop) (Q : α → Prop) : Except ε α → Prop
  | .ok x => Q x
  | .error e => E e

theorem Yields.always {ε α : Type} (r : Except ε α) : Yields (fun _ => True) (fun _ => True) r := by
  cases r <;> trivial

/-- What comes of two computations in turn is what comes of the second, or the error of the first.
-/
theorem Yields.bind {ε α β : Type} {E : ε → Prop} {Q : α → Prop} {R : β → Prop} {r : Except ε α}
    {f : α → Except ε β} (h : Yields E Q r) (hf : ∀ x, Q x → Yields E R (f x)) :
    Yields E R (r >>= f) := by
  cases r with
  | ok x => exact hf x h
  | error e => exact h

namespace Action

variable {α β : Type}

/-- From a world with the property `I` the action comes to one again, with a result that has `Q`, an
error that has `E`, or no budget left. -/
def Keeps (I : World → Prop) (E : RuntimeError → Prop) (a : Action RuntimeError α) (Q : α → Prop) :
    Prop :=
  ∀ w, I w → match a w with
    | .ok x w' => I w' ∧ Q x
    | .error (.failed e) w' => I w' ∧ E e
    | .error .exhausted w' => I w'

namespace Keeps

variable {I : World → Prop} {E : RuntimeError → Prop} {Q : α → Prop} {R : β → Prop}

theorem pure {x : α} (h : Q x) : Keeps I E (pure x) Q := fun _ hw => ⟨hw, h⟩

theorem fail {e : RuntimeError} (h : E e) : Keeps I E (fail e) Q := fun _ hw => ⟨hw, h⟩

/-- Actions in turn keep what each of them keeps. -/
theorem bind {a : Action RuntimeError α} {f : α → Action RuntimeError β} (h : Keeps I E a Q)
    (hf : ∀ x, Q x → Keeps I E (f x) R) : Keeps I E (a >>= f) R := by
  intro w hw
  have ha := h w hw
  simp only [Bind.bind, EStateM.bind]
  generalize a w = r at ha ⊢
  rcases r with ⟨x, w'⟩ | ⟨_ | _, w'⟩
  · exact hf x ha.2 w' ha.1
  · exact ha
  · exact ha

/-- A result that has a property has every property that follows from it. -/
theorem imp {a : Action RuntimeError α} {Q' : α → Prop} (h : Keeps I E a Q)
    (hQ : ∀ x, Q x → Q' x) : Keeps I E a Q' := by
  have hbind : Keeps I E (a >>= Pure.pure) Q' := h.bind fun x hx => .pure (hQ x hx)
  rwa [bind_pure] at hbind

/-- Looking at the world. -/
theorem get : Keeps I E get I := fun _ hw => ⟨hw, hw⟩

/-- Looking at variables changes nothing, and ends as what is made of them does. -/
theorem reading {env : EnvId} {f : Bindings → Except RuntimeError α}
    (h : ∀ w, I w → Yields E Q (f (w.store.scope env))) : Keeps I E (reading env f) Q := by
  intro w hw
  have hf := h w hw
  unfold Action.reading
  generalize f (w.store.scope env) = r at hf ⊢
  cases r with
  | ok x => exact ⟨hw, hf⟩
  | error e => exact ⟨hw, hf⟩

theorem assign {env : EnvId} {name : String} {value : Value}
    (h : ∀ w, I w → I ⟨w.store.set env name value, w.input, w.output⟩) :
    Keeps I E (assign env name value) fun _ => True := fun w hw => ⟨h w hw, trivial⟩

theorem writeLine {text : String}
    (h : ∀ w bytes, I w → I ⟨w.store, w.input, (w.output.write bytes).2⟩)
    (hE : ∀ fault, E (.stream fault)) : Keeps I E (writeLine text) fun _ => True := by
  intro ⟨store, input, output⟩ hw
  have hwrite := h _ (text ++ "\n").toUTF8 hw
  simp only [Action.writeLine] at hwrite ⊢
  generalize output.write (text ++ "\n").toUTF8 = written at hwrite ⊢
  rcases written with ⟨_ | fault, output'⟩
  · exact ⟨hwrite, trivial⟩
  · exact ⟨hwrite, hE fault⟩

/-- Reading a line keeps what does not look at the input. -/
theorem readValue {name : String} {Q : Value → Prop}
    (h : ∀ w input, I w → I ⟨w.store, input, w.output⟩) (hQ : ∀ line, Q (.ofLine line))
    (hend : E (.endOfInput name)) (hE : ∀ fault, E (.stream fault)) :
    Keeps I E (readValue name) Q := by
  intro ⟨store, input, output⟩ hw
  simp only [Action.readValue]
  rcases input.readLine with ⟨fault | _ | line, input'⟩
  · exact ⟨h _ input' hw, hE fault⟩
  · exact ⟨h _ input' hw, hend⟩
  · exact ⟨h _ input' hw, hQ line⟩

/-- The end of a loop is a value, and an error if it is no integer. -/
theorem loopBound {env : EnvId} {bound : LoopBound} {e : Expr} {Q : Value → Prop}
    (h : ∀ w, I w → Yields E Q (e.eval (w.store.scope env)))
    (hE : ∀ value, Q value → E (.expectedInteger bound value.kind)) :
    Keeps I E (loopBound env bound e) fun _ => True := by
  refine .bind (.reading h) fun value hvalue => ?_
  split
  next => exact .pure trivial
  next => exact .fail (hE _ hvalue)

theorem flush (hE : ∀ fault, E (.stream fault)) : Keeps I E flush fun _ => True := by
  intro w hw
  simp only [Action.flush]
  cases w.output.flush with
  | none => exact ⟨hw, trivial⟩
  | some fault => exact ⟨hw, hE fault⟩

end Keeps

/-- The world an action leaves behind, however it ended. -/
def leaves {ε : Type} (a : Action ε α) (w : World) : World :=
  match a w with
  | .ok _ w' => w'
  | .error _ w' => w'

/-- However an action ends, what it keeps holds of the world that it leaves. -/
theorem Keeps.leaves {I : World → Prop} {E : RuntimeError → Prop} {Q : α → Prop}
    {a : Action RuntimeError α} (h : Keeps I E a Q) {w : World} (hw : I w) : I (a.leaves w) := by
  have ha := h w hw
  unfold Action.leaves
  generalize a w = r at ha ⊢
  rcases r with ⟨x, w'⟩ | ⟨_ | _, w'⟩
  · exact ha.1
  · exact ha.1
  · exact ha

end Action

/-- What a statement leaves behind, however its run ended, is the world at a point of the run. -/
theorem Stmt.reaches_leaves (budget : Nat) (s : Stmt Nat) (env : EnvId) (w : World) :
    ∃ q, (Point.running [.run s env] w).Reaches q ∧ q.world = (s.exec budget env).leaves w := by
  have hleads := Action.CarriedOutBy.exec budget s env w []
  unfold Action.leaves
  generalize s.exec budget env w = r at hleads ⊢
  rcases r with ⟨_, w'⟩ | ⟨e | _, w'⟩
  · exact ⟨_, hleads, rfl⟩
  · exact ⟨_, hleads, rfl⟩
  · obtain ⟨jobs, hreaches⟩ := hleads
    exact ⟨_, hreaches, rfl⟩

/-- What every step of a run keeps. -/
structure Invariant where
  world : World → Prop
  job : Job → Prop
  error : RuntimeError → Prop
  /-- A step leads from such a world to such a world. -/
  step {j : Job} (h : job j) : Action.Keeps world error j.step fun more => ∀ k ∈ more, job k

namespace Invariant

variable (inv : Invariant)

/-- The invariant holds at a point. -/
def At : Point → Prop
  | .running jobs w => inv.world w ∧ ∀ job ∈ jobs, inv.job job
  | .failed e w => inv.world w ∧ inv.error e

variable {inv} {p q : Point}

theorem At.of_next (hp : inv.At p) (h : Point.Next p q) : inv.At q := by
  cases h with
  | @step job jobs more w w' h =>
    have hjob := hp.2 job List.mem_cons_self
    have hkeeps := inv.step hjob w hp.1
    rw [h] at hkeeps
    refine ⟨hkeeps.1, fun k hk => ?_⟩
    rcases List.mem_append.1 hk with hk | hk
    · exact hkeeps.2 k hk
    · exact hp.2 k (List.mem_cons_of_mem job hk)
  | @fail job jobs e w w' h =>
    have hjob := hp.2 job List.mem_cons_self
    have hkeeps := inv.step hjob w hp.1
    rw [h] at hkeeps
    exact hkeeps

/-- **What every step keeps holds at every point.** -/
theorem At.of_reaches (hp : inv.At p) (h : p.Reaches q) : inv.At q := by
  induction h with
  | refl => exact hp
  | tail _ hnext ih => exact ih.of_next hnext

/-- Where a run is, the property holds of its world. -/
theorem At.world (hp : inv.At p) : inv.world p.world := by
  cases p with
  | running jobs w => exact hp.1
  | failed e w => exact hp.1

/-- **A run keeps what every step keeps**, also where it stops early. -/
theorem exec {s : Stmt Nat} {env : EnvId} (h : inv.job (.run s env)) (budget : Nat) :
    Action.Keeps inv.world inv.error (s.exec budget env) fun _ => True := by
  intro w hw
  have hstart : inv.At (.running [.run s env] w) := ⟨hw, List.forall_mem_singleton.2 h⟩
  have hleads := Action.CarriedOutBy.exec budget s env w []
  generalize s.exec budget env w = r at hleads ⊢
  rcases r with ⟨_, w'⟩ | ⟨e | _, w'⟩
  · exact ⟨(hstart.of_reaches hleads).1, trivial⟩
  · exact hstart.of_reaches hleads
  · obtain ⟨jobs, hreaches⟩ := hleads
    exact (hstart.of_reaches hreaches).1

/-- The same of a run in an environment of its own. -/
theorem run {s : Stmt Nat} {w : World} (h : inv.job (.run s w.store.next))
    (hw : inv.world w.fresh) (hstream : ∀ fault, inv.error (.stream fault)) (budget : Nat) :
    match s.run budget w with
    | .ok env w' => env = w.store.next ∧ inv.world w'
    | .error (.failed e) _ => inv.error e
    | .error .exhausted _ => True := by
  have hkeeps : Action.Keeps inv.world inv.error
      (do s.exec budget w.store.next; Action.flush) fun _ => True :=
    .bind (exec h budget) fun _ _ => .flush hstream
  have hfresh := hkeeps w.fresh hw
  rw [Stmt.run_apply]
  split at hfresh
  next heq =>
    rw [heq]
    exact ⟨rfl, hfresh.1⟩
  next heq =>
    rw [heq]
    exact hfresh.2
  next heq =>
    rw [heq]
    trivial

end Invariant

/-! ## Effects -/

section Effects

variable {I : World → Prop}
  (hset : ∀ w env name value, I w → I ⟨w.store.set env name value, w.input, w.output⟩)
  (hwrite : ∀ w bytes, I w → I ⟨w.store, w.input, (w.output.write bytes).2⟩)
  (hread : ∀ w input, I w → I ⟨w.store, input, w.output⟩)

include hset hwrite hread

/-- What setting a variable, writing and reading keep is kept by every step. -/
theorem Job.keeps_step (job : Job) :
    Action.Keeps I (fun _ => True) job.step fun _ => True := by
  have hassign {env : EnvId} {name : String} {value : Value} {jobs : List Job} :
      Action.Keeps I (fun _ => True) (do Action.assign env name value; return jobs) fun _ => True :=
    .bind (.assign fun w => hset w env name value) fun _ _ => .pure trivial
  have htest {env : EnvId} {cond : Condition} {jobs : Bool → List Job} :
      Action.Keeps I (fun _ => True)
        (do let go ← Action.reading env fun scope => cond.eval scope; return jobs go)
        fun _ => True :=
    .bind (.reading fun _ _ => .always _) fun _ _ => .pure trivial
  have hbound {env : EnvId} {bound : LoopBound} {e : Expr} :
      Action.Keeps I (fun _ => True) (Action.loopBound env bound e) fun _ => True :=
    .loopBound (fun _ _ => .always _) fun _ _ => trivial
  cases job with
  | rounds name body env count first =>
    cases count with
    | zero => exact .pure trivial
    | succ count => exact hassign
  | run s env =>
    cases s with
    | assign name e => exact .bind (.reading fun _ _ => .always _) fun _ _ => hassign
    | seq first second => exact .pure trivial
    | print e =>
      exact .bind (.reading fun _ _ => .always _) fun _ _ =>
        .bind (.writeLine hwrite fun _ => trivial) fun _ _ => .pure trivial
    | input name =>
      exact .bind
        (.readValue (Q := fun _ => True) hread (fun _ => trivial) trivial fun _ => trivial)
        fun _ _ => hassign
    | ifThen cond t => exact htest
    | ifThenElse cond t e => exact htest
    | «while» cond body => exact htest
    | «for» name start stop body =>
      exact .bind hbound fun _ _ => .bind hbound fun _ _ => .pure trivial
    | func label name body => exact hassign
    | call name =>
      refine .bind .get fun w _ => ?_
      split
      next =>
        refine .bind .get fun w _ => ?_
        split
        next => exact .pure trivial
        next => exact .fail trivial
      next => exact .fail trivial
      next => exact .fail trivial

/-- **A run keeps what setting a variable, writing and reading keep.** -/
theorem Stmt.exec_keeps (budget : Nat) (s : Stmt Nat) (env : EnvId) :
    Action.Keeps I (fun _ => True) (s.exec budget env) fun _ => True := by
  let effects : Invariant :=
    { world := I, job := fun _ => True, error := fun _ => True,
      step := fun {j} _ => (j.keeps_step hset hwrite hread).imp fun _ _ _ _ => trivial }
  exact @Invariant.exec effects s env trivial budget

end Effects

end Cam
