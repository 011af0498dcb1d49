import Cam.Proofs.Run.Effect

/-!
# Proofs/Run/Ending — counted loops end

Only a loop with a condition and a call can run on for ever.  A counted loop cannot, whatever its
body does to the variables: its ends are evaluated once, before the first round, and the number of
rounds is settled then.  So a statement without loops with a condition and without calls ends in
every world (`Stmt.counted_ends`).

How many steps that takes depends on the values at run time, but the budget does not: it pays for
nesting and for the rounds of loops with a condition, and so the depth of the statement is enough
(`Stmt.Counted.prompt`).
-/

namespace Cam

/-! ## Statements without loops with a condition and without calls -/

namespace Stmt

variable {ℓ : Type}

/-- The statement has no loop with a condition and no call, but for those in the bodies of functions
it declares. -/
def Counted : Stmt ℓ → Prop
  | .seq first second => first.Counted ∧ second.Counted
  | .ifThen _ t => t.Counted
  | .ifThenElse _ t e => t.Counted ∧ e.Counted
  | .for _ _ _ body => body.Counted
  | .while _ _ | .call _ => False
  | .assign _ _ | .print _ | .input _ | .func _ _ _ => True

/-- How deep statements are nested in one another; a sequence is as deep as its deepest part. -/
def depth : Stmt ℓ → Nat
  | .seq first second => max first.depth second.depth
  | .ifThen _ t => t.depth + 1
  | .ifThenElse _ t e => max t.depth e.depth + 1
  | .while _ body => body.depth + 1
  | .for _ _ _ body => body.depth + 1
  | .assign _ _ | .print _ | .input _ | .func _ _ _ | .call _ => 1

end Stmt

/-! ## The budget of a counted loop -/

namespace Action

/-- A counted loop needs no more budget than its rounds. -/
theorem Prompt.forLoop {body : Int64 → Action RuntimeError Unit} (h : ∀ i, Prompt (body i))
    (count : Nat) (first : Int64) : Prompt (forLoop body count first) := by
  induction count generalizing first with
  | zero => exact .pure ()
  | succ count ih => exact .bind (h first) fun _ => ih (first + 1)

end Action

namespace Stmt

theorem prompt_of_single {s : Stmt Nat} {env : EnvId} {depth budget : Nat}
    (hs : ∀ first second, s ≠ .seq first second) (hdepth : depth + 1 ≤ budget)
    (h : ∀ budget, depth ≤ budget → Action.Prompt (Action.single (exec budget) budget env s)) :
    Action.Prompt (s.exec budget env) := by
  obtain ⟨budget, rfl⟩ := Nat.exists_eq_add_one.2 (Nat.lt_of_lt_of_le depth.succ_pos hdepth)
  rw [exec_succ budget env hs]
  exact h budget (Nat.le_of_succ_le_succ hdepth)

/-- **A budget as large as the statement is deep is enough**, in every world.  The number of rounds
of a loop is fixed before the first of them, whatever they do to the variables. -/
theorem Counted.prompt {s : Stmt Nat} (h : s.Counted) (env : EnvId) {budget : Nat}
    (hdepth : s.depth ≤ budget) : Action.Prompt (s.exec budget env) := by
  induction s generalizing budget with
  | seq first second ihFirst ihSecond =>
    rw [exec_seq]
    exact .bind (ihFirst h.1 (Nat.le_trans (Nat.le_max_left _ _) hdepth)) fun _ =>
      ihSecond h.2 (Nat.le_trans (Nat.le_max_right _ _) hdepth)
  | assign name e =>
    exact prompt_of_single nofun hdepth fun _ _ =>
      .bind (.reading env _) fun value => .assign env name value
  | print e =>
    exact prompt_of_single nofun hdepth fun _ _ =>
      .bind (.reading env _) fun value => .writeLine value.text
  | input name =>
    exact prompt_of_single nofun hdepth fun _ _ =>
      .bind (.readValue name) fun value => .assign env name value
  | ifThen cond t ih =>
    refine prompt_of_single nofun hdepth fun budget hbudget => .bind (.reading env _) fun go => ?_
    cases go with
    | false => exact .pure ()
    | true => exact ih h hbudget
  | ifThenElse cond t e ihThen ihElse =>
    refine prompt_of_single nofun hdepth fun budget hbudget => .bind (.reading env _) fun go => ?_
    cases go with
    | false => exact ihElse h.2 (Nat.le_trans (Nat.le_max_right _ _) hbudget)
    | true => exact ihThen h.1 (Nat.le_trans (Nat.le_max_left _ _) hbudget)
  | «for» name start stop body ih =>
    refine prompt_of_single nofun hdepth fun budget hbudget => ?_
    refine .bind (.loopBound env _ start) fun first => .bind (.loopBound env _ stop) fun last => ?_
    exact .forLoop (fun i => .bind (.assign env name _) fun _ => ih h hbudget) _ first
  | func label name body => exact prompt_of_single nofun hdepth fun _ _ => .assign env name _
  | «while» | call => exact h.elim

theorem Counted.exec_eq_ended {s : Stmt Nat} (h : s.Counted) (env : EnvId) (w : World)
    {budget : Nat}
    (hdepth : s.depth ≤ budget) : ∃ r w', s.exec budget env w = Action.ended r w' := by
  rcases hexec : s.exec budget env w with ⟨_, w'⟩ | ⟨e | _, w'⟩
  · exact ⟨.ok (), w', rfl⟩
  · exact ⟨.error e, w', rfl⟩
  · exact absurd hexec (h.prompt env hdepth w w')

end Stmt

/-! ## Steps -/

namespace Point

variable {p q q' : Point}

/-- A run has one next point. -/
theorem Next.unique (h : p.Next q) (h' : p.Next q') : q = q' := by
  rcases p with ⟨_ | ⟨job, jobs⟩, w⟩ | ⟨e, w⟩
  · cases h
  · exact (next_iff.1 h).trans (next_iff.1 h').symm
  · cases h

/-- Nothing comes after the end of a run. -/
theorem not_next_ended {r : Except RuntimeError Unit} {w : World} : ¬ (ended r w).Next q := by
  cases r <;> exact nofun

/-- **A run that comes to its end cannot go on for ever.** -/
theorem Reaches.not_endless {r : Except RuntimeError Unit} {w : World} (h : p.Reaches (ended r w))
    {points : Nat → Point} (hp : points 0 = p) : ¬ ∀ n, (points n).Next (points (n + 1)) := by
  induction h using Relation.ReflTransGen.head_induction_on generalizing points with
  | refl =>
    intro hnext
    exact not_next_ended (hp ▸ hnext 0)
  | head hfirst _ ih =>
    intro hnext
    let later : Nat → Point := fun n => points (n + 1)
    have hlater : later 0 = _ := (hp ▸ hnext 0).unique hfirst
    exact ih hlater fun n => hnext (n + 1)

end Point

namespace Stmt

/-- **A statement without loops with a condition and without calls ends**, well or with an error, in
every environment and with every input, whatever its counted loops do to their own variables and to
those in their ends.  Its run comes to the end in so many steps, and no run of it goes on for ever;
and a budget that depends on its text alone is enough to tell how it ends. -/
theorem counted_ends {s : Stmt Nat} (h : s.Counted) (env : EnvId) (w : World) :
    (∃ r w', s.Finishes env w r w' ∧ (Point.running [.run s env] w).Reaches (.ended r w')) ∧
    (∀ points : Nat → Point, points 0 = .running [.run s env] w →
      ¬ ∀ n, (points n).Next (points (n + 1))) ∧
    ∀ budget, s.depth ≤ budget → ∃ r w', s.exec budget env w = Action.ended r w' := by
  obtain ⟨r, w', hexec⟩ := h.exec_eq_ended env w (Nat.le_refl s.depth)
  have hfinishes : s.Finishes env w r w' := ⟨s.depth, hexec⟩
  have hreaches := finishes_iff.1 hfinishes
  exact ⟨⟨r, w', hfinishes, hreaches⟩, fun points hp => hreaches.not_endless hp,
    fun budget hdepth => h.exec_eq_ended env w hdepth⟩

/-- Two loops, one in the other, that raise the variable in their ends and set back that of the
outer one; and a function that would never end. -/
def reassigning : Stmt Nat :=
  let raise : Stmt Nat := .assign "n" (.binary .add (.var "n") (.int 1))
  .seq (.func 0 "f" (.while (.literal true) (.call "f")))
    (.for "i" (.int 0) (.var "n")
      (.seq (.seq raise (.assign "i" (.int 0))) (.for "j" (.var "i") (.var "n") raise)))

/-- From two the variable is raised to three and then by three, and to seven and then by seven. -/
theorem reassigning_ends :
    let w : World := ⟨Store.empty.create.set ⟨0⟩ "n" (.integer 2), .ofBytes [], .unlimited⟩
    reassigning.Counted ∧ ∃ w', reassigning.Finishes ⟨0⟩ w (.ok ()) w' ∧
      (w'.store.scope ⟨0⟩).get? "n" = some (.integer 14) := by
  intro w
  have hcounted : reassigning.Counted := ⟨trivial, ⟨trivial, trivial⟩, trivial⟩
  obtain ⟨⟨r, w', hfinishes, -⟩, -, -⟩ := counted_ends hcounted ⟨0⟩ w
  have hends : reassigning.Finishes ⟨0⟩ w (.ok ()) ((reassigning.exec 3 ⟨0⟩).leaves w) :=
    ⟨3, by with_unfolding_all rfl⟩
  obtain ⟨rfl, rfl⟩ := hfinishes.unique hends
  exact ⟨hcounted, _, hfinishes, by decide +kernel⟩

end Stmt

end Cam
