import Cam.Proofs.Run.Frame
import Cam.Proofs.Run.InTurn

/-!
# Proofs/Run/Unrolling — a counted loop is its rounds

The two ends of a counted loop are evaluated once, and then the body runs for each integer from the
first one on that is less than the last (`Integer.between`).  What the body does to the variable of
the loop, or to those in its ends, has no bearing on the rounds that follow; and none of the
integers is out of range, since the end of the loop is not (`Integer.toInt_between`).

A body that leaves the variable alone leaves it, after the last round, at the integer of that round
(`Store.Spares.of_rounds`).
-/

namespace Cam

/-! ## The integers of a loop -/

namespace Integer

/-- The integers from `a` on that are less than `b`, in order. -/
def between (a b : Int64) : List Int64 :=
  (List.range (b.toInt - a.toInt).toNat).map fun i : Nat => Int64.ofInt (a.toInt + i)

/-- **No integer of a loop is out of range.** -/
theorem toInt_between (a b : Int64) :
    (between a b).map Int64.toInt =
      (List.range (b.toInt - a.toInt).toNat).map fun i : Nat => a.toInt + i := by
  rw [between, List.map_map]
  refine List.map_congr_left fun i hi => ?_
  have hi := List.mem_range.1 hi
  have hleast := a.le_toInt
  have hgreatest := b.toInt_lt
  exact Int64.toInt_ofInt_of_le (by omega) (by omega)

theorem length_between (a b : Int64) : (between a b).length = (b.toInt - a.toInt).toNat := by
  rw [between, List.length_map, List.length_range]

/-- The last integer of a loop is the one before its end. -/
theorem getLast?_between {a b : Int64} (h : a.toInt < b.toInt) :
    ∃ k, (between a b).getLast? = some k ∧ k.toInt = b.toInt - 1 := by
  have hlast := congrArg List.getLast? (toInt_between a b)
  rw [List.getLast?_map, List.getLast?_map, List.getLast?_range, if_neg (by omega)] at hlast
  obtain ⟨k, hk, hvalue⟩ := Option.map_eq_some_iff.1 hlast
  refine ⟨k, hk, hvalue.trans ?_⟩
  simp only
  omega

end Integer

/-- A counted loop does its body for one integer after another. -/
theorem Action.forLoop_eq_forM (body : Int64 → Action RuntimeError Unit) (count : Nat)
    (first : Int64) :
    forLoop body count first =
      forM ((List.range count).map fun i : Nat => Int64.ofInt (first.toInt + i)) body := by
  induction count generalizing first with
  | zero => rfl
  | succ count ih =>
    have hfirst : Int64.ofInt (first.toInt + (0 : Nat)) = first := by
      rw [Int.natCast_zero, Int.add_zero, Int64.ofInt_toInt]
    have hnext (i : Nat) :
        Int64.ofInt ((first + 1).toInt + i) = Int64.ofInt (first.toInt + (i + 1 : Nat)) := by
      have hsucc : Int64.ofInt (i + 1 : Nat) = Int64.ofInt i + 1 := Int64.ofInt_add i 1
      rw [Int64.ofInt_add, Int64.ofInt_add, Int64.ofInt_toInt, Int64.ofInt_toInt, hsucc,
        Int64.add_assoc, Int64.add_comm 1]
    rw [forLoop, ih, List.range_succ_eq_map, List.map_cons, List.forM_cons, List.map_map, hfirst]
    simp only [hnext]
    rfl

/-- The end of a loop that has an integer for its value. -/
theorem Action.loopBound_of_eval {env : EnvId} {e : Expr} {w : World} {k : Int64}
    (h : e.eval (w.store.scope env) = .ok (.integer k)) (bound : LoopBound) :
    loopBound env bound e w = .ok k w := by
  simp only [loopBound, reading, bind, EStateM.bind, h]
  rfl

/-! ## Rounds -/

namespace Stmt

/-- The body of a loop finishes in one round: the variable is set to the integer, and then it runs.
-/
def FinishesRound (body : Stmt Nat) (name : String) (env : EnvId) (k : Int64) (w : World)
    (r : Except RuntimeError Unit) (w' : World) : Prop :=
  body.Finishes env (w.set env name (.integer k)) r w'

/-- **A counted loop finishes as its rounds do in turn.** -/
theorem finishes_for_iff {name : String} {start stop : Expr} {body : Stmt Nat} {env : EnvId}
    {w w' : World} {a b : Int64} {r : Except RuntimeError Unit}
    (ha : start.eval (w.store.scope env) = .ok (.integer a))
    (hb : stop.eval (w.store.scope env) = .ok (.integer b)) :
    (Stmt.for name start stop body).Finishes env w r w' ↔
      ∃ n, InTurn (body.FinishesRound name env) (Integer.between a b) w n r w' := by
  let round (budget : Nat) (k : Int64) : Action RuntimeError Unit := do
    Action.assign env name (.integer k)
    body.exec budget env
  have hexec (budget : Nat) : (Stmt.for name start stop body).exec (budget + 1) env w =
      forM (Integer.between a b) (round budget) w := by
    rw [exec_succ (s := .for name start stop body) budget env nofun, Integer.between,
      ← Action.forLoop_eq_forM]
    simp only [Action.single, bind, EStateM.bind, Action.loopBound_of_eval ha,
      Action.loopBound_of_eval hb]
    rfl
  have hforM : (Stmt.for name start stop body).Finishes env w r w' ↔
      ∃ budget, forM (Integer.between a b) (round budget) w = Action.ended r w' := by
    constructor
    · rintro ⟨_ | budget, h⟩
      · cases r <;> cases h
      · exact ⟨budget, (hexec budget).symm.trans h⟩
    · rintro ⟨budget, h⟩
      exact ⟨budget + 1, (hexec budget).trans h⟩
  exact hforM.trans (Action.exists_forM_eq_ended (f := round) fun k _ _ hmn =>
    .andThen (.refl _) (body.exec_upTo hmn env))

end Stmt

/-! ## The variable of a loop -/

namespace Store

/-- The environment is there, the functions that are bound in it were declared in it, and the name
is set neither in the statement nor in such a function. -/
structure Spares (env : EnvId) (s : Stmt Nat) (name : String) (store : Store) : Prop where
  alive : store.isAlive env
  owns : store.Owns env
  unset : ¬ store.Settable env s name

namespace Spares

variable {env : EnvId} {body : Stmt Nat} {name : String} {store : Store}

/-- Setting the variable to an integer brings no function up. -/
theorem set (h : store.Spares env body name) (k : Int64) :
    (store.set env name (.integer k)).Spares env body name := by
  have hfunction {called : String} {f : Function}
      (hget : ((store.set env name (.integer k)).scope env).get? called = some (.function f)) :
      (store.scope env).get? called = some (.function f) := by
    rw [get?_scope_set] at hget
    split at hget
    next => cases hget
    next => exact hget
  refine ⟨(isAlive_set ..).trans h.alive, fun called f hget => h.owns called f (hfunction hget), ?_⟩
  rintro (htarget | ⟨called, f, hget, htarget⟩)
  · exact h.unset (.inl htarget)
  · exact h.unset (.inr ⟨called, f, hfunction hget, htarget⟩)

/-- A round leaves the variable at its integer, and spares it again. -/
theorem of_round {k : Int64} {w w' : World} {r : Except RuntimeError Unit}
    (h : w.store.Spares env body name) (hround : body.FinishesRound name env k w r w') :
    w'.store.Spares env body name ∧ (w'.store.scope env).get? name = some (.integer k) := by
  have hset : (w.set env name (.integer k)).store.Spares env body name := h.set k
  have hreaches := Stmt.finishes_iff.1 hround
  obtain ⟨hframed, howns⟩ := hset.owns.framed_of_reaches hreaches
  have hsettable := fun hname => hset.unset (hset.owns.settable_of_reaches hreaches hname)
  rw [Point.world_ended] at hframed howns hsettable
  refine ⟨⟨hframed.alive.trans hset.alive, howns, hsettable⟩, ?_⟩
  rw [hframed.kept name hset.unset]
  exact (get?_scope_set ..).trans (if_pos ⟨h.alive, rfl⟩)

/-- **Rounds that go well leave the variable at the integer of the last one.** -/
theorem of_rounds {ks : List Int64} {w w' : World} {n : Nat} {r : Except RuntimeError Unit}
    (h : w.store.Spares env body name)
    (hrounds : InTurn (body.FinishesRound name env) ks w n r w') (hr : r = .ok ()) {k : Int64}
    (hk : ks.getLast? = some k) : (w'.store.scope env).get? name = some (.integer k) := by
  induction hrounds with
  | done => cases hk
  | fail => cases hr
  | @next first ks w w₁ w' n r hround rest ih =>
    obtain ⟨hspares, hget⟩ := h.of_round hround
    cases ks with
    | nil =>
      cases rest
      cases hk
      exact hget
    | cons second ks => exact ih hspares hr (by rwa [List.getLast?_cons_cons] at hk)

end Spares

end Store

/-! ## Loops -/

namespace Stmt

/-- **A counted loop is its unrolling.**  Where its ends have integers for their values, it finishes
as its rounds do, in turn and up to the first error; in each of them the variable is set to the next
integer and the body runs.  The integers are those from the first end on that are less than the
second, none of them out of range; where there are none, nothing happens at all.  If all goes well
the body has run once for each of them, whatever it did; and if it spares the variable, that is left
at the integer before the second end. -/
theorem for_unrolls (name : String) {start stop : Expr} (body : Stmt Nat) {env : EnvId} {w : World}
    {a b : Int64} (ha : start.eval (w.store.scope env) = .ok (.integer a))
    (hb : stop.eval (w.store.scope env) = .ok (.integer b)) :
    (∀ r w', (Stmt.for name start stop body).Finishes env w r w' ↔
      ∃ n, InTurn (body.FinishesRound name env) (Integer.between a b) w n r w') ∧
    (Integer.between a b).map Int64.toInt =
      (List.range (b.toInt - a.toInt).toNat).map (fun i : Nat => a.toInt + i) ∧
    (b.toInt ≤ a.toInt → ∀ r w', (Stmt.for name start stop body).Finishes env w r w' ↔
      r = .ok () ∧ w' = w) ∧
    (∀ n w', InTurn (body.FinishesRound name env) (Integer.between a b) w n (.ok ()) w' →
      (n : Int) = max 0 (b.toInt - a.toInt)) ∧
    (a.toInt < b.toInt → w.store.Spares env body name →
      ∀ w', (Stmt.for name start stop body).Finishes env w (.ok ()) w' →
        ∃ k, (w'.store.scope env).get? name = some (.integer k) ∧ k.toInt = b.toInt - 1) := by
  refine ⟨fun r w' => finishes_for_iff ha hb, Integer.toInt_between a b, fun hle r w' => ?_,
    fun n w' hrounds => ?_, fun hlt hspares w' hfinishes => ?_⟩
  · have hnone : Integer.between a b = [] := by
      rw [← List.length_eq_zero_iff, Integer.length_between]
      omega
    rw [finishes_for_iff ha hb, hnone, InTurn.nil_iff]
  · rw [hrounds.eq_length rfl, Integer.length_between]
    omega
  · obtain ⟨n, hrounds⟩ := (finishes_for_iff ha hb).1 hfinishes
    obtain ⟨k, hlast, hk⟩ := Integer.getLast?_between hlt
    exact ⟨k, hspares.of_rounds hrounds rfl hlast, hk⟩

/-- The last two integers below the greatest one are printed, by a loop whose body sets the variable
in its second end to zero. -/
theorem for_unrolls_greatest :
    let w : World := ⟨(Store.empty.create.set ⟨0⟩ "a" (.integer 9223372036854775805)).set ⟨0⟩ "b"
      (.integer 9223372036854775807), .ofBytes [], .unlimited⟩
    let body : Stmt Nat := .seq (.print (.var "i")) (.assign "b" (.int 0))
    ∃ w' n, (Stmt.for "i" (.var "a") (.var "b") body).Finishes ⟨0⟩ w (.ok ()) w' ∧
      w'.output.written = "9223372036854775805\n9223372036854775806\n".toUTF8 ∧
      InTurn (body.FinishesRound "i" ⟨0⟩) (Integer.between 9223372036854775805 9223372036854775807)
        w n (.ok ()) w' ∧ n = 2 ∧
      ∃ k, (w'.store.scope ⟨0⟩).get? "i" = some (.integer k) ∧ k.toInt = 9223372036854775806 := by
  intro w body
  have ha : (Expr.var "a").eval (w.store.scope ⟨0⟩) = .ok (.integer 9223372036854775805) := by
    with_unfolding_all rfl
  have hb : (Expr.var "b").eval (w.store.scope ⟨0⟩) = .ok (.integer 9223372036854775807) := by
    with_unfolding_all rfl
  obtain ⟨hrounds, -, -, hcount, hlast⟩ := for_unrolls "i" body ha hb
  let w' := ((Stmt.for "i" (.var "a") (.var "b") body).exec 3 ⟨0⟩).leaves w
  have hfinishes : (Stmt.for "i" (.var "a") (.var "b") body).Finishes ⟨0⟩ w (.ok ()) w' :=
    ⟨3, by with_unfolding_all rfl⟩
  have hfunction : ∀ called f, (w.store.scope ⟨0⟩).get? called ≠ some (.function f) := by
    intro called f hget
    have hentries : (w.store.scope ⟨0⟩).entries =
        [("a", .integer 9223372036854775805), ("b", .integer 9223372036854775807)] := by
      decide +kernel
    rw [← Dict.mem_entries_iff, hentries] at hget
    simp at hget
  have hspares : w.store.Spares ⟨0⟩ body "i" := by
    refine ⟨rfl, fun called f hget => absurd hget (hfunction called f), ?_⟩
    rintro (htarget | ⟨called, f, hget, -⟩)
    · exact absurd htarget (by decide)
    · exact hfunction called f hget
  obtain ⟨n, hn⟩ := (hrounds _ w').1 hfinishes
  have hcount : (n : Int) = 2 := hcount n w' hn
  exact ⟨w', n, hfinishes, by decide +kernel, hn, by omega, hlast (by decide) hspares w' hfinishes⟩

end Stmt

end Cam
