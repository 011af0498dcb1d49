import Cam.Program.Eval

/-!
# Proofs/Program/Connectives — both sides of a connective are always evaluated

A condition is built from comparisons by connectives.  All of its comparisons are evaluated, from
left to right, whatever the ones before have come to: the first that fails decides the whole, and if
none fails the condition has its classical truth value (`Condition.eval_of_findSome?`).  So what a
condition evaluates to is known from its comparisons alone (`Condition.eval_of_comparisons`).
-/

namespace Cam

/-! ## Comparisons -/

/-- A comparison between two expressions. -/
structure Comparison where
  op : RelOp
  left : Expr
  right : Expr

namespace Comparison

/-- How a comparison comes out.  A fault of the left operand comes first, then one of the right
operand; the values of both are compared only if there is none. -/
inductive Ends (scope : Bindings) : Comparison → Except RuntimeError Bool → Prop where
  | left {op : RelOp} {left right : Expr} {e : RuntimeError} (h : left.eval scope = .error e) :
      Ends scope ⟨op, left, right⟩ (.error e)
  | right {op : RelOp} {left right : Expr} {a : Value} {e : RuntimeError}
      (hleft : left.eval scope = .ok a) (h : right.eval scope = .error e) :
      Ends scope ⟨op, left, right⟩ (.error e)
  | compared {op : RelOp} {left right : Expr} {a b : Value} (hleft : left.eval scope = .ok a)
      (hright : right.eval scope = .ok b) : Ends scope ⟨op, left, right⟩ (op.apply a b)

variable {scope : Bindings} {d : Comparison}

/-- What a comparison evaluates to. -/
def eval (scope : Bindings) (d : Comparison) : Except RuntimeError Bool :=
  (Condition.relation d.op d.left d.right).eval scope

/-- The fault of a comparison, if it has one. -/
def fault? (scope : Bindings) (d : Comparison) : Option RuntimeError :=
  match d.eval scope with
  | .ok _ => none
  | .error e => some e

theorem ends_eval (scope : Bindings) (d : Comparison) : d.Ends scope (d.eval scope) := by
  obtain ⟨op, left, right⟩ := d
  rw [eval, Condition.eval]
  rcases hleft : left.eval scope with e | a
  · exact .left hleft
  · rcases hright : right.eval scope with e | b
    · exact .right hleft hright
    · exact .compared hleft hright

theorem ends_iff {r : Except RuntimeError Bool} : d.Ends scope r ↔ d.eval scope = r := by
  constructor
  · intro h
    cases h with
    | left h =>
      rw [eval, Condition.eval, h]
      rfl
    | right hleft h =>
      rw [eval, Condition.eval, hleft, h]
      rfl
    | compared hleft hright =>
      rw [eval, Condition.eval, hleft, hright]
      rfl
  · rintro rfl
    exact d.ends_eval scope

theorem fault?_eq_none_iff : d.fault? scope = none ↔ ∃ t, d.Ends scope (.ok t) := by
  simp only [ends_iff, fault?]
  rcases d.eval scope with e | t <;> simp

theorem fault?_eq_some_iff {e : RuntimeError} :
    d.fault? scope = some e ↔ d.Ends scope (.error e) := by
  simp only [ends_iff, fault?]
  rcases d.eval scope with e' | t <;> simp

end Comparison

namespace Condition

/-- The comparisons in a condition, from left to right. -/
def comparisons : Condition → List Comparison
  | .literal _ => []
  | .relation op left right => [⟨op, left, right⟩]
  | .logic _ left right => left.comparisons ++ right.comparisons
  | .not inner => inner.comparisons

/-- The condition is true, if its comparisons are true that `leaf` says are. -/
def Holds (leaf : Comparison → Prop) : Condition → Prop
  | .literal b => b = true
  | .relation op left right => leaf ⟨op, left, right⟩
  | .logic .and left right => left.Holds leaf ∧ right.Holds leaf
  | .logic .or left right => left.Holds leaf ∨ right.Holds leaf
  | .not inner => ¬ inner.Holds leaf

variable {scope : Bindings}

/-- A condition none of whose comparisons fails has its truth value, and else it fails with the
first of them that does.  The right side of a connective is evaluated whatever the left one gives.
-/
theorem eval_of_findSome? (scope : Bindings) (c : Condition) :
    (c.comparisons.findSome? (Comparison.fault? scope) = none →
      ∃ b, c.eval scope = .ok b ∧ (b = true ↔ c.Holds fun d => d.Ends scope (.ok true))) ∧
    ∀ e, c.comparisons.findSome? (Comparison.fault? scope) = some e → c.eval scope = .error e := by
  induction c with
  | literal b => exact ⟨fun _ => ⟨b, rfl, Iff.rfl⟩, nofun⟩
  | relation op left right =>
    rw [comparisons, List.findSome?_singleton]
    refine ⟨fun h => ?_, fun e h => ?_⟩
    · obtain ⟨b, hb⟩ := Comparison.fault?_eq_none_iff.1 h
      have heval := Comparison.ends_iff.1 hb
      refine ⟨b, heval, ?_⟩
      rw [Holds, Comparison.ends_iff, heval, Except.ok.injEq]
    · exact Comparison.ends_iff.1 (Comparison.fault?_eq_some_iff.1 h)
  | logic op left right ihLeft ihRight =>
    obtain ⟨hleftValue, hleftFault⟩ := ihLeft
    obtain ⟨hrightValue, hrightFault⟩ := ihRight
    rw [comparisons, List.findSome?_append]
    rcases hleft : left.comparisons.findSome? (Comparison.fault? scope) with _ | e
    · obtain ⟨a, ha, haHolds⟩ := hleftValue hleft
      have heval : (logic op left right).eval scope = (right.eval scope).map (op.apply a) := by
        rw [eval, ha]
        rfl
      rw [Option.none_or, heval]
      refine ⟨fun hright => ?_, fun e hright => ?_⟩
      · obtain ⟨b, hb, hbHolds⟩ := hrightValue hright
        refine ⟨op.apply a b, by rw [hb]; rfl, ?_⟩
        cases op with
        | and => rw [LogicOp.apply, Bool.and_eq_true, haHolds, hbHolds, Holds]
        | or => rw [LogicOp.apply, Bool.or_eq_true, haHolds, hbHolds, Holds]
      · rw [hrightFault e hright]
        rfl
    · refine ⟨nofun, fun e' h => ?_⟩
      obtain rfl := Option.some.inj h
      rw [eval, hleftFault e hleft]
      rfl
  | not inner ih =>
    obtain ⟨hvalue, hfault⟩ := ih
    refine ⟨fun h => ?_, fun e h => ?_⟩
    · obtain ⟨a, ha, hholds⟩ := hvalue h
      refine ⟨!a, by rw [eval, ha]; rfl, ?_⟩
      rw [Holds, ← hholds, Bool.not_eq_true', Bool.not_eq_true]
    · rw [eval, hfault e h]
      rfl

theorem no_fault_iff {c : Condition} : c.comparisons.findSome? (Comparison.fault? scope) = none ↔
    ∀ d ∈ c.comparisons, ∃ t, d.Ends scope (.ok t) := by
  simp only [List.findSome?_eq_none_iff, Comparison.fault?_eq_none_iff]

theorem first_fault_iff {c : Condition} {e : RuntimeError} :
    c.comparisons.findSome? (Comparison.fault? scope) = some e ↔
      ∃ before d after, c.comparisons = before ++ d :: after ∧
        (∀ d ∈ before, ∃ t, d.Ends scope (.ok t)) ∧ d.Ends scope (.error e) := by
  simp only [List.findSome?_eq_some_iff, Comparison.fault?_eq_none_iff,
    Comparison.fault?_eq_some_iff]
  refine exists_congr fun before => exists_congr fun d => exists_congr fun after => ?_
  exact and_congr_right fun _ => and_comm

/-- **No connective keeps a comparison from being evaluated.**  A condition evaluates to a truth
value if and only if none of its comparisons fails, and then to its classical one.  It evaluates to
an error if and only if that is the error of the first comparison from the left that fails, whatever
the connectives around it and the truth values of the others. -/
theorem eval_of_comparisons (scope : Bindings) (c : Condition) :
    (∀ b, c.eval scope = .ok b ↔
      (∀ d ∈ c.comparisons, ∃ t, d.Ends scope (.ok t)) ∧
        (b = true ↔ c.Holds fun d => d.Ends scope (.ok true))) ∧
    ∀ e, c.eval scope = .error e ↔
      ∃ before d after, c.comparisons = before ++ d :: after ∧
        (∀ d ∈ before, ∃ t, d.Ends scope (.ok t)) ∧ d.Ends scope (.error e) := by
  obtain ⟨hvalue, hfault⟩ := eval_of_findSome? scope c
  simp only [← no_fault_iff, ← first_fault_iff]
  rcases hfirst : c.comparisons.findSome? (Comparison.fault? scope) with _ | first
  · obtain ⟨a, ha, hholds⟩ := hvalue hfirst
    refine ⟨fun b => ?_, fun e => iff_of_false ?_ nofun⟩
    · rw [ha, ← hholds, Except.ok.injEq, and_iff_right rfl, eq_comm, Bool.eq_iff_iff]
    · rw [ha]
      exact nofun
  · rw [hfault first hfirst]
    exact ⟨fun b => iff_of_false nofun nofun, fun e => by simp⟩

/-- What comes first decides nothing: the variable is looked up although the conjunction is false.
-/
example : (logic .and (.literal false) (.relation .less (.var "missing") (.int 1))).eval .empty =
    .error (.unboundVariable "missing") := rfl

end Condition

end Cam
