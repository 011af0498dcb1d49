import Cam.Program.Eval

/-!
# Proofs/Program/Exactness — arithmetic is exact, or says where it is not

An arithmetic expression has a value over all integers (`Expr.exact`).  Evaluation in 64 bits goes
through the nodes of the expression from left to right, operands first (`Expr.postorder`), and each
of them can be at fault in two ways: it divides by zero, or its value is out of range.  As long as
none is, every node has its exact value; the first one that is at fault is what is reported
(`Expr.eval_exact`).
-/

namespace Cam

/-! ## Operators -/

namespace ArithOp

/-- The value of an operator over all integers.  Division drops the fraction. -/
def exact : ArithOp → Int → Int → Int
  | .add, a, b => a + b
  | .sub, a, b => a - b
  | .mul, a, b => a * b
  | .div, a, b => a.tdiv b

/-- **An operator gives its exact value, if it has one that is in range.** -/
theorem onIntegers_eq (op : ArithOp) (a b : Int64) :
    op.onIntegers a b =
      if op = .div ∧ b.toInt = 0 then .error .divisionByZero
      else match Integer.ofInt? (op.exact a.toInt b.toInt) with
        | some n => .ok n
        | none => .error (.overflow op) := by
  cases op with
  | div =>
    have hzero : b = 0 ↔ ArithOp.div = .div ∧ b.toInt = 0 := by
      rw [← Int64.toInt_inj, Int64.toInt_zero, and_iff_right rfl]
    exact ite_congr (propext hzero) (fun _ => rfl) (fun _ => rfl)
  | _ => rfl

end ArithOp

namespace Expr

/-! ## Exact values -/

/-- The value of an expression over all integers, where the variables have these values. -/
def exact (value : String → Int) : Expr → Int
  | .int n => n.toInt
  | .str _ => 0
  | .var name => value name
  | .binary op left right => op.exact (left.exact value) (right.exact value)

/-- The expression consists of integers, variables and operators, and the variables are bound to the
integers with these values. -/
def Numeric (scope : Bindings) (value : String → Int) : Expr → Prop
  | .int _ => True
  | .str _ => False
  | .var name => ∃ n, scope.get? name = some (.integer n) ∧ n.toInt = value name
  | .binary _ left right => left.Numeric scope value ∧ right.Numeric scope value

/-- The nodes of an expression from left to right, each after its operands. -/
def postorder : Expr → List Expr
  | .binary op left right => left.postorder ++ right.postorder ++ [.binary op left right]
  | e => [e]

variable (value : String → Int)

/-- The node divides by zero. -/
def DividesByZero : Expr → Prop
  | .binary op _ right => op = .div ∧ right.exact value = 0
  | _ => False

/-- The value of the node is in range. -/
def InRange (e : Expr) : Prop :=
  Integer.least ≤ e.exact value ∧ e.exact value ≤ Integer.greatest

instance (e : Expr) : Decidable (e.DividesByZero value) :=
  match e with
  | .binary op _ right => inferInstanceAs (Decidable (op = .div ∧ right.exact value = 0))
  | .int _ | .str _ | .var _ => .isFalse id

instance (e : Expr) : Decidable (e.InRange value) :=
  inferInstanceAs (Decidable (Integer.least ≤ e.exact value ∧ e.exact value ≤ Integer.greatest))

/-- The node is at fault, with this error. -/
inductive AtFault : Expr → RuntimeError → Prop where
  | zero {e : Expr} (h : e.DividesByZero value) : AtFault e .divisionByZero
  | range {op : ArithOp} {left right : Expr} (hzero : ¬ (binary op left right).DividesByZero value)
      (hrange : ¬ (binary op left right).InRange value) :
      AtFault (.binary op left right) (.overflow op)

/-! ## Faults, computed -/

/-- The fault of a node, if it has one. -/
def fault? : Expr → Option RuntimeError
  | .binary op left right =>
    if op = .div ∧ right.exact value = 0 then some .divisionByZero
    else match Integer.ofInt? ((binary op left right).exact value) with
      | some _ => none
      | none => some (.overflow op)
  | _ => none

variable {value}

theorem inRange_iff {e : Expr} : e.InRange value ↔ Integer.ofInt? (e.exact value) ≠ none := by
  rw [ne_eq, Integer.ofInt?_eq_none_iff, InRange]
  omega

/-- A 64-bit integer is in range. -/
theorem inRange_of_toInt {e : Expr} {n : Int64} (h : n.toInt = e.exact value) :
    e.InRange value := by
  rw [inRange_iff, ← h, Integer.ofInt?_toInt]
  exact Option.some_ne_none n

theorem fault?_eq_some_iff {e : Expr} {error : RuntimeError} :
    e.fault? value = some error ↔ e.AtFault value error := by
  constructor
  · intro h
    cases e with
    | binary op left right =>
      rw [fault?] at h
      split at h
      next hzero =>
        cases h
        exact .zero hzero
      next hzero =>
        split at h
        next => cases h
        next hrange =>
          cases h
          exact .range hzero fun hin => inRange_iff.1 hin hrange
    | int | str | var => cases h
  · intro h
    cases h with
    | @zero e hzero =>
      cases e with
      | binary op left right => exact if_pos hzero
      | int | str | var => exact hzero.elim
    | @range op left right hzero hrange =>
      have hzero : ¬ (op = .div ∧ right.exact value = 0) := hzero
      rw [inRange_iff, Classical.not_not] at hrange
      rw [fault?, if_neg hzero, hrange]

theorem fault?_eq_none_iff {scope : Bindings} {e : Expr} (h : e.Numeric scope value) :
    e.fault? value = none ↔ ¬ e.DividesByZero value ∧ e.InRange value := by
  cases e with
  | int n => exact iff_of_true rfl ⟨id, inRange_of_toInt rfl⟩
  | str => exact h.elim
  | var name =>
    obtain ⟨n, _, hn⟩ := h
    exact iff_of_true rfl ⟨id, inRange_of_toInt hn⟩
  | binary op left right =>
    rw [inRange_iff, fault?]
    split
    next hzero => exact iff_of_false nofun fun h => h.1 hzero
    next hzero =>
      split
      next n hn => exact iff_of_true rfl ⟨hzero, by rw [hn]; exact Option.some_ne_none n⟩
      next hn => exact iff_of_false nofun fun h => h.2 hn

/-- The operands of an expression of integers, variables and operators are such expressions. -/
theorem Numeric.of_mem_postorder {scope : Bindings} {d e : Expr} (h : e.Numeric scope value)
    (hd : d ∈ e.postorder) : d.Numeric scope value := by
  induction e with
  | binary op left right ihLeft ihRight =>
    rw [postorder, List.mem_append, List.mem_append, List.mem_singleton] at hd
    rcases hd with (hleft | hright) | rfl
    · exact ihLeft h.1 hleft
    · exact ihRight h.2 hright
    · exact h
  | int | str | var =>
    obtain rfl := List.mem_singleton.1 hd
    exact h

/-! ## Evaluation -/

/-- A node whose operands have their exact values has its own, or its fault is reported. -/
theorem onIntegers_of_fault? (op : ArithOp) {left right : Expr} {a b : Int64}
    (ha : a.toInt = left.exact value) (hb : b.toInt = right.exact value) :
    ((binary op left right).fault? value = none →
      ∃ n, op.onIntegers a b = .ok n ∧ n.toInt = (binary op left right).exact value) ∧
    ∀ error, (binary op left right).fault? value = some error →
      op.onIntegers a b = .error error := by
  rw [ArithOp.onIntegers_eq, ha, hb, fault?, exact]
  split
  next =>
    refine ⟨nofun, fun error h => ?_⟩
    cases h
    rfl
  next =>
    rcases hvalue : Integer.ofInt? (op.exact (left.exact value) (right.exact value)) with _ | n
    · refine ⟨nofun, fun error h => ?_⟩
      cases h
      rfl
    · exact ⟨fun _ => ⟨n, rfl, Integer.toInt_of_ofInt?_eq_some hvalue⟩, nofun⟩

/-- **Evaluation gives the exact value, or the first fault in the order of the nodes.** -/
theorem eval_of_findSome? {scope : Bindings} {e : Expr} (h : e.Numeric scope value) :
    (e.postorder.findSome? (fault? value) = none →
      ∃ n, e.eval scope = .ok (.integer n) ∧ n.toInt = e.exact value) ∧
    ∀ error, e.postorder.findSome? (fault? value) = some error → e.eval scope = .error error := by
  induction e with
  | int n => exact ⟨fun _ => ⟨n, rfl, rfl⟩, nofun⟩
  | str => exact h.elim
  | var name =>
    obtain ⟨n, hget, hn⟩ := h
    exact ⟨fun _ => ⟨n, by rw [eval, hget], hn⟩, nofun⟩
  | binary op left right ihLeft ihRight =>
    obtain ⟨hleftValue, hleftError⟩ := ihLeft h.1
    obtain ⟨hrightValue, hrightError⟩ := ihRight h.2
    rw [postorder, List.findSome?_append, List.findSome?_append]
    rcases hleft : left.postorder.findSome? (fault? value) with _ | error
    · obtain ⟨a, ha, haExact⟩ := hleftValue hleft
      rcases hright : right.postorder.findSome? (fault? value) with _ | error
      · obtain ⟨b, hb, hbExact⟩ := hrightValue hright
        have heval : (binary op left right).eval scope = (op.onIntegers a b).map .integer := by
          rw [eval, ha, hb]
          rfl
        obtain ⟨hnone, hsome⟩ := onIntegers_of_fault? op haExact hbExact
        rw [heval, Option.none_or, Option.none_or, List.findSome?_singleton]
        refine ⟨fun h => ?_, fun error h => ?_⟩
        · obtain ⟨n, hn, hexact⟩ := hnone h
          exact ⟨n, by rw [hn]; rfl, hexact⟩
        · rw [hsome error h]
          rfl
      · have heval : (binary op left right).eval scope = .error error := by
          rw [eval, ha, hrightError error hright]
          rfl
        refine ⟨nofun, fun error' h => ?_⟩
        cases h
        exact heval
    · have heval : (binary op left right).eval scope = .error error := by
        rw [eval, hleftError error hleft]
        rfl
      refine ⟨nofun, fun error' h => ?_⟩
      cases h
      exact heval

section Nodes

variable {scope : Bindings} {e : Expr} (h : e.Numeric scope value)

include h

theorem no_fault_iff : e.postorder.findSome? (fault? value) = none ↔
    ∀ d ∈ e.postorder, ¬ d.DividesByZero value ∧ d.InRange value := by
  rw [List.findSome?_eq_none_iff]
  exact forall_congr' fun d => forall_congr' fun hd => fault?_eq_none_iff (h.of_mem_postorder hd)

theorem first_fault_iff {error : RuntimeError} :
    e.postorder.findSome? (fault? value) = some error ↔
      ∃ before d after, e.postorder = before ++ d :: after ∧
        (∀ d ∈ before, ¬ d.DividesByZero value ∧ d.InRange value) ∧ d.AtFault value error := by
  rw [List.findSome?_eq_some_iff]
  refine exists_congr fun before => exists_congr fun d => exists_congr fun after =>
    and_congr_right fun hsplit => ?_
  have hmem {d : Expr} (hd : d ∈ before) : d ∈ e.postorder := hsplit ▸ List.mem_append_left _ hd
  rw [fault?_eq_some_iff, and_comm]
  refine and_congr_left fun _ => forall_congr' fun d => forall_congr' fun hd => ?_
  exact fault?_eq_none_iff (h.of_mem_postorder (hmem hd))

end Nodes

/-- **Arithmetic is exact, or a precise error.**  An expression of integers, variables and
operators, whose variables are bound to integers, evaluates to an integer if and only if no node
divides by zero and every node is in range, and then to its exact value.  It evaluates to an error
if and only if that is the error of the first node at fault, from left to right and operands first.
-/
theorem eval_exact {scope : Bindings} {e : Expr} (h : e.Numeric scope value) :
    (∀ n, e.eval scope = .ok (.integer n) ↔
      (∀ d ∈ e.postorder, ¬ d.DividesByZero value ∧ d.InRange value) ∧ n.toInt = e.exact value) ∧
    ∀ error, e.eval scope = .error error ↔
      ∃ before d after, e.postorder = before ++ d :: after ∧
        (∀ d ∈ before, ¬ d.DividesByZero value ∧ d.InRange value) ∧ d.AtFault value error := by
  obtain ⟨hvalue, herror⟩ := eval_of_findSome? h
  simp only [← no_fault_iff h, ← first_fault_iff h]
  rcases hfirst : e.postorder.findSome? (fault? value) with _ | first
  · obtain ⟨m, hm, hexact⟩ := hvalue hfirst
    refine ⟨fun n => ?_, fun error => iff_of_false ?_ nofun⟩
    · rw [hm, ← hexact, Int64.toInt_inj]
      simp [eq_comm]
    · rw [hm]
      exact nofun
  · rw [herror first hfirst]
    exact ⟨fun n => iff_of_false nofun nofun, fun error => by simp⟩

/-- Twice the greatest integer is out of range, also where it is subtracted from again; the division
by zero comes later.  Halving rounds towards zero. -/
theorem eval_exact_greatest :
    let scope : Bindings := Dict.empty.insert "x" (.integer 9223372036854775807)
    let twice := binary .mul (.var "x") (.int 2)
    (binary .add (.binary .sub twice (.var "x")) (.binary .div (.int 1) (.int 0))).eval scope =
        .error (.overflow .mul) ∧
      (binary .div (.binary .sub (.int 0) (.var "x")) (.int 2)).eval scope =
        .ok (.integer (-4611686018427387903)) := by
  intro scope twice
  let value : String → Int := fun _ => 9223372036854775807
  have hx : (Expr.var "x").Numeric scope value := ⟨9223372036854775807, by decide +kernel, rfl⟩
  have hmul : twice.AtFault value (.overflow .mul) := .range (by decide) (by decide)
  have hsum : (binary .add (.binary .sub twice (.var "x")) (.binary .div (.int 1) (.int 0))).Numeric
      scope value := ⟨⟨⟨hx, trivial⟩, hx⟩, trivial, trivial⟩
  have hhalf : (binary .div (.binary .sub (.int 0) (.var "x")) (.int 2)).Numeric scope value :=
    ⟨⟨trivial, hx⟩, trivial⟩
  constructor
  · exact ((eval_exact hsum).2 _).2 ⟨[.var "x", .int 2], twice, _, rfl, by decide, hmul⟩
  · exact ((eval_exact hhalf).1 _).2 ⟨by decide, by decide⟩

end Expr

end Cam
