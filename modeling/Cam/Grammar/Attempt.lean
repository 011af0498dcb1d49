/-!
# Grammar/Attempt — one try at a place of the input

An attempt ends in a match, in no match, or out of budget, and leaves a changed record of failures
behind.  Everything a parser does is built from four ends (`succeed`, `refuse`, `reject`,
`exhaust`) and one way of going on (`elim`): after a match with what matched, after no match from
the place where the attempt began.  Running out of budget ends everything.
-/

namespace Cam

/-- How an attempt ends. -/
inductive Reply (α : Type) where
  /-- A value, and the index of the next unread token. -/
  | matched (value : α) (next : Nat)
  | noMatch
  /-- The budget was too small to tell. -/
  | exhausted
  deriving DecidableEq

/-- One try, against a record of failures of type `σ`. -/
def Attempt (σ α : Type) : Type := σ → Reply α × σ

namespace Attempt

variable {σ α β : Type}

/-- A match. -/
def succeed (value : α) (next : Nat) : Attempt σ α := fun record => (.matched value next, record)

/-- No match, and nothing to record. -/
def refuse : Attempt σ α := fun record => (.noMatch, record)

/-- No match, to be recorded. -/
def reject (note : σ → σ) : Attempt σ α := fun record => (.noMatch, note record)

/-- Out of budget. -/
def exhaust : Attempt σ α := fun record => (.exhausted, record)

/-- Goes on with `hit` after a match and with `miss` after none. -/
@[inline] def elim (a : Attempt σ α) (hit : α → Nat → Attempt σ β) (miss : Attempt σ β) :
    Attempt σ β := fun record =>
  match a record with
  | (.matched value next, record) => hit value next record
  | (.noMatch, record) => miss record
  | (.exhausted, record) => (.exhausted, record)

/-- Goes on joining items to `left`, from `pos` on, as long as a separator and an item follow.  A
separator without an item after it is left unread.  Each round takes one off the budget. -/
def chain (item : Nat → Attempt σ α) (separator : Nat → Attempt σ (α → α → α)) :
    (budget : Nat) → (left : α) → (pos : Nat) → Attempt σ α
  | 0, _, _ => exhaust
  | budget + 1, left, pos =>
    (separator pos).elim
      (fun join mid =>
        (item mid).elim
          (fun right next => chain item separator budget (join left right) next)
          (succeed left pos))
      (succeed left pos)

/-! ## How each attempt runs -/

@[simp] theorem succeed_apply (value : α) (next : Nat) (record : σ) :
    succeed value next record = (.matched value next, record) := rfl

@[simp] theorem refuse_apply (record : σ) : (refuse : Attempt σ α) record = (.noMatch, record) :=
  rfl

@[simp] theorem reject_apply (note : σ → σ) (record : σ) :
    (reject note : Attempt σ α) record = (.noMatch, note record) := rfl

@[simp] theorem exhaust_apply (record : σ) :
    (exhaust : Attempt σ α) record = (.exhausted, record) := rfl

theorem elim_of_matched {a : Attempt σ α} {record record' : σ} {value : α} {next : Nat}
    (h : a record = (.matched value next, record')) (hit : α → Nat → Attempt σ β)
    (miss : Attempt σ β) : a.elim hit miss record = hit value next record' := by
  simp only [elim, h]

theorem elim_of_noMatch {a : Attempt σ α} {record record' : σ}
    (h : a record = (.noMatch, record')) (hit : α → Nat → Attempt σ β)
    (miss : Attempt σ β) : a.elim hit miss record = miss record' := by
  simp only [elim, h]

theorem elim_of_exhausted {a : Attempt σ α} {record record' : σ}
    (h : a record = (.exhausted, record')) (hit : α → Nat → Attempt σ β)
    (miss : Attempt σ β) : a.elim hit miss record = (.exhausted, record') := by
  simp only [elim, h]

end Attempt

end Cam
