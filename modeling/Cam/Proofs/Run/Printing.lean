import Cam.Proofs.Run.LineFeed
import Cam.Proofs.Run.Truncation

/-!
# Proofs/Run/Printing — the values that a run prints

Of the steps of a run only those write that print a value, and these write its text and a line feed.
So a run that has printed some values, one after another (`Point.Printing`), has written their lines
and nothing else (`Point.Printing.written`).  On an output that takes everything, each point of a
run is reached in this way (`Point.Reaches.exists_printing`).
-/

namespace Cam

/-- The text that is written, if that is the effect. -/
def Effect.text? : Effect → Option String
  | .write text => some text
  | _ => none

/-- Only a statement that prints a value writes, and what it writes is the text of the value. -/
theorem Job.print_of_write {job : Job} {store : Store} {text : String}
    (h : job.effect store = .ok (.write text)) : ∃ e env v,
      job = .run (.print e) env ∧ e.eval (store.scope env) = .ok v ∧ v.text = text := by
  have hother (hyields : Yields (fun _ => True) (fun effect => effect.text? = none)
      (job.effect store)) : False := by
    rw [h] at hyields
    cases hyields
  cases job with
  | rounds name body env count first => cases count <;> cases h
  | run s env =>
    cases s with
    | seq | input | func => cases h
    | assign _ e => exact (hother (.bind (.always _) fun _ _ => rfl)).elim
    | print e =>
      cases heval : e.eval (store.scope env) with
      | error fault =>
        rw [Job.effect, heval] at h
        cases h
      | ok v =>
        rw [Job.effect, heval] at h
        cases h
        exact ⟨e, env, v, rfl, heval, rfl⟩
    | ifThen cond | ifThenElse cond | «while» cond =>
      exact (hother (.bind (.always _) fun _ _ => rfl)).elim
    | «for» _ start stop =>
      refine (hother ?_).elim
      refine .bind (.always _) fun _ _ => .bind (.always _) fun _ _ => ?_
      exact .bind (.always _) fun _ _ => .bind (.always _) fun _ _ => rfl
    | call called =>
      simp only [Job.effect] at h
      split at h
      next => split at h <;> cases h
      next => cases h
      next => cases h

namespace Point

/-- What is done next at the point is to print the value. -/
def Prints : Point → Value → Prop
  | running (.run (.print e) env :: _) w, v => e.eval (w.store.scope env) = .ok v
  | _, _ => False

/-- The run comes from the first point to the second, and prints the values on the way. -/
inductive Printing (p : Point) : List Value → Point → Prop where
  | refl : Printing p [] p
  | print {q : Point} {values : List Value} {v : Value} {jobs : List Job} {w : World}
      (h : Printing p values q) (hprints : q.Prints v) (hnext : q.Next (running jobs w)) :
      Printing p (values ++ [v]) (running jobs w)
  | quiet {q q' : Point} {values : List Value} (h : Printing p values q)
      (hquiet : ∀ v, ¬ q.Prints v) (hnext : q.Next q') : Printing p values q'

variable {p q q' : Point}

theorem Prints.effect {v : Value} (h : q.Prints v) : ∃ job jobs w,
    q = running (job :: jobs) w ∧ job.effect w.store = .ok (.write v.text) := by
  unfold Prints at h
  split at h
  next e env jobs w =>
    refine ⟨_, jobs, w, rfl, ?_⟩
    rw [Job.effect, h]
    rfl
  next => exact h.elim

/-- A step that prints a value writes its text and a line feed. -/
theorem Prints.written {v : Value} (h : q.Prints v) {jobs : List Job} {w : World}
    (hnext : q.Next (running jobs w)) :
    w.output.written = q.world.output.written ++ (v.text ++ "\n").toUTF8 := by
  obtain ⟨job, jobs', w', rfl, heffect⟩ := h.effect
  have hafter := next_iff.1 hnext
  rw [heffect, after, Effect.next] at hafter
  split at hafter
  next output hwrite =>
    cases hafter
    exact Output.written_of_write hwrite
  next => cases hafter

/-- On an output without a limit such a step succeeds. -/
theorem Prints.running_of_next {v : Value} (h : q.Prints v) (hlimit : q.world.output.limit = none)
    (hnext : q.Next q') : ∃ jobs w, q' = running jobs w := by
  obtain ⟨job, jobs, w, rfl, heffect⟩ := h.effect
  have hwrite := Output.write_of_unlimited (o := w.output) hlimit (v.text ++ "\n").toUTF8
  obtain rfl := next_iff.1 hnext
  rw [heffect, after, Effect.next, hwrite]
  exact ⟨jobs, _, rfl⟩

/-- Other steps write nothing. -/
theorem Next.output_of_quiet (hnext : q.Next q') (hquiet : ∀ v, ¬ q.Prints v) :
    q'.world.output = q.world.output := by
  rcases q with ⟨_ | ⟨job, jobs⟩, w⟩ | ⟨e, w⟩
  · cases hnext
  · obtain rfl := next_iff.1 hnext
    refine output_after jobs w fun text heffect => ?_
    obtain ⟨e, env, v, rfl, heval, -⟩ := Job.print_of_write heffect
    exact hquiet v heval
  · cases hnext

namespace Printing

variable {values : List Value}

theorem reaches (h : p.Printing values q) : p.Reaches q := by
  induction h with
  | refl => exact .refl
  | print _ _ hnext ih => exact ih.tail hnext
  | quiet _ _ hnext ih => exact ih.tail hnext

/-- **What a run has written are the lines of the values it has printed.** -/
theorem written (h : p.Printing values q) :
    q.world.output.written.data.toList =
      p.world.output.written.data.toList ++ Value.lines values := by
  induction h with
  | refl => exact (List.append_nil _).symm
  | @print q values v jobs w _ hprints hnext ih =>
    have hlines : Value.lines (values ++ [v]) =
        Value.lines values ++ Text.bytes (v.text ++ "\n") := by
      rw [Value.lines, Value.lines, List.flatMap_append, List.flatMap_singleton]
    rw [world, hprints.written hnext, ByteArray.toList_data_append, ih, hlines, List.append_assoc]
    rfl
  | quiet _ hquiet hnext ih => rw [hnext.output_of_quiet hquiet, ih]

end Printing

/-- **On an output without a limit every point of a run is reached by printing values.** -/
theorem Reaches.exists_printing (h : p.Reaches q) (hlimit : p.world.output.limit = none) :
    q.world.output.limit = none ∧ ∃ values, p.Printing values q := by
  induction h with
  | refl => exact ⟨hlimit, [], .refl⟩
  | @tail q q' _ hnext ih =>
    obtain ⟨hq, values, hprinting⟩ := ih
    refine ⟨(hnext.output_grows hq).1, ?_⟩
    by_cases hprints : ∃ v, q.Prints v
    · obtain ⟨v, hprints⟩ := hprints
      obtain ⟨jobs, w, rfl⟩ := hprints.running_of_next hq hnext
      exact ⟨values ++ [v], .print hprinting hprints hnext⟩
    · exact ⟨values, .quiet hprinting (fun v hv => hprints ⟨v, hv⟩) hnext⟩

end Point

end Cam
