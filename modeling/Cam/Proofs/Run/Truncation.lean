import Cam.Proofs.Run.Effect

/-!
# Proofs/Run/Truncation — a full output cuts a run off and does nothing else to it

A run is compared with the run of the same statement on an output with a limit.  The two go together
as long as what is written fits; the first line that does not fit is written as far as it does, and
there the second run fails for the reason that the output gives, with the first bytes of all that
the first run writes (`Truncates`).  So a full output neither loses nor adds a byte, and no error of
the program itself that comes before is hidden by it (`Stmt.run_limited`).
-/

namespace Cam

/-! ## Outputs -/

namespace Output

/-- An output with a limit. -/
def limited (limit : Limit) : Output := ⟨.empty, some limit, false⟩

/-- The output, with a limit. -/
def capped (limit : Limit) (o : Output) : Output := ⟨o.written, some limit, o.flushFails⟩

variable {limit : Limit} {o : Output} {bytes : ByteArray}

theorem write_of_unlimited (h : o.limit = none) (bytes : ByteArray) :
    o.write bytes = (none, ⟨o.written ++ bytes, none, o.flushFails⟩) := by
  obtain ⟨written, limit, flushFails⟩ := o
  obtain rfl : limit = none := h
  rfl

/-- What fits is written. -/
theorem write_capped_of_le (h : (o.written ++ bytes).size ≤ limit.size) :
    (o.capped limit).write bytes = (none, ⟨o.written ++ bytes, some limit, o.flushFails⟩) := by
  rw [ByteArray.size_append] at h
  have hroom : bytes.size ≤ limit.size - o.written.size := by omega
  simp only [capped, write, if_pos hroom]

/-- **What does not fit is written as far as it does.** -/
theorem write_capped_of_lt (hfits : o.written.size ≤ limit.size)
    (h : limit.size < (o.written ++ bytes).size) :
    (o.capped limit).write bytes = (some (.full limit.reason),
      ⟨(o.written ++ bytes).extract 0 limit.size, some limit, o.flushFails⟩) := by
  rw [ByteArray.size_append] at h
  have hroom : ¬ bytes.size ≤ limit.size - o.written.size := by omega
  have hall : o.written.extract 0 limit.size = o.written := by
    have hmax : o.written.extract 0 (max limit.size o.written.size) = o.written :=
      ByteArray.extract_zero_max_size
    rwa [Nat.max_eq_left hfits] at hmax
  have hwritten : (o.written ++ bytes).extract 0 limit.size =
      o.written ++ bytes.extract 0 (limit.size - o.written.size) := by
    rw [ByteArray.extract_append, hall, Nat.zero_sub]
  simp only [capped, write, if_neg hroom, hwritten]

/-- The first bytes stay the first when more are written. -/
theorem extract_append_of_lt {written : ByteArray} {n : Nat} (h : n < written.size)
    (bytes : ByteArray) : (written ++ bytes).extract 0 n = written.extract 0 n := by
  rw [ByteArray.extract_append, Nat.sub_eq_zero_of_le (Nat.le_of_lt h), Nat.zero_sub,
    ByteArray.extract_same, ByteArray.append_empty]

end Output

/-- The world with a limit to its output. -/
def World.capped (limit : Output.Limit) (w : World) : World :=
  ⟨w.store, w.input, w.output.capped limit⟩

/-! ## Two runs -/

/-- An output without a limit only grows. -/
theorem Point.Next.output_grows {p q : Point} (h : p.Next q)
    (hlimit : p.world.output.limit = none) : q.world.output.limit = none ∧
      ∃ bytes, q.world.output.written = p.world.output.written ++ bytes := by
  rcases p with ⟨_ | ⟨job, jobs⟩, w⟩ | ⟨e, w⟩
  · cases h
  · obtain rfl := Point.next_iff.1 h
    by_cases hwrites : ∃ text, job.effect w.store = .ok (.write text)
    · obtain ⟨text, heffect⟩ := hwrites
      have hwrite := Output.write_of_unlimited (o := w.output) hlimit (text ++ "\n").toUTF8
      simp only [heffect, Point.after, Effect.next, hwrite]
      exact ⟨rfl, _, rfl⟩
    · rw [Point.output_after jobs w fun text heffect => hwrites ⟨text, heffect⟩]
      exact ⟨hlimit, .empty, ByteArray.append_empty.symm⟩
  · cases h

/-- The second run is where the first is, on an output with the limit; or it has failed for the
reason of that output, which has taken the first bytes of what the first run has written. -/
inductive Truncates (limit : Output.Limit) : Point → Point → Prop where
  | fits {p : Point} (hlimit : p.world.output.limit = none)
      (hfits : p.world.output.written.size ≤ limit.size) :
      Truncates limit p (p.map (World.capped limit))
  | full {p : Point} {w : World} (hlimit : p.world.output.limit = none)
      (hfull : limit.size < p.world.output.written.size)
      (hwritten : w.output.written = p.world.output.written.extract 0 limit.size) :
      Truncates limit p (.failed (.stream (.full limit.reason)) w)

namespace Truncates

variable {limit : Output.Limit}

/-- A step with the same effect on both outputs. -/
theorem after {jobs : List Job} {w : World} (hlimit : w.output.limit = none)
    (hfits : w.output.written.size ≤ limit.size) (r : Except RuntimeError Effect) :
    Truncates limit (.after jobs w r) (.after jobs (w.capped limit) r) := by
  rcases r with e | effect
  · exact .fits hlimit hfits
  · cases effect with
    | leave more => exact .fits hlimit hfits
    | set env name value more => exact .fits hlimit hfits
    | read env name =>
      simp only [Point.after, Effect.next, World.capped]
      rcases w.input.readLine with ⟨fault | _ | line, input⟩ <;> exact .fits hlimit hfits
    | write text =>
      simp only [Point.after, Effect.next, Output.write_of_unlimited hlimit, World.capped]
      generalize (text ++ "\n").toUTF8 = bytes
      by_cases h : (w.output.written ++ bytes).size ≤ limit.size
      · rw [Output.write_capped_of_le h]
        exact .fits rfl h
      · have hlt := Nat.lt_of_not_le h
        rw [Output.write_capped_of_lt hfits hlt]
        exact .full rfl hlt rfl

/-- **A step keeps the two runs together, or the output of the second is full.** -/
theorem next {p q p' : Point} (h : Truncates limit p q) (hnext : p.Next p') :
    ∃ q', q.Reaches q' ∧ Truncates limit p' q' := by
  cases h with
  | fits hlimit hfits =>
    rcases p with ⟨_ | ⟨job, jobs⟩, w⟩ | ⟨e, w⟩
    · cases hnext
    · obtain rfl := Point.next_iff.1 hnext
      exact ⟨_, .single (Point.next_iff.2 rfl), .after hlimit hfits _⟩
    · cases hnext
  | full hlimit hfull hwritten =>
    obtain ⟨hlimit', bytes, hgrows⟩ := hnext.output_grows hlimit
    have hfull' : limit.size < p'.world.output.written.size := by
      rw [hgrows, ByteArray.size_append]
      omega
    refine ⟨_, .refl, .full hlimit' hfull' ?_⟩
    rw [hgrows, Output.extract_append_of_lt hfull, hwritten]

end Truncates

/-! ## Whole runs -/

namespace Stmt

/-- A run concludes alike, whatever its output takes. -/
theorem conclude_capped (limit : Output.Limit) (env : EnvId) (r : Except RuntimeError Unit)
    (w : World) : conclude env r (w.capped limit) =
      ((conclude env r w).1, (conclude env r w).2.capped limit) := by
  have hflush : (w.capped limit).output.flush = w.output.flush := rfl
  simp only [conclude, hflush]
  split <;> rfl

/-- **A full output only cuts off.**  Of a run that ends on an output without a limit, the run on an
output with one does the same if what is written fits; if not, it fails with the reason that the
full output gives, and the output has taken as many bytes as it can of what the first run writes,
from the first one on. -/
theorem run_limited {p : Stmt Nat} {store : Store} {input : Input} {r : Except RuntimeError EnvId}
    {w' : World} (h : p.Runs ⟨store, input, .unlimited⟩ r w') (limit : Output.Limit) :
    (w'.output.written.size ≤ limit.size →
      p.Runs ⟨store, input, .limited limit⟩ r (w'.capped limit)) ∧
    (limit.size < w'.output.written.size →
      ∃ v, p.Runs ⟨store, input, .limited limit⟩ (.error (.stream (.full limit.reason))) v ∧
        v.output.written = w'.output.written.extract 0 limit.size) := by
  obtain ⟨r₁, w₁, hfinishes, hconclude⟩ := runs_iff.1 h
  have houtput : w'.output = w₁.output := by
    rw [← (streams_conclude store.next r₁ w₁).2]
    exact congrArg (·.2.output) hconclude.symm
  have hstart : Truncates limit (.running [.run p store.next] ⟨store.create, input, .unlimited⟩)
      (.running [.run p store.next] ⟨store.create, input, .limited limit⟩) :=
    .fits rfl (Nat.zero_le limit.size)
  obtain ⟨q, hreaches, hq⟩ := (finishes_iff.1 hfinishes).simulated Truncates.next hstart
  rw [houtput]
  cases hq with
  | fits hlimit hfits =>
    rw [Point.map_ended] at hreaches
    rw [Point.world_ended] at hfits
    refine ⟨fun _ => runs_iff.2 ⟨r₁, w₁.capped limit, finishes_iff.2 hreaches, ?_⟩, fun hlt => ?_⟩
    · rw [conclude_capped, hconclude]
    · exact absurd hfits (Nat.not_le_of_lt hlt)
  | @full v hlimit hfull hwritten =>
    rw [Point.world_ended] at hfull hwritten
    refine ⟨fun hle => absurd hle (Nat.not_le_of_lt hfull), fun _ => ?_⟩
    have hfinishes' : p.Finishes store.next ⟨store.create, input, .limited limit⟩
        (.error (.stream (.full limit.reason))) v := finishes_iff.2 hreaches
    exact ⟨_, runs_iff.2 ⟨_, v, hfinishes', rfl⟩, hwritten⟩

/-- Two lines, the first of which starts with a character of two bytes. -/
def twoLines : Stmt Nat := .seq (.print (.str "\"ä\"")) (.print (.int 7))

/-- Both lines fit into a pipe of five bytes; one byte, on a full disk, is half of the first
character. -/
theorem twoLines_limited : ∃ w',
    twoLines.Runs ⟨.empty, .ofBytes [], .unlimited⟩ (.ok ⟨0⟩) w' ∧
    w'.output.written.data = #[195, 164, 10, 55, 10] ∧
    twoLines.Runs ⟨.empty, .ofBytes [], .limited (.pipe 5)⟩ (.ok ⟨0⟩) (w'.capped (.pipe 5)) ∧
    ∃ v, twoLines.Runs ⟨.empty, .ofBytes [], .limited ⟨1, "disk full"⟩⟩
        (.error (.stream (.full "disk full"))) v ∧
      v.output.written = w'.output.written.extract 0 1 := by
  let w : World := ⟨.empty, .ofBytes [], .unlimited⟩
  let w' : World := (twoLines.exec 2 ⟨0⟩).leaves w.fresh
  have hruns : twoLines.Runs w (.ok ⟨0⟩) w' := ⟨2, by with_unfolding_all rfl⟩
  have hbytes : w'.output.written.data = #[195, 164, 10, 55, 10] := by decide +kernel
  have hsize : w'.output.written.size = 5 := congrArg Array.size hbytes
  have hpipe : w'.output.written.size ≤ (Output.Limit.pipe 5).size := Nat.le_of_eq hsize
  have hdisk : (Output.Limit.mk 1 "disk full").size < w'.output.written.size := by
    rw [hsize]
    decide
  exact ⟨w', hruns, hbytes, (run_limited hruns _).1 hpipe, (run_limited hruns _).2 hdisk⟩

end Stmt

end Cam
