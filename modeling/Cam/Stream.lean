import Cam.RuntimeError
import Cam.Text.Blank

/-!
# Stream — the input and the output of a run

The input is a sequence of bytes, read line by line; the output takes bytes, all of them or only so
many.  A line of input is a value: an integer if it reads as one, else the line itself as a string.
-/

namespace Cam

/-! ## Input -/

/-- What is left of the input. -/
structure Input where
  /-- The bytes not yet read. -/
  unread : List UInt8
  /-- Whether reading past them fails; otherwise the input ends there. -/
  broken : Bool
  deriving DecidableEq

namespace Input

/-- An input that ends after the bytes. -/
def ofBytes (bytes : List UInt8) : Input := ⟨bytes, false⟩

/-- An input that breaks off after `n` of the bytes. -/
def brokenAfter (n : Nat) (bytes : List UInt8) : Input := ⟨bytes.take n, true⟩

/-- The bytes up to the first line feed, that included, and what follows it. -/
def firstLine? : List UInt8 → Option (List UInt8 × List UInt8)
  | [] => none
  | b :: bs =>
    if b = 10 then some ([b], bs)
    else (firstLine? bs).map fun (line, rest) => (b :: line, rest)

/-- The text of a line of bytes. -/
def decode (line : List UInt8) : Except StreamFault String :=
  match String.fromUTF8? line.toByteArray with
  | some text => .ok text
  | none => .error .notText

/-- Reads a line with its line feed, or what is left if there is no line feed; nothing at the end
of the input. -/
def readLine (i : Input) : Except StreamFault (Option String) × Input :=
  match firstLine? i.unread with
  | some (line, rest) => ((decode line).map some, ⟨rest, i.broken⟩)
  | none =>
    let done : Input := ⟨[], i.broken⟩
    if i.broken then (.error .readFailed, done)
    else if i.unread.isEmpty then (.ok none, done)
    else ((decode i.unread).map some, done)

end Input

/-- The text without `c` at its end, if it stands there. -/
def dropLastChar (c : Char) (cs : List Char) : List Char :=
  if cs.getLast? = some c then cs.dropLast else cs

/-- The value a line of input stands for.  One line feed, then one carriage return, are taken off
its end; blanks around an integer do not count. -/
def Value.ofLine (line : String) : Value :=
  let cs := dropLastChar '\r' (dropLastChar '\n' line.toList)
  match Integer.ofChars? (Text.trimBlanks cs) with
  | some n => .integer n
  | none => .string (String.ofList cs)

/-! ## Output -/

/-- Where an output ends. -/
structure Output.Limit where
  /-- The number of bytes it takes in all. -/
  size : Nat
  /-- The reason it gives for taking no more. -/
  reason : String
  deriving DecidableEq

/-- The end of a pipe that is closed after so many bytes. -/
def Output.Limit.pipe (size : Nat) : Limit := ⟨size, "pipe closed"⟩

/-- A bare number of bytes is meant for a pipe. -/
instance : Coe Nat Output.Limit := ⟨.pipe⟩

/-- What has been written, and what the output does from here on. -/
structure Output where
  written : ByteArray
  /-- Where it ends, if it does. -/
  limit : Option Output.Limit
  /-- Whether handing on what was written fails. -/
  flushFails : Bool

namespace Output

/-- An output that takes everything. -/
def unlimited : Output := ⟨.empty, none, false⟩

/-- Writes as many of the bytes as the output takes; not taking all of them is a fault, with the
reason that the output gives. -/
def write (o : Output) (bytes : ByteArray) : Option StreamFault × Output :=
  match o with
  | ⟨written, none, flushFails⟩ => (none, ⟨written ++ bytes, none, flushFails⟩)
  | ⟨written, some limit, flushFails⟩ =>
    let room := limit.size - written.size
    if bytes.size ≤ room then (none, ⟨written ++ bytes, some limit, flushFails⟩)
    else (some (.full limit.reason), ⟨written ++ bytes.extract 0 room, some limit, flushFails⟩)

/-- Hands on what was written. -/
def flush (o : Output) : Option StreamFault := if o.flushFails then some .flushFailed else none

/-- Whether an output can be handed on does not depend on what is written. -/
theorem flush_write (o : Output) (bytes : ByteArray) : (o.write bytes).2.flush = o.flush := by
  obtain ⟨written, limit, flushFails⟩ := o
  cases limit with
  | none => rfl
  | some limit =>
    simp only [write]
    split <;> rfl

end Output

end Cam
