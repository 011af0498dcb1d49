import Cam.Program.Run

/-!
# Command/Folder — what a path finds from a folder of files

A path is a list of names with slashes between them; one that begins with a slash starts at the top
of the file system, any other at the folder.  Empty names and single dots stay where they are, two
dots lead out of the folder, and any other name leads to a file of the folder.  Behind a file there
is nothing more, not even a way back.  Outside the folder there are directories, but no files.

The command itself takes the file as it was found, or was not (`Invocation.run`), so nothing else in
the library depends on this module: it stands for the file system where the command is tried out on
a folder that is given with it.
-/

namespace Cam

/-- A folder that holds files only. -/
structure Folder where
  files : Dict ByteArray

namespace Folder

/-- Where a path has led to so far. -/
inductive Place where
  /-- The folder itself. -/
  | inside
  /-- A directory above it. -/
  | outside
  deriving DecidableEq

/-- What the remaining names of a path lead to. -/
def find (f : Folder) : Place → List String → Except FileError ByteArray
  | _, [] => .error .isDirectory
  | place, "" :: rest => f.find place rest
  | place, "." :: rest => f.find place rest
  | _, ".." :: rest => f.find .outside rest
  | .outside, _ :: _ => .error .notFound
  | .inside, name :: rest =>
    match f.files.get? name with
    | none => .error .notFound
    | some bytes => if rest.isEmpty then .ok bytes else .error .notDirectory

/-- The place where a path starts. -/
def startOf (path : String) : Place := if path.toList.head? = some '/' then .outside else .inside

/-- The bytes of the file at a path; the empty path leads nowhere. -/
def read (f : Folder) (path : String) : Except FileError ByteArray :=
  if path = "" then .error .notFound else f.find (startOf path) (path.splitOn "/")

end Folder

end Cam
