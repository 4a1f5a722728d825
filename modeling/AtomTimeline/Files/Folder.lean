import AtomTimeline.Files.Access

/-!
A folder of files, as the place in which a program runs.

* `Folder.read` reads the file a path means. Steps to the folder itself, and repeated or closing
  slashes, mean nothing. Of other folders only those around this one are known to be there.
-/

namespace AtomTimeline

/-- The files of a folder by name. -/
structure Folder where
  files : List (String × Bytes)
  deriving DecidableEq, Repr

namespace Folder

/-- The most bytes a name may take. -/
def maxNameLength : Nat := 255

/-- The most bytes a path may take. -/
def maxPathLength : Nat := 4095

/-- The steps of a path that lead elsewhere. -/
def steps (path : String) : List String :=
  (path.splitOn "/").filter (fun step => step ≠ "" ∧ step ≠ ".")

/-- The path closes with a slash, or with a step that only a folder allows. -/
def asksForFolder (path : String) : Bool :=
  match (path.splitOn "/").getLast? with
  | some last => last = "" || last = "."
  | none => false

/-- What the steps of a path lead to from a place outside the folder. -/
def outside : List String → FileError
  | [] => .isDirectory
  | step :: steps =>
    if step = ".." then outside steps
    else if maxNameLength < step.utf8ByteSize then .nameTooLong
    else .notFound

/-- Reads the file that a path means. -/
def read (folder : Folder) (path : String) : Except FileError Bytes :=
  if path = "" then .error .notFound
  else if maxPathLength < path.utf8ByteSize then .error .nameTooLong
  else if path.startsWith "/" then .error (outside (steps path))
  else
    match steps path with
    | [] => .error .isDirectory
    | step :: steps =>
      if step = ".." then .error (outside steps)
      else if maxNameLength < step.utf8ByteSize then .error .nameTooLong
      else
        match folder.files.lookup step with
        | none => .error .notFound
        | some content =>
          if steps = [] ∧ ¬ asksForFolder path then .ok content else .error .notDirectory

end Folder

end AtomTimeline
