import AtomTimeline.Bytes

/-!
Programs that read files. A program is a value that names the files it wants one after the other,
so what it does can be said for any contents of the files.

* `FileProgram.run` runs a program on given contents.
* `FileProgram.readFile` reads one file.
-/

namespace AtomTimeline

/-- Why a file cannot be read. -/
inductive FileError where
  | notFound
  | notDirectory
  | isDirectory
  | permissionDenied
  | nameTooLong
  | tooManyLinks
  /-- A path with a zero character in it, which no file has. -/
  | zeroInPath
  /-- A file that is to be a text and is none. -/
  | notText
  | other (text : String)
  deriving DecidableEq, Repr

/-- The text of an error. -/
def FileError.message : FileError → String
  | notFound => "No such file or directory (os error 2)"
  | permissionDenied => "Permission denied (os error 13)"
  | notDirectory => "Not a directory (os error 20)"
  | isDirectory => "Is a directory (os error 21)"
  | nameTooLong => "File name too long (os error 36)"
  | tooManyLinks => "Too many levels of symbolic links (os error 40)"
  | zeroInPath => "file name contained an unexpected NUL byte"
  | notText => "stream did not contain valid UTF-8"
  | other text => text

/-- A program that reads files and ends with a result. -/
inductive FileProgram (α : Type) where
  | done (result : α)
  | read (path : String) (next : Except FileError Bytes → FileProgram α)

namespace FileProgram

variable {α β : Type}

/-- A program that goes on with the result of another. -/
def andThen (p : FileProgram α) (f : α → FileProgram β) : FileProgram β :=
  match p with
  | .done a => f a
  | .read path next => .read path fun content => (next content).andThen f

instance : Monad FileProgram where
  pure := .done
  bind := andThen

/-- Reads a file. -/
def readFile (path : String) : FileProgram (Except FileError Bytes) :=
  if path.toList.contains '\x00' then .done (.error .zeroInPath) else .read path .done

/-- The result of a program where the files have the given contents. -/
def run (files : String → Except FileError Bytes) : FileProgram α → α
  | .done a => a
  | .read path next => (next (files path)).run files

/-- Running one program and then another runs both on the same files. -/
@[simp] theorem run_bind (files : String → Except FileError Bytes) (p : FileProgram α)
    (f : α → FileProgram β) : (p >>= f).run files = (f (p.run files)).run files := by
  show (p.andThen f).run files = _
  induction p with
  | done a => rfl
  | read path next ih => exact ih (files path)

@[simp] theorem run_pure (files : String → Except FileError Bytes) (a : α) :
    (pure a : FileProgram α).run files = a := rfl

end FileProgram

end AtomTimeline
