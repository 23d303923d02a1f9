/-!
# Faults of file access

The reasons for which a file cannot be read or written, with the text that
tells a user about each. Faults that the operating system reports carry their
number.
-/

namespace GameTrainer

/-- Why a file could not be read or written. -/
inductive FileFault where
  | notFound
  | alreadyExists
  | notADirectory
  | isADirectory
  | nameTooLong
  /-- A path that holds a NUL character. -/
  | nulInPath
  /-- A text file whose bytes are not UTF-8. -/
  | notText
  /-- Any other fault, with the text that the operating system gives. -/
  | other (text : String)
  deriving DecidableEq, Repr, Inhabited

/-- The text that tells a user about a fault. -/
def FileFault.message : FileFault → String
  | notFound => "No such file or directory (os error 2)"
  | alreadyExists => "File exists (os error 17)"
  | notADirectory => "Not a directory (os error 20)"
  | isADirectory => "Is a directory (os error 21)"
  | nameTooLong => "File name too long (os error 36)"
  | nulInPath => "file name contained an unexpected NUL byte"
  | notText => "stream did not contain valid UTF-8"
  | other text => text

end GameTrainer
