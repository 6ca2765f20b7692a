/-!
Why a file cannot be opened. Each cause has the number that operating systems give it, a kind in a
word and a wording.
-/

namespace LoadFeedback

/-- Why a file cannot be opened for writing. -/
inductive FileFault where
  /-- A directory on the way does not exist, or the path is empty. -/
  | missing
  | noDevice
  | denied
  /-- What stands on the way is not a directory. -/
  | notDirectory
  /-- The path leads to a directory. -/
  | isDirectory
  /-- Nothing can be written on this volume. -/
  | readOnly
  /-- A name on the way, or the whole path, is too long. -/
  | nameTooLong
  /-- Any other cause, by its number and wording. -/
  | other (code : Nat) (wording : String)
  deriving DecidableEq, Repr

namespace FileFault

def code : FileFault → Nat
  | .missing => 2
  | .noDevice => 6
  | .denied => 13
  | .notDirectory => 20
  | .isDirectory => 21
  | .readOnly => 30
  | .nameTooLong => 36
  | .other code _ => code

/-- The kind of a cause in a word. -/
def kind : FileFault → String
  | .missing => "NotFound"
  | .denied => "PermissionDenied"
  | .notDirectory => "NotADirectory"
  | .isDirectory => "IsADirectory"
  | .readOnly => "ReadOnlyFilesystem"
  | .nameTooLong => "InvalidFilename"
  | .noDevice | .other .. => "Uncategorized"

def wording : FileFault → String
  | .missing => "No such file or directory"
  | .noDevice => "No such device or address"
  | .denied => "Permission denied"
  | .notDirectory => "Not a directory"
  | .isDirectory => "Is a directory"
  | .readOnly => "Read-only file system"
  | .nameTooLong => "File name too long"
  | .other _ wording => wording

def message (f : FileFault) : String :=
  "Os \x7b code: " ++ toString f.code ++ ", kind: " ++ f.kind ++ ", message: \"" ++ f.wording
    ++ "\" \x7d"

/-- The cause with a number. The wording counts only where the number says nothing. -/
def ofCode (code : Nat) (wording : String) : FileFault :=
  match code with
  | 2 => .missing
  | 6 => .noDevice
  | 13 => .denied
  | 20 => .notDirectory
  | 21 => .isDirectory
  | 30 => .readOnly
  | 36 => .nameTooLong
  | code => .other code wording

end FileFault

end LoadFeedback
