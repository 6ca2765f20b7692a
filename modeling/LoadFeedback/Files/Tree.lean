import LoadFeedback.Files.Fault

/-!
The files that a program sees, as a table of what stands at each path, and the rule by which a path
is opened for writing: a file is emptied, and where nothing stands one is made.
-/

namespace LoadFeedback

/-- What stands at a path. -/
inductive FileKind where
  /-- A directory in which files can be made. -/
  | directory
  /-- A directory that only holds what is in it, and the way in which it refuses more. -/
  | fixedDirectory (refusal : FileFault)
  /-- A file, or a device that takes what is written. -/
  | file
  /-- The place where error messages are shown. -/
  | errorOutput
  /-- A device that is not there. -/
  | absentDevice
  deriving DecidableEq, Repr

/-- Where written lines end up. -/
inductive Destination where
  /-- In a file. -/
  | file
  /-- Among the error messages. -/
  | errorOutput
  deriving DecidableEq, Repr

/-- Files by their paths. A path is the row of names from the root. -/
structure FileTree where
  /-- What stands at each path below the root. -/
  entries : List (List String × FileKind)
  /-- The directory from which paths lead that do not begin at the root. -/
  working : List String
  deriving DecidableEq, Repr

namespace FileTree

/-- Bytes that a name may have. -/
def maxName : Nat := 255

/-- Bytes that a path may have. -/
def maxPath : Nat := 4095

/-- What stands at a path. The root is a directory. -/
def kind? (t : FileTree) (path : List String) : Option FileKind :=
  if path.isEmpty then some .directory else t.entries.lookup path

/-- The path to which a name leads from a directory. A point stays there, and two points go up; the
root is above itself. -/
def follow (here : List String) (name : String) : Except FileFault (List String) :=
  if name = "." then .ok here
  else if name = ".." then .ok here.dropLast
  else if maxName < name.utf8ByteSize then .error .nameTooLong
  else .ok (here ++ [name])

/-- The directory to which names lead from another. -/
def enter (t : FileTree) (here : List String) : List String → Except FileFault (List String)
  | [] => .ok here
  | name :: rest =>
    match follow here name with
    | .error fault => .error fault
    | .ok next =>
      match t.kind? next with
      | some .directory | some (.fixedDirectory _) => t.enter next rest
      | some _ => .error .notDirectory
      | none => .error .missing

/-- Opens what has a name in a directory, or makes a file there. -/
def openIn (t : FileTree) (here : List String) (name : String) : Except FileFault Destination :=
  if name = "." ∨ name = ".." then .error .isDirectory
  else
    match follow here name with
    | .error fault => .error fault
    | .ok path =>
      match t.kind? path with
      | some .directory | some (.fixedDirectory _) => .error .isDirectory
      | some .file => .ok .file
      | some .errorOutput => .ok .errorOutput
      | some .absentDevice => .error .noDevice
      | none =>
        match t.kind? here with
        | some (.fixedDirectory refusal) => .error refusal
        | _ => .ok .file

/-- The names in a path, which strokes separate. -/
def names (path : String) : List String :=
  (path.splitOn "/").filter (· ≠ "")

/-- Opens a path for writing. One that ends with a stroke asks for a directory. -/
def create (t : FileTree) (path : String) : Except FileFault Destination :=
  if path.isEmpty then .error .missing
  else if maxPath < path.utf8ByteSize then .error .nameTooLong
  else
    match (names path).getLast? with
    | none => .error .isDirectory
    | some last =>
      match t.enter (if path.startsWith "/" then [] else t.working) (names path).dropLast with
      | .error fault => .error fault
      | .ok here => if path.endsWith "/" then .error .isDirectory else t.openIn here last

/-- The part of a freshly installed system that programs write to, seen by one that may write
everywhere. -/
def standard : FileTree where
  entries :=
    ["bin", "boot", "dev", "etc", "home", "lib", "lib64", "media", "mnt", "opt", "root", "run",
      "sbin", "srv", "tmp", "usr", "var"].map (fun name => ([name], .directory))
    ++ ["bin", "include", "lib", "local", "sbin", "share"].map (fun name =>
      (["usr", name], .directory))
    ++ ["cache", "lib", "log", "tmp"].map (fun name => (["var", name], .directory))
    ++ ["group", "hostname", "hosts", "passwd", "resolv.conf"].map (fun name =>
      (["etc", name], .file))
    ++ ["full", "null", "random", "stdin", "stdout", "urandom", "zero"].map (fun name =>
      (["dev", name], .file))
    ++ [(["dev", "pts"], .fixedDirectory .denied), (["dev", "shm"], .directory),
      (["dev", "stderr"], .errorOutput), (["dev", "tty"], .absentDevice),
      (["sys"], .fixedDirectory .denied), (["proc"], .fixedDirectory .missing),
      (["proc", "self"], .fixedDirectory .missing)]
    ++ [["dev", "fd"], ["proc", "self", "fd"]].flatMap (fun streams =>
      [(streams, .fixedDirectory .missing), (streams ++ ["0"], .file), (streams ++ ["1"], .file),
        (streams ++ ["2"], .errorOutput)])
  working := ["root"]

end FileTree

end LoadFeedback
