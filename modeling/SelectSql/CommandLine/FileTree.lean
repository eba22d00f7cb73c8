/-!
# SelectSql.CommandLine.FileTree

The files that a command can read, as far as it can see them: those of its directory by
relative paths, and of the system around it nothing but the directories at the root and
the empty device.

Design points:

* **A path is walked from the left**, and the first part that fails tells why: each part
  but the last has to be a directory, and each has to be there.
* **Names and paths have limits**, and a path that is too long fails before the walk.
-/

namespace SelectSql.CommandLine

/-- Why a file cannot be read. -/
inductive FileError
  | missing
  | notDirectory
  | isDirectory
  | nameTooLong
  | other (reason : String)
deriving DecidableEq

/-- The reason in words. -/
def FileError.message : FileError → String
  | .missing => "No such file or directory (os error 2)"
  | .notDirectory => "Not a directory (os error 20)"
  | .isDirectory => "Is a directory (os error 21)"
  | .nameTooLong => "File name too long (os error 36)"
  | .other reason => reason

/-- What reading a file gives. -/
abbrev Content := Except FileError String

/-- What reading a file gives if there is something at its path. -/
def Content.ifPresent : Content → Option Content
  | .error .missing | .error .notDirectory | .error .nameTooLong => none
  | c => some c

/-- Files by the parts of their paths, as seen from the root. -/
abbrev FileTree := List (List String × String)

namespace FileTree

/-- How many bytes a part of a path can have. -/
def partLimit : Nat := 255

/-- How many bytes a path can have. -/
def pathLimit : Nat := 4095

/-- The directory of the command. Its parts are empty, as no path can spell them, so
files in it are found by relative paths only. -/
def home : List String := ["", ""]

/-- The directories that are at the root whatever files there are. -/
def rootDirectories : List String :=
  ["bin", "boot", "dev", "etc", "home", "lib", "media", "mnt", "opt", "proc", "root", "run",
    "sbin", "srv", "sys", "tmp", "usr", "var"]

/-- The device that holds nothing. -/
def emptyDevice : List String × String := (["dev", "null"], "")

/-- The parts of a path. -/
def parts (path : String) : List String :=
  path.splitOn "/"

/-- The files of relative paths and contents. -/
def ofList (files : List (String × String)) : FileTree :=
  emptyDevice :: files.map fun f =>
    (home ++ (parts f.1).filter fun p => p != "" && p != ".", f.2)

/-- Whether a path is a directory. -/
def isDirectory (t : FileTree) (path : List String) : Bool :=
  path.isPrefixOf home || rootDirectories.any (fun d => path == [d]) ||
    t.any fun f => path.isPrefixOf f.1 && path != f.1

/-- The content of the file at a path, walking through the directories on the way. Above
the root is the root. -/
def walk (t : FileTree) : List String → List String → Content
  | path, [] =>
    if t.isDirectory path then .error .isDirectory
    else match t.lookup path with
      | some content => .ok content
      | none => .error .missing
  | path, part :: rest =>
    if t.isDirectory path then
      if part = "" ∨ part = "." then t.walk path rest
      else if part = ".." then t.walk path.dropLast rest
      else if partLimit < part.utf8ByteSize then .error .nameTooLong
      else t.walk (path ++ [part]) rest
    else if (t.lookup path).isSome then .error .notDirectory
    else .error .missing

/-- The content of a file, or why it cannot be read. -/
def read (t : FileTree) (path : String) : Content :=
  if path.isEmpty then .error .missing
  else if pathLimit < path.utf8ByteSize then .error .nameTooLong
  else t.walk (if path.startsWith "/" then [] else home) (parts path)

end FileTree

end SelectSql.CommandLine
