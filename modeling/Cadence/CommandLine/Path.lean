/-
  Paths, and what stands at them. A path is walked part by part, from the working directory or from
  the root, so that each directory on its way has to be there.
-/
import Cadence.Failure

namespace Cadence

/-- The files of a working directory, by path. -/
abbrev Files := List (String × String)

namespace Path

def splitSlashes (s : String) : List String :=
  ((s.toList.splitBy fun a b => a != '/' && b != '/').map String.ofList).filter (· != "/")

/-- The parts of a path; a single dot says nothing. -/
def parts (s : String) : List String := (splitSlashes s).filter (· != ".")

/-- What a path starts with: nothing, one slash, or exactly two. -/
def root (s : String) : String :=
  match s.toList with
  | '/' :: '/' :: '/' :: _ => "/"
  | '/' :: '/' :: _ => "//"
  | '/' :: _ => "/"
  | _ => ""

/-- The path with repeated slashes, single dots and a final slash left out. -/
def normalize (s : String) : String :=
  let text := root s ++ String.intercalate "/" (parts s)
  if text.isEmpty then "." else text

end Path

/-- What stands at a path. A `key` is the path in its shortest form. -/
inductive Place where
  | file (key text : String)
  | directory
  /-- Nothing, in a directory that exists: a file of this path can be made. -/
  | free (key : String)
  | missing
  /-- A file stands where the path needs a directory. -/
  | blocked
  /-- Nothing, in a directory where no file can be made. -/
  | barred
  /-- A device that takes nothing. -/
  | full
  /-- No path at all, for it holds a null character. -/
  | void
  /-- No path at all, for it or a part of it is too long. -/
  | tooLong
  deriving DecidableEq, Repr

namespace Path

/-- The bytes that a part of a path may have. -/
def maxPart : Nat := 255

/-- The bytes that a path may have. -/
def maxLength : Nat := 4095

/-- The directories that a system has, by their parts from the root. -/
def directories : List (List String) :=
  [["bin"], ["boot"], ["dev"], ["etc"], ["home"], ["lib"], ["media"], ["mnt"], ["opt"], ["proc"],
   ["root"], ["run"], ["sbin"], ["srv"], ["sys"], ["tmp"], ["usr"], ["var"],
   ["dev", "shm"], ["usr", "bin"], ["usr", "lib"], ["usr", "local"], ["usr", "share"],
   ["usr", "local", "bin"], ["usr", "local", "lib"], ["var", "lib"], ["var", "log"],
   ["var", "tmp"]]

/-- What stands in a directory that the system keeps for itself, under any name that it does not
    know. -/
def kept? : List String → Option Place
  | ["proc"] => some .missing
  | ["sys"] => some .barred
  | _ => none

/-- The devices. What goes to the null device is lost, and nothing comes from it. -/
def device? : List String → Option Place
  | ["dev", "null"] => some (.file "/dev/null" "")
  | ["dev", "full"] => some .full
  | _ => none

end Path

/-- What is known of the files there are: where the working directory is, and what is in it. -/
structure Tree where
  /-- The parts of the working directory from the root. -/
  home : List String
  files : Files

namespace Tree

def isDirectory (t : Tree) (path : List String) : Bool :=
  path.isPrefixOf t.home || Path.directories.contains path || t.files.any fun f =>
    let parts := t.home ++ Path.parts f.1
    path.isPrefixOf parts && path.length < parts.length

/-- The shortest form of a path: from the working directory if it is in there, else from the
    root. -/
def key (t : Tree) (path : List String) : String :=
  if t.home.isPrefixOf path then String.intercalate "/" (path.drop t.home.length)
  else "/" ++ String.intercalate "/" path

/-- What stands at a path that is no directory. -/
def entry? (t : Tree) (path : List String) : Option Place :=
  match Path.device? path with
  | some place => some place
  | none =>
      (t.files.find? fun f => t.home ++ Path.parts f.1 == path).map fun f =>
        .file (t.key path) f.2

/-- Walks down the parts of a path from a directory. The root is above itself. -/
def walk (t : Tree) (here : List String) : List String → Place
  | [] => .directory
  | "." :: rest => walk t here rest
  | ".." :: rest => walk t here.dropLast rest
  | part :: rest =>
      let path := here ++ [part]
      if t.isDirectory path then walk t path rest
      else match t.entry? path, Path.kept? here with
        | some place, _ => if rest.isEmpty then place else .blocked
        | none, some place => if rest.isEmpty then place else .missing
        | none, none =>
            if Path.maxPart < part.utf8ByteSize then .tooLong
            else if rest.isEmpty then .free (t.key path) else .missing

/-- What stands at a path with the given parts. -/
def placeOf (t : Tree) (path : String) (parts : List String) : Place :=
  if path.contains '\x00' then .void
  else if Path.maxLength < path.utf8ByteSize then .tooLong
  else t.walk (if Path.root path == "" then t.home else []) parts

/-- What stands at a path, in its normal form. -/
def place (t : Tree) (path : String) : Place := t.placeOf (Path.normalize path) (Path.parts path)

/-- What stands at a path as it is written: a dot or a slash at its end asks for a directory, and
    the empty path is nowhere. -/
def placeAsWritten (t : Tree) (path : String) : Place :=
  let parts := Path.splitSlashes path
  if path.isEmpty then .missing
  else t.placeOf path (if path.endsWith "/" then parts ++ ["."] else parts)

end Tree

end Cadence
