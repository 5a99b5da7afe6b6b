/-!
# Files and their names

Files are opened by paths. A path is followed part by part, where a dot stays in
a directory and two dots leave it; a slash at the end asks for a directory. A
directory can be opened, but not read.
-/

namespace Typographical

namespace CommandLine

inductive FileError where
  | missing
  | notDirectory
  | nameTooLong
  | invalidName
  | forbidden
  | isDirectory
  deriving DecidableEq

def FileError.message (e : FileError) (name : String) : String :=
  match e with
  | missing => "open " ++ name ++ ": no such file or directory"
  | notDirectory => "open " ++ name ++ ": not a directory"
  | nameTooLong => "open " ++ name ++ ": file name too long"
  | invalidName => "open " ++ name ++ ": invalid argument"
  | forbidden => "open " ++ name ++ ": permission denied"
  | isDirectory => "read " ++ name ++ ": is a directory"

/-- The parts of a path between slashes. -/
def pathParts (path : String) : List String :=
  (path.toList.splitOn '/' |>.filter (!·.isEmpty)).map String.ofList

/-- Files with their texts, by their paths from the directory that they are
in. -/
structure Directory where
  files : List (List String × String)

namespace Directory

def ofFiles (files : List (String × String)) : Directory :=
  ⟨files.map (fun (name, text) => (pathParts name, text))⟩

def hasDirectory (d : Directory) (place : List String) : Bool :=
  place.isEmpty || d.files.any (fun f => place.isPrefixOf f.1 && place.length < f.1.length)

/-- The longest that a part of a path may be, in bytes. -/
def partLimit : Nat := 255

/-- The longest that a path may be, in bytes. -/
def pathLimit : Nat := 4095

/-- Follow a path from a place. Nothing is known about what is outside, except
that there are directories around; a place there is none. -/
def follow (d : Directory) : Option (List String) → List String →
    Except FileError (Option (List String))
  | place, [] => .ok place
  | none, part :: rest =>
    if part = "." || part = ".." then follow d none rest else .error .missing
  | some place, part :: rest =>
    if !d.hasDirectory place then .error .notDirectory
    else if part = "." then follow d (some place) rest
    else if part = ".." then
      follow d (if place.isEmpty then none else some place.dropLast) rest
    else if partLimit < part.utf8ByteSize then .error .nameTooLong
    else
      let next := place ++ [part]
      if d.hasDirectory next || (d.files.lookup next).isSome then follow d (some next) rest
      else .error .missing

def find (d : Directory) (path : String) : Except FileError String := do
  if path.toList.contains '\x00' then throw .invalidName
  if path = "" then throw .missing
  if pathLimit < path.utf8ByteSize then throw .nameTooLong
  let start := if path.toList.head? = some '/' then none else some []
  match ← d.follow start (pathParts path) with
  | none => throw .isDirectory
  | some place =>
    match d.files.lookup place with
    | none => throw .isDirectory
    | some text => if path.toList.getLast? = some '/' then throw .notDirectory else return text

def read (d : Directory) (path : String) : Except String String :=
  (d.find path).mapError (fun e => e.message path)

end Directory

end CommandLine

end Typographical
